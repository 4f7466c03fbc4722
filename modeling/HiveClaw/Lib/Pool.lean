import HiveClaw.Lib.Resumption
import Mathlib.Data.List.Basic
import Mathlib.Data.List.Perm.Basic
import Mathlib.Logic.Hydra

/-!
# Pools — any number of programs on one store

`Duo` interleaves two programs; a `Pool` interleaves as many as are started.
Requests arrive at any time, every request is a program (`Prog`) of its own, and
between two statements of one request any statements of the others may be
executed. A request may also crash, and the store may change from outside (a
timer goes off).

* `System.step` — one thing that happens; `System.run` — one interleaving.
* `Reach P` — what an interleaving reaches whose steps all meet `P`, and
  `Reach.inv`, the invariant rule.
* `Protocol` — what a request may do, by the statements it has executed so far;
  `Follows` says that a program keeps to a protocol, and it composes along
  `>>=` (`Follows.bind`, `Follows.bindE`).
* `Obeys` — every request of a pool keeps to its protocol (`Obeys.step`), so
  that a pool can be reasoned about by the phases of its requests alone
  (`step_cases`).
* `exists_quiet` — where some request can always be moved, all of them can be
  brought to their end.
-/

namespace Lib

/-- A statement that has been executed, with its input and the store it saw. -/
structure Executed (ℓ τ σ : Type) where
  label : ℓ
  input : τ
  before : σ

/-- A request in the middle of its program. -/
structure Thread (ρ ℓ τ σ α : Type) where
  no : Nat
  req : ρ
  prog : Prog ℓ τ σ α
  past : List (Executed ℓ τ σ)
  crashed : Bool

/-- The requests that have been started, in their order, and the store. -/
structure Pool (ρ ℓ τ σ α : Type) where
  threads : List (Thread ρ ℓ τ σ α)
  store : σ

/-- What can happen in a pool. -/
inductive Act (ρ τ ε : Type) where
  | start (r : ρ)
  | move (i : Nat) (t : τ)
  | crash (i : Nat)
  | outside (e : ε)

/-- The programs of the requests and the behaviour of the store. A statement is
executed only when the store is `ready` for it (a statement that gives up waiting is
one with another input), `hangUp` is what the crash of a request does to the store,
`outside` what happens without any request. -/
structure System (ρ ℓ τ σ α ε : Type) where
  program : Nat → ρ → Prog ℓ τ σ α
  ready : ℓ → τ → σ → Bool := fun _ _ _ => true
  hangUp : Nat → σ → σ := fun _ s => s
  outside : ε → σ → σ

variable {ρ ℓ τ σ α β ε : Type}

/-- The request has a statement left and has not crashed. -/
def Thread.inFlight (th : Thread ρ ℓ τ σ α) : Bool :=
  !th.crashed && match th.prog with
    | .done _ => false
    | .stmt _ _ _ => true

/-- No request is under way. -/
def Pool.Quiet (c : Pool ρ ℓ τ σ α) : Prop := ∀ th ∈ c.threads, th.inFlight = false

instance (c : Pool ρ ℓ τ σ α) : Decidable c.Quiet :=
  inferInstanceAs (Decidable (∀ th ∈ c.threads, th.inFlight = false))

/-- The statement the request executes next. -/
def Thread.upcoming (th : Thread ρ ℓ τ σ α) : Option ℓ :=
  match th.prog with
  | .done _ => none
  | .stmt l _ _ => some l

/-- The request has ended with this result. -/
def Thread.result (th : Thread ρ ℓ τ σ α) : Option α :=
  if th.crashed then none
  else match th.prog with
    | .done a => some a
    | .stmt _ _ _ => none

namespace System

variable (sys : System ρ ℓ τ σ α ε)

/-- A request as it starts. -/
def newThread (i : Nat) (r : ρ) : Thread ρ ℓ τ σ α :=
  { no := i, req := r, prog := sys.program i r, past := [], crashed := false }

/-- A request after its statement `l`. -/
def advance (th : Thread ρ ℓ τ σ α) (l : ℓ) (t : τ) (s : σ) (next : Prog ℓ τ σ α) :
    Thread ρ ℓ τ σ α :=
  { th with prog := next, past := th.past ++ [⟨l, t, s⟩] }

/-- The next statement of request `i`, if it has one and the store is ready. -/
def move (c : Pool ρ ℓ τ σ α) (i : Nat) (t : τ) : Pool ρ ℓ τ σ α :=
  match c.threads[i]? with
  | none => c
  | some th =>
    match th.prog, th.crashed with
    | .stmt l w n, false =>
      if sys.ready l t c.store then
        { threads := c.threads.set i (advance th l t c.store (n t c.store))
          store := w t c.store }
      else c
    | _, _ => c

/-- One thing happens. -/
def step (c : Pool ρ ℓ τ σ α) : Act ρ τ ε → Pool ρ ℓ τ σ α
  | .start r => { c with threads := c.threads ++ [sys.newThread c.threads.length r] }
  | .move i t => sys.move c i t
  | .crash i =>
    match c.threads[i]? with
    | none => c
    | some th =>
      { threads := c.threads.set i { th with crashed := true }
        store := sys.hangUp i c.store }
  | .outside e => { c with store := sys.outside e c.store }

theorem length_move (c : Pool ρ ℓ τ σ α) (i : Nat) (t : τ) :
    (sys.move c i t).threads.length = c.threads.length := by
  unfold move
  split
  · rfl
  · split
    · split
      · exact List.length_set
      · rfl
    · rfl

/-- One interleaving. -/
def run (c : Pool ρ ℓ τ σ α) (acts : List (Act ρ τ ε)) : Pool ρ ℓ τ σ α :=
  acts.foldl sys.step c

/-- Every step of an interleaving meets `P`. -/
def Meets (P : Pool ρ ℓ τ σ α → Act ρ τ ε → Prop) :
    Pool ρ ℓ τ σ α → List (Act ρ τ ε) → Prop
  | _, [] => True
  | c, a :: acts => P c a ∧ Meets P (sys.step c a) acts

instance instDecidableMeets (P : Pool ρ ℓ τ σ α → Act ρ τ ε → Prop) [∀ c a, Decidable (P c a)] :
    ∀ (c : Pool ρ ℓ τ σ α) (acts : List (Act ρ τ ε)), Decidable (sys.Meets P c acts)
  | _, [] => isTrue trivial
  | c, a :: acts =>
    have : Decidable (sys.Meets P (sys.step c a) acts) := instDecidableMeets P _ acts
    inferInstanceAs (Decidable (P c a ∧ sys.Meets P (sys.step c a) acts))

/-- What an interleaving reaches whose steps all meet `P`. -/
inductive Reach (P : Pool ρ ℓ τ σ α → Act ρ τ ε → Prop) (c₀ : Pool ρ ℓ τ σ α) :
    Pool ρ ℓ τ σ α → Prop
  | init : Reach P c₀ c₀
  | step {c : Pool ρ ℓ τ σ α} {a : Act ρ τ ε} :
      Reach P c₀ c → P c a → Reach P c₀ (sys.step c a)

variable {sys} {P : Pool ρ ℓ τ σ α → Act ρ τ ε → Prop} {c₀ c : Pool ρ ℓ τ σ α}

theorem reach_run {acts : List (Act ρ τ ε)} (h : sys.Meets P c₀ acts) :
    sys.Reach P c₀ (sys.run c₀ acts) := by
  have hrun : ∀ (acts : List (Act ρ τ ε)) c, sys.Reach P c₀ c → sys.Meets P c acts →
      sys.Reach P c₀ (sys.run c acts) := by
    intro acts
    induction acts with
    | nil => exact fun c hc _ => hc
    | cons a acts ih => exact fun c hc hmeets => ih _ (hc.step hmeets.1) hmeets.2
  exact hrun acts c₀ .init h

/-- What holds at the start and is kept by every step that meets `P` holds in
every pool that is reached. -/
theorem Reach.inv {I : Pool ρ ℓ τ σ α → Prop} (h : sys.Reach P c₀ c) (hinit : I c₀)
    (hstep : ∀ c a, I c → P c a → I (sys.step c a)) : I c := by
  induction h with
  | init => exact hinit
  | step _ hP ih => exact hstep _ _ ih hP

end System

/-! ## Protocols -/

/-- What a request may do. Its phase is determined by the statements it has
executed; `allows q l t s s'` says that in phase `q` a statement `l` with input
`t` may take the store from `s` to `s'`. -/
structure Protocol (φ ℓ τ σ : Type) where
  init : φ
  next : φ → ℓ → τ → σ → φ
  allows : φ → ℓ → τ → σ → σ → Prop

variable {φ : Type}

/-- The phase of a request that has executed the statements `past`. -/
def Protocol.phase (A : Protocol φ ℓ τ σ) (past : List (Executed ℓ τ σ)) : φ :=
  past.foldl (fun q e => A.next q e.label e.input e.before) A.init

@[simp] theorem Protocol.phase_nil (A : Protocol φ ℓ τ σ) : A.phase [] = A.init := rfl

@[simp] theorem Protocol.phase_append (A : Protocol φ ℓ τ σ) (past : List (Executed ℓ τ σ))
    (e : Executed ℓ τ σ) :
    A.phase (past ++ [e]) = A.next (A.phase past) e.label e.input e.before := by
  simp [Protocol.phase]

/-- The phase of a request. -/
def Thread.phase (A : Nat → ρ → Protocol φ ℓ τ σ) (th : Thread ρ ℓ τ σ α) : φ :=
  (A th.no th.req).phase th.past

/-- From phase `q` on the program keeps to the protocol, and it ends with a
value and in a phase that `E` relates. -/
inductive Follows (A : Protocol φ ℓ τ σ) (E : φ → α → Prop) : φ → Prog ℓ τ σ α → Prop
  | done {q : φ} {a : α} (h : E q a) : Follows A E q (.done a)
  | stmt {q : φ} {l : ℓ} {w : τ → σ → σ} {n : τ → σ → Prog ℓ τ σ α}
      (hw : ∀ t s, A.allows q l t s (w t s))
      (hn : ∀ t s, Follows A E (A.next q l t s) (n t s)) : Follows A E q (.stmt l w n)

section Follows

variable {A : Protocol φ ℓ τ σ} {E : φ → α → Prop} {E' : φ → β → Prop} {q : φ}

theorem follows_done_iff {a : α} : Follows A E q (.done a) ↔ E q a := by
  constructor
  · rintro ⟨h⟩
    exact h
  · exact .done

variable {l : ℓ}

theorem follows_stmt_iff {w : τ → σ → σ} {n : τ → σ → Prog ℓ τ σ α} :
    Follows A E q (.stmt l w n) ↔
      (∀ t s, A.allows q l t s (w t s)) ∧ ∀ t s, Follows A E (A.next q l t s) (n t s) := by
  constructor
  · rintro (_ | ⟨hw, hn⟩)
    exact ⟨hw, hn⟩
  · rintro ⟨hw, hn⟩
    exact .stmt hw hn

theorem follows_read_iff {f : τ → σ → α} :
    Follows A E q (Prog.read l f) ↔
      (∀ t s, A.allows q l t s s) ∧ ∀ t s, E (A.next q l t s) (f t s) := by
  rw [Prog.read, follows_stmt_iff]
  simp only [follows_done_iff]

theorem follows_modify_iff {f : τ → σ → α × σ} :
    Follows A E q (Prog.modify l f) ↔
      (∀ t s, A.allows q l t s (f t s).2) ∧ ∀ t s, E (A.next q l t s) (f t s).1 := by
  rw [Prog.modify, follows_stmt_iff]
  simp only [follows_done_iff]

variable {p : Prog ℓ τ σ α}

theorem Follows.mono {F : φ → α → Prop} (hp : Follows A E q p) (h : ∀ q a, E q a → F q a) :
    Follows A F q p := by
  induction hp with
  | done ha => exact .done (h _ _ ha)
  | stmt hw _ ih => exact .stmt hw ih

theorem Follows.bind {f : α → Prog ℓ τ σ β} (hp : Follows A E q p)
    (hf : ∀ q a, E q a → Follows A E' q (f a)) : Follows A E' q (p >>= f) := by
  induction hp with
  | done h => exact hf _ _ h
  | stmt hw _ ih => exact .stmt hw ih

variable {κ : Type}

/-- The rule for programs that may fail: an error of the first part ends the
whole. -/
theorem Follows.bindE {E : φ → Except κ α → Prop} {E' : φ → Except κ β → Prop}
    {m : ExceptT κ (Prog ℓ τ σ) α} {f : α → ExceptT κ (Prog ℓ τ σ) β} (hm : Follows A E q m.run)
    (herr : ∀ q e, E q (.error e) → E' q (.error e))
    (hf : ∀ q a, E q (.ok a) → Follows A E' q (f a).run) : Follows A E' q (m >>= f).run := by
  refine Follows.bind hm fun q x hx => ?_
  cases x with
  | error e => exact .done (herr q e hx)
  | ok a => exact hf q a hx

/-- The rule for a first part that leaves the phase as it is. -/
theorem Follows.stay_bind {E' : φ → Except κ β → Prop} {m : ExceptT κ (Prog ℓ τ σ) α}
    {f : α → ExceptT κ (Prog ℓ τ σ) β} (hm : Follows A (fun q' _ => q' = q) q m.run)
    (herr : ∀ e, E' q (.error e)) (hf : ∀ a, Follows A E' q (f a).run) :
    Follows A E' q (m >>= f).run :=
  hm.bindE (fun _ e h => h ▸ herr e) fun _ a h => h ▸ hf a

/-- A part that cannot fail, inside a program that may. -/
theorem Follows.lift {E : φ → Except κ α → Prop} (hp : Follows A (fun q a => E q (.ok a)) q p) :
    Follows A E q (ExceptT.lift p : ExceptT κ (Prog ℓ τ σ) α).run :=
  hp.bind fun _ _ h => .done h

theorem Follows.adapt {κ' : Type} {E : φ → Except κ' α → Prop} {g : κ → κ'}
    {m : ExceptT κ (Prog ℓ τ σ) α} (hm : Follows A (fun q r => E q (r.mapError g)) q m.run) :
    Follows A E q (ExceptT.adapt g m).run :=
  hm.bind fun _ _ h => .done h

end Follows

/-! ## Pools whose requests keep to their protocols -/

/-- Every request of the pool keeps to its protocol. -/
def Obeys (A : Nat → ρ → Protocol φ ℓ τ σ) (E : Nat → ρ → φ → α → Prop)
    (c : Pool ρ ℓ τ σ α) : Prop :=
  ∀ th ∈ c.threads, Follows (A th.no th.req) (E th.no th.req) (th.phase A) th.prog

section Obeys

@[simp] theorem phase_advance (A : Nat → ρ → Protocol φ ℓ τ σ) (th : Thread ρ ℓ τ σ α) (l : ℓ)
    (t : τ) (s : σ) (p : Prog ℓ τ σ α) :
    (System.advance th l t s p).phase A = (A th.no th.req).next (th.phase A) l t s := by
  simp [System.advance, Thread.phase]

@[simp] theorem phase_newThread (A : Nat → ρ → Protocol φ ℓ τ σ) (sys : System ρ ℓ τ σ α ε)
    (i : Nat) (r : ρ) : (sys.newThread i r).phase A = (A i r).init := rfl

variable {sys : System ρ ℓ τ σ α ε} {A : Nat → ρ → Protocol φ ℓ τ σ}
  {E : Nat → ρ → φ → α → Prop} {c : Pool ρ ℓ τ σ α}

/-- What one thing that happens does to a pool: nothing, or a request starts,
executes a statement its protocol allows, or crashes, or the store changes from
outside. -/
theorem step_cases (sys : System ρ ℓ τ σ α ε) (hobey : Obeys A E c) (a : Act ρ τ ε) :
    sys.step c a = c ∨
      (∃ r, a = .start r ∧ sys.step c a =
        { c with threads := c.threads ++ [sys.newThread c.threads.length r] }) ∨
      (∃ i t th l w n, a = .move i t ∧ c.threads[i]? = some th ∧ th.crashed = false ∧
        th.prog = .stmt l w n ∧ sys.ready l t c.store = true ∧
        (A th.no th.req).allows (th.phase A) l t c.store (w t c.store) ∧
        sys.step c a =
          { threads := c.threads.set i (System.advance th l t c.store (n t c.store))
            store := w t c.store }) ∨
      (∃ i th, a = .crash i ∧ c.threads[i]? = some th ∧ sys.step c a =
        { threads := c.threads.set i { th with crashed := true }
          store := sys.hangUp i c.store }) ∨
      ∃ e, a = .outside e ∧ sys.step c a = { c with store := sys.outside e c.store } := by
  cases a with
  | start r => exact Or.inr (Or.inl ⟨r, rfl, rfl⟩)
  | outside e => exact Or.inr (Or.inr (Or.inr (Or.inr ⟨e, rfl, rfl⟩)))
  | crash i =>
    cases hth : c.threads[i]? with
    | none => exact Or.inl (by simp [System.step, hth])
    | some th =>
      refine Or.inr (Or.inr (Or.inr (Or.inl ⟨i, th, rfl, hth, ?_⟩)))
      simp [System.step, hth]
  | move i t =>
    cases hth : c.threads[i]? with
    | none => exact Or.inl (by simp [System.step, System.move, hth])
    | some th =>
      cases hprog : th.prog with
      | done b => exact Or.inl (by simp [System.step, System.move, hth, hprog])
      | stmt l w n =>
        cases hcrashed : th.crashed with
        | true => exact Or.inl (by simp [System.step, System.move, hth, hprog, hcrashed])
        | false =>
          cases hready : sys.ready l t c.store with
          | false =>
            exact Or.inl (by simp [System.step, System.move, hth, hprog, hcrashed, hready])
          | true =>
            refine Or.inr (Or.inr (Or.inl
              ⟨i, t, th, l, w, n, rfl, hth, hcrashed, hprog, hready, ?_, ?_⟩))
            · have hfollows := hobey th (List.mem_of_getElem? hth)
              rw [hprog] at hfollows
              exact (follows_stmt_iff.mp hfollows).1 t c.store
            · simp [System.step, System.move, hth, hprog, hcrashed, hready]

/-- **Protocols are kept.** If every program keeps to its protocol from the
start, no step of the pool breaks one. -/
theorem Obeys.step (hprog : ∀ i r, Follows (A i r) (E i r) (A i r).init (sys.program i r))
    (hobey : Obeys A E c) (a : Act ρ τ ε) : Obeys A E (sys.step c a) := by
  rcases step_cases sys hobey a with h | ⟨r, -, h⟩ |
    ⟨i, t, th, l, w, n, -, hth, -, hstmt, -, -, h⟩ | ⟨i, th, -, hth, h⟩ | ⟨e, -, h⟩
  · rw [h]
    exact hobey
  · rw [h]
    intro th hmem
    rcases List.mem_append.mp hmem with hmem | hmem
    · exact hobey th hmem
    · rw [List.mem_singleton.mp hmem]
      exact hprog _ r
  · rw [h]
    intro th' hmem
    rcases List.mem_or_eq_of_mem_set hmem with hmem | rfl
    · exact hobey th' hmem
    · have hfollows := hobey th (List.mem_of_getElem? hth)
      rw [hstmt] at hfollows
      have hnext := (follows_stmt_iff.mp hfollows).2 t c.store
      simpa [System.advance, Thread.phase] using hnext
  · rw [h]
    intro th' hmem
    rcases List.mem_or_eq_of_mem_set hmem with hmem | rfl
    · exact hobey th' hmem
    · exact hobey th (List.mem_of_getElem? hth)
  · rw [h]
    exact hobey

end Obeys

/-- The requests carry their places in the pool as numbers. -/
def Numbered (c : Pool ρ ℓ τ σ α) : Prop :=
  ∀ i (th : Thread ρ ℓ τ σ α), c.threads[i]? = some th → th.no = i

variable {c : Pool ρ ℓ τ σ α} {i : Nat}

theorem Numbered.set (h : Numbered c) {th th' : Thread ρ ℓ τ σ α} (hth : c.threads[i]? = some th)
    (hno : th'.no = th.no) (s : σ) : Numbered { threads := c.threads.set i th', store := s } := by
  intro j th₂ hj
  obtain ⟨hi, -⟩ := List.getElem?_eq_some_iff.mp hth
  by_cases hij : i = j
  · subst hij
    rw [List.getElem?_set_self hi] at hj
    rw [← Option.some.inj hj, hno]
    exact h i th hth
  · rw [List.getElem?_set_ne hij] at hj
    exact h j th₂ hj

theorem Numbered.step (sys : System ρ ℓ τ σ α ε) {c : Pool ρ ℓ τ σ α} (h : Numbered c)
    (a : Act ρ τ ε) : Numbered (sys.step c a) := by
  cases a with
  | outside e => exact h
  | start r =>
    intro i th hi
    by_cases hlt : i < c.threads.length
    · exact h i th (by rw [← hi]; exact (List.getElem?_append_left hlt).symm)
    · have hge := Nat.le_of_not_lt hlt
      change (c.threads ++ [sys.newThread c.threads.length r])[i]? = some th at hi
      rw [List.getElem?_append_right hge] at hi
      obtain ⟨hlen, hth⟩ := List.getElem?_eq_some_iff.mp hi
      have hi0 : i - c.threads.length = 0 := by simpa using hlen
      have hno : th.no = c.threads.length := by
        rw [← hth]
        simp [System.newThread]
      omega
  | move i t =>
    show Numbered (sys.move c i t)
    unfold System.move
    split
    · exact h
    · rename_i th hth
      split
      · split
        · refine h.set hth ?_ _
          rfl
        · exact h
      · exact h
  | crash i =>
    unfold System.step
    dsimp only
    split
    · exact h
    · rename_i th hth
      refine h.set hth ?_ _
      rfl

/-! ## Running to the end -/

/-- What is left of a program after its next statement. -/
inductive Prog.After : Prog ℓ τ σ α → Prog ℓ τ σ α → Prop
  | mk (l : ℓ) (w : τ → σ → σ) (n : τ → σ → Prog ℓ τ σ α) (t : τ) (s : σ) :
      Prog.After (n t s) (.stmt l w n)

theorem Prog.acc_after (p : Prog ℓ τ σ α) : Acc Prog.After p := by
  induction p with
  | done a => exact .intro _ nofun
  | stmt l w n ih =>
    refine .intro _ ?_
    rintro _ ⟨_, _, _, t, s⟩
    exact ih t s

instance : Std.Irrefl (@Prog.After ℓ τ σ α) := by
  refine ⟨fun p hp => ?_⟩
  induction Prog.acc_after p with
  | intro p _ ih => exact ih p hp hp

/-- Some request can be moved with input `t`. -/
def System.Moves (sys : System ρ ℓ τ σ α ε) (t : τ) (c : Pool ρ ℓ τ σ α) : Prop :=
  ∃ i : Nat, ∃ th : Thread ρ ℓ τ σ α, ∃ l w n, c.threads[i]? = some th ∧ th.crashed = false ∧
    th.prog = .stmt l w n ∧ sys.ready l t c.store = true

/-- **No request waits for ever.** If in every pool with a request under way some
request can be moved, then all requests can be moved to their end: every move leaves
one program with less to do. -/
theorem System.exists_quiet {sys : System ρ ℓ τ σ α ε} {I : Pool ρ ℓ τ σ α → Prop} {t : τ}
    (hstep : ∀ c i, I c → I (sys.step c (.move i t)))
    (hmoves : ∀ c, I c → ¬ c.Quiet → sys.Moves t c) (hc : I c) :
    ∃ is : List Nat, (sys.run c (is.map fun i => .move i t)).Quiet := by
  -- the programs of the requests, one of which is cut back at every move
  have hacc : Acc (Relation.CutExpand Prog.After) (Multiset.ofList (c.threads.map Thread.prog)) :=
    Relation.acc_of_singleton fun p _ => (Prog.acc_after p).cutExpand
  generalize hprogs : Multiset.ofList (c.threads.map Thread.prog) = progs at hacc
  induction hacc generalizing c with
  | intro progs _ ih =>
    by_cases hquiet : c.Quiet
    · exact ⟨[], hquiet⟩
    · obtain ⟨i, th, l, w, n, hth, hlive, hprog, hready⟩ := hmoves c hc hquiet
      obtain ⟨hlt, hget⟩ := List.getElem?_eq_some_iff.mp hth
      have hmove : sys.step c (.move i t) =
          { threads := c.threads.set i (System.advance th l t c.store (n t c.store))
            store := w t c.store } := by
        simp [System.step, System.move, hth, hprog, hlive, hready]
      have hcut : Relation.CutExpand Prog.After
          (Multiset.ofList ((sys.step c (.move i t)).threads.map Thread.prog)) progs := by
        refine ⟨{n t c.store}, .stmt l w n, ?_, ?_⟩
        · intro p hp
          rw [Multiset.mem_singleton.mp hp]
          exact .mk l w n t c.store
        · have hset := List.set_perm_cons_eraseIdx hlt (System.advance th l t c.store (n t c.store))
          have hold := List.getElem_cons_eraseIdx_perm hlt
          rw [hget] at hold
          rw [hmove, ← hprogs, Multiset.coe_eq_coe.mpr (hset.map Thread.prog),
            Multiset.coe_eq_coe.mpr (hold.symm.map Thread.prog)]
          simp [System.advance, hprog, ← Multiset.cons_coe, ← Multiset.singleton_add, add_comm,
            add_left_comm]
      obtain ⟨is, his⟩ := ih _ hcut (hstep c i hc) rfl
      exact ⟨i :: is, his⟩

/-! ## Counting requests -/

variable {γ : Type} {j : Nat}

theorem getElem?_set_cases {l : List γ} {y z : γ} (h : (l.set i y)[j]? = some z) :
    j = i ∧ z = y ∨ j ≠ i ∧ l[j]? = some z := by
  by_cases hij : i = j
  · subst hij
    rw [List.getElem?_set] at h
    split at h
    · split at h
      · exact .inl ⟨rfl, (Option.some.inj h).symm⟩
      · cases h
    · contradiction
  · rw [List.getElem?_set_ne hij] at h
    exact .inr ⟨Ne.symm hij, h⟩

theorem getElem?_concat_cases {l : List γ} {y z : γ} (h : (l ++ [y])[j]? = some z) :
    l[j]? = some z ∨ j = l.length ∧ z = y := by
  by_cases hlt : j < l.length
  · rw [List.getElem?_append_left hlt] at h
    exact .inl h
  · have hle : l.length ≤ j := Nat.not_lt.mp hlt
    rw [List.getElem?_append_right hle, List.getElem?_singleton] at h
    split at h
    · exact .inr ⟨by omega, (Option.some.inj h).symm⟩
    · cases h

theorem forall_mem_set {p : γ → Prop} {l : List γ} {y : γ} (h : ∀ x ∈ l, p x) (hy : p y) (i : Nat) :
    ∀ x ∈ l.set i y, p x := by
  intro x hx
  rcases List.mem_or_eq_of_mem_set hx with hx | rfl
  · exact h x hx
  · exact hy

/-- A property of some request is still one of some request when another one is
replaced. -/
theorem exists_mem_set {p : γ → Prop} {l : List γ} {x y : γ} (hx : l[i]? = some x)
    (h : ∃ z ∈ l, p z) (hy : p x → p y) : ∃ z ∈ l.set i y, p z := by
  obtain ⟨z, hz, hpz⟩ := h
  obtain ⟨j, hj⟩ := List.mem_iff_getElem?.mp hz
  obtain ⟨hi, -⟩ := List.getElem?_eq_some_iff.mp hx
  by_cases hij : i = j
  · subst hij
    rw [hx] at hj
    cases hj
    exact ⟨y, List.mem_set hi y, hy hpz⟩
  · refine ⟨z, List.mem_iff_getElem?.mpr ⟨j, ?_⟩, hpz⟩
    rw [List.getElem?_set_ne hij, hj]

/-- Replacing a request changes the number of those with a property by its own
share. -/
theorem countP_replace (p : γ → Bool) {l : List γ} {x : γ} (h : l[i]? = some x) (y : γ) :
    (l.set i y).countP p + (p x).toNat = l.countP p + (p y).toNat := by
  obtain ⟨hi, hx⟩ := List.getElem?_eq_some_iff.mp h
  have hset := List.countP_set (p := p) (a := y) hi
  rw [hx] at hset
  have hle : (p x).toNat ≤ l.countP p := by
    cases hp : p x with
    | false => exact Nat.zero_le _
    | true => exact List.countP_pos_iff.mpr ⟨x, List.mem_of_getElem? h, hp⟩
  cases hpx : p x <;> cases hpy : p y <;> simp_all

/-- Counting by keys that exclude each other is counting what has one of the keys. -/
theorem sum_countP {κ : Type} (p : κ → γ → Bool)
    (hone : ∀ k k' x, p k x = true → p k' x = true → k = k') {ks : List κ} (hks : ks.Nodup)
    (l : List γ) :
    (ks.map fun k => l.countP (p k)).sum = l.countP fun x => ks.any fun k => p k x := by
  induction ks with
  | nil => simp
  | cons k ks ih =>
    obtain ⟨hk, hnodup⟩ := List.nodup_cons.mp hks
    rw [List.map_cons, List.sum_cons, ih hnodup]
    clear ih
    induction l with
    | nil => rfl
    | cons x l ihl =>
      simp only [List.countP_cons, List.any_cons] at ihl ⊢
      -- an element with the key `k` has none of the others
      have hexcl : p k x = true → (ks.any fun k => p k x) = false := by
        intro hpk
        rw [List.any_eq_false]
        intro k' hk' hpk'
        exact hk (hone k k' x hpk hpk' ▸ hk')
      cases hpk : p k x with
      | false =>
        simp only [Bool.false_or, Bool.false_eq_true, if_false]
        omega
      | true =>
        rw [hexcl hpk]
        simp only [Bool.true_or, Bool.false_eq_true, if_true, if_false]
        omega

end Lib
