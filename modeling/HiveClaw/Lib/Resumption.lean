/-!
# Resumptions — programs cut at their atomic statements

A program that talks to a shared store is a sequence of atomic statements;
between two of them other programs may run. `Prog` is such a program: each
statement has a label, receives an input from outside (the clock, whether the
store answers at all, …), writes the store, and continues with a program that
may depend on the input and on the store it saw.

* `Prog.exec` — a program alone, from a stream of inputs; `Prog.Runs` is the
  same with the inputs left open, and `Prog.Runs.bind_iff` takes a sequential
  composition apart (`Prog.runsE_bind_iff` where the parts may fail).
* `Prog.Steps` — what every statement of a program does, whether the program
  runs to its end or not; `Prog.zoom` is a program on a part of a larger store,
  `Prog.timeout` a program under a timer.
* `Duo` — two programs that take turns on one store, with the events they
  leave behind; `Duo.run` executes one interleaving of their statements, given
  as the list of who moves next with which input.
* `Duo.run_inv` — an invariant of the steps holds at the end of a run.
-/

namespace Lib

/-- A program over stores `σ` with statements labelled in `ℓ`, each of which
receives an input from `τ`. `next` sees the store as it was before the
statement's own write. -/
inductive Prog (ℓ τ σ α : Type) where
  | done (a : α)
  | stmt (label : ℓ) (write : τ → σ → σ) (next : τ → σ → Prog ℓ τ σ α)

namespace Prog

variable {ℓ τ σ α β : Type}

/-- Sequential composition. -/
def bind : Prog ℓ τ σ α → (α → Prog ℓ τ σ β) → Prog ℓ τ σ β
  | .done a, f => f a
  | .stmt l w n, f => .stmt l w fun t s => (n t s).bind f

instance : Monad (Prog ℓ τ σ) where
  pure := .done
  bind := Prog.bind

/-- A statement that only reads. -/
def read (l : ℓ) (f : τ → σ → α) : Prog ℓ τ σ α :=
  .stmt l (fun _ s => s) fun t s => .done (f t s)

/-- A statement that reads and writes. -/
def modify (l : ℓ) (f : τ → σ → α × σ) : Prog ℓ τ σ α :=
  .stmt l (fun t s => (f t s).2) fun t s => .done (f t s).1

@[simp] theorem bind_done (a : α) (f : α → Prog ℓ τ σ β) : (Prog.done a).bind f = f a := rfl

@[simp] theorem bind_stmt (l : ℓ) (w : τ → σ → σ) (n : τ → σ → Prog ℓ τ σ α)
    (f : α → Prog ℓ τ σ β) :
    (Prog.stmt l w n).bind f = .stmt l w fun t s => (n t s).bind f := rfl

/-! ## A program alone -/

/-- Runs a program to its end; statement `k` receives the input `ins k`. -/
def exec : Prog ℓ τ σ α → (Nat → τ) → σ → α × σ
  | .done a, _, s => (a, s)
  | .stmt _ w n, ins, s => (n (ins 0) s).exec (fun k => ins (k + 1)) (w (ins 0) s)

/-- `p.Runs s a s'`: for some inputs the program takes `s` to `s'` and
returns `a`. -/
inductive Runs : Prog ℓ τ σ α → σ → α → σ → Prop
  | done {a : α} {s : σ} : Runs (.done a) s a s
  | stmt {l : ℓ} {w : τ → σ → σ} {n : τ → σ → Prog ℓ τ σ α} {s s' : σ} {a : α} (t : τ) :
      Runs (n t s) (w t s) a s' → Runs (.stmt l w n) s a s'

theorem runs_exec (p : Prog ℓ τ σ α) (ins : Nat → τ) (s : σ) :
    p.Runs s (p.exec ins s).1 (p.exec ins s).2 := by
  induction p generalizing ins s with
  | done a => exact .done
  | stmt l w n ih => exact .stmt (ins 0) (ih (ins 0) s (fun k => ins (k + 1)) (w (ins 0) s))

variable {a : α} {s s' : σ}

@[simp] theorem runs_done_iff {b : α} :
    (Prog.done a : Prog ℓ τ σ α).Runs s b s' ↔ b = a ∧ s' = s := by
  constructor
  · rintro ⟨⟩
    exact ⟨rfl, rfl⟩
  · rintro ⟨rfl, rfl⟩
    exact .done

variable {l : ℓ}

@[simp] theorem runs_stmt_iff {w : τ → σ → σ} {n : τ → σ → Prog ℓ τ σ α} :
    (Prog.stmt l w n).Runs s a s' ↔ ∃ t, (n t s).Runs (w t s) a s' := by
  constructor
  · rintro (_ | ⟨t, h⟩)
    exact ⟨t, h⟩
  · rintro ⟨t, h⟩
    exact .stmt t h

@[simp] theorem runs_read_iff {f : τ → σ → α} :
    (Prog.read l f).Runs s a s' ↔ (∃ t, a = f t s) ∧ s' = s := by
  simp only [Prog.read, runs_stmt_iff, runs_done_iff, exists_and_right]

@[simp] theorem runs_modify_iff {f : τ → σ → α × σ} :
    (Prog.modify l f).Runs s a s' ↔ ∃ t, a = (f t s).1 ∧ s' = (f t s).2 := by
  simp only [Prog.modify, runs_stmt_iff, runs_done_iff]

variable {p : Prog ℓ τ σ α} {f : α → Prog ℓ τ σ β} {s'' : σ} {b : β}

/-- A run of a sequential composition is a run of the first part followed by
a run of the second. -/
theorem Runs.bind_iff : (p.bind f).Runs s b s'' ↔ ∃ a s', p.Runs s a s' ∧ (f a).Runs s' b s'' := by
  induction p generalizing s with
  | done a =>
    simp only [bind_done, runs_done_iff]
    constructor
    · intro h
      exact ⟨a, s, ⟨rfl, rfl⟩, h⟩
    · rintro ⟨_, _, ⟨rfl, rfl⟩, h⟩
      exact h
  | stmt l w n ih =>
    simp only [bind_stmt, runs_stmt_iff, ih]
    constructor
    · rintro ⟨t, a, s', h₁, h₂⟩
      exact ⟨a, s', ⟨t, h₁⟩, h₂⟩
    · rintro ⟨a, s', ⟨t, h₁⟩, h₂⟩
      exact ⟨t, a, s', h₁, h₂⟩

theorem runs_bind_iff : (p >>= f).Runs s b s'' ↔ ∃ a s', p.Runs s a s' ∧ (f a).Runs s' b s'' :=
  Runs.bind_iff

/-! ## Programs that may fail -/

section Fallible

variable {ε : Type}

/-- A run of a program that may fail ends with a value or with an error. -/
def RunsE (m : ExceptT ε (Prog ℓ τ σ) α) (s : σ) (r : Except ε α) (s' : σ) : Prop :=
  Runs m.run s r s'

variable {s s' : σ} {r : Except ε α}

@[simp] theorem runsE_pure_iff {a : α} :
    RunsE (pure a : ExceptT ε (Prog ℓ τ σ) α) s r s' ↔ r = .ok a ∧ s' = s :=
  runs_done_iff

@[simp] theorem runsE_throw_iff {e : ε} :
    RunsE (throw e : ExceptT ε (Prog ℓ τ σ) α) s r s' ↔ r = .error e ∧ s' = s :=
  runs_done_iff

variable {p : Prog ℓ τ σ α}

@[simp] theorem runsE_lift_iff :
    RunsE (ExceptT.lift p : ExceptT ε (Prog ℓ τ σ) α) s r s' ↔
      ∃ a, p.Runs s a s' ∧ r = .ok a := by
  have hrun : (ExceptT.lift p : ExceptT ε (Prog ℓ τ σ) α).run =
      p.bind fun a => .done (.ok a) := rfl
  unfold RunsE
  rw [hrun, Runs.bind_iff]
  constructor
  · rintro ⟨a, s₁, hp, hd⟩
    obtain ⟨rfl, rfl⟩ := runs_done_iff.mp hd
    exact ⟨a, hp, rfl⟩
  · rintro ⟨a, hp, rfl⟩
    exact ⟨a, s', hp, .done⟩

variable {m : ExceptT ε (Prog ℓ τ σ) α} {f : α → ExceptT ε (Prog ℓ τ σ) β} {s'' : σ}

/-- A run of a sequential composition stops with the error of the first part
or continues with its value. -/
theorem runsE_bind_iff {r : Except ε β} :
    RunsE (m >>= f) s r s'' ↔
      (∃ e, RunsE m s (.error e) s'' ∧ r = .error e) ∨
        ∃ a s', RunsE m s (.ok a) s' ∧ RunsE (f a) s' r s'' := by
  have hrun : (m >>= f).run = m.run.bind fun x => (ExceptT.bindCont f x : Prog ℓ τ σ _) := rfl
  unfold RunsE
  rw [hrun, Runs.bind_iff]
  constructor
  · rintro ⟨x, s', hm, hf⟩
    cases x with
    | error e =>
      obtain ⟨rfl, rfl⟩ := runs_done_iff.mp hf
      exact Or.inl ⟨e, hm, rfl⟩
    | ok a => exact Or.inr ⟨a, s', hm, hf⟩
  · rintro (⟨e, hm, rfl⟩ | ⟨a, s', hm, hf⟩)
    · exact ⟨.error e, s'', hm, .done⟩
    · exact ⟨.ok a, s', hm, hf⟩

variable {b : β}

/-- A composition that succeeds does so in both parts. -/
theorem runsE_bind_ok (h : RunsE (m >>= f) s (.ok b) s'') :
    ∃ a s', RunsE m s (.ok a) s' ∧ RunsE (f a) s' (.ok b) s'' := by
  rcases runsE_bind_iff.mp h with ⟨e, -, hcontra⟩ | hboth
  · cases hcontra
  · exact hboth

theorem runsE_map_ok {g : α → β} (h : RunsE (g <$> m) s (.ok b) s') :
    ∃ a, RunsE m s (.ok a) s' ∧ b = g a := by
  obtain ⟨x, s₁, hm, hrest⟩ := Runs.bind_iff.mp h
  cases x with
  | error e => cases (runs_done_iff.mp hrest).1
  | ok a =>
    obtain ⟨hb, rfl⟩ := runs_done_iff.mp hrest
    exact ⟨a, hm, Except.ok.inj hb⟩

theorem runsE_lift_bind_iff {r : Except ε β} :
    RunsE (ExceptT.lift p >>= f) s r s'' ↔ ∃ a s', p.Runs s a s' ∧ RunsE (f a) s' r s'' := by
  rw [runsE_bind_iff]
  constructor
  · rintro (⟨e, he, -⟩ | ⟨a, s', ha, hf⟩)
    · obtain ⟨a, -, hcontra⟩ := runsE_lift_iff.mp he
      cases hcontra
    · obtain ⟨b, hp, hb⟩ := runsE_lift_iff.mp ha
      cases hb
      exact ⟨a, s', hp, hf⟩
  · rintro ⟨a, s', hp, hf⟩
    exact Or.inr ⟨a, s', runsE_lift_iff.mpr ⟨a, hp, rfl⟩, hf⟩

end Fallible

/-! ## What every statement does -/

section Steps

/-- Every statement of the program relates the store before to the store
after. Unlike `Runs` this also speaks of runs that stop in the middle. -/
inductive Steps (R : σ → σ → Prop) : Prog ℓ τ σ α → Prop
  | done (a : α) : Steps R (.done a)
  | stmt {l : ℓ} {w : τ → σ → σ} {n : τ → σ → Prog ℓ τ σ α} (hw : ∀ t s, R s (w t s))
      (hn : ∀ t s, Steps R (n t s)) : Steps R (.stmt l w n)

variable {R : σ → σ → Prop}

variable {p : Prog ℓ τ σ α}

theorem Steps.bind {f : α → Prog ℓ τ σ β} (hp : Steps R p) (hf : ∀ a, Steps R (f a)) :
    Steps R (p >>= f) := by
  induction hp with
  | done a => exact hf a
  | stmt hw _ ih => exact .stmt hw ih

theorem steps_modify {l : ℓ} {f : τ → σ → α × σ} (hf : ∀ t s, R s (f t s).2) :
    Steps R (Prog.modify l f) :=
  .stmt hf fun _ _ => .done _

/-- What every statement does is what the whole run does, for a reflexive and
transitive relation. -/
theorem Steps.runs (hp : Steps R p) (hrefl : ∀ s, R s s) (htrans : ∀ a b c, R a b → R b c → R a c)
    {s s' : σ} {a : α} (h : p.Runs s a s') : R s s' := by
  induction hp generalizing s with
  | done b =>
    obtain ⟨-, rfl⟩ := runs_done_iff.mp h
    exact hrefl _
  | stmt hw _ ih =>
    obtain ⟨t, hrest⟩ := runs_stmt_iff.mp h
    exact htrans _ _ _ (hw t s) (ih t s hrest)

end Steps

/-! ## What a program returns -/

section Returns

/-- Every value the program can return is in `Q`. -/
inductive Returns (Q : α → Prop) : Prog ℓ τ σ α → Prop
  | done {a : α} (ha : Q a) : Returns Q (.done a)
  | stmt {l : ℓ} {w : τ → σ → σ} {n : τ → σ → Prog ℓ τ σ α}
      (hn : ∀ t s, Returns Q (n t s)) : Returns Q (.stmt l w n)

variable {Q : α → Prop} {Q' : β → Prop}

variable {p : Prog ℓ τ σ α}

theorem Returns.bind {f : α → Prog ℓ τ σ β} (hp : Returns Q p) (hf : ∀ a, Q a → Returns Q' (f a)) :
    Returns Q' (p >>= f) := by
  induction hp with
  | done ha => exact hf _ ha
  | stmt _ ih => exact .stmt ih

theorem returns_true (p : Prog ℓ τ σ α) : Returns (fun _ => True) p := by
  induction p with
  | done a => exact .done trivial
  | stmt l w n ih => exact .stmt ih

theorem Returns.mono {Q₁ : α → Prop} (hp : Returns Q p) (hQ : ∀ a, Q a → Q₁ a) : Returns Q₁ p := by
  induction hp with
  | done ha => exact .done (hQ _ ha)
  | stmt _ ih => exact .stmt ih

theorem Returns.runs (hp : Returns Q p) {s s' : σ} {a : α} (h : p.Runs s a s') : Q a := by
  induction hp generalizing s with
  | done ha =>
    obtain ⟨rfl, -⟩ := runs_done_iff.mp h
    exact ha
  | stmt _ ih =>
    obtain ⟨t, hrest⟩ := runs_stmt_iff.mp h
    exact ih t s hrest

end Returns

/-! ## Programs on a part of the store -/

section Zoom

variable {σ' : Type}

/-- A program over a part of the store: `get` reads the part, `put` writes it back. -/
def zoom (get : σ → σ') (put : σ' → σ → σ) : Prog ℓ τ σ' α → Prog ℓ τ σ α
  | .done a => .done a
  | .stmt l w n => .stmt l (fun t s => put (w t (get s)) s) fun t s => (n t (get s)).zoom get put

/-- A run on a part of the store is a run of the program on that part; the rest of
the store is left alone. -/
theorem Runs.of_zoom {get : σ → σ'} {put : σ' → σ → σ} (hself : ∀ s, put (get s) s = s)
    (hget : ∀ x s, get (put x s) = x) (hput : ∀ x y s, put x (put y s) = put x s)
    {p : Prog ℓ τ σ' α} {s s' : σ} {a : α} (h : (p.zoom get put).Runs s a s') :
    ∃ x, p.Runs (get s) a x ∧ s' = put x s := by
  induction p generalizing s with
  | done b =>
    obtain ⟨rfl, rfl⟩ := runs_done_iff.mp h
    exact ⟨get s', .done, (hself s').symm⟩
  | stmt l w n ih =>
    obtain ⟨t, hrest⟩ := runs_stmt_iff.mp h
    obtain ⟨x, hx, rfl⟩ := ih t (get s) hrest
    rw [hget] at hx
    exact ⟨x, .stmt t hx, hput _ _ _⟩

end Zoom

/-! ## Timers -/

/-- A program under a timer that fires before the statement number `k` of
those at which it can be interrupted (`brk`); the rest of the program is
dropped then. -/
def cut (brk : ℓ → Bool) : Prog ℓ τ σ α → Nat → Prog ℓ τ σ (Option α)
  | .done a, _ => .done (some a)
  | .stmt l w n, k =>
    if brk l then
      match k with
      | 0 => .done none
      | k + 1 => .stmt l w fun t s => (n t s).cut brk k
    else .stmt l w fun t s => (n t s).cut brk k

/-- A program under a timer that may not fire at all. -/
def timeout (brk : ℓ → Bool) (p : Prog ℓ τ σ α) : Option Nat → Prog ℓ τ σ (Option α)
  | none => p >>= fun a => .done (some a)
  | some k => p.cut brk k

theorem Steps.cut {R : σ → σ → Prop} {p : Prog ℓ τ σ α} (hp : Steps R p) (brk : ℓ → Bool)
    (k : Nat) : Steps R (p.cut brk k) := by
  induction hp generalizing k with
  | done a => exact .done _
  | @stmt l w n hw _ ih =>
    unfold Prog.cut
    split
    · cases k with
      | zero => exact .done _
      | succ k => exact .stmt hw fun t s => ih t s k
    · exact .stmt hw fun t s => ih t s k

theorem Steps.timeout {R : σ → σ → Prop} (hp : Steps R p) (brk : ℓ → Bool) (k : Option Nat) :
    Steps R (p.timeout brk k) := by
  cases k with
  | none => exact hp.bind fun a => .done _
  | some k => exact hp.cut brk k

end Prog

/-! ## Two programs on one store -/

/-- A statement that has been executed: by which of the two programs, with
which input, and the store before and after. -/
structure Event (ℓ τ σ : Type) where
  who : Bool
  label : ℓ
  input : τ
  before : σ
  after : σ

/-- Two programs in the middle of their runs. -/
structure Duo (ℓ τ σ α : Type) where
  procs : Bool → Prog ℓ τ σ α
  store : σ
  trace : List (Event ℓ τ σ)

namespace Duo

variable {ℓ τ σ α : Type}

/-- Both programs at their start. -/
def init (p q : Prog ℓ τ σ α) (s : σ) : Duo ℓ τ σ α :=
  { procs := fun who => if who then q else p, store := s, trace := [] }

/-- Program `who` executes its next statement; a program that is done does
nothing. -/
def step (c : Duo ℓ τ σ α) (who : Bool) (t : τ) : Duo ℓ τ σ α :=
  match c.procs who with
  | .done _ => c
  | .stmt l w n =>
    { procs := fun i => if i = who then n t c.store else c.procs i
      store := w t c.store
      trace := c.trace ++ [⟨who, l, t, c.store, w t c.store⟩] }

/-- One interleaving: who moves next, with which input. -/
def run (c : Duo ℓ τ σ α) : List (Bool × τ) → Duo ℓ τ σ α
  | [] => c
  | (who, t) :: sched => (c.step who t).run sched

/-- Program `who` has left the store as it was. -/
def WroteNothing (c : Duo ℓ τ σ α) (who : Bool) : Prop :=
  ∀ e ∈ c.trace, e.who = who → e.after = e.before

/-- What every step preserves holds at the end of every interleaving. -/
theorem run_inv {I : Duo ℓ τ σ α → Prop} (hstep : ∀ c who t, I c → I (c.step who t))
    {c : Duo ℓ τ σ α} (h : I c) (sched : List (Bool × τ)) : I (c.run sched) := by
  induction sched generalizing c with
  | nil => exact h
  | cons x sched ih => exact ih (hstep c x.1 x.2 h)

end Duo

end Lib
