import Mathlib.Data.List.Basic
import HiveClaw.Lib.Resumption

/-!
# Updates guarded by a version check

Optimistic concurrency: a program reads a row's version, compares it with the
one its client carries, and goes on to write the row only if they agree. The
check and the write are two statements, and the write moves the version to a
stamp taken from its input, if it moves it at all.

`Guard` names the parts of such a protocol, `Guard.Unchecked` says that a
program follows it. For two programs that carry the same version,
`Guard.atMostOne_iff` says exactly which interleavings let at most one of them
through: those in which the version was another one from the start, a write
that moves it falls before the other program's check, or the other program's
check is lost.
-/

namespace Lib

/-- The parts of a guarded update over stores `σ`: the row, its version, the
version the client carries, the stamp a write takes from its input, which
statements check and write, which inputs make a check fail as if the version
had changed, and which results say so. -/
structure Guard (ℓ τ σ α ρ V : Type) where
  row : σ → ρ
  ver : ρ → V
  carried : V
  stamp : τ → V
  isCheck : ℓ → Prop
  isWrite : ℓ → Prop
  lost : τ → Prop
  ok : α → Prop
  conflict : α → Prop

namespace Guard

variable {ℓ τ σ α ρ V : Type} (G : Guard ℓ τ σ α ρ V)

/-! ## Programs that follow the protocol -/

/-- After the write: the row is left alone. -/
inductive Written : Prog ℓ τ σ α → Prop
  | done {a : α} (hok : ¬ G.conflict a) : Written (.done a)
  | stmt {l : ℓ} {w : τ → σ → σ} {n : τ → σ → Prog ℓ τ σ α} (hc : ¬ G.isCheck l)
      (hw : ¬ G.isWrite l) (hrow : ∀ t s, G.row (w t s) = G.row s)
      (hn : ∀ t s, Written (n t s)) : Written (.stmt l w n)

/-- Between a passed check and the write. -/
inductive Checked : Prog ℓ τ σ α → Prop
  | done {a : α} (hok : ¬ G.conflict a) : Checked (.done a)
  | read {l : ℓ} {w : τ → σ → σ} {n : τ → σ → Prog ℓ τ σ α} (hc : ¬ G.isCheck l)
      (hw : ¬ G.isWrite l) (hrow : ∀ t s, G.row (w t s) = G.row s)
      (hn : ∀ t s, Checked (n t s)) : Checked (.stmt l w n)
  | write {l : ℓ} {w : τ → σ → σ} {n : τ → σ → Prog ℓ τ σ α} (hc : ¬ G.isCheck l)
      (hw : G.isWrite l)
      (hrow : ∀ t s, G.row (w t s) = G.row s ∨ G.ver (G.row (w t s)) = G.stamp t)
      (hn : ∀ t s, G.Written (n t s)) : Checked (.stmt l w n)

/-- What a check on the store `s` continues with. -/
def Outcome (t : τ) (s : σ) (p : Prog ℓ τ σ α) : Prop :=
  (∃ a, p = .done a ∧ ¬ G.ok a ∧ ¬ G.conflict a) ∨
    (∃ a, p = .done a ∧ ¬ G.ok a ∧ G.conflict a ∧
      (G.ver (G.row s) ≠ G.carried ∨ G.lost t)) ∨
    (G.ver (G.row s) = G.carried ∧ ¬ G.lost t ∧ G.Checked p)

/-- Before the check: nothing is written. -/
inductive Unchecked : Prog ℓ τ σ α → Prop
  | done {a : α} (hok : ¬ G.ok a) (hc : ¬ G.conflict a) : Unchecked (.done a)
  | read {l : ℓ} {w : τ → σ → σ} {n : τ → σ → Prog ℓ τ σ α} (hc : ¬ G.isCheck l)
      (hw : ¬ G.isWrite l) (hs : ∀ t s, w t s = s) (hn : ∀ t s, Unchecked (n t s)) :
      Unchecked (.stmt l w n)
  | check {l : ℓ} {w : τ → σ → σ} {n : τ → σ → Prog ℓ τ σ α} (hc : G.isCheck l)
      (hw : ¬ G.isWrite l) (hs : ∀ t s, w t s = s) (hn : ∀ t s, G.Outcome t s (n t s)) :
      Unchecked (.stmt l w n)

/-! ## What happened in a run -/

/-- A write that changes the row and stamps it with another version than the
carried one. -/
def Moves (e : Event ℓ τ σ) : Prop :=
  G.isWrite e.label ∧ G.row e.after ≠ G.row e.before ∧ G.stamp e.input ≠ G.carried

/-- A moving write of the other program stands before a check of `who`. -/
def Overtaken (trace : List (Event ℓ τ σ)) (who : Bool) : Prop :=
  ∃ e₁ e₂, [e₁, e₂].Sublist trace ∧ e₁.who = !who ∧ G.Moves e₁ ∧
    e₂.who = who ∧ G.isCheck e₂.label

/-- A check of `who` is lost. -/
def Lost (trace : List (Event ℓ τ σ)) (who : Bool) : Prop :=
  ∃ e ∈ trace, e.who = who ∧ G.isCheck e.label ∧ G.lost e.input

variable {G}

variable {trace : List (Event ℓ τ σ)} {e : Event ℓ τ σ} {who : Bool}

/-- Events that are no checks overtake nobody. -/
theorem overtaken_append (he : ¬ (e.who = who ∧ G.isCheck e.label)) :
    G.Overtaken (trace ++ [e]) who ↔ G.Overtaken trace who := by
  constructor
  · rintro ⟨e₁, e₂, hsub, h₁, hmoves, h₂, hcheck⟩
    obtain ⟨l₁, l₂, hsplit, hl₁, hl₂⟩ := List.sublist_append_iff.mp hsub
    -- the check is not the new event
    have hnil : l₂ = [] := by
      rcases List.sublist_singleton.mp hl₂ with rfl | rfl
      · rfl
      · exfalso
        have hlast := congrArg List.getLast? hsplit
        simp only [List.getLast?_append, List.getLast?_singleton, Option.some_or] at hlast
        have heq : e₂ = e := by simpa using hlast
        exact he ⟨heq ▸ h₂, heq ▸ hcheck⟩
    rw [hnil, List.append_nil] at hsplit
    exact ⟨e₁, e₂, hsplit ▸ hl₁, h₁, hmoves, h₂, hcheck⟩
  · rintro ⟨e₁, e₂, hsub, hrest⟩
    exact ⟨e₁, e₂, hsub.trans (List.sublist_append_left _ _), hrest⟩

/-- A check overtakes its program exactly if the other one has already made a
moving write, or an earlier check was overtaken. -/
theorem overtaken_append_check (hcheck : G.isCheck e.label) :
    G.Overtaken (trace ++ [e]) e.who ↔
      G.Overtaken trace e.who ∨ ∃ e₁ ∈ trace, e₁.who = !e.who ∧ G.Moves e₁ := by
  constructor
  · rintro ⟨e₁, e₂, hsub, h₁, hmoves, h₂, hc₂⟩
    obtain ⟨l₁, l₂, hsplit, hl₁, hl₂⟩ := List.sublist_append_iff.mp hsub
    rcases List.sublist_singleton.mp hl₂ with rfl | rfl
    · rw [List.append_nil] at hsplit
      exact Or.inl ⟨e₁, e₂, hsplit ▸ hl₁, h₁, hmoves, h₂, hc₂⟩
    · have hone : l₁ = [e₁] := by
        have hlen := congrArg List.length hsplit
        simp only [List.length_cons, List.length_nil, List.length_append] at hlen
        match l₁, hsplit with
        | [], h => simp at hlen
        | [x], h =>
          have := (List.cons.inj h).1
          rw [this]
        | _ :: _ :: _, _ => simp at hlen
      rw [hone] at hl₁
      exact Or.inr ⟨e₁, List.singleton_sublist.mp hl₁, h₁, hmoves⟩
  · rintro (⟨e₁, e₂, hsub, hrest⟩ | ⟨e₁, hmem, h₁, hmoves⟩)
    · exact ⟨e₁, e₂, hsub.trans (List.sublist_append_left _ _), hrest⟩
    · exact ⟨e₁, e, (List.singleton_sublist.mpr hmem).append (List.Sublist.refl [e]), h₁, hmoves,
        rfl, hcheck⟩

/-- Something happened in the trace or happens just now. -/
theorem exists_mem_concat {β : Type} {l : List β} {b : β} {P : β → Prop} :
    (∃ x ∈ l ++ [b], P x) ↔ (∃ x ∈ l, P x) ∨ P b := by
  simp only [List.mem_append, List.mem_singleton, or_and_right, exists_or, exists_eq_left]

theorem lost_append :
    G.Lost (trace ++ [e]) who ↔
      G.Lost trace who ∨ (e.who = who ∧ G.isCheck e.label ∧ G.lost e.input) :=
  exists_mem_concat

/-! ## The invariant -/

/-- Program `who` has made a moving write. -/
def Moved (G : Guard ℓ τ σ α ρ V) (trace : List (Event ℓ τ σ)) (who : Bool) : Prop :=
  ∃ e ∈ trace, e.who = who ∧ G.Moves e

/-- Program `who` has made its check. -/
def HasChecked (G : Guard ℓ τ σ α ρ V) (trace : List (Event ℓ τ σ)) (who : Bool) : Prop :=
  ∃ e ∈ trace, e.who = who ∧ G.isCheck e.label

/-- How far a program is, and what its part of the trace says about it. -/
inductive Status (G : Guard ℓ τ σ α ρ V) (c : Duo ℓ τ σ α) (who : Bool) : Prop
  | unchecked (hp : G.Unchecked (c.procs who)) (hcheck : ¬ G.HasChecked c.trace who)
      (hmoved : ¬ G.Moved c.trace who) (hnothing : c.WroteNothing who)
  | refused {a : α} (hp : c.procs who = .done a) (hok : ¬ G.ok a) (hc : G.conflict a)
      (hnothing : c.WroteNothing who)
      (hwhy : G.Overtaken c.trace who ∨ G.Lost c.trace who)
  | failed {a : α} (hp : c.procs who = .done a) (hok : ¬ G.ok a) (hc : ¬ G.conflict a)
  | checked (hp : G.Checked (c.procs who)) (hcheck : G.HasChecked c.trace who)
      (hmoved : ¬ G.Moved c.trace who)
      (hwhy : ¬ G.Overtaken c.trace who ∧ ¬ G.Lost c.trace who)
  | written (hp : G.Written (c.procs who)) (hcheck : G.HasChecked c.trace who)
      (hwhy : ¬ G.Overtaken c.trace who ∧ ¬ G.Lost c.trace who)

/-- The invariant of two programs that started from the carried version. The
version is still the carried one unless somebody moved it, and it is another
one for a program that has yet to check while the other has moved it. -/
structure Inv (G : Guard ℓ τ σ α ρ V) (c : Duo ℓ τ σ α) : Prop where
  status : ∀ who, G.Status c who
  ver : G.ver (G.row c.store) = G.carried ∨ ∃ who, G.Moved c.trace who
  moved : ∀ who, ¬ G.HasChecked c.trace who → G.Moved c.trace (!who) →
    G.ver (G.row c.store) ≠ G.carried

section Steps

variable {trace : List (Event ℓ τ σ)} {e : Event ℓ τ σ} {who : Bool}

theorem moved_append : G.Moved (trace ++ [e]) who ↔
    G.Moved trace who ∨ (e.who = who ∧ G.Moves e) :=
  exists_mem_concat

theorem hasChecked_append : G.HasChecked (trace ++ [e]) who ↔
    G.HasChecked trace who ∨ (e.who = who ∧ G.isCheck e.label) :=
  exists_mem_concat

/-- Without a check nobody is overtaken and no check is lost. -/
theorem not_overtaken_of_not_hasChecked (h : ¬ G.HasChecked trace who) :
    ¬ G.Overtaken trace who ∧ ¬ G.Lost trace who := by
  constructor
  · rintro ⟨e₁, e₂, hsub, -, -, h₂, hcheck⟩
    exact h ⟨e₂, hsub.subset (by simp), h₂, hcheck⟩
  · rintro ⟨e, he, hwho, hcheck, -⟩
    exact h ⟨e, he, hwho, hcheck⟩

/-- A row that is left alone is not moved. -/
theorem not_moves_of_row_eq (h : G.row e.after = G.row e.before) : ¬ G.Moves e :=
  fun hmoves => hmoves.2.1 h

variable {c c' : Duo ℓ τ σ α}

/-- A step of the other program does not change how far a program is. -/
theorem Status.other (h : G.Status c who) (hproc : c'.procs who = c.procs who)
    (htrace : c'.trace = c.trace ++ [e]) (hother : e.who ≠ who) : G.Status c' who := by
  have hnot : ¬ (e.who = who ∧ G.isCheck e.label) := fun hcheck => hother hcheck.1
  have hnothing : c.WroteNothing who → c'.WroteNothing who := by
    intro hwrote x hx hxwho
    rw [htrace] at hx
    rcases List.mem_append.mp hx with hx | hx
    · exact hwrote x hx hxwho
    · rw [List.mem_singleton.mp hx] at hxwho
      exact absurd hxwho hother
  have hover : G.Overtaken c'.trace who ↔ G.Overtaken c.trace who := by
    rw [htrace]
    exact overtaken_append hnot
  have hlost : G.Lost c'.trace who ↔ G.Lost c.trace who := by
    rw [htrace, lost_append]
    exact or_iff_left fun hcheck => hother hcheck.1
  have hcheck : G.HasChecked c'.trace who ↔ G.HasChecked c.trace who := by
    rw [htrace, hasChecked_append]
    exact or_iff_left hnot
  have hmoved : G.Moved c'.trace who ↔ G.Moved c.trace who := by
    rw [htrace, moved_append]
    exact or_iff_left fun hm => hother hm.1
  cases h with
  | unchecked hp h₁ h₂ h₃ =>
    exact .unchecked (hproc ▸ hp) (hcheck.not.mpr h₁) (hmoved.not.mpr h₂) (hnothing h₃)
  | refused hp h₁ h₂ h₃ h₄ =>
    exact .refused (hproc ▸ hp) h₁ h₂ (hnothing h₃) (h₄.imp hover.mpr hlost.mpr)
  | failed hp h₁ h₂ => exact .failed (hproc ▸ hp) h₁ h₂
  | checked hp h₁ h₂ h₃ =>
    exact .checked (hproc ▸ hp) (hcheck.mpr h₁) (hmoved.not.mpr h₂)
      ⟨hover.not.mpr h₃.1, hlost.not.mpr h₃.2⟩
  | written hp h₁ h₂ =>
    exact .written (hproc ▸ hp) (hcheck.mpr h₁) ⟨hover.not.mpr h₂.1, hlost.not.mpr h₂.2⟩

/-- A statement that leaves the row alone keeps what the invariant says about
the version. -/
theorem Inv.ver_of_row_eq (h : G.Inv c) (htrace : c'.trace = c.trace ++ [e])
    (hafter : e.after = c'.store) (hbefore : e.before = c.store)
    (hrow : G.row c'.store = G.row c.store) :
    (G.ver (G.row c'.store) = G.carried ∨ ∃ who, G.Moved c'.trace who) ∧
      ∀ who, ¬ G.HasChecked c'.trace who → G.Moved c'.trace (!who) →
        G.ver (G.row c'.store) ≠ G.carried := by
  have hmoves : ¬ G.Moves e := not_moves_of_row_eq (by rw [hafter, hbefore, hrow])
  have hmoved : ∀ i, G.Moved c'.trace i ↔ G.Moved c.trace i := by
    intro i
    rw [htrace, moved_append]
    exact or_iff_left fun hm => hmoves hm.2
  rw [hrow]
  refine ⟨?_, fun i hcheck hm => ?_⟩
  · rcases h.ver with hver | ⟨i, hi⟩
    · exact Or.inl hver
    · exact Or.inr ⟨i, (hmoved i).mpr hi⟩
  · refine h.moved i (fun hold => hcheck ?_) ((hmoved _).mp hm)
    rw [htrace, hasChecked_append]
    exact Or.inl hold

/-- A program that wrote nothing and leaves the store alone still has. -/
theorem wroteNothing_append (h : c.WroteNothing who) (htrace : c'.trace = c.trace ++ [e])
    (hsame : e.after = e.before) : c'.WroteNothing who := by
  intro x hx hwho
  rw [htrace] at hx
  rcases List.mem_append.mp hx with hx | hx
  · exact h x hx hwho
  · rw [List.mem_singleton.mp hx]
    exact hsame

/-- The check: what the program finds, the invariant explains. -/
theorem Inv.status_check (h : G.Inv c) {t : τ} (hproc : G.Outcome t c.store (c'.procs who))
    (hcheck : ¬ G.HasChecked c.trace who) (hmoved : ¬ G.Moved c.trace who)
    (hnothing : c.WroteNothing who) (he : e.who = who) (hlabel : G.isCheck e.label)
    (hinput : e.input = t) (hbefore : e.after = e.before)
    (htrace : c'.trace = c.trace ++ [e]) : G.Status c' who := by
  subst he
  have hover : G.Overtaken c'.trace e.who ↔ G.Moved c.trace (!e.who) := by
    rw [htrace, overtaken_append_check hlabel]
    exact or_iff_right (not_overtaken_of_not_hasChecked hcheck).1
  have hlost : G.Lost c'.trace e.who ↔ G.lost t := by
    rw [htrace, lost_append, hinput]
    refine (or_iff_right (not_overtaken_of_not_hasChecked hcheck).2).trans ?_
    exact ⟨fun h => h.2.2, fun h => ⟨rfl, hlabel, h⟩⟩
  rcases hproc with ⟨a, hp, hok, hc⟩ | ⟨a, hp, hok, hc, hwhy⟩ | ⟨hver, hnot, hp⟩
  · exact .failed hp hok hc
  · refine .refused hp hok hc (wroteNothing_append hnothing htrace hbefore) ?_
    rcases hwhy with hver | hl
    · -- somebody moved the version, and it was not this program
      rcases h.ver with hsame | ⟨i, hi⟩
      · exact absurd hsame hver
      · refine Or.inl (hover.mpr ?_)
        have hne : i ≠ e.who := fun h => hmoved (h ▸ hi)
        have hi' : i = !e.who := by
          cases i <;> cases hw : e.who <;> simp_all
        exact hi' ▸ hi
    · exact Or.inr (hlost.mpr hl)
  · refine .checked hp ?_ ?_ ⟨fun ho => h.moved e.who hcheck (hover.mp ho) hver,
      hlost.not.mpr hnot⟩
    · rw [htrace, hasChecked_append]
      exact Or.inr ⟨rfl, hlabel⟩
    · rw [htrace, moved_append]
      rintro (hm | ⟨-, hm⟩)
      · exact hmoved hm
      · exact not_moves_of_row_eq (by rw [hbefore]) hm

end Steps

/-- **One step.** -/
theorem Inv.step {c : Duo ℓ τ σ α} (h : G.Inv c) (who : Bool) (t : τ) : G.Inv (c.step who t) := by
  cases hp : c.procs who with
  | done a =>
    have hsame : c.step who t = c := by rw [Duo.step, hp]
    rw [hsame]
    exact h
  | stmt l w n =>
    set e : Event ℓ τ σ := ⟨who, l, t, c.store, w t c.store⟩ with he
    set c' := c.step who t with hc'
    have hc : c' = ⟨fun i => if i = who then n t c.store else c.procs i, w t c.store,
        c.trace ++ [e]⟩ := by
      rw [hc', Duo.step, hp]
    have htrace : c'.trace = c.trace ++ [e] := by rw [hc]
    have hproc : c'.procs who = n t c.store := by
      rw [hc]
      exact if_pos rfl
    have hstore : c'.store = w t c.store := by rw [hc]
    -- the other program has not moved, and its status speaks of its own events
    have hothers : ∀ i, i ≠ who → G.Status c' i := by
      intro i hi
      refine (h.status i).other ?_ htrace fun hwho => hi hwho.symm
      rw [hc]
      exact if_neg hi
    -- the moving program's own status, and what the version is now
    suffices hmain : G.Status c' who ∧
        (G.ver (G.row c'.store) = G.carried ∨ ∃ i, G.Moved c'.trace i) ∧
        ∀ i, ¬ G.HasChecked c'.trace i → G.Moved c'.trace (!i) →
          G.ver (G.row c'.store) ≠ G.carried by
      refine ⟨fun i => ?_, hmain.2.1, hmain.2.2⟩
      by_cases hi : i = who
      · exact hi ▸ hmain.1
      · exact hothers i hi
    -- where the row stays, nothing is left to show about the version
    have hrest := h.ver_of_row_eq htrace hstore.symm rfl
    have hnocheck : ¬ G.isCheck l → (G.HasChecked c'.trace who ↔ G.HasChecked c.trace who) ∧
        (G.Overtaken c'.trace who ↔ G.Overtaken c.trace who) ∧
        (G.Lost c'.trace who ↔ G.Lost c.trace who) := by
      intro hl
      rw [htrace]
      exact ⟨hasChecked_append.trans (or_iff_left fun hx => hl hx.2),
        overtaken_append fun hx => hl hx.2, lost_append.trans (or_iff_left fun hx => hl hx.2.1)⟩
    have hmoved : ¬ G.Moves e → (G.Moved c'.trace who ↔ G.Moved c.trace who) := by
      intro hm
      rw [htrace]
      exact moved_append.trans (or_iff_left fun hx => hm hx.2)
    cases h.status who with
    -- before its check the program has written nothing
    | unchecked hu hcheck hm hnothing =>
      rw [hp] at hu
      cases hu with
      | read hl hw hs hn =>
        have hrow : G.row c'.store = G.row c.store := by rw [hstore, hs]
        have hnm : ¬ G.Moves e := not_moves_of_row_eq (by rw [he]; exact congrArg G.row (hs t _))
        refine ⟨.unchecked (hproc ▸ hn t c.store) ((hnocheck hl).1.not.mpr hcheck)
          ((hmoved hnm).not.mpr hm) ?_, hrest hrow⟩
        exact wroteNothing_append hnothing htrace (hs t c.store)
      | check hl hw hs hn =>
        have hrow : G.row c'.store = G.row c.store := by rw [hstore, hs]
        refine ⟨?_, hrest hrow⟩
        exact h.status_check (hproc ▸ hn t c.store) hcheck hm hnothing rfl hl rfl (hs t c.store)
          htrace
    | refused hd hok hc hnothing hwhy =>
      rw [hp] at hd
      cases hd
    | failed hd hok hc =>
      rw [hp] at hd
      cases hd
    -- it has passed the check, so it may write
    | checked hch hcheck hm hwhy =>
      rw [hp] at hch
      cases hch with
      | read hl hw hrow hn =>
        have hsame : G.row c'.store = G.row c.store := by rw [hstore, hrow]
        have hnm : ¬ G.Moves e := not_moves_of_row_eq (hrow t c.store)
        obtain ⟨hc₁, hc₂, hc₃⟩ := hnocheck hl
        exact ⟨.checked (hproc ▸ hn t c.store) (hc₁.mpr hcheck) ((hmoved hnm).not.mpr hm)
          ⟨hc₂.not.mpr hwhy.1, hc₃.not.mpr hwhy.2⟩, hrest hsame⟩
      | write hl hw hrow hn =>
        obtain ⟨hc₁, hc₂, hc₃⟩ := hnocheck hl
        refine ⟨.written (hproc ▸ hn t c.store) (hc₁.mpr hcheck)
          ⟨hc₂.not.mpr hwhy.1, hc₃.not.mpr hwhy.2⟩, ?_⟩
        -- a write that leaves the row as it is moves nothing
        by_cases hsame : G.row (w t c.store) = G.row c.store
        · exact hrest (by rw [hstore, hsame])
        · have hstamp : G.ver (G.row c'.store) = G.stamp t := by
            rw [hstore]
            exact (hrow t c.store).resolve_left hsame
          refine ⟨?_, fun i hi hmi => ?_⟩
          · by_cases hcar : G.stamp t = G.carried
            · exact Or.inl (hstamp.trans hcar)
            · refine Or.inr ⟨who, ?_⟩
              rw [htrace, moved_append]
              exact Or.inr ⟨rfl, hw, hsame, hcar⟩
          · rw [hstamp]
            rw [htrace, moved_append] at hmi
            rcases hmi with hold | ⟨-, hmoves⟩
            · -- an earlier moving write is not by `who`, and `who` has checked
              by_cases hiw : i = who
              · exact absurd (hc₁.mpr hcheck) (hiw ▸ hi)
              · have hnot : (!i) = who := by
                  cases i <;> cases who <;> simp_all
                exact absurd (hnot ▸ hold) hm
            · exact hmoves.2.2
    | written hwr hcheck hwhy =>
      rw [hp] at hwr
      cases hwr with
      | stmt hl hw hrow hn =>
        have hsame : G.row c'.store = G.row c.store := by rw [hstore, hrow]
        obtain ⟨hc₁, hc₂, hc₃⟩ := hnocheck hl
        exact ⟨.written (hproc ▸ hn t c.store) (hc₁.mpr hcheck)
          ⟨hc₂.not.mpr hwhy.1, hc₃.not.mpr hwhy.2⟩, hrest hsame⟩

/-! ## Another version from the start -/

/-- Two programs that started from another version than the carried one:
nothing is written and nobody gets through. -/
structure Stale (G : Guard ℓ τ σ α ρ V) (s : σ) (c : Duo ℓ τ σ α) : Prop where
  store : c.store = s
  nothing : ∀ who, c.WroteNothing who
  status : ∀ who, G.Unchecked (c.procs who) ∨ ∃ a, c.procs who = .done a ∧ ¬ G.ok a

theorem Stale.step {s : σ} (hver : G.ver (G.row s) ≠ G.carried) {c : Duo ℓ τ σ α}
    (h : G.Stale s c) (who : Bool) (t : τ) : G.Stale s (c.step who t) := by
  cases hp : c.procs who with
  | done a =>
    have hsame : c.step who t = c := by rw [Duo.step, hp]
    rw [hsame]
    exact h
  | stmt l w n =>
    have hstep : c.step who t = ⟨fun i => if i = who then n t c.store else c.procs i,
        w t c.store, c.trace ++ [⟨who, l, t, c.store, w t c.store⟩]⟩ := by
      rw [Duo.step, hp]
    -- an unchecked program writes nothing and does not pass its check
    have hnext : w t c.store = c.store ∧
        (G.Unchecked (n t c.store) ∨ ∃ a, n t c.store = .done a ∧ ¬ G.ok a) := by
      rcases h.status who with hu | ⟨a, ha, -⟩
      · rw [hp] at hu
        cases hu with
        | read _ _ hs hn => exact ⟨hs t _, Or.inl (hn t _)⟩
        | check _ _ hs hn =>
          refine ⟨hs t _, Or.inr ?_⟩
          rcases hn t c.store with ⟨a, ha, hok, -⟩ | ⟨a, ha, hok, -⟩ | ⟨hsame, -⟩
          · exact ⟨a, ha, hok⟩
          · exact ⟨a, ha, hok⟩
          · rw [h.store] at hsame
            exact absurd hsame hver
      · rw [hp] at ha
        cases ha
    rw [hstep]
    refine ⟨hnext.1.trans h.store, fun i => ?_, fun i => ?_⟩
    · exact wroteNothing_append (h.nothing i) rfl hnext.1
    · by_cases hi : i = who
      · rw [hi]
        simp only [if_true]
        exact hnext.2
      · simp only [if_neg hi]
        exact h.status i

/-! ## Exactly when at most one gets through -/

/-- Program `who` has succeeded. -/
def Succeeds (G : Guard ℓ τ σ α ρ V) (c : Duo ℓ τ σ α) (who : Bool) : Prop :=
  ∃ a, c.procs who = .done a ∧ G.ok a

/-- Program `who` has been refused and wrote nothing. -/
def Refused (G : Guard ℓ τ σ α ρ V) (c : Duo ℓ τ σ α) (who : Bool) : Prop :=
  (∃ a, c.procs who = .done a ∧ G.conflict a) ∧ c.WroteNothing who

/-- At most one of the programs succeeds; then the other one is refused and
wrote nothing. -/
def AtMostOne (G : Guard ℓ τ σ α ρ V) (c : Duo ℓ τ σ α) : Prop :=
  ¬ (G.Succeeds c false ∧ G.Succeeds c true) ∧
    ∀ who, G.Succeeds c who → G.Refused c (!who)

/-- **Exactness.** Two programs that follow the protocol and carry the same
version, run in any interleaving to an end in which neither fails for another
reason: at most one gets through if and only if the version was another one
from the start, a moving write of one of them precedes the other's check, or a
check is lost. -/
theorem atMostOne_iff {p q : Prog ℓ τ σ α} (hp : G.Unchecked p) (hq : G.Unchecked q) (s : σ)
    (sched : List (Bool × τ))
    (hend : ∀ who, ∃ a, ((Duo.init p q s).run sched).procs who = .done a ∧
      (G.ok a ∨ G.conflict a)) :
    G.AtMostOne ((Duo.init p q s).run sched) ↔
      G.ver (G.row s) ≠ G.carried ∨
        ∃ who, G.Overtaken ((Duo.init p q s).run sched).trace who ∨
          G.Lost ((Duo.init p q s).run sched).trace who := by
  have hinit : ∀ who, G.Unchecked ((Duo.init p q s).procs who) := by
    intro who
    cases who
    · exact hp
    · exact hq
  by_cases hver : G.ver (G.row s) = G.carried
  · have hinv : G.Inv ((Duo.init p q s).run sched) := by
      refine Duo.run_inv (fun c who t hc => hc.step who t) ⟨fun who => ?_, Or.inl hver, ?_⟩ sched
      · refine .unchecked (hinit who) ?_ ?_ fun e he => absurd he List.not_mem_nil
        · rintro ⟨e, he, -⟩
          cases he
        · rintro ⟨e, he, -⟩
          cases he
      · rintro who - ⟨e, he, -⟩
        cases he
    set c := (Duo.init p q s).run sched
    -- at the end each program has got through or been refused for a reason
    have hboth : ∀ who,
        (G.Succeeds c who ∧ ¬ G.Overtaken c.trace who ∧ ¬ G.Lost c.trace who) ∨
          (G.Refused c who ∧ ¬ G.Succeeds c who ∧
            (G.Overtaken c.trace who ∨ G.Lost c.trace who)) := by
      intro who
      obtain ⟨a, ha, hres⟩ := hend who
      cases hinv.status who with
      | unchecked hu =>
        rw [ha] at hu
        cases hu with
        | done hok hc => exact absurd hres (by tauto)
      | refused hd hok hc hnothing hwhy =>
        rw [ha] at hd
        obtain rfl := Prog.done.inj hd
        refine Or.inr ⟨⟨⟨a, ha, hc⟩, hnothing⟩, ?_, hwhy⟩
        rintro ⟨b, hb, hokb⟩
        rw [ha] at hb
        exact hok (Prog.done.inj hb ▸ hokb)
      | failed hd hok hc =>
        rw [ha] at hd
        obtain rfl := Prog.done.inj hd
        exact absurd hres (by tauto)
      | checked hch _ _ hwhy =>
        rw [ha] at hch
        cases hch with
        | done hc => exact Or.inl ⟨⟨a, ha, hres.resolve_right hc⟩, hwhy⟩
      | written hwr _ hwhy =>
        rw [ha] at hwr
        cases hwr with
        | done hc => exact Or.inl ⟨⟨a, ha, hres.resolve_right hc⟩, hwhy⟩
    constructor
    · rintro ⟨hnot, -⟩
      refine Or.inr ?_
      rcases hboth false with ⟨h₀, -⟩ | ⟨-, -, hwhy⟩
      · rcases hboth true with ⟨h₁, -⟩ | ⟨-, -, hwhy⟩
        · exact absurd ⟨h₀, h₁⟩ hnot
        · exact ⟨true, hwhy⟩
      · exact ⟨false, hwhy⟩
    · rintro (hne | ⟨who, hwhy⟩)
      · exact absurd hver hne
      · rcases hboth who with ⟨-, ho, hl⟩ | ⟨href, hnot, -⟩
        · exact absurd hwhy (by tauto)
        · refine ⟨fun hb => hnot ?_, fun i hi => ?_⟩
          · cases who
            · exact hb.1
            · exact hb.2
          · have hiw : i = !who := by
              cases i <;> cases who <;> simp_all
            rw [hiw, Bool.not_not]
            exact href
  · -- with another version from the start nobody succeeds
    have hstale : G.Stale s ((Duo.init p q s).run sched) :=
      Duo.run_inv (fun c who t hc => hc.step hver who t)
        ⟨rfl, fun who e he => absurd he List.not_mem_nil, fun who => Or.inl (hinit who)⟩ sched
    have hnone : ∀ who, ¬ G.Succeeds ((Duo.init p q s).run sched) who := by
      rintro who ⟨a, ha, hok⟩
      rcases hstale.status who with hu | ⟨b, hb, hnot⟩
      · rw [ha] at hu
        cases hu with
        | done hnot _ => exact hnot hok
      · rw [ha] at hb
        exact hnot (Prog.done.inj hb ▸ hok)
    refine iff_of_true ⟨fun h => hnone _ h.1, fun who h => absurd h (hnone who)⟩ (Or.inl hver)

end Guard

end Lib
