import HiveClaw.Lib.Pool

/-!
# Copies that are brought up to date after every write

A store holds copies of parts of its own contents. Whoever writes brings the
copies up to date afterwards, in statements of its own: until then the copies may
lag behind. `Refresh` says when a copy is up to date and when a request is still
going to bring one up to date.

* `Covered` — every copy is up to date or owed by some request.
* `Covered.move` — the step rule: a statement may leave a copy alone, bring it up
  to date, take over the debt, or spoil it while another request owes it.
* `Covered.fresh` — when nobody owes anything any more, all copies are up to date.
-/

namespace Lib

/-- Copies `ι` in a store `σ`, kept by requests with phases `φ`. -/
structure Refresh (φ σ ι : Type) where
  fresh : σ → ι → Prop
  owes : φ → σ → ι → Prop

variable {ρ ℓ τ σ α ε φ ι : Type} (A : Nat → ρ → Protocol φ ℓ τ σ) (R : Refresh φ σ ι)

/-- The request is under way and will bring the copy up to date, given the store `s`. -/
def Thread.Owes (th : Thread ρ ℓ τ σ α) (s : σ) (x : ι) : Prop :=
  th.crashed = false ∧ R.owes (th.phase A) s x

/-- A request other than number `i` owes the copy. -/
def Pool.OwedBeside (c : Pool ρ ℓ τ σ α) (i : Nat) (x : ι) : Prop :=
  ∃ j th, j ≠ i ∧ c.threads[j]? = some th ∧ th.Owes A R c.store x

instance [∀ q s x, Decidable (R.owes q s x)] (c : Pool ρ ℓ τ σ α) (i : Nat) (x : ι) :
    Decidable (c.OwedBeside A R i x) := by
  refine decidable_of_iff (∃ j ∈ List.range c.threads.length, ∃ th ∈ c.threads[j]?,
    j ≠ i ∧ th.crashed = false ∧ R.owes (th.phase A) c.store x) ⟨?_, ?_⟩
  · rintro ⟨j, -, th, hth, hne, howes⟩
    exact ⟨j, th, hne, hth, howes⟩
  · rintro ⟨j, th, hne, hth, howes⟩
    obtain ⟨hlt, -⟩ := List.getElem?_eq_some_iff.mp hth
    exact ⟨j, List.mem_range.mpr hlt, th, hth, hne, howes⟩

/-- Every copy is up to date or owed by some request. -/
def Covered (c : Pool ρ ℓ τ σ α) : Prop :=
  ∀ x, R.fresh c.store x ∨ ∃ th ∈ c.threads, th.Owes A R c.store x

variable {A R} {c : Pool ρ ℓ τ σ α}

variable {i : Nat} {s' : σ}

/-- A debt that the new store leaves as it is. -/
theorem Pool.OwedBeside.keep {x : ι} (h : c.OwedBeside A R i x)
    (hkeep : ∀ q, R.owes q c.store x → R.owes q s' x) :
    { c with store := s' }.OwedBeside A R i x := by
  obtain ⟨j, th, hne, hj, hlive, howes⟩ := h
  exact ⟨j, th, hne, hj, hlive, hkeep _ howes⟩

theorem covered_init {s : σ} (h : ∀ x, R.fresh s x) :
    Covered A R ({ threads := [], store := s } : Pool ρ ℓ τ σ α) := fun x => Or.inl (h x)

theorem Covered.start (sys : System ρ ℓ τ σ α ε) (h : Covered A R c) (r : ρ) :
    Covered A R (sys.step c (.start r)) := by
  intro x
  refine (h x).imp_right ?_
  rintro ⟨th, hmem, howes⟩
  exact ⟨th, List.mem_append_left _ hmem, howes⟩

/-- **The step rule.** -/
theorem Covered.move {th th' : Thread ρ ℓ τ σ α} (h : Covered A R c)
    (hth : c.threads[i]? = some th) (hmove : ∀ x,
      -- up to date, or owed by the request itself, after the step
      (R.fresh s' x ∨ th'.Owes A R s' x) ∨
      -- another request owes it after the step
      ({ c with store := s' }.OwedBeside A R i x) ∨
      -- the copy does not change, nor do the debts of the others
      ((R.fresh c.store x → R.fresh s' x) ∧ (th.Owes A R c.store x → th'.Owes A R s' x) ∧
        ∀ q, R.owes q c.store x → R.owes q s' x)) :
    Covered A R { threads := c.threads.set i th', store := s' } := by
  intro x
  obtain ⟨hi, -⟩ := List.getElem?_eq_some_iff.mp hth
  rcases hmove x with (hfresh | howes) | ⟨j, th₂, hne, hj, howes⟩ | ⟨hfresh, hself, hkeep⟩
  · exact Or.inl hfresh
  · exact Or.inr ⟨th', List.mem_set hi th', howes⟩
  · refine Or.inr ⟨th₂, List.mem_iff_getElem?.mpr ⟨j, ?_⟩, howes⟩
    rw [List.getElem?_set_ne hne.symm]
    exact hj
  · rcases h x with hx | ⟨th₂, hmem, howes⟩
    · exact Or.inl (hfresh hx)
    · obtain ⟨j, hj⟩ := List.mem_iff_getElem?.mp hmem
      by_cases hij : i = j
      · subst hij
        rw [hth] at hj
        cases hj
        exact Or.inr ⟨th', List.mem_set hi th', hself howes⟩
      · refine Or.inr ⟨th₂, List.mem_iff_getElem?.mpr ⟨j, ?_⟩, howes.1, hkeep _ howes.2⟩
        rw [List.getElem?_set_ne hij]
        exact hj

/-- When nobody owes anything any more, all copies are up to date. -/
theorem Covered.fresh (h : Covered A R c)
    (hnone : ∀ th ∈ c.threads, ∀ x, ¬ th.Owes A R c.store x) (x : ι) : R.fresh c.store x := by
  rcases h x with hx | ⟨th, hmem, howes⟩
  · exact hx
  · exact absurd howes (hnone th hmem x)

end Lib
