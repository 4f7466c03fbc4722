import Mathlib.Logic.Basic

/-!
# Computations that fail unless a condition holds

`FailsUnless e P x` says exactly how a computation ends: it succeeds if `P` holds and fails
with `e` if not. The rules compose such statements along the computation, so that the
condition of the whole is read off its parts.
-/

namespace Lib

variable {ε α β γ : Type} {e : ε} {P Q : Prop}

/-- The computation succeeds if `P` holds, and fails with `e` otherwise. -/
def FailsUnless (e : ε) (P : Prop) (x : Except ε α) : Prop :=
  (∃ v, x = .ok v) ∧ P ∨ x = .error e ∧ ¬ P

namespace FailsUnless

theorem of_ok (v : α) (hP : P) : FailsUnless e P (.ok v : Except ε α) :=
  .inl ⟨⟨v, rfl⟩, hP⟩

variable {x : Except ε α}

theorem congr (h : FailsUnless e P x) (hPQ : P ↔ Q) : FailsUnless e Q x := by
  rwa [FailsUnless, ← hPQ]

theorem ne_error_iff (h : FailsUnless e P x) : x ≠ .error e ↔ P := by
  rcases h with ⟨⟨v, rfl⟩, hP⟩ | ⟨rfl, hP⟩
  · exact ⟨fun _ => hP, fun _ => nofun⟩
  · exact ⟨fun h => absurd rfl h, fun h => absurd h hP⟩

theorem map (h : FailsUnless e P x) (f : α → β) : FailsUnless e P (x.map f) := by
  rcases h with ⟨⟨v, rfl⟩, hP⟩ | ⟨rfl, hP⟩
  · exact .inl ⟨⟨f v, rfl⟩, hP⟩
  · exact .inr ⟨rfl, hP⟩

theorem bind {f : α → Except ε β} (h : FailsUnless e P x)
    (hf : ∀ v, x = .ok v → FailsUnless e Q (f v)) : FailsUnless e (P ∧ Q) (x >>= f) := by
  rcases h with ⟨⟨v, rfl⟩, hP⟩ | ⟨rfl, hP⟩
  · exact (hf v rfl).congr ⟨fun hQ => ⟨hP, hQ⟩, And.right⟩
  · exact .inr ⟨rfl, fun h => hP h.1⟩

theorem ite {c : Prop} [Decidable c] {y : Except ε α} (hx : c → FailsUnless e P x)
    (hy : ¬ c → FailsUnless e P y) : FailsUnless e P (if c then x else y) := by
  split
  case isTrue h => exact hx h
  case isFalse h => exact hy h

variable {C : β → Prop}

/-- A loop fails unless every round succeeds. -/
theorem foldlM {f : α → β → Except ε α} (h : ∀ acc x, FailsUnless e (C x) (f acc x)) (l : List β)
    (acc : α) : FailsUnless e (∀ x ∈ l, C x) (l.foldlM f acc) := by
  induction l generalizing acc with
  | nil => exact of_ok acc nofun
  | cons x l ih =>
    rw [List.foldlM_cons]
    exact ((h acc x).bind fun acc' _ => ih acc').congr List.forall_mem_cons.symm

theorem filterMapM {f : β → Except ε (Option γ)} (h : ∀ x, FailsUnless e (C x) (f x)) (l : List β) :
    FailsUnless e (∀ x ∈ l, C x) (l.filterMapM f) := by
  induction l with
  | nil => exact of_ok [] nofun
  | cons x l ih =>
    rw [List.filterMapM_cons]
    refine ((h x).bind fun y _ => ?_).congr List.forall_mem_cons.symm
    cases y with
    | none => exact ih
    | some y => exact (ih.bind fun ys _ => of_ok (y :: ys) trivial).congr (Iff.of_eq (and_true _))

end FailsUnless

end Lib
