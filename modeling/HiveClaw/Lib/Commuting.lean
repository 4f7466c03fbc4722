import Mathlib.Data.List.Basic

/-!
# Writes that commute

A state is written by entries, each of which has a target. Entries with different targets
commute; of two with the same target the order counts. Groups of entries that share no target
can be applied in any order, while every group keeps its own.

* `foldl_perm` — the groups in another order lead to the same state.
-/

namespace Lib.Commuting

variable {σ ε τ : Type} {step : σ → ε → σ} {target : ε → τ}

/-- Entries with different targets commute. -/
def Independent (step : σ → ε → σ) (target : ε → τ) : Prop :=
  ∀ s a b, target a ≠ target b → step (step s a) b = step (step s b) a

/-- Two groups without a common target. -/
def Apart (target : ε → τ) (xs ys : List ε) : Prop := ∀ a ∈ xs, ∀ b ∈ ys, target a ≠ target b

variable {ys : List ε}

/-- An entry can be moved past a group. -/
theorem foldl_step (hind : Independent step target) {a : ε} (h : ∀ b ∈ ys, target a ≠ target b)
    (s : σ) : ys.foldl step (step s a) = step (ys.foldl step s) a := by
  induction ys generalizing s with
  | nil => rfl
  | cons b ys ih =>
    have hb : target a ≠ target b := h b List.mem_cons_self
    rw [List.foldl_cons, List.foldl_cons, hind s a b hb]
    exact ih (fun c hc => h c (List.mem_cons_of_mem b hc)) (step s b)

/-- Two groups that are apart can be swapped. -/
theorem foldl_swap (hind : Independent step target) {xs : List ε} (h : Apart target xs ys) (s : σ) :
    ys.foldl step (xs.foldl step s) = xs.foldl step (ys.foldl step s) := by
  induction xs generalizing s with
  | nil => rfl
  | cons a xs ih =>
    rw [List.foldl_cons, List.foldl_cons, ih fun x hx => h x (List.mem_cons_of_mem a hx),
      foldl_step hind (h a List.mem_cons_self)]

/-- **Any order of the groups.** -/
theorem foldl_perm {ι : Type} (hind : Independent step target) (group : ι → List ε)
    {xs ys : List ι} (hperm : xs.Perm ys)
    (hapart : xs.Pairwise fun x y => Apart target (group x) (group y)) (s : σ) :
    xs.foldl (fun s x => (group x).foldl step s) s =
      ys.foldl (fun s x => (group x).foldl step s) s := by
  have hswap : ∀ x ∈ xs, ∀ y ∈ xs, ∀ s, (group y).foldl step ((group x).foldl step s) =
      (group x).foldl step ((group y).foldl step s) := by
    refine List.Pairwise.forall_of_forall_of_flip (fun _ _ _ => rfl) ?_ ?_
    · exact hapart.imp fun hxy s => foldl_swap hind hxy s
    · exact hapart.imp fun hxy s => (foldl_swap hind hxy s).symm
  exact hperm.foldl_eq' (fun x hx y hy z => hswap x hx y hy z) s

end Lib.Commuting
