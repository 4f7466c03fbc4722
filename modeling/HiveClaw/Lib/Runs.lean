import Mathlib.Logic.Basic

/-!
# Runs of a deterministic system

A system whose next state is a function of the state and of what happens next. The order in which
things happen is free; a run may be restricted to steps that meet a condition on the state before
them. `Reach` is what such runs reach.
-/

namespace Lib.Runs

variable {σ α : Type}

/-- The state after a list of events. -/
def run (step : σ → α → σ) (s : σ) (acts : List α) : σ := acts.foldl step s

/-- Every step of the run meets `P`. -/
def Meets (step : σ → α → σ) (P : σ → α → Prop) : σ → List α → Prop
  | _, [] => True
  | s, a :: acts => P s a ∧ Meets step P (step s a) acts

instance instDecidableMeets (step : σ → α → σ) (P : σ → α → Prop) [∀ s a, Decidable (P s a)] :
    ∀ (s : σ) (acts : List α), Decidable (Meets step P s acts)
  | _, [] => isTrue trivial
  | s, a :: acts =>
    have : Decidable (Meets step P (step s a) acts) := instDecidableMeets step P _ acts
    inferInstanceAs (Decidable (P s a ∧ Meets step P (step s a) acts))

variable {I : σ → Prop}

/-- Conditions that agree wherever an invariant holds, which the steps that meet them keep. -/
theorem meets_congr {step : σ → α → σ} {P Q : σ → α → Prop} (hiff : ∀ s a, I s → (P s a ↔ Q s a))
    (hkeep : ∀ s a, I s → P s a → I (step s a)) (acts : List α) (s : σ) (hs : I s) :
    Meets step P s acts ↔ Meets step Q s acts := by
  induction acts generalizing s with
  | nil => exact Iff.rfl
  | cons a acts ih =>
    constructor
    · rintro ⟨hP, hrest⟩
      exact ⟨(hiff s a hs).mp hP, (ih _ (hkeep s a hs hP)).mp hrest⟩
    · rintro ⟨hQ, hrest⟩
      have hP := (hiff s a hs).mpr hQ
      exact ⟨hP, (ih _ (hkeep s a hs hP)).mpr hrest⟩

/-- What holds at the start and is kept by every step holds after a run. -/
theorem run_inv {step : σ → α → σ} (hstep : ∀ s a, I s → I (step s a)) {s : σ} (hinit : I s)
    (acts : List α) : I (run step s acts) := by
  induction acts generalizing s with
  | nil => exact hinit
  | cons a acts ih => exact ih (hstep s a hinit)

/-- What a run reaches whose steps all meet `P`. -/
inductive Reach (step : σ → α → σ) (P : σ → α → Prop) (s₀ : σ) : σ → Prop
  | init : Reach step P s₀ s₀
  | step {s : σ} {a : α} : Reach step P s₀ s → P s a → Reach step P s₀ (step s a)

variable {step : σ → α → σ} {P : σ → α → Prop} {s₀ s : σ}

theorem reach_run {acts : List α} (h : Meets step P s₀ acts) :
    Reach step P s₀ (run step s₀ acts) := by
  have hrun : ∀ (acts : List α) s, Reach step P s₀ s → Meets step P s acts →
      Reach step P s₀ (run step s acts) := by
    intro acts
    induction acts with
    | nil => exact fun s hs _ => hs
    | cons a acts ih => exact fun s hs hmeets => ih _ (hs.step hmeets.1) hmeets.2
  exact hrun acts s₀ .init h

/-- What holds at the start and is kept by every step that meets `P` holds in every state that is
reached. -/
theorem Reach.inv (h : Reach step P s₀ s) (hinit : I s₀)
    (hstep : ∀ s a, I s → P s a → I (step s a)) : I s := by
  induction h with
  | init => exact hinit
  | step _ hP ih => exact hstep _ _ ih hP

end Lib.Runs
