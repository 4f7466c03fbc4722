import HiveClaw.Providers.Base

/-!
# What a retried stream delivers

The retry loop hands the caller's callback to every attempt, and cannot take back what an
attempt delivered before it failed. So the pieces of a call that ends well are its answer
exactly if the attempts that failed delivered nothing (`delivered_iff_failed_silent`).
-/

namespace HiveClaw.Providers

variable {ω : Type}

theorem textOf_append (ds es : List Delta) : textOf (ds ++ es) = textOf ds ++ textOf es := by
  simp [textOf, String.join_append]

/-- The pieces that all attempts delivered. -/
def Retry.delivered (s : Retry ω) : String := textOf (s.attempts.flatMap Attempt.deltas)

/-- All calls so far ended with an error. -/
def Retry.AllFailed (s : Retry ω) : Prop :=
  ∀ a ∈ s.attempts, a.response.finishReason = "error"

/-- Failed calls of `p`, then one that is not an error. -/
def Retry.Ends (p : Provider ω) (r : LLMResponse) (s : Retry ω) : Prop :=
  ∃ failed a, s.attempts = failed ++ [a] ∧ a.response = r ∧
    (∀ b ∈ failed, b.response.finishReason = "error") ∧ ∃ req w, a = (p.chatStream req w).1

@[simp] theorem attempts_countError (s : Retry ω) (r : LLMResponse) :
    (countError s r).attempts = s.attempts := by
  unfold countError
  dsimp only
  split
  · rfl
  · split <;> rfl

variable {p : Provider ω} {s : Retry ω}

theorem allFailed_call (hs : s.AllFailed) (herror : (s.call p).1.response.finishReason = "error") :
    (s.call p).2.AllFailed := by
  intro a ha
  rcases List.mem_append.mp ha with ha | ha
  · exact hs a ha
  · rw [List.mem_singleton.mp ha]
    exact herror

theorem ends_call (hs : s.AllFailed) : (s.call p).2.Ends p (s.call p).1.response :=
  ⟨s.attempts, (s.call p).1, rfl, rfl, hs, s.req, s.world, rfl⟩

theorem retryStep_cases (p : Provider ω) (mode : RetryMode) (hs : s.AllFailed) :
    ((retryStep p mode s).1 = none ∧ (retryStep p mode s).2.AllFailed) ∨
      ∃ r, (retryStep p mode s).1 = some r ∧
        (r.finishReason ≠ "error" → (retryStep p mode s).2.Ends p r) := by
  unfold retryStep
  dsimp only
  have hstart : Retry.AllFailed { s with attempt := s.attempt + 1 } := hs
  split
  case isTrue => exact .inr ⟨_, rfl, fun _ => ends_call hstart⟩
  case isFalse herror =>
    have hfailed := allFailed_call hstart (not_not.mp herror)
    have hcounted : (countError (Retry.call p { s with attempt := s.attempt + 1 }).2
        (Retry.call p { s with attempt := s.attempt + 1 }).1.response).AllFailed := by
      intro a ha
      rw [attempts_countError] at ha
      exact hfailed a ha
    generalize countError _ _ = counted at hcounted ⊢
    split
    case isTrue =>
      split
      case isTrue => exact .inr ⟨_, rfl, fun _ => ends_call hcounted⟩
      case isFalse => exact .inr ⟨_, rfl, fun h => absurd (not_not.mp herror) h⟩
    case isFalse =>
      split
      case isTrue => exact .inr ⟨_, rfl, fun h => absurd (not_not.mp herror) h⟩
      case isFalse =>
        split
        case isTrue => exact .inr ⟨_, rfl, fun h => absurd (not_not.mp herror) h⟩
        case isFalse => exact .inl ⟨rfl, hcounted⟩

theorem retryLoop_ends {mode : RetryMode} {fuel : Nat} {s' : Retry ω} {r : LLMResponse}
    (hs : s.AllFailed) (h : retryLoop p mode fuel s = some (r, s'))
    (hr : r.finishReason ≠ "error") : s'.Ends p r := by
  induction fuel generalizing s with
  | zero => exact absurd h nofun
  | succ fuel ih =>
    rw [retryLoop] at h
    rcases retryStep_cases p mode hs with ⟨hnone, hfailed⟩ | ⟨r', hsome, hends⟩
    · split at h
      case h_1 heq => exact absurd (hnone.symm.trans (congrArg Prod.fst heq)) nofun
      case h_2 heq =>
        rw [heq] at hfailed
        exact ih hfailed h
    · split at h
      case h_1 heq =>
        obtain ⟨rfl, rfl⟩ := Prod.mk.inj (Option.some.inj h)
        obtain rfl := Option.some.inj (hsome.symm.trans (congrArg Prod.fst heq))
        rw [heq] at hends
        exact hends hr
      case h_2 heq => exact absurd (hsome.symm.trans (congrArg Prod.fst heq)) nofun

/-- A provider that passes its answer to `on_delta` in pieces. -/
def StreamsItsAnswer (p : Provider ω) : Prop :=
  ∀ req w, (p.chatStream req w).1.response.finishReason ≠ "error" →
    textOf (p.chatStream req w).1.deltas = (p.chatStream req w).1.response.content.getD ""

theorem textOf_flatMap_eq_empty {failed : List Attempt} :
    textOf (failed.flatMap Attempt.deltas) = "" ↔ ∀ a ∈ failed, textOf a.deltas = "" := by
  induction failed with
  | nil => simp [textOf]
  | cons a failed ih =>
    rw [List.flatMap_cons, textOf_append, String.append_eq_empty_iff, ih, List.forall_mem_cons]

theorem append_eq_right_iff {s t : String} : s ++ t = t ↔ s = "" := by
  constructor
  · intro h
    have hlength := congrArg String.length h
    rw [String.length_append] at hlength
    exact String.length_eq_zero_iff.mp (by omega)
  · rintro rfl
    exact String.empty_append

/-- What a call that ends well has delivered is its answer exactly if the attempts that
failed delivered no text. -/
theorem delivered_iff_failed_silent {p : Provider ω} (hp : StreamsItsAnswer p)
    {mode : RetryMode} {fuel : Nat} {req : ChatRequest} {w : ω} {r : LLMResponse} {s : Retry ω}
    (h : chatStreamWithRetry p mode fuel req w = some (r, s)) (hr : r.finishReason ≠ "error") :
    s.delivered = r.content.getD "" ↔
      ∀ a ∈ s.attempts, a.response.finishReason = "error" → textOf a.deltas = "" := by
  have hnone : Retry.AllFailed ({ req := prepare p req, world := w } : Retry ω) := by
    intro a ha
    exact absurd ha List.not_mem_nil
  obtain ⟨failed, a, hattempts, rfl, hfailed, hcall⟩ := retryLoop_ends hnone h hr
  have hanswer : textOf a.deltas = a.response.content.getD "" := by
    obtain ⟨req, w, rfl⟩ := hcall
    exact hp req w hr
  unfold Retry.delivered
  rw [hattempts, List.flatMap_append, textOf_append, List.flatMap_singleton, hanswer,
    append_eq_right_iff, textOf_flatMap_eq_empty]
  constructor
  · intro hsilent b hb herror
    rcases List.mem_append.mp hb with hb | hb
    · exact hsilent b hb
    · obtain rfl := List.mem_singleton.mp hb
      exact absurd herror hr
  · intro hsilent b hb
    exact hsilent b (List.mem_append_left _ hb) (hfailed b hb)

/-- A provider that streams `Hel` and loses the connection, then streams `Hello`. -/
def droppedOnce : Provider Nat :=
  { chatStream := fun _ calls =>
      match calls with
      | 0 =>
        ({ deltas := [.text "Hel"]
           response := { content := some "Error: connection reset", finishReason := "error" } }, 1)
      | n => ({ deltas := [.text "Hel", .text "lo"], response := { content := some "Hello" } }, n + 1) }

theorem droppedOnce_streams : StreamsItsAnswer droppedOnce := by
  intro req calls h
  cases calls with
  | zero => exact absurd rfl h
  | succ n =>
    show textOf [.text "Hel", .text "lo"] = "Hello"
    decide

/-- The caller sees the text of the failed attempt and the answer. -/
theorem delivered_twice :
    StreamsItsAnswer droppedOnce ∧
      (chatStreamWithRetry droppedOnce .standard 4 {} 0).map
        (fun x => (x.1.finishReason, x.1.content, x.2.delivered)) =
      some ("stop", some "Hello", "HelHello") :=
  ⟨droppedOnce_streams, by decide +kernel⟩

/-- A provider that fails before it streams, then streams `Hello`. -/
def refusedOnce : Provider Nat :=
  { chatStream := fun _ calls =>
      match calls with
      | 0 => ({ response := { content := some "503 overloaded", finishReason := "error" } }, 1)
      | n => ({ deltas := [.text "Hello"], response := { content := some "Hello" } }, n + 1) }

theorem refusedOnce_delivers :
    ∃ r s, chatStreamWithRetry refusedOnce .standard 4 {} 0 = some (r, s) ∧
      s.delivered = r.content.getD "" := by
  have hp : StreamsItsAnswer refusedOnce := by
    intro req calls h
    cases calls with
    | zero => exact absurd rfl h
    | succ n =>
      show textOf [.text "Hello"] = "Hello"
      decide
  have hreturns : (chatStreamWithRetry refusedOnce .standard 4 {} 0).isSome = true := by
    decide +kernel
  obtain ⟨⟨r, s⟩, h⟩ := Option.isSome_iff_exists.mp hreturns
  have hshape : (chatStreamWithRetry refusedOnce .standard 4 {} 0).map
      (fun x => (x.1.finishReason,
        x.2.attempts.map fun a => (a.response.finishReason, textOf a.deltas))) =
        some ("stop", [("error", ""), ("stop", "Hello")]) := by
    decide +kernel
  rw [h] at hshape
  obtain ⟨hreason, hattempts⟩ := Prod.mk.inj (Option.some.inj hshape)
  refine ⟨r, s, h, (delivered_iff_failed_silent hp h (by rw [hreason]; decide)).mpr ?_⟩
  intro a ha herror
  have hmem : (a.response.finishReason, textOf a.deltas) ∈ [("error", ""), ("stop", "Hello")] := by
    rw [← hattempts]
    exact List.mem_map_of_mem ha
  rcases List.mem_cons.mp hmem with heq | hmem
  · exact (Prod.mk.inj heq).2
  · have heq := (Prod.mk.inj (List.mem_singleton.mp hmem)).1
    rw [herror] at heq
    exact absurd heq (by decide)

end HiveClaw.Providers
