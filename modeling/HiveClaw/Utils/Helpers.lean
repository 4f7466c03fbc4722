import HiveClaw.Json
import HiveClaw.RustStd

/-!
# Helpers on message lists

`find_legal_message_start` of `crates/utils/src/helpers.rs`, and the selection of messages by a
token budget, which sessions and the agent runner share.
-/

namespace HiveClaw.Utils

/-- The ids of the tool calls that an assistant message declares, integers as text. -/
def declaredIds (msg : Json) : List String :=
  (((msg.get "tool_calls").bind Json.asArray).getD []).filterMap fun tc =>
    match tc.getStr "id" with
    | some id => some id
    | none => ((tc.get "id").bind Json.asI64).map toString

/-- The ids that the re-scan of a message finds. -/
def rescannedIds (msg : Json) : List String :=
  if msg.getStr "role" = some "assistant" then
    (((msg.get "tool_calls").bind Json.asArray).getD []).filterMap fun tc => tc.getStr "id"
  else []

/-- The id that a tool message answers. -/
def answeredId (msg : Json) : String :=
  (((msg.get "tool_call_id").bind fun v =>
    v.asStr.or (v.asI64.map toString))).getD ""

/-- One turn of the loop: the ids declared since `start`, and `start`. -/
def legalStep (messages : List Json) (st : List String × Nat) (p : Json × Nat) :
    List String × Nat :=
  match p.1.getStr "role" with
  | some "assistant" => (st.1 ++ declaredIds p.1, st.2)
  | some "tool" =>
    if answeredId p.1 ≠ "" ∧ answeredId p.1 ∉ st.1 then
      -- `messages[start..=i]` with `start = i + 1`
      ((slice messages (p.2 + 1) (p.2 + 1)).flatMap rescannedIds, p.2 + 1)
    else st
  | _ => st

-- `find_legal_message_start`
def findLegalMessageStart (messages : List Json) : Nat :=
  (messages.zipIdx.foldl (legalStep messages) ([], 0)).2

theorem legalStep_fold_le {messages : List Json} {n : Nat} (ps : List (Json × Nat))
    (st : List String × Nat) (hps : ∀ p ∈ ps, p.2 < n) (hst : st.2 ≤ n) :
    (ps.foldl (legalStep messages) st).2 ≤ n := by
  induction ps generalizing st with
  | nil => exact hst
  | cons p ps ih =>
    obtain ⟨hp, hrest⟩ := List.forall_mem_cons.mp hps
    refine ih _ hrest ?_
    unfold legalStep
    split
    · exact hst
    · split
      · exact hp
      · exact hst
    · exact hst

theorem findLegalMessageStart_le (messages : List Json) :
    findLegalMessageStart messages ≤ messages.length := by
  refine legalStep_fold_le _ _ (fun p hp => ?_) (Nat.zero_le _)
  obtain ⟨hlt, -⟩ := List.mem_zipIdx' hp
  exact hlt

theorem findLegalMessageStart_concat_le (messages : List Json) {last : Json}
    (hlast : last.getStr "role" ≠ some "tool") :
    findLegalMessageStart (messages ++ [last]) ≤ messages.length := by
  unfold findLegalMessageStart
  rw [List.zipIdx_append, List.foldl_append]
  have hle : (messages.zipIdx.foldl (legalStep (messages ++ [last])) ([], 0)).2 ≤ messages.length :=
    legalStep_fold_le messages.zipIdx ([], 0)
    (fun p hp => (List.mem_zipIdx' hp).1) (Nat.zero_le _)
  generalize messages.zipIdx.foldl (legalStep (messages ++ [last])) ([], 0) = st at hle ⊢
  show (legalStep (messages ++ [last]) st (last, _)).2 ≤ messages.length
  unfold legalStep
  split
  · exact hle
  case h_2 htool => exact absurd htool hlast
  · exact hle

example : findLegalMessageStart
    [.obj [("role", .str "tool"), ("tool_call_id", .str "orphan")],
      .obj [("role", .str "assistant"), ("tool_calls", .arr [.obj [("id", .str "x")]])],
      .obj [("role", .str "tool"), ("tool_call_id", .str "x")]] = 1 := by
  decide +kernel

/-! ## Selection by a budget -/

section KeepFitting

variable {α : Type}

/-- The messages from the end that fit the budget, the last one always. -/
def keepFitting (tokens : α → Nat) (budget : Nat) : List α → Nat → List α → List α
  | kept, _, [] => kept
  | kept, used, msg :: earlier =>
    if !kept.isEmpty && used + tokens msg > budget then kept
    else keepFitting tokens budget (msg :: kept) (used + tokens msg) earlier

/-- The selection is a suffix that fits, or the last message alone. -/
theorem keepFitting_spec (tokens : α → Nat) (budget : Nat) (kept earlier : List α)
    (hkept : (kept.map tokens).sum ≤ budget ∨ kept.length ≤ 1) :
    kept <:+ keepFitting tokens budget kept (kept.map tokens).sum earlier ∧
    keepFitting tokens budget kept (kept.map tokens).sum earlier <:+ earlier.reverse ++ kept ∧
    (((keepFitting tokens budget kept (kept.map tokens).sum earlier).map tokens).sum ≤ budget ∨
      (keepFitting tokens budget kept (kept.map tokens).sum earlier).length ≤ 1) := by
  induction earlier generalizing kept with
  | nil => exact ⟨List.suffix_refl _, List.suffix_refl _, hkept⟩
  | cons m earlier ih =>
    rw [keepFitting]
    split
    · exact ⟨List.suffix_refl _, List.suffix_append _ _, hkept⟩
    · rename_i hfits
      have hsum : (kept.map tokens).sum + tokens m = ((m :: kept).map tokens).sum := by
        rw [List.map_cons, List.sum_cons, Nat.add_comm]
      have hnext : ((m :: kept).map tokens).sum ≤ budget ∨ (m :: kept).length ≤ 1 := by
        rw [← hsum]
        cases kept with
        | nil => exact Or.inr (by simp)
        | cons x kept =>
          simp only [List.isEmpty_cons, Bool.not_false, Bool.true_and, decide_eq_true_eq] at hfits
          exact Or.inl (Nat.not_lt.mp hfits)
      obtain ⟨hin, hsuffix, hresult⟩ := ih (m :: kept) hnext
      rw [hsum]
      refine ⟨(List.suffix_cons m kept).trans hin, ?_, hresult⟩
      rwa [List.reverse_cons, List.append_assoc]

theorem keepFitting_ne_nil (tokens : α → Nat) (budget : Nat) {messages : List α}
    (h : messages ≠ []) : keepFitting tokens budget [] 0 messages ≠ [] := by
  cases messages with
  | nil => exact absurd rfl h
  | cons m earlier =>
    rw [keepFitting]
    have hspec := (keepFitting_spec tokens budget [m] earlier (Or.inr (by simp))).1
    simp only [List.map_cons, List.map_nil, List.sum_cons, List.sum_nil, Nat.add_zero] at hspec
    intro hnil
    simp only [List.isEmpty_nil, Bool.not_true, Bool.false_and, Bool.false_eq_true, if_false,
      Nat.zero_add] at hnil
    rw [hnil] at hspec
    exact absurd hspec (by simp)

theorem keepFitting_maximal (tokens : α → Nat) (budget : Nat) (kept earlier more rest : List α)
    (hearlier : earlier.reverse = rest ++ more)
    (hmore : ((more ++ kept).map tokens).sum ≤ budget ∨ (more ++ kept).length ≤ 1) :
    more ++ kept <:+ keepFitting tokens budget kept (kept.map tokens).sum earlier := by
  induction earlier generalizing kept more with
  | nil =>
    obtain ⟨-, rfl⟩ := List.append_eq_nil_iff.mp hearlier.symm
    exact List.suffix_refl _
  | cons m earlier ih =>
    rcases List.eq_nil_or_concat more with rfl | ⟨more, x, rfl⟩
    · rw [List.nil_append] at hmore ⊢
      exact (keepFitting_spec tokens budget kept (m :: earlier) hmore).1
    · rw [List.concat_eq_append] at hearlier hmore ⊢
      rw [List.reverse_cons, ← List.append_assoc] at hearlier
      obtain ⟨hrest, hx⟩ := List.append_inj' hearlier rfl
      obtain rfl : m = x := List.singleton_inj.mp hx
      rw [List.append_assoc, List.singleton_append] at hmore ⊢
      have hsum : (kept.map tokens).sum + tokens m = ((m :: kept).map tokens).sum := by
        rw [List.map_cons, List.sum_cons, Nat.add_comm]
      rw [keepFitting, if_neg, hsum]
      · exact ih (m :: kept) more hrest hmore
      · simp only [Bool.and_eq_true, Bool.not_eq_true', List.isEmpty_eq_false_iff,
          decide_eq_true_eq, not_and, Nat.not_lt]
        intro hkept
        have hlength : 0 < kept.length := List.length_pos_iff.mpr hkept
        rw [List.map_append, List.sum_append, List.length_append, List.length_cons] at hmore
        omega

theorem last_suffix_of_suffix {p : α → Prop} {l kept : List α} (hsuffix : kept <:+ l)
    (hkept : ∃ x ∈ kept, p x) {pre post : List α} {u : α} (hsplit : l = pre ++ u :: post)
    (hpost : ∀ x ∈ post, ¬ p x) : u :: post <:+ kept := by
  rcases List.suffix_or_suffix_of_suffix hsuffix ⟨pre, hsplit.symm⟩ with hshort | hlast
  · -- too short, it would have no such message
    rcases hshort with ⟨front, hfront⟩
    rcases front with _ | ⟨x, front⟩
    · rw [List.nil_append] at hfront
      exact ⟨[], hfront.symm⟩
    · obtain ⟨-, htail⟩ := List.cons.inj hfront
      obtain ⟨v, hv, hpv⟩ := hkept
      exact absurd hpv (hpost v (htail ▸ List.mem_append_right _ hv))
  · exact hlast

end KeepFitting

end HiveClaw.Utils
