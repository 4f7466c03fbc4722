import Mathlib.Data.List.InsertIdx
import HiveClaw.Runner.Context

/-!
# The newest message of a request

The passes of the context governance drop and rewrite messages. A user message at the end
goes through all of them unchanged (`mem_govern`).
-/

namespace HiveClaw.Runner

open Providers Utils

variable {ω : Type}

/-- A message that is neither a tool message nor without a role. -/
def Spoken (m : Json) : Prop := (role m).isSome ∧ role m ≠ some "tool"

variable {m : Json}

theorem Spoken.of_user (h : role m = some "user") : Spoken m := by
  simp [Spoken, h]

/-! ## `drop_orphan_tool_results` -/

/-- The fold over the rest of the messages, after the messages `before` have been kept. -/
theorem mem_dropStep_fold (messages before rest : List Json)
    (st : List String × Option (List Json)) (hmessages : messages = before ++ rest)
    (hst : ∀ m ∈ before, Spoken m → ∀ kept ∈ st.2, m ∈ kept) :
    ∀ m ∈ messages, Spoken m →
      ∀ kept ∈ ((rest.zipIdx before.length).foldl (dropStep messages) st).2, m ∈ kept := by
  induction rest generalizing before st with
  | nil =>
    rw [List.append_nil] at hmessages
    rw [hmessages]
    exact hst
  | cons a rest ih =>
    rw [List.zipIdx_cons, List.foldl_cons]
    have hlength : before.length + 1 = (before ++ [a]).length := by simp
    rw [hlength]
    refine ih (before ++ [a]) _ (by rw [hmessages, List.append_assoc]; rfl) ?_
    intro m hm hspoken kept hkept
    unfold dropStep at hkept
    split at hkept
    case h_1 hnone =>
      rcases List.mem_append.mp hm with hm | hm
      · exact hst m hm hspoken kept hkept
      · obtain rfl := List.mem_singleton.mp hm
        have := hspoken.1
        rw [show role m = none from hnone] at this
        exact absurd this (by decide)
    case h_2 r hrole =>
      dsimp only at hkept hrole
      split at hkept
      case isTrue htool =>
        rcases List.mem_append.mp hm with hm | hm
        · obtain rfl := Option.some.inj hkept
          cases hkeptBefore : st.2 with
          | none =>
            rw [Option.getD_none, hmessages, List.take_left]
            exact hm
          | some kept => exact hst m hm hspoken kept hkeptBefore
        · obtain rfl := List.mem_singleton.mp hm
          exact absurd (hrole.trans (congrArg some htool.1)) hspoken.2
      case isFalse =>
        obtain ⟨kept', hkept', rfl⟩ := Option.map_eq_some_iff.mp hkept
        rcases List.mem_append.mp hm with hm | hm
        · exact List.mem_append_left _ (hst m hm hspoken kept' hkept')
        · exact List.mem_append_right _ hm

variable {messages : List Json}

/-- Only tool messages are dropped as orphans. -/
theorem mem_dropOrphanToolResults (hm : m ∈ messages) (hspoken : Spoken m) :
    m ∈ dropOrphanToolResults messages := by
  unfold dropOrphanToolResults
  have hfold := mem_dropStep_fold messages [] messages ([], none) rfl (by simp) m hm hspoken
  cases hkept : (messages.zipIdx.foldl (dropStep messages) ([], none)).2 with
  | none => exact hm
  | some kept => exact hfold kept hkept

/-- A spoken message at the end stays at the end. -/
theorem getLast_dropOrphanToolResults (messages : List Json) (hspoken : Spoken m) :
    ∃ kept, dropOrphanToolResults (messages ++ [m]) = kept ++ [m] := by
  unfold dropOrphanToolResults
  rw [List.zipIdx_append, List.foldl_append]
  generalize messages.zipIdx.foldl (dropStep (messages ++ [m])) ([], none) = st
  rw [List.zipIdx_singleton, List.foldl_cons, List.foldl_nil]
  obtain ⟨hrole, htool⟩ := hspoken
  obtain ⟨r, hr⟩ := Option.isSome_iff_exists.mp hrole
  have hne : r ≠ "tool" := fun h => htool (hr.trans (congrArg some h))
  unfold dropStep
  simp only [hr, hne, false_and, if_false]
  cases st.2 with
  | none => exact ⟨messages, rfl⟩
  | some kept => exact ⟨kept, rfl⟩

/-! ## `backfill_missing_tool_results` -/

/-- Filling in answers takes no message away. -/
theorem mem_backfillMissingToolResults (hm : m ∈ messages) :
    m ∈ backfillMissingToolResults messages := by
  have hfold : ∀ (ds : List Declared) (st : List Json × Nat), m ∈ st.1 →
      m ∈ (ds.foldl backfillStep st).1 := by
    intro ds
    induction ds with
    | nil => exact fun st h => h
    | cons d ds ih => exact fun st h => ih _ (List.subset_insertIdx _ _ _ h)
  exact hfold _ _ hm

theorem insertIdx_append_left {α : Type} (l l' : List α) (a : α) {i : Nat} (h : i ≤ l.length) :
    (l ++ l').insertIdx i a = l.insertIdx i a ++ l' := by
  induction l generalizing i with
  | nil =>
    obtain rfl := Nat.le_zero.mp h
    rfl
  | cons b l ih =>
    cases i with
    | zero => rfl
    | succ i =>
      rw [List.cons_append, List.insertIdx_succ_cons, ih (Nat.le_of_succ_le_succ h)]
      rfl

/-- An answer is inserted at the latest before the first message that is no tool message. -/
theorem insertPosition_le (messages : List Json) (hm : role m ≠ some "tool") (start : Nat)
    (hstart : start ≤ messages.length) :
    insertPosition (messages ++ [m]) start ≤ messages.length := by
  unfold insertPosition
  have hrest : ((messages ++ [m]).drop start).takeWhile (fun m => role m = some "tool") =
      (messages.drop start).takeWhile fun m => role m = some "tool" := by
    rw [List.drop_append_of_le_length hstart, List.takeWhile_append]
    split
    case isTrue hall =>
      have heq := (List.takeWhile_prefix (l := messages.drop start)
        fun m => role m = some "tool").eq_of_length hall
      simp [hm, heq]
    case isFalse => rfl
  have hlength := List.Sublist.length_le
    (List.takeWhile_sublist (l := messages.drop start) fun m => role m = some "tool")
  rw [hrest]
  rw [List.length_drop] at hlength
  omega

theorem idx_of_mem_declaredAt {p : Json × Nat} {d : Declared} (hd : d ∈ declaredAt p) :
    d.idx = p.2 ∧ role p.1 = some "assistant" := by
  unfold declaredAt at hd
  split at hd
  case isTrue hrole =>
    obtain ⟨tc, -, htc⟩ := List.mem_filterMap.mp hd
    obtain ⟨id, -, rfl⟩ := Option.map_eq_some_iff.mp htc
    exact ⟨rfl, hrole⟩
  case isFalse => exact absurd hd List.not_mem_nil

/-- A message at the end that is neither a tool nor an assistant message stays at the end: all
insertions come before it. -/
theorem getLast_backfillMissingToolResults (messages : List Json) (hspoken : Spoken m)
    (hassistant : role m ≠ some "assistant") :
    ∃ kept, backfillMissingToolResults (messages ++ [m]) = kept ++ [m] := by
  have hfold : ∀ (ds : List Declared) (kept : List Json) (offset : Nat),
      (∀ d ∈ ds, d.idx < messages.length) → kept.length = messages.length + offset →
      ∃ kept', (ds.foldl backfillStep (kept ++ [m], offset)).1 = kept' ++ [m] := by
    intro ds
    induction ds with
    | nil => exact fun kept _ _ _ => ⟨kept, rfl⟩
    | cons d ds ih =>
      intro kept offset hds hlength
      obtain ⟨hd, hrest⟩ := List.forall_mem_cons.mp hds
      have hposition := insertPosition_le kept hspoken.2 (d.idx + 1 + offset) (by omega)
      rw [List.foldl_cons]
      unfold backfillStep
      dsimp only
      generalize insertPosition (kept ++ [m]) (d.idx + 1 + offset) = i at hposition ⊢
      have hinsert : (kept ++ [m]).insertIdx i (toolMessage (.str d.id) d.name (.str backfillContent)) =
          kept.insertIdx i (toolMessage (.str d.id) d.name (.str backfillContent)) ++ [m] := by
        exact insertIdx_append_left _ _ _ hposition
      rw [hinsert]
      refine ih _ _ hrest ?_
      rw [List.length_insertIdx_of_le_length hposition, hlength]
      omega
  refine hfold _ messages 0 ?_ rfl
  intro d hd
  obtain ⟨p, hp, hd⟩ := List.mem_flatMap.mp (List.mem_filter.mp hd).1
  obtain ⟨hidx, hrole⟩ := idx_of_mem_declaredAt hd
  obtain ⟨hlt, hget⟩ := List.mem_zipIdx' hp
  rw [hidx]
  rw [List.length_append, List.length_singleton] at hlt
  refine Nat.lt_of_le_of_ne (Nat.le_of_lt_succ hlt) fun heq => hassistant ?_
  have : p.1 = m := by
    rw [hget]
    simp [heq]
  rw [← this]
  exact hrole

/-! ## `microcompact` and `apply_tool_result_budget` -/

/-- The last message is compacted only if it is a tool message. -/
theorem getLast_microcompact (messages : List Json) (hspoken : Spoken m) :
    ∃ kept, microcompact (messages ++ [m]) = kept ++ [m] := by
  unfold microcompact
  dsimp only
  generalize hstale : List.take _ _ = stale
  have hfresh : messages.length ∉ stale := by
    rw [← hstale]
    intro hmem
    obtain ⟨p, hp, hidx⟩ := List.mem_map.mp (List.mem_of_mem_take hmem)
    obtain ⟨hp, hcompactable⟩ := List.mem_filter.mp hp
    obtain ⟨-, hget⟩ := List.mem_zipIdx' hp
    have hm : p.1 = m := by
      rw [hget]
      simp [hidx]
    rw [hm, compactable, Bool.and_eq_true] at hcompactable
    exact hspoken.2 (of_decide_eq_true hcompactable.1)
  rw [List.zipIdx_append, List.map_append]
  refine ⟨_, congrArg₂ (· ++ ·) rfl ?_⟩
  simp [hfresh]

theorem getLast_budgetFrom (env : Env ω) (messages : List Json) (hspoken : Spoken m) (w : ω)
    (idx : Nat) : ∃ kept, (budgetFrom env w idx (messages ++ [m])).1 = kept ++ [m] := by
  induction messages generalizing w idx with
  | nil =>
    refine ⟨[], ?_⟩
    simp [budgetFrom, budgeted, hspoken.2]
  | cons a messages ih =>
    obtain ⟨kept, hkept⟩ := ih (budgeted env w idx a).2 (idx + 1)
    refine ⟨(budgeted env w idx a).1 :: kept, ?_⟩
    rw [List.cons_append, budgetFrom]
    dsimp only
    rw [hkept]
    rfl

/-! ## `snip_history` -/

/-- The budget loop puts older messages in front of what it has kept. -/
theorem getLast_keepFitting (tokens : Json → Nat) (budget : Nat) (kept : List Json) (used : Nat)
    (earlier : List Json) :
    ∃ kept', keepFitting tokens budget (kept ++ [m]) used earlier = kept' ++ [m] := by
  induction earlier generalizing kept used with
  | nil => exact ⟨kept, rfl⟩
  | cons a earlier ih =>
    rw [keepFitting]
    split
    · exact ⟨kept, rfl⟩
    · exact ih (a :: kept) _

theorem keepFitting_last (tokens : Json → Nat) (budget : Nat) (m : Json) (earlier : List Json) :
    ∃ kept, keepFitting tokens budget [] 0 (m :: earlier) = kept ++ [m] := by
  rw [keepFitting]
  exact getLast_keepFitting tokens budget [] _ earlier

/-- Cutting to the first user message keeps a user message at the end. -/
theorem getLast_fromUser (kept nonSystem : List Json) (hm : role m = some "user") :
    ∃ kept', fromUser (kept ++ [m]) nonSystem = kept' ++ [m] := by
  unfold fromUser
  split
  case h_1 i hi =>
    obtain ⟨hlt, -, -⟩ := List.findIdx?_eq_some_iff_getElem.mp hi
    rw [List.length_append, List.length_singleton] at hlt
    exact ⟨kept.drop i, List.drop_append_of_le_length (Nat.le_of_lt_succ hlt)⟩
  case h_2 hnone =>
    have hnot := List.findIdx?_eq_none_iff.mp hnone m (List.mem_append_right _ (List.mem_singleton_self m))
    rw [hm] at hnot
    exact absurd hnot (by decide)

/-- So does cutting to the first legal start. -/
theorem getLast_fromLegalStart (kept : List Json) (hm : role m = some "user") :
    ∃ kept', fromLegalStart (kept ++ [m]) = kept' ++ [m] := by
  have htool : m.getStr "role" ≠ some "tool" := by
    rw [show m.getStr "role" = some "user" from hm]
    decide
  exact ⟨_, List.drop_append_of_le_length (findLegalMessageStart_concat_le kept htool)⟩

/-- The newest user message survives the budget, however long it is. -/
theorem mem_snipHistory (env : Env ω) (spec : AgentRunSpec) (messages : List Json)
    (hm : role m = some "user") : m ∈ snipHistory env spec (messages ++ [m]) := by
  have hmem : m ∈ messages ++ [m] := List.mem_append_right _ (List.mem_singleton_self m)
  have hlast : (messages ++ [m]).filter (fun m => role m ≠ some "system") =
      messages.filter (fun m => role m ≠ some "system") ++ [m] := by
    rw [List.filter_append]
    simp [hm]
  unfold snipHistory
  cases snipBudget spec with
  | none => exact hmem
  | some budget =>
    dsimp only
    split
    · exact hmem
    · split
      · exact hmem
      · refine List.mem_append_right _ ?_
        rw [hlast, List.reverse_append, List.reverse_singleton, List.singleton_append]
        generalize max 128 budget - _ = remaining
        obtain ⟨kept, hkept⟩ := keepFitting_last env.estimateMessageTokens remaining m
          (messages.filter fun m => role m ≠ some "system").reverse
        obtain ⟨fromU, hfromU⟩ := getLast_fromUser kept
          (messages.filter (fun m => role m ≠ some "system") ++ [m]) hm
        obtain ⟨legal, hlegal⟩ := getLast_fromLegalStart fromU hm
        have hne : ∀ l : List Json, (l ++ [m]).isEmpty = false := fun l => by simp
        rw [hkept]
        simp only [hne, Bool.false_eq_true, if_false, hfromU, hlegal]
        exact List.mem_append_right _ (List.mem_singleton_self m)

/-- All five passes of the governance keep the newest user message. -/
theorem mem_govern (env : Env ω) (spec : AgentRunSpec) (w : ω) (messages : List Json)
    (hm : role m = some "user") : m ∈ (govern env spec w (messages ++ [m])).1 := by
  have hspoken := Spoken.of_user hm
  have hassistant : role m ≠ some "assistant" := by
    rw [hm]
    decide
  obtain ⟨dropped, hdropped⟩ := getLast_dropOrphanToolResults messages hspoken
  obtain ⟨filled, hfilled⟩ := getLast_backfillMissingToolResults dropped hspoken hassistant
  obtain ⟨compact, hcompact⟩ := getLast_microcompact filled hspoken
  obtain ⟨budget, hbudget⟩ := getLast_budgetFrom env compact hspoken w 0
  unfold govern applyToolResultBudget
  rw [hdropped, hfilled, hcompact]
  dsimp only
  rw [hbudget]
  exact mem_backfillMissingToolResults
    (mem_dropOrphanToolResults (mem_snipHistory env spec budget hm) hspoken)

end HiveClaw.Runner
