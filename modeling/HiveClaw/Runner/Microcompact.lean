import HiveClaw.Lib.ByteSlice
import HiveClaw.Runner.Context

/-!
# Old tool results

`microcompact` of `crates/agent/src/runner.rs` replaces the results of some tools by one line, except
for the newest of them.

* `microcompact_keeps` — the fields that every message keeps, where a content can change, and that a
  second pass changes nothing.
-/

namespace HiveClaw.Runner

open Utils

-- ---
-- All but the newest
-- ---

section Indices

variable {α : Type} (p : α → Bool)

/-- The positions, counted from `k` on, of the elements with a property. -/
def indicesFrom (k : Nat) (l : List α) : List Nat :=
  ((l.zipIdx k).filter fun q => p q.1).map Prod.snd

variable {p}

theorem indicesFrom_cons (k : Nat) (x : α) (l : List α) :
    indicesFrom p k (x :: l) =
      if p x then k :: indicesFrom p (k + 1) l else indicesFrom p (k + 1) l := by
  rw [indicesFrom, List.zipIdx_cons, List.filter_cons]
  split <;> rfl

theorem le_of_mem_indicesFrom {k i : Nat} {l : List α} (h : i ∈ indicesFrom p k l) : k ≤ i := by
  obtain ⟨q, hq, rfl⟩ := List.mem_map.mp h
  exact List.le_snd_of_mem_zipIdx (List.mem_filter.mp hq).1

theorem length_indicesFrom (k : Nat) (l : List α) : (indicesFrom p k l).length = l.countP p := by
  induction l generalizing k with
  | nil => rfl
  | cons x l ih =>
    rw [indicesFrom_cons, List.countP_cons]
    split
    case isTrue => rw [List.length_cons, ih]
    case isFalse => rw [ih, Nat.add_zero]

theorem mem_take_indicesFrom (keep k j : Nat) (l : List α) :
    k + j ∈ (indicesFrom p k l).take ((indicesFrom p k l).length - keep) ↔
      ∃ x, l[j]? = some x ∧ p x = true ∧ keep ≤ (l.drop (j + 1)).countP p := by
  induction l generalizing k j with
  | nil => simp [indicesFrom]
  | cons x l ih =>
    have hlength := length_indicesFrom (p := p) (k + 1) l
    rw [indicesFrom_cons]
    by_cases hx : p x = true
    · rw [if_pos hx, List.length_cons]
      by_cases hkeep : keep ≤ l.countP p
      · have hsub : (indicesFrom p (k + 1) l).length + 1 - keep =
            (indicesFrom p (k + 1) l).length - keep + 1 := by omega
        rw [hsub, List.take_succ_cons, List.mem_cons]
        cases j with
        | zero => simp [hx, hkeep]
        | succ j =>
          rw [or_iff_right (by omega), show k + (j + 1) = k + 1 + j by omega, ih]
          rfl
      · -- there are not even `keep` of them
        have hzero : (indicesFrom p (k + 1) l).length + 1 - keep = 0 := by omega
        rw [hzero, List.take_zero]
        refine iff_of_false List.not_mem_nil ?_
        rintro ⟨-, -, -, hle⟩
        have hdrop := (List.drop_sublist j l).countP_le (p := p)
        rw [List.drop_succ_cons] at hle
        omega
    · rw [if_neg hx]
      cases j with
      | zero =>
        refine iff_of_false (fun h => ?_) ?_
        · have := le_of_mem_indicesFrom (List.mem_of_mem_take h)
          omega
        · rintro ⟨y, hy, hpy, -⟩
          exact hx (Option.some.inj hy ▸ hpy)
      | succ j =>
        rw [show k + (j + 1) = k + 1 + j by omega, ih]
        rfl

end Indices

-- ---
-- One message
-- ---

variable {msg : Json}

theorem fields_of_compactable (h : compactable msg = true) :
    msg.get "role" = some (.str "tool") ∧
      ∃ name ∈ compactableTools, msg.get "name" = some (.str name) := by
  rw [compactable, Bool.and_eq_true] at h
  obtain ⟨hrole, hname⟩ := h
  have hstr : ∀ {key s : String}, msg.getStr key = some s → msg.get key = some (.str s) := by
    intro key s hkey
    obtain ⟨v, hv, hs⟩ := Option.bind_eq_some_iff.mp hkey
    cases v with
    | str t => rw [hv, ← Option.some.inj hs]
    | _ => cases hs
  refine ⟨hstr (of_decide_eq_true hrole), ?_⟩
  cases hget : msg.getStr "name" with
  | none =>
    rw [hget] at hname
    cases hname
  | some name =>
    rw [hget] at hname
    exact ⟨name, List.contains_iff_mem.mp hname, hstr hget⟩

def summaryOf (name : String) : String := "[" ++ name ++ " result omitted from context]"

theorem get_compacted (h : compactable msg = true) :
    (compacted msg).get "role" = msg.get "role" ∧ (compacted msg).get "name" = msg.get "name" ∧
      ((compacted msg).get "tool_call_id" = msg.get "tool_call_id" ∨
        msg.get "tool_call_id" = none ∧ (compacted msg).get "tool_call_id" = some .null) := by
  obtain ⟨hrole, name, -, hname⟩ := fields_of_compactable h
  have hstr : msg.getStr "name" = some name := by rw [Json.getStr, hname]; rfl
  rw [compacted]
  split
  case isTrue => exact ⟨rfl, rfl, .inl rfl⟩
  case isFalse =>
    rw [hstr, hrole, hname]
    refine ⟨rfl, rfl, ?_⟩
    cases hid : msg.get "tool_call_id" with
    | none => exact .inr ⟨rfl, rfl⟩
    | some id => exact .inl rfl

theorem compactable_compacted (h : compactable msg = true) :
    compactable (compacted msg) = true := by
  obtain ⟨hrole, hname, -⟩ := get_compacted h
  have hsame : compactable (compacted msg) = compactable msg := by
    rw [compactable, compactable, role, role, Json.getStr, Json.getStr, Json.getStr, Json.getStr,
      hrole, hname]
  rw [hsame, h]

theorem utf8ByteSize_summaryOf {name : String} (h : name ∈ compactableTools) :
    (summaryOf name).utf8ByteSize < microcompactMinChars := by
  rw [Lib.utf8ByteSize_eq_byteLen]
  revert name
  decide

theorem compacted_compacted (h : compactable msg = true) :
    compacted (compacted msg) = compacted msg := by
  obtain ⟨-, name, hmem, hname⟩ := fields_of_compactable h
  have hstr : msg.getStr "name" = some name := by rw [Json.getStr, hname]; rfl
  by_cases hshort : ((msg.getStr "content").getD "").utf8ByteSize < microcompactMinChars
  · have hsame : compacted msg = msg := if_pos hshort
    rw [hsame, hsame]
  · have hlong : compacted msg = toolMessage ((msg.get "tool_call_id").getD .null) name
        (.str (summaryOf name)) := by
      rw [compacted, if_neg hshort, hstr]
      rfl
    rw [hlong]
    exact if_pos (utf8ByteSize_summaryOf hmem)

-- ---
-- All messages
-- ---

/-- What happens to a message with so many compactable ones behind it. -/
def compactedBefore (newer : Nat) (msg : Json) : Json :=
  if compactable msg = true ∧ microcompactKeepRecent ≤ newer then compacted msg else msg

theorem compactable_compactedBefore (newer : Nat) (msg : Json) :
    compactable (compactedBefore newer msg) = compactable msg := by
  rw [compactedBefore]
  split
  case isTrue h => rw [compactable_compacted h.1, h.1]
  case isFalse => rfl

theorem compactedBefore_compactedBefore (newer : Nat) (msg : Json) :
    compactedBefore newer (compactedBefore newer msg) = compactedBefore newer msg := by
  by_cases h : compactable msg = true ∧ microcompactKeepRecent ≤ newer
  · have hcompacted : compactedBefore newer msg = compacted msg := if_pos h
    have hagain : compactedBefore newer (compacted msg) = compacted (compacted msg) :=
      if_pos ⟨compactable_compacted h.1, h.2⟩
    rw [hcompacted, hagain, compacted_compacted h.1]
  · have hsame : compactedBefore newer msg = msg := if_neg h
    rw [hsame, hsame]

/-- What `microcompact` does to the message at a position. -/
theorem getElem?_microcompact (messages : List Json) (i : Nat) :
    (microcompact messages)[i]? =
      messages[i]?.map (compactedBefore ((messages.drop (i + 1)).countP compactable)) := by
  have hstale := mem_take_indicesFrom (p := compactable) microcompactKeepRecent 0 i messages
  rw [Nat.zero_add] at hstale
  rw [microcompact, List.getElem?_map, List.getElem?_zipIdx]
  cases hmsg : messages[i]? with
  | none => rfl
  | some msg =>
    simp only [hmsg, Option.some.injEq, exists_eq_left'] at hstale
    simp only [Option.map_some, Nat.zero_add]
    exact congrArg some (if_congr hstale rfl rfl)

theorem map_compactable_microcompact (messages : List Json) :
    (microcompact messages).map compactable = messages.map compactable := by
  refine List.ext_getElem? fun i => ?_
  rw [List.getElem?_map, List.getElem?_map, getElem?_microcompact, Option.map_map]
  exact Option.map_congr fun msg _ => compactable_compactedBefore _ msg

theorem microcompact_microcompact (messages : List Json) :
    microcompact (microcompact messages) = microcompact messages := by
  -- as many compactable messages stand behind each position as before
  have hcount : ∀ i, ((microcompact messages).drop i).countP compactable =
      (messages.drop i).countP compactable := by
    intro i
    have hmap := congrArg (List.countP id ∘ List.drop i) (map_compactable_microcompact messages)
    simpa only [Function.comp_apply, ← List.map_drop, List.countP_map, Function.id_comp] using hmap
  refine List.ext_getElem? fun i => ?_
  rw [getElem?_microcompact (microcompact messages), getElem?_microcompact, Option.map_map, hcount]
  exact Option.map_congr fun msg _ => compactedBefore_compactedBefore _ msg

/-- Every message stays in its place with its role, its name and its id (a result without an id
that is compacted gets the id null); only an old result of the compactable tools can change; a
second pass changes nothing. -/
theorem microcompact_keeps (messages : List Json) :
    (microcompact messages).length = messages.length ∧
      (∀ i before after, messages[i]? = some before → (microcompact messages)[i]? = some after →
        after.get "role" = before.get "role" ∧ after.get "name" = before.get "name" ∧
        (after.get "tool_call_id" = before.get "tool_call_id" ∨
          before.get "tool_call_id" = none ∧ after.get "tool_call_id" = some .null) ∧
        (after ≠ before → compactable before = true ∧
          microcompactKeepRecent ≤ (messages.drop (i + 1)).countP compactable)) ∧
      microcompact (microcompact messages) = microcompact messages := by
  refine ⟨by simp [microcompact], ?_, microcompact_microcompact messages⟩
  intro i before after hbefore hafter
  rw [getElem?_microcompact, hbefore, Option.map_some, Option.some.injEq, compactedBefore] at hafter
  split at hafter
  case isTrue h =>
    obtain ⟨hrole, hname, hid⟩ := get_compacted h.1
    exact hafter ▸ ⟨hrole, hname, hid, fun _ => h⟩
  case isFalse =>
    exact hafter ▸ ⟨rfl, rfl, .inl rfl, fun hne => absurd rfl hne⟩

/-- A long result without an id, and ten newer ones. -/
def withoutId : List Json :=
  .obj [("role", .str "tool"), ("name", .str "exec"),
      ("content", .str (String.ofList (List.replicate 500 'a')))] ::
    List.replicate 10 (.obj [("role", .str "tool"), ("name", .str "exec")])

/-- An id that is not there becomes null. -/
theorem withoutId_null :
    ¬ ∀ (messages : List Json) (i : Nat) (before after : Json), messages[i]? = some before →
      (microcompact messages)[i]? = some after →
        after.get "tool_call_id" = before.get "tool_call_id" := by
  intro h
  have hlong : ¬ (String.ofList (List.replicate 500 'a')).utf8ByteSize < microcompactMinChars := by
    rw [Lib.utf8ByteSize_eq_byteLen, String.toList_ofList, Lib.byteLen, List.map_replicate,
      List.sum_replicate_nat]
    decide
  have hafter : (microcompact withoutId)[0]? =
      some (toolMessage .null "exec" (.str (summaryOf "exec"))) := by
    rw [getElem?_microcompact]
    refine congrArg some ((if_pos ⟨?_, ?_⟩).trans (if_neg hlong))
    · decide
    · decide
  cases h withoutId 0 _ _ rfl hafter

end HiveClaw.Runner
