import HiveClaw.Providers.OpenaiCompat

/-!
# What `finalize_messages` keeps

The pass over the messages and the alternation of the roles together.

* `forall_enforce`, `spoken_enforce` — what the alternation does to a property of messages, and that it
  leaves the calls and their answers where they are.
* `final_of_condition` — calls stay with their answers, ids are short, arguments are the texts of their
  objects, a content is blanked only beside a tool call, and a second run changes nothing.
* `final_only_if` — the content of an assistant message with an empty array of tool calls is lost.
-/

namespace HiveClaw.Providers.OpenaiCompat

open Providers

-- ---
-- Properties of messages and the alternation
-- ---

section Alternation

variable {Q : Json → Prop}

theorem forall_mergeInto {prev m : Json} (hsame : SameTurn prev m) (hprev : Q prev) (hm : Q m)
    (hcontent : ∀ m s, Q m → ¬ (isAssistant m = true ∧ hasTools m = true) →
      Q (setField m "content" (.str s))) : Q (mergeInto prev m) := by
  rw [mergeInto]
  split
  · exact hm
  · split
    case isTrue => exact hprev
    case isFalse hother =>
      split
      case h_1 =>
        refine hcontent prev _ hprev fun h => hother ?_
        obtain ⟨hassistant, htools⟩ := h
        have hrole : roleOf m = "assistant" := hsame.1.symm.trans ((isAssistant_iff prev).mp hassistant)
        rw [(roleOf_eq_iff (by decide)).mp hrole, htools]
        rfl
      case h_2 => exact hm

/-- A property that the merging, the recovery of a last message and the insertion of a first one
keep. -/
theorem forall_enforce {messages : List Json} (h : ∀ m ∈ messages, Q m)
    (hcontent : ∀ m s, Q m → ¬ (isAssistant m = true ∧ hasTools m = true) →
      Q (setField m "content" (.str s)))
    (hrole : ∀ m, Q m → isAssistant m = true → Q (setField m "role" (.str "user")))
    (hopening : Q openingMessage) : ∀ m ∈ enforceRoleAlternation messages, Q m := by
  have hfrom : ∀ (rest : List Json) (prev : Json), Q prev → (∀ m ∈ rest, Q m) →
      ∀ m ∈ mergeFrom prev rest, Q m := by
    intro rest
    induction rest with
    | nil => exact fun prev hprev _ => List.forall_mem_singleton.mpr hprev
    | cons m rest ih =>
      intro prev hprev hrest
      obtain ⟨hm, hrest⟩ := List.forall_mem_cons.mp hrest
      rw [mergeFrom]
      split
      case isTrue hsame => exact ih _ (forall_mergeInto hsame hprev hm hcontent) hrest
      case isFalse => exact List.forall_mem_cons.mpr ⟨hprev, ih m hm hrest⟩
  have hmerged : ∀ m ∈ merged messages, Q m := by
    cases messages with
    | nil => exact h
    | cons m rest => exact hfrom rest m (h m List.mem_cons_self) (List.forall_mem_cons.mp h).2
  have hrecovered : ∀ m ∈ recoverPopped (merged messages), Q m := by
    generalize merged messages = messages at hmerged
    have hkept : ∀ m ∈ withoutTrailing messages, Q m := by
      obtain ⟨trailing, hsplit, -⟩ := withoutTrailing_append messages
      intro m hm
      exact hmerged m (hsplit ▸ List.mem_append_left _ hm)
    rw [recoverPopped]
    split
    case h_1 recovered hpopped =>
      split
      case isTrue =>
        have hmem := List.mem_of_getLast? hpopped
        have hassistant := List.mem_takeWhile_imp hmem
        have hin := List.mem_reverse.mp ((List.takeWhile_sublist _).subset hmem)
        refine List.forall_mem_append.mpr ⟨hkept, List.forall_mem_singleton.mpr ?_⟩
        exact hrole recovered (hmerged recovered hin) hassistant
      case isFalse => exact hkept
    case h_2 => exact hkept
  rw [enforceRoleAlternation_eq]
  rcases insertOpening_cases (recoverPopped (merged messages)) with
    ⟨heq, -⟩ | ⟨systems, first, rest, hsplit, -, -, heq⟩
  · rw [heq]
    exact hrecovered
  · rw [heq]
    rw [hsplit] at hrecovered
    obtain ⟨hsystems, hothers⟩ := List.forall_mem_append.mp hrecovered
    exact List.forall_mem_append.mpr ⟨hsystems, List.forall_mem_cons.mpr ⟨hopening, hothers⟩⟩

end Alternation

-- ---
-- Calls and answers stay where they are
-- ---

/-- A tool message, or an assistant message with calls to answer. -/
def isSpoken (m : Json) : Bool := roleOf m = "tool" || isAssistant m && !(toolCallIds m).isEmpty

variable {m : Json}

theorem isSpoken_of_roleOf_eq_user (h : roleOf m = "user") : isSpoken m = false := by
  have hassistant : isAssistant m = false := by
    rw [Bool.eq_false_iff, Ne, isAssistant_iff, h]
    decide
  rw [isSpoken, hassistant, h, Bool.false_and, Bool.or_false]
  decide

theorem isSpoken_eq_false_of_ids (hrole : roleOf m ≠ "tool") (h : toolCallIds m = []) :
    isSpoken m = false := by
  simp [isSpoken, hrole, h]

theorem toolCallIds_of_hasTools (h : hasTools m = false) : toolCallIds m = [] := by
  rw [hasTools] at h
  rw [toolCallIds]
  cases hcalls : m.get "tool_calls" with
  | none => rfl
  | some v =>
    rw [hcalls] at h
    cases v with
    | null => rfl
    | _ => cases h

theorem toolCallIds_setField {key : String} (m v : Json) (h : key ≠ "tool_calls") :
    toolCallIds (setField m key v) = toolCallIds m := by
  rw [toolCallIds, get_setField_of_ne m v h.symm, toolCallIds]

section Spoken

variable {closed : Bool}

variable {m : Json} {rest : List Json}

theorem exists_tool_of_ids (hpaired : Paired closed (m :: rest)) (hrole : roleOf m = "assistant")
    (hids : toolCallIds m ≠ []) : ∃ t, rest.head? = some t ∧ roleOf t = "tool" := by
  have htools : hasTools m = true := by
    by_contra hnone
    exact hids (toolCallIds_of_hasTools (Bool.eq_false_iff.mpr hnone))
  obtain ⟨tools, after, rfl, hall, hperm, -⟩ := hpaired.1 hrole htools
  cases tools with
  | nil => exact absurd (List.map_eq_nil_iff.mp (List.nil_perm.mp hperm)) hids
  | cons t tools => exact ⟨t, rfl, hall t List.mem_cons_self⟩

variable {prev : Json}

theorem isSpoken_eq_false_of_next (hpaired : Paired closed (prev :: m :: rest))
    (hprev : roleOf prev = "assistant") (hm : roleOf m ≠ "tool") : isSpoken prev = false := by
  refine isSpoken_eq_false_of_ids (by rw [hprev]; decide) ?_
  by_contra hids
  obtain ⟨t, ht, htool⟩ := exists_tool_of_ids hpaired hprev hids
  exact hm (Option.some.inj ht ▸ htool)

/-- Of two messages that are merged only the second can be a call to answer, and then it
stays. -/
theorem spoken_mergeInto (hsame : SameTurn prev m) (hpaired : Paired closed (prev :: m :: rest)) :
    isSpoken prev = false ∧
      (mergeInto prev m = m ∨ isSpoken (mergeInto prev m) = false ∧ isSpoken m = false) := by
  have hmerged := roleOf_mergeInto hsame
  rcases hsame.2 with hm | hm
  · have hprev := hsame.1.trans hm
    exact ⟨isSpoken_of_roleOf_eq_user hprev,
      .inr ⟨isSpoken_of_roleOf_eq_user (hmerged.trans hprev), isSpoken_of_roleOf_eq_user hm⟩⟩
  · have hprev := hsame.1.trans hm
    have hquiet := isSpoken_eq_false_of_next hpaired hprev (by rw [hm]; decide)
    refine ⟨hquiet, ?_⟩
    have hstr : m.getStr "role" = some "assistant" := (roleOf_eq_iff (by decide)).mp hm
    rw [mergeInto, hstr]
    split
    case isTrue => exact .inl rfl
    case isFalse hplain =>
      have htools : hasTools m = false := by simpa using hplain
      have hbare := isSpoken_eq_false_of_ids (by rw [hm]; decide) (toolCallIds_of_hasTools htools)
      split
      case isTrue => exact .inr ⟨hquiet, hbare⟩
      case isFalse hplain' =>
        have htools' : hasTools prev = false := by simpa using hplain'
        split
        case h_1 =>
          refine .inr ⟨isSpoken_eq_false_of_ids ?_ ?_, hbare⟩
          · rw [roleOf_setField_content, hprev]
            decide
          · rw [toolCallIds_setField _ _ (by decide), toolCallIds_of_hasTools htools']
        case h_2 => exact .inl rfl

theorem spoken_mergeFrom (hpaired : Paired closed (prev :: rest)) :
    (mergeFrom prev rest).filter isSpoken = (prev :: rest).filter isSpoken := by
  induction rest generalizing prev with
  | nil => rfl
  | cons m rest ih =>
    rw [mergeFrom]
    split
    case isTrue hsame =>
      obtain ⟨hprev, hmerged⟩ := spoken_mergeInto hsame hpaired
      have hquiet {x : Json} (l : List Json) (hx : isSpoken x = false) :
          (x :: l).filter isSpoken = l.filter isSpoken :=
        List.filter_cons_of_neg (Bool.eq_false_iff.mp hx)
      rw [ih (hpaired.mergeInto hsame), hquiet (m :: rest) hprev]
      rcases hmerged with heq | ⟨hmerged, hm⟩
      · rw [heq]
      · rw [hquiet rest hmerged, hquiet rest hm]
    case isFalse => rw [List.filter_cons, ih hpaired.tail, ← List.filter_cons]

variable {messages : List Json}

theorem paired_of_append {others : List Json} (h : Paired closed (messages ++ others)) :
    Paired closed others := by
  induction messages with
  | nil => exact h
  | cons m rest ih => exact ih h.tail

theorem spoken_trailing {trailing : List Json} (hpaired : Paired closed trailing)
    (hassistant : ∀ m ∈ trailing, isAssistant m = true) : trailing.filter isSpoken = [] := by
  induction trailing with
  | nil => rfl
  | cons m rest ih =>
    obtain ⟨hm, hrest⟩ := List.forall_mem_cons.mp hassistant
    have hrole := (isAssistant_iff m).mp hm
    have hids : toolCallIds m = [] := by
      by_contra hids
      obtain ⟨t, ht, htool⟩ := exists_tool_of_ids hpaired hrole hids
      have hother := (isAssistant_iff t).mp (hrest t (List.mem_of_mem_head? ht))
      rw [htool] at hother
      exact absurd hother (by decide)
    have hquiet := isSpoken_eq_false_of_ids (by rw [hrole]; decide) hids
    rw [List.filter_cons_of_neg (by simp [hquiet]), ih hpaired.tail hrest]

theorem spoken_enforce (hpaired : Paired closed messages) :
    (enforceRoleAlternation messages).filter isSpoken = messages.filter isSpoken := by
  have hmerged : (merged messages).filter isSpoken = messages.filter isSpoken := by
    cases messages with
    | nil => rfl
    | cons m rest => exact spoken_mergeFrom hpaired
  have hrecovered : (recoverPopped (merged messages)).filter isSpoken =
      (merged messages).filter isSpoken := by
    have hpaired' := hpaired.merged
    generalize merged messages = messages at hpaired'
    obtain ⟨trailing, hsplit, hassistant⟩ := withoutTrailing_append messages
    have htrailing : trailing.filter isSpoken = [] :=
      spoken_trailing (paired_of_append (hsplit ▸ hpaired')) hassistant
    have hkept : (withoutTrailing messages).filter isSpoken = messages.filter isSpoken := by
      conv_rhs => rw [← hsplit]
      rw [List.filter_append, htrailing, List.append_nil]
    rcases recoverPopped_cases messages with heq | ⟨recovered, heq, hrole, -⟩
    · rw [heq, hkept]
    · rw [heq, List.filter_append, hkept,
        List.filter_cons_of_neg (by simp [isSpoken_of_roleOf_eq_user hrole]), List.filter_nil,
        List.append_nil]
  rw [enforceRoleAlternation_eq, ← hmerged, ← hrecovered]
  rcases insertOpening_cases (recoverPopped (merged messages)) with
    ⟨heq, -⟩ | ⟨systems, first, rest, hsplit, -, -, heq⟩
  · rw [heq]
  · rw [heq, hsplit, List.filter_append, List.filter_append, List.filter_cons_of_neg (by decide)]

end Spoken

-- ---
-- Roles and ids after the pass
-- ---

theorem roleOf_canonical (texts : Texts) (m : Json) : roleOf (canonical texts m) = roleOf m := by
  rw [roleOf, Json.getStr, get_canonical texts m (by decide) (by decide) (by decide) (by decide),
    roleOf, Json.getStr]

theorem isAssistant_canonical (texts : Texts) (m : Json) :
    isAssistant (canonical texts m) = isAssistant m := by
  rw [Bool.eq_iff_iff, isAssistant_iff, isAssistant_iff, roleOf_canonical]

theorem hasTools_canonical (texts : Texts) (m : Json) :
    hasTools (canonical texts m) = hasTools m := by
  rw [hasTools, get_canonical_calls, hasTools]
  cases m.get "tool_calls" with
  | none => rfl
  | some v => cases v <;> rfl

theorem getStr_map_canonicalId (texts : Texts) (v : Option Json) :
    (v.map (canonicalId texts)).bind Json.asStr =
      (v.bind Json.asStr).map (normalizeToolCallId texts) := by
  cases v with
  | none => rfl
  | some v => cases v <;> rfl

theorem answered_canonical (texts : Texts) (m : Json) :
    (canonical texts m).getStr "tool_call_id" =
      (m.getStr "tool_call_id").map (normalizeToolCallId texts) := by
  rw [Json.getStr, get_canonical_id, getStr_map_canonicalId, Json.getStr]

theorem id_canonicalCall (texts : Texts) (tc : Json) :
    (canonicalCall texts tc).getStr "id" =
      (tc.getStr "id").map (normalizeToolCallId texts) := by
  cases tc with
  | obj fields =>
    have hget : (canonicalCall texts (.obj fields)).get "id" =
        (JsonMap.get fields "id").map (canonicalId texts) :=
      (get_withArguments_of_ne texts _ (by decide)).trans (get_canonicalIdField texts fields "id")
    rw [Json.getStr, hget, getStr_map_canonicalId]
    rfl
  | _ => rfl

theorem toolCallIds_canonical (texts : Texts) (m : Json) :
    toolCallIds (canonical texts m) = (toolCallIds m).map (normalizeToolCallId texts) := by
  have hids (m : Json) : toolCallIds m = (callsOf m).filterMap fun tc => tc.getStr "id" := rfl
  rw [hids, hids, callsOf_canonical, List.filterMap_map, List.map_filterMap]
  exact congrArg (List.filterMap · (callsOf m)) (funext fun tc => id_canonicalCall texts tc)

theorem isSpoken_canonical (texts : Texts) (m : Json) :
    isSpoken (canonical texts m) = isSpoken m := by
  rw [isSpoken, roleOf_canonical, isAssistant_canonical, toolCallIds_canonical, List.isEmpty_map,
    isSpoken]

theorem paired_map_canonical {closed : Bool} (texts : Texts) {messages : List Json}
    (h : Paired closed messages) : Paired closed (messages.map (canonical texts)) := by
  induction messages with
  | nil => trivial
  | cons m rest ih =>
    refine ⟨fun hrole htools => ?_, ih h.tail⟩
    rw [roleOf_canonical] at hrole
    rw [hasTools_canonical] at htools
    obtain ⟨tools, after, rfl, hall, hperm, hclosed⟩ := h.1 hrole htools
    refine ⟨tools.map (canonical texts), after.map (canonical texts), List.map_append, ?_, ?_, ?_⟩
    · intro t ht
      obtain ⟨t₀, ht₀, rfl⟩ := List.mem_map.mp ht
      rw [roleOf_canonical]
      exact hall t₀ ht₀
    · have hmapped := hperm.map (Option.map (normalizeToolCallId texts))
      have hleft : (tools.map (canonical texts)).map (fun t => t.getStr "tool_call_id") =
          (tools.map fun t => t.getStr "tool_call_id").map
            (Option.map (normalizeToolCallId texts)) := by
        rw [List.map_map, List.map_map]
        exact List.map_congr_left fun t _ => answered_canonical texts t
      have hright : (toolCallIds (canonical texts m)).map some =
          ((toolCallIds m).map some).map (Option.map (normalizeToolCallId texts)) := by
        rw [toolCallIds_canonical, List.map_map, List.map_map]
        rfl
      rwa [hleft, hright]
    · intro hc hids t ht
      rw [toolCallIds_canonical] at hids
      rw [List.head?_map] at ht
      obtain ⟨t₀, ht₀, rfl⟩ := Option.map_eq_some_iff.mp ht
      rw [roleOf_canonical]
      exact hclosed hc (fun hnil => hids (by rw [hnil, List.map_nil])) t₀ ht₀

-- ---
-- The properties of the output
-- ---

/-- The calls to answer and their answers. -/
def spoken (messages : List Json) : List Json := messages.filter isSpoken

/-- The tool message answers a call of the message. -/
def Answers (m t : Json) : Prop := ∃ id ∈ toolCallIds m, t.getStr "tool_call_id" = some id

/-- Of the calls to answer and their answers, the same belong together. -/
structure SamePairing (before after : List Json) : Prop where
  count : (spoken after).length = (spoken before).length
  answers : ∀ (i j : Nat) (m t m' t' : Json), (spoken before)[i]? = some m →
    (spoken before)[j]? = some t → (spoken after)[i]? = some m' → (spoken after)[j]? = some t' →
      (Answers m t ↔ Answers m' t')

/-- The arguments of a tool call are the text of an object: of their own, if they had one. What is
no object is no tool call and stays. -/
def ArgumentsKept (texts : Texts) (before after : Json) : Prop :=
  if before.asObject.isSome then
    ∃ o, rawArguments after = .str (texts.toText (.obj o)) ∧
      ∀ o₀, objectOf texts (rawArguments before) = some o₀ → o = o₀
  else after = before

/-- What is claimed of `finalize_messages`. -/
structure Final (texts : Texts) (closed : Bool) (messages : List Json) : Prop where
  paired : Paired closed (finalizeMessages texts messages)
  samePairing : SamePairing messages (finalizeMessages texts messages)
  ids : ∀ m ∈ finalizeMessages texts messages,
    (∀ id ∈ toolCallIds m, isShortId id = true) ∧
      ∀ id, m.getStr "tool_call_id" = some id → isShortId id = true
  arguments : ∀ m ∈ finalizeMessages texts messages, callsOf m = [] ∨
    ∃ before ∈ messages, List.Forall₂ (ArgumentsKept texts) (callsOf before) (callsOf m)
  blanked : ∀ m ∈ messages, isAssistant m = true → ∀ content, m.get "content" = some content →
    content ≠ .null → (canonical texts m).get "content" = some .null →
      ∃ tc ∈ callsOf m, tc.asObject.isSome
  idempotent : finalizeMessages texts (finalizeMessages texts messages) =
    finalizeMessages texts messages

/-- An assistant message with a content and an array of tool calls has a tool call. -/
def Filled (messages : List Json) : Prop :=
  ∀ m ∈ messages, isAssistant m = true → ∀ tcs, m.get "tool_calls" = some (.arr tcs) →
    (∀ tc ∈ tcs, tc.asObject = none) → ∀ content, m.get "content" = some content → content = .null

/-- The texts of all arguments are read as they have been written. -/
def AllReadBack (texts : Texts) (messages : List Json) : Prop :=
  ∀ m ∈ messages, ∀ tc ∈ callsOf m, ∀ o, objectOf texts (rawArguments tc) = some o →
    ReadsBack texts o

def idsOf (messages : List Json) : List String :=
  messages.flatMap fun m => toolCallIds m ++ (m.getStr "tool_call_id").toList

theorem isCanonical_setContent {texts : Texts} (s : String) (h : IsCanonical texts m)
    (hplain : ¬ (isAssistant m = true ∧ hasTools m = true)) :
    IsCanonical texts (setField m "content" (.str s)) := by
  cases m with
  | obj fields =>
    obtain ⟨hallowed, -, hcalls, hid⟩ := h fields rfl
    rintro _ ⟨⟩
    refine ⟨forall_key_insert _ hallowed (by decide), fun _ => ?_, fun tcs htcs => ?_, fun v hv => ?_⟩
    · rw [JsonMap.get_insert_self]
      rfl
    · rw [JsonMap.get_insert_of_ne _ _ (by decide)] at htcs
      refine ⟨(hcalls tcs htcs).1, fun hrole => ?_⟩
      rw [JsonMap.get_insert_of_ne _ _ (by decide)] at hrole
      have htools : hasTools (.obj fields) = true := by
        have hget : Json.get (.obj fields) "tool_calls" = some (.arr tcs) := htcs
        rw [hasTools, hget]
        rfl
      exact absurd ⟨decide_eq_true hrole, htools⟩ hplain
    · rw [JsonMap.get_insert_of_ne _ _ (by decide)] at hv
      exact hid v hv
  | _ => exact h

theorem isCanonical_setRole {texts : Texts} (h : IsCanonical texts m) :
    IsCanonical texts (setField m "role" (.str "user")) := by
  cases m with
  | obj fields =>
    obtain ⟨hallowed, -, hcalls, hid⟩ := h fields rfl
    rintro _ ⟨⟩
    have huser : ¬ (JsonMap.get (JsonMap.insert fields "role" (.str "user")) "role").bind
        Json.asStr = some "assistant" := by
      rw [JsonMap.get_insert_self]
      decide
    refine ⟨forall_key_insert _ hallowed (by decide), fun hrole => absurd hrole huser,
      fun tcs htcs => ?_, fun v hv => ?_⟩
    · rw [JsonMap.get_insert_of_ne _ _ (by decide)] at htcs
      exact ⟨(hcalls tcs htcs).1, fun hrole => absurd hrole huser⟩
    · rw [JsonMap.get_insert_of_ne _ _ (by decide)] at hv
      exact hid v hv
  | _ => exact h

section Final

variable {texts : Texts} {closed : Bool} {messages : List Json}

theorem spoken_finalize (hpaired : Paired closed messages) :
    spoken (finalizeMessages texts messages) = (spoken messages).map (canonical texts) := by
  have hcomp : isSpoken ∘ canonical texts = isSpoken := funext (isSpoken_canonical texts)
  rw [spoken, finalizeMessages_eq, spoken_enforce (paired_map_canonical texts hpaired),
    List.filter_map, hcomp, spoken]

theorem mem_idsOf {m : Json} {id : String} (hm : m ∈ messages)
    (hid : id ∈ toolCallIds m ∨ m.getStr "tool_call_id" = some id) : id ∈ idsOf messages := by
  refine List.mem_flatMap.mpr ⟨m, hm, List.mem_append.mpr ?_⟩
  rcases hid with hid | hid
  · exact .inl hid
  · exact .inr (Option.mem_toList.mpr hid)

theorem samePairing_finalize (hpaired : Paired closed messages)
    (hdistinct : ∀ a ∈ idsOf messages, ∀ b ∈ idsOf messages,
      normalizeToolCallId texts a = normalizeToolCallId texts b → a = b) :
    SamePairing messages (finalizeMessages texts messages) := by
  have hspoken := @spoken_finalize texts _ _ hpaired
  refine ⟨by rw [hspoken, List.length_map], ?_⟩
  intro i j m t m' t' hm ht hm' ht'
  rw [hspoken, List.getElem?_map] at hm' ht'
  rw [hm] at hm'
  rw [ht] at ht'
  obtain rfl := Option.some.inj hm'
  obtain rfl := Option.some.inj ht'
  have hin {x : Json} {k : Nat} (hx : (spoken messages)[k]? = some x) : x ∈ messages :=
    (List.mem_filter.mp (List.mem_of_getElem? hx)).1
  constructor
  · rintro ⟨id, hid, hanswer⟩
    refine ⟨normalizeToolCallId texts id, ?_, ?_⟩
    · rw [toolCallIds_canonical]
      exact List.mem_map_of_mem hid
    · rw [answered_canonical, hanswer, Option.map_some]
  · rintro ⟨short, hshort, hanswer⟩
    rw [toolCallIds_canonical] at hshort
    obtain ⟨id, hid, rfl⟩ := List.mem_map.mp hshort
    rw [answered_canonical] at hanswer
    obtain ⟨id', hid', heq⟩ := Option.map_eq_some_iff.mp hanswer
    -- ids that are the same afterwards were the same before
    have hsame := hdistinct id' (mem_idsOf (hin ht) (.inr hid')) id (mem_idsOf (hin hm) (.inl hid)) heq
    exact ⟨id, hid, hsame ▸ hid'⟩

theorem ids_finalize (hlaws : texts.Lawful) : ∀ m ∈ finalizeMessages texts messages,
    (∀ id ∈ toolCallIds m, isShortId id = true) ∧
      ∀ id, m.getStr "tool_call_id" = some id → isShortId id = true := by
  rw [finalizeMessages_eq]
  have hset {key : String} (m v : Json) (hcalls : key ≠ "tool_calls") (hid : key ≠ "tool_call_id")
      (h : (∀ id ∈ toolCallIds m, isShortId id = true) ∧
        ∀ id, m.getStr "tool_call_id" = some id → isShortId id = true) :
      (∀ id ∈ toolCallIds (setField m key v), isShortId id = true) ∧
        ∀ id, (setField m key v).getStr "tool_call_id" = some id → isShortId id = true := by
    rw [toolCallIds_setField m v hcalls, Json.getStr, get_setField_of_ne m v hid.symm]
    exact h
  refine forall_enforce ?_ ?_ ?_ ?_
  · intro m hm
    obtain ⟨m₀, -, rfl⟩ := List.mem_map.mp hm
    rw [toolCallIds_canonical, answered_canonical]
    constructor
    · intro id hid
      obtain ⟨id₀, -, rfl⟩ := List.mem_map.mp hid
      exact isShortId_normalize hlaws id₀
    · intro id hid
      obtain ⟨id₀, -, rfl⟩ := Option.map_eq_some_iff.mp hid
      exact isShortId_normalize hlaws id₀
  · exact fun m s h _ => hset m (.str s) (by decide) (by decide) h
  · exact fun m h _ => hset m (.str "user") (by decide) (by decide) h
  · exact ⟨nofun, nofun⟩

theorem argumentsKept_canonicalCall (hlaws : texts.Lawful) (tc : Json) :
    ArgumentsKept texts tc (canonicalCall texts tc) := by
  rw [ArgumentsKept]
  split
  case isTrue h =>
    refine ⟨_, rawArguments_canonicalCall hlaws h, fun o₀ ho₀ => ?_⟩
    rw [ho₀, Option.getD_some]
  case isFalse h =>
    cases tc with
    | obj fields => exact absurd rfl h
    | _ => rfl

theorem arguments_finalize (hlaws : texts.Lawful) : ∀ m ∈ finalizeMessages texts messages,
    callsOf m = [] ∨ ∃ before ∈ messages,
      List.Forall₂ (ArgumentsKept texts) (callsOf before) (callsOf m) := by
  rw [finalizeMessages_eq]
  have hset {key : String} (m v : Json) (hcalls : key ≠ "tool_calls") :
      callsOf (setField m key v) = callsOf m := by
    rw [callsOf, get_setField_of_ne m v hcalls.symm, callsOf]
  refine forall_enforce ?_ ?_ ?_ (.inl rfl)
  · intro m hm
    obtain ⟨m₀, hm₀, rfl⟩ := List.mem_map.mp hm
    refine .inr ⟨m₀, hm₀, ?_⟩
    rw [callsOf_canonical, List.forall₂_map_right_iff, List.forall₂_same]
    exact fun tc _ => argumentsKept_canonicalCall hlaws tc
  · intro m s h _
    rwa [hset m (.str s) (by decide)]
  · intro m h _
    rwa [hset m (.str "user") (by decide)]

theorem idempotent_finalize (hlaws : texts.Lawful) (hread : AllReadBack texts messages) :
    finalizeMessages texts (finalizeMessages texts messages) = finalizeMessages texts messages := by
  have hcanonical : ∀ m ∈ finalizeMessages texts messages, IsCanonical texts m := by
    rw [finalizeMessages_eq]
    refine forall_enforce ?_ ?_ ?_ ?_
    · intro m hm
      obtain ⟨m₀, hm₀, rfl⟩ := List.mem_map.mp hm
      exact isCanonical_canonical hlaws (hread m₀ hm₀)
    · exact fun m s h hplain => isCanonical_setContent s h hplain
    · exact fun m h _ => isCanonical_setRole h
    · rintro fields ⟨⟩
      exact ⟨by decide, nofun, nofun, nofun⟩
  have hmap : (finalizeMessages texts messages).map (canonical texts) =
      finalizeMessages texts messages := by
    conv_rhs => rw [← List.map_id (finalizeMessages texts messages)]
    exact List.map_congr_left fun m hm => canonical_of_isCanonical (hcanonical m hm)
  rw [finalizeMessages_eq (finalizeMessages texts messages), hmap, finalizeMessages_eq]
  exact enforce_of_alternating (enforce_alternating _)

/-- A content is blanked only beside a tool call exactly if no array without tool calls stands
beside one. -/
theorem blanked_iff : Filled messages ↔
    ∀ m ∈ messages, isAssistant m = true → ∀ content, m.get "content" = some content →
      content ≠ .null → (canonical texts m).get "content" = some .null →
        ∃ tc ∈ callsOf m, tc.asObject.isSome := by
  constructor
  · intro hfilled m hm hassistant content hcontent hne hnull
    by_contra hnone
    have harray : ∃ tcs, m.get "tool_calls" = some (.arr tcs) := by
      by_contra hplain
      have hsame := get_canonical_content texts hcontent
        fun _ tcs htcs => hplain ⟨tcs, htcs⟩
      exact hne (Option.some.inj (hsame.symm.trans hnull))
    obtain ⟨tcs, htcs⟩ := harray
    refine hne (hfilled m hm hassistant tcs htcs (fun tc htc => ?_) content hcontent)
    by_contra hobject
    refine hnone ⟨tc, ?_, Option.isSome_iff_ne_none.mpr hobject⟩
    rw [callsOf, htcs]
    exact htc
  · intro hblanked m hm hassistant tcs htcs hnone content hcontent
    by_contra hne
    obtain ⟨tc, htc, hobject⟩ := hblanked m hm hassistant content hcontent hne
      (get_canonical_content_of_calls texts hassistant htcs)
    rw [callsOf, htcs] at htc
    rw [hnone tc htc] at hobject
    cases hobject

/-- Where the ids stay distinct and the texts of the arguments are read back, `finalize_messages`
has all its properties exactly if no array without tool calls stands beside a content. -/
theorem final_iff (hlaws : texts.Lawful) (hpaired : Paired closed messages)
    (hdistinct : ∀ a ∈ idsOf messages, ∀ b ∈ idsOf messages,
      normalizeToolCallId texts a = normalizeToolCallId texts b → a = b) :
    (Filled messages ∧ AllReadBack texts messages → Final texts closed messages) ∧
      (Final texts closed messages → Filled messages) := by
  refine ⟨fun ⟨hfilled, hread⟩ => ?_, fun hfinal => blanked_iff.mpr hfinal.blanked⟩
  exact {
    paired := by
      rw [finalizeMessages_eq]
      exact (paired_map_canonical texts hpaired).enforce
    samePairing := samePairing_finalize hpaired hdistinct
    ids := ids_finalize hlaws
    arguments := arguments_finalize hlaws
    blanked := blanked_iff.mp hfilled
    idempotent := idempotent_finalize hlaws hread }

end Final

/-- The digest of `call_1`. -/
def sampleDigest : String := "74196fe72e4cdc135c1033e05a2e020ca36c0f3697c0853d6d53567b51d9f58f"

def sampleTexts : Texts where
  fromStr s :=
    if s = "\x7b\x7d" then some (.obj [])
    else if s = "\x7b\"a\":1\x7d" then some (.obj [("a", .num (.int 1))])
    else none
  toText v := if v = .obj [] then "\x7b\x7d" else "\x7b\"a\":1\x7d"
  sha256Hex _ := sampleDigest

theorem lawful_sampleTexts : sampleTexts.Lawful where
  fromStr_empty := by decide
  fromStr_braces := by decide
  toText_braces := by decide
  digest_length _ := show sampleDigest.toList.length = 64 by decide
  digest_hex _ := List.all_eq_true.mp (show sampleDigest.toList.all Char.isAlphanum = true by decide)

/-- A question, a tool call and its answer. -/
def calling : List Json :=
  [.obj [("role", .str "user"), ("content", .str "Go on.")],
    .obj [("role", .str "assistant"), ("content", .str "Yes."),
      ("tool_calls", .arr [.obj [("id", .str "call_1"),
        ("function", .obj [("name", .str "run"), ("arguments", .str "\x7b\"a\":1\x7d")])]])],
    .obj [("role", .str "tool"), ("tool_call_id", .str "call_1"), ("content", .str "Done.")]]

theorem final_calling : Final sampleTexts true calling := by
  have hpaired : Paired true calling := by
    refine ⟨fun hrole => absurd hrole (by decide), fun _ _ => ?_,
      fun hrole => absurd hrole (by decide), trivial⟩
    exact ⟨[_], [], rfl, List.forall_mem_singleton.mpr rfl, List.Perm.refl _, fun _ _ => nofun⟩
  have hids : ∀ id ∈ idsOf calling, id = "call_1" := by decide
  have hdistinct : ∀ a ∈ idsOf calling, ∀ b ∈ idsOf calling,
      normalizeToolCallId sampleTexts a = normalizeToolCallId sampleTexts b → a = b :=
    fun a ha b hb _ => (hids a ha).trans (hids b hb).symm
  have hcalls : ∀ m ∈ calling, ∀ tc ∈ callsOf m,
      objectOf sampleTexts (rawArguments tc) = some [("a", .num (.int 1))] := by decide
  refine (final_iff lawful_sampleTexts hpaired hdistinct).1 ⟨?_, ?_⟩
  · intro m hm hassistant tcs htcs hnone content hcontent
    have hsome : ∀ m ∈ calling, isAssistant m = true → callsOf m ≠ [] ∧
        ∀ tc ∈ callsOf m, tc.asObject ≠ none := by decide
    obtain ⟨hne, hobjects⟩ := hsome m hm hassistant
    rw [callsOf, htcs] at hne hobjects
    obtain ⟨tc, htc⟩ := List.exists_mem_of_ne_nil _ hne
    exact absurd (hnone tc htc) (hobjects tc htc)
  · intro m hm tc htc o ho
    rw [hcalls m hm tc htc] at ho
    obtain rfl := Option.some.inj ho
    rw [ReadsBack]
    decide

/-- An assistant message with an empty array of tool calls. -/
def emptyCalls : List Json :=
  [.obj [("role", .str "user"), ("content", .str "Hello.")],
    .obj [("role", .str "assistant"), ("content", .str "Hi."), ("tool_calls", .arr [])],
    .obj [("role", .str "user"), ("content", .str "Go on.")]]

/-- Its content is lost. -/
theorem emptyCalls_blanked :
    (¬ ∀ (texts : Texts) (closed : Bool) (messages : List Json), texts.Lawful →
      Paired closed messages →
      (∀ a ∈ idsOf messages, ∀ b ∈ idsOf messages,
        normalizeToolCallId texts a = normalizeToolCallId texts b → a = b) →
      Final texts closed messages) ∧
    (finalizeMessages sampleTexts emptyCalls)[1]? =
      some (.obj [("role", .str "assistant"), ("content", .null), ("tool_calls", .arr [])]) := by
  refine ⟨fun h => ?_, by decide⟩
  have hpaired : Paired true emptyCalls := by
    refine ⟨fun hrole => absurd hrole (by decide), fun _ _ => ?_,
      fun hrole => absurd hrole (by decide), trivial⟩
    exact ⟨[], _, rfl, List.forall_mem_nil _, List.Perm.refl _, fun _ hids => absurd rfl hids⟩
  have hids : idsOf emptyCalls = [] := by decide
  have hfinal := h sampleTexts true emptyCalls lawful_sampleTexts hpaired
    (by rw [hids]; exact List.forall_mem_nil _)
  have hcontent := blanked_iff.mpr hfinal.blanked _
    (List.mem_cons_of_mem _ List.mem_cons_self) rfl [] rfl (List.forall_mem_nil _) (.str "Hi.") rfl
  cases hcontent

end HiveClaw.Providers.OpenaiCompat
