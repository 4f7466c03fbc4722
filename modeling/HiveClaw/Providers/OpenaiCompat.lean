import HiveClaw.Providers.Alternation
import HiveClaw.RustStd

/-!
# Messages for an OpenAI-compatible endpoint

`finalize_messages` of `crates/providers/src/openai_compat_provider.rs` and what it calls: keys that
are not in the protocol go, ids of tool calls are brought to nine characters, arguments to the text
of an object, and at last the roles are made to alternate.

* `canonical_of_isCanonical`, `isCanonical_canonical` — a message that has been treated is not changed
  again.
-/

namespace HiveClaw.Providers.OpenaiCompat

open Providers

-- ---
-- The pass over the messages
-- ---

/-- `serde_json::from_str`, `serde_json::to_string`, and the SHA-256 digest as hexadecimal text. -/
structure Texts where
  fromStr : String → Option Json
  toText : Json → String
  sha256Hex : String → String

-- `ALLOWED_MSG_KEYS`
def allowedMsgKeys : List String :=
  ["role", "content", "tool_calls", "tool_call_id", "name", "reasoning_content", "extra_content"]

variable (texts : Texts)

/-- `c.is_ascii_alphanumeric()` for every character, of which there are nine. -/
def isShortId (id : String) : Bool := id.toList.length = 9 && id.toList.all Char.isAlphanum

-- `normalize_tool_call_id`
def normalizeToolCallId (id : String) : String :=
  if isShortId id then id else String.ofList ((texts.sha256Hex id).toList.take 9)

-- `normalize_tool_call_arguments`
def normalizeToolCallArguments : Json → String
  | .str s =>
    if RustStr.trim s = "" then "\x7b\x7d"
    else
      match texts.fromStr (RustStr.trim s) with
      | some (.obj m) => texts.toText (.obj m)
      | _ => "\x7b\x7d"
  | .obj m => texts.toText (.obj m)
  | _ => "\x7b\x7d"

/-- `sanitize_request_messages` on a message. The keys of a map are distinct, so those that are
kept stay in their order. -/
def sanitizeRequestMessage : Json → Json
  | .obj fields =>
    let cleaned := fields.filter fun f => f.1 ∈ allowedMsgKeys
    let role := ((JsonMap.get cleaned "role").bind Json.asStr).getD ""
    if role = "assistant" && !JsonMap.containsKey cleaned "content" then
      .obj (JsonMap.insert cleaned "content" .null)
    else .obj cleaned
  | m => m

-- `id_map`
abbrev IdMap := HashMap String String

-- `map_id`
def mapId (idMap : IdMap) : Json → Json × IdMap
  | .str s =>
    match idMap.lookup s with
    | some canonical => (.str canonical, idMap)
    | none =>
      let canonical := normalizeToolCallId texts s
      (.str canonical, idMap.insert s canonical)
  | v => (v, idMap)

/-- `map_id` on a field, if it is there. -/
def mapIdField (idMap : IdMap) (fields : JsonMap) (key : String) : JsonMap × IdMap :=
  match JsonMap.get fields key with
  | some v => (JsonMap.insert fields key (mapId texts idMap v).1, (mapId texts idMap v).2)
  | none => (fields, idMap)

/-- The function of a tool call, with its arguments as text. -/
def withArguments (fields : JsonMap) : JsonMap :=
  match JsonMap.get fields "function" with
  | some (.obj fn) =>
    let rawArgs := (JsonMap.get fn "arguments").getD .null
    JsonMap.insert fields "function"
      (.obj (JsonMap.insert fn "arguments" (.str (normalizeToolCallArguments texts rawArgs))))
  | _ => JsonMap.insert fields "function" (.obj [("arguments", .str "\x7b\x7d")])

def finalizeCall (idMap : IdMap) : Json → Json × IdMap
  | .obj fields =>
    let r := mapIdField texts idMap fields "id"
    (.obj (withArguments texts r.1), r.2)
  | tc => (tc, idMap)

def finalizeCalls (idMap : IdMap) : List Json → List Json × IdMap
  | [] => ([], idMap)
  | tc :: tcs =>
    let r := finalizeCall texts idMap tc
    let rest := finalizeCalls r.2 tcs
    (r.1 :: rest.1, rest.2)

/-- The fields of a message whose tool calls have been treated. -/
def withToolCalls (fields : JsonMap) (tcs : List Json) : JsonMap :=
  let updated := JsonMap.insert fields "tool_calls" (.arr tcs)
  if (JsonMap.get fields "role").bind Json.asStr = some "assistant" then
    JsonMap.insert updated "content" .null
  else updated

/-- The tool calls of a message, if it has an array of them. -/
def finalizeToolCalls (idMap : IdMap) (fields : JsonMap) : JsonMap × IdMap :=
  match JsonMap.get fields "tool_calls" with
  | some (.arr tcs) =>
    let r := finalizeCalls texts idMap tcs
    (withToolCalls fields r.1, r.2)
  | _ => (fields, idMap)

def finalizeMessage (idMap : IdMap) : Json → Json × IdMap
  | .obj fields =>
    let r := finalizeToolCalls texts idMap fields
    let r := mapIdField texts r.2 r.1 "tool_call_id"
    (.obj r.1, r.2)
  | m => (m, idMap)

def finalizeLoop (idMap : IdMap) : List Json → List Json
  | [] => []
  | m :: rest =>
    let r := finalizeMessage texts idMap m
    r.1 :: finalizeLoop r.2 rest

-- `finalize_messages`
def finalizeMessages (messages : List Json) : List Json :=
  enforceRoleAlternation (finalizeLoop texts ∅ (messages.map sanitizeRequestMessage))

-- ---
-- The map of ids is a cache
-- ---

def canonicalId : Json → Json
  | .str s => .str (normalizeToolCallId texts s)
  | v => v

def canonicalIdField (fields : JsonMap) (key : String) : JsonMap :=
  match JsonMap.get fields key with
  | some v => JsonMap.insert fields key (canonicalId texts v)
  | none => fields

def canonicalCall : Json → Json
  | .obj fields => .obj (withArguments texts (canonicalIdField texts fields "id"))
  | tc => tc

/-- The tool calls of a message without the map. -/
def canonicalToolCalls (fields : JsonMap) : JsonMap :=
  match JsonMap.get fields "tool_calls" with
  | some (.arr tcs) => withToolCalls fields (tcs.map (canonicalCall texts))
  | _ => fields

def canonical (m : Json) : Json :=
  match sanitizeRequestMessage m with
  | .obj fields => .obj (canonicalIdField texts (canonicalToolCalls texts fields) "tool_call_id")
  | m => m

/-- The map has for an id what the normalization gives. -/
def IdMap.Sound (idMap : IdMap) : Prop :=
  ∀ s canonical, idMap.lookup s = some canonical → canonical = normalizeToolCallId texts s

variable {texts}

variable {idMap : IdMap}

theorem mapId_eq (h : IdMap.Sound texts idMap) (v : Json) :
    (mapId texts idMap v).1 = canonicalId texts v ∧ IdMap.Sound texts (mapId texts idMap v).2 := by
  cases v with
  | str s =>
    rw [mapId, canonicalId]
    cases hs : idMap.lookup s with
    | some canonical => exact ⟨by rw [h s canonical hs], h⟩
    | none =>
      refine ⟨rfl, fun t canonical ht => ?_⟩
      rw [HashMap.lookup_insert_ite] at ht
      split at ht
      case isTrue heq => rw [heq, Option.some.inj ht]
      case isFalse => exact h t canonical ht
  | _ => exact ⟨rfl, h⟩

theorem mapIdField_eq (h : IdMap.Sound texts idMap) (fields : JsonMap) (key : String) :
    (mapIdField texts idMap fields key).1 = canonicalIdField texts fields key ∧
      IdMap.Sound texts (mapIdField texts idMap fields key).2 := by
  rw [mapIdField, canonicalIdField]
  cases JsonMap.get fields key with
  | none => exact ⟨rfl, h⟩
  | some v =>
    obtain ⟨heq, hsound⟩ := mapId_eq h v
    exact ⟨congrArg (JsonMap.insert fields key) heq, hsound⟩

theorem finalizeCall_eq (h : IdMap.Sound texts idMap) (tc : Json) :
    (finalizeCall texts idMap tc).1 = canonicalCall texts tc ∧
      IdMap.Sound texts (finalizeCall texts idMap tc).2 := by
  cases tc with
  | obj fields =>
    obtain ⟨heq, hsound⟩ := mapIdField_eq h fields "id"
    exact ⟨congrArg (fun fields => Json.obj (withArguments texts fields)) heq, hsound⟩
  | _ => exact ⟨rfl, h⟩

theorem finalizeCalls_eq (h : IdMap.Sound texts idMap) (tcs : List Json) :
    (finalizeCalls texts idMap tcs).1 = tcs.map (canonicalCall texts) ∧
      IdMap.Sound texts (finalizeCalls texts idMap tcs).2 := by
  induction tcs generalizing idMap with
  | nil => exact ⟨rfl, h⟩
  | cons tc tcs ih =>
    obtain ⟨hcall, hsound⟩ := finalizeCall_eq h tc
    obtain ⟨hcalls, hsound'⟩ := ih hsound
    exact ⟨congrArg₂ List.cons hcall hcalls, hsound'⟩

theorem finalizeToolCalls_eq (h : IdMap.Sound texts idMap) (fields : JsonMap) :
    (finalizeToolCalls texts idMap fields).1 = canonicalToolCalls texts fields ∧
      IdMap.Sound texts (finalizeToolCalls texts idMap fields).2 := by
  rw [finalizeToolCalls, canonicalToolCalls]
  split
  case h_1 tcs htcs =>
    obtain ⟨hcalls, hsound⟩ := finalizeCalls_eq h tcs
    exact ⟨congrArg (withToolCalls fields) hcalls, hsound⟩
  case h_2 => exact ⟨rfl, h⟩

theorem finalizeMessage_eq (h : IdMap.Sound texts idMap) (m : Json) :
    (finalizeMessage texts idMap (sanitizeRequestMessage m)).1 = canonical texts m ∧
      IdMap.Sound texts (finalizeMessage texts idMap (sanitizeRequestMessage m)).2 := by
  rw [canonical]
  cases sanitizeRequestMessage m with
  | obj fields =>
    obtain ⟨hcalls, hsound⟩ := finalizeToolCalls_eq h fields
    obtain ⟨hid, hsound'⟩ := mapIdField_eq hsound (finalizeToolCalls texts idMap fields).1
      "tool_call_id"
    have hfields := hid.trans (congrArg (canonicalIdField texts · "tool_call_id") hcalls)
    exact ⟨congrArg Json.obj hfields, hsound'⟩
  | _ => exact ⟨rfl, h⟩

/-- The map of ids is a cache, so every message is treated by itself (`canonical`). -/
theorem finalizeMessages_eq (messages : List Json) :
    finalizeMessages texts messages = enforceRoleAlternation (messages.map (canonical texts)) := by
  have hloop : ∀ {idMap : IdMap}, IdMap.Sound texts idMap →
      finalizeLoop texts idMap (messages.map sanitizeRequestMessage) =
        messages.map (canonical texts) := by
    induction messages with
    | nil => exact fun _ => rfl
    | cons m rest ih =>
      intro idMap h
      obtain ⟨heq, hsound⟩ := finalizeMessage_eq h m
      exact congrArg₂ List.cons heq (ih hsound)
  rw [finalizeMessages, hloop]
  intro s canonical hs
  rw [AList.lookup_empty] at hs
  cases hs

-- ---
-- The fields of a message after the pass
-- ---

variable {key : String}

theorem get_filter_allowed (fields : JsonMap) (h : key ∈ allowedMsgKeys) :
    JsonMap.get (fields.filter fun f => f.1 ∈ allowedMsgKeys) key = JsonMap.get fields key := by
  show List.lookup key _ = List.lookup key _
  induction fields with
  | nil => rfl
  | cons f rest ih =>
    obtain ⟨k, v⟩ := f
    by_cases hk : k ∈ allowedMsgKeys
    · rw [List.filter_cons_of_pos (by simpa using hk), List.lookup_cons, List.lookup_cons, ih]
    · have hne : key ≠ k := fun heq => hk (heq ▸ h)
      rw [List.filter_cons_of_neg (by simpa using hk), List.lookup_cons, beq_false_of_ne hne, ih]

theorem get_sanitize (m : Json) {key : String} (h : key ∈ allowedMsgKeys) (hne : key ≠ "content") :
    (sanitizeRequestMessage m).get key = m.get key := by
  cases m with
  | obj fields =>
    rw [sanitizeRequestMessage]
    split
    · exact (JsonMap.get_insert_of_ne _ _ hne).trans (get_filter_allowed fields h)
    · exact get_filter_allowed fields h
  | _ => rfl

theorem get_sanitize_content (m : Json) :
    (sanitizeRequestMessage m).get "content" = m.get "content" ∨
      m.get "content" = none ∧ (sanitizeRequestMessage m).get "content" = some .null := by
  cases m with
  | obj fields =>
    rw [sanitizeRequestMessage]
    split
    case isTrue h =>
      rw [Bool.and_eq_true, Bool.not_eq_true'] at h
      have hcontains := Json.containsKey_eq
        (.obj (fields.filter fun f => f.1 ∈ allowedMsgKeys)) "content"
      have hnone : JsonMap.get fields "content" = none := by
        have hsome : (JsonMap.get (fields.filter fun f => f.1 ∈ allowedMsgKeys) "content").isSome =
            false := hcontains.symm.trans h.2
        rw [get_filter_allowed fields (by decide)] at hsome
        exact Option.isSome_eq_false_iff.mp hsome |> Option.isNone_iff_eq_none.mp
      exact .inr ⟨hnone, JsonMap.get_insert_self _ _ _⟩
    case isFalse => exact .inl (get_filter_allowed fields (by decide))
  | _ => exact .inl rfl

theorem get_canonicalIdField_of_ne (texts : Texts) (fields : JsonMap) {key' : String}
    (h : key' ≠ key) :
    JsonMap.get (canonicalIdField texts fields key) key' = JsonMap.get fields key' := by
  rw [canonicalIdField]
  split
  · exact JsonMap.get_insert_of_ne fields _ h
  · rfl

theorem get_canonicalIdField (texts : Texts) (fields : JsonMap) (key : String) :
    JsonMap.get (canonicalIdField texts fields key) key =
      (JsonMap.get fields key).map (canonicalId texts) := by
  rw [canonicalIdField]
  cases h : JsonMap.get fields key with
  | none => exact h
  | some v => exact JsonMap.get_insert_self _ _ _

theorem get_withToolCalls_of_ne (fields : JsonMap) (tcs : List Json) (hcalls : key ≠ "tool_calls")
    (hcontent : key ≠ "content") :
    JsonMap.get (withToolCalls fields tcs) key = JsonMap.get fields key := by
  rw [withToolCalls]
  split
  · rw [JsonMap.get_insert_of_ne _ _ hcontent, JsonMap.get_insert_of_ne _ _ hcalls]
  · rw [JsonMap.get_insert_of_ne _ _ hcalls]

theorem get_canonicalToolCalls_of_ne (texts : Texts) (fields : JsonMap)
    (hcalls : key ≠ "tool_calls") (hcontent : key ≠ "content") :
    JsonMap.get (canonicalToolCalls texts fields) key = JsonMap.get fields key := by
  rw [canonicalToolCalls]
  split
  · exact get_withToolCalls_of_ne fields _ hcalls hcontent
  · rfl

/-- The tool calls as they are after the pass. -/
def callsForm (texts : Texts) : Json → Json
  | .arr tcs => .arr (tcs.map (canonicalCall texts))
  | v => v

theorem get_canonicalToolCalls (texts : Texts) (fields : JsonMap) :
    JsonMap.get (canonicalToolCalls texts fields) "tool_calls" =
      (JsonMap.get fields "tool_calls").map (callsForm texts) := by
  rw [canonicalToolCalls]
  split
  case h_1 tcs htcs =>
    rw [htcs, withToolCalls]
    split
    · rw [JsonMap.get_insert_of_ne _ _ (by decide)]
      exact JsonMap.get_insert_self _ _ _
    · exact JsonMap.get_insert_self _ _ _
  case h_2 hother =>
    cases hget : JsonMap.get fields "tool_calls" with
    | none => rfl
    | some v =>
      cases v with
      | arr tcs => exact absurd hget (hother tcs)
      | _ => rfl

/-- The fields that the pass leaves alone. -/
theorem get_canonical (texts : Texts) (m : Json) {key : String} (h : key ∈ allowedMsgKeys)
    (hcontent : key ≠ "content") (hcalls : key ≠ "tool_calls") (hid : key ≠ "tool_call_id") :
    (canonical texts m).get key = m.get key := by
  rw [← get_sanitize m h hcontent, canonical]
  cases sanitizeRequestMessage m with
  | obj fields =>
    exact (get_canonicalIdField_of_ne texts _ hid).trans
      (get_canonicalToolCalls_of_ne texts fields hcalls hcontent)
  | _ => rfl

theorem get_canonical_calls (texts : Texts) (m : Json) :
    (canonical texts m).get "tool_calls" = (m.get "tool_calls").map (callsForm texts) := by
  rw [← @get_sanitize m "tool_calls" (by decide) (by decide), canonical]
  cases sanitizeRequestMessage m with
  | obj fields =>
    exact (get_canonicalIdField_of_ne texts _ (by decide)).trans
      (get_canonicalToolCalls texts fields)
  | _ => rfl

theorem get_canonical_id (texts : Texts) (m : Json) :
    (canonical texts m).get "tool_call_id" = (m.get "tool_call_id").map (canonicalId texts) := by
  rw [← @get_sanitize m "tool_call_id" (by decide) (by decide), canonical]
  cases sanitizeRequestMessage m with
  | obj fields =>
    refine (get_canonicalIdField texts _ _).trans (congrArg _ ?_)
    exact get_canonicalToolCalls_of_ne texts fields (by decide) (by decide)
  | _ => rfl

/-- The tool calls of a message, as the code sees them. -/
def callsOf (m : Json) : List Json := ((m.get "tool_calls").bind Json.asArray).getD []

theorem callsOf_canonical (texts : Texts) (m : Json) :
    callsOf (canonical texts m) = (callsOf m).map (canonicalCall texts) := by
  rw [callsOf, callsOf, get_canonical_calls]
  cases m.get "tool_calls" with
  | none => rfl
  | some v => cases v <;> rfl

variable {m : Json}

theorem get_canonical_content_of_calls (texts : Texts) {tcs : List Json}
    (hrole : isAssistant m = true) (hcalls : m.get "tool_calls" = some (.arr tcs)) :
    (canonical texts m).get "content" = some .null := by
  rw [← @get_sanitize m "tool_calls" (by decide) (by decide)] at hcalls
  have hstr : ((sanitizeRequestMessage m).get "role").bind Json.asStr = some "assistant" := by
    rw [get_sanitize m (by decide) (by decide)]
    exact of_decide_eq_true hrole
  rw [canonical]
  cases hm : sanitizeRequestMessage m with
  | obj fields =>
    rw [hm] at hcalls hstr
    have hcalls' : JsonMap.get fields "tool_calls" = some (.arr tcs) := hcalls
    refine (get_canonicalIdField_of_ne texts _ (by decide)).trans ?_
    rw [canonicalToolCalls, hcalls']
    exact (congrArg (JsonMap.get · "content") (if_pos hstr)).trans
      (JsonMap.get_insert_self _ _ _)
  | _ =>
    rw [hm] at hcalls
    cases hcalls

theorem get_canonical_content (texts : Texts) {content : Json}
    (hcontent : m.get "content" = some content)
    (hplain : isAssistant m = true → ∀ tcs, m.get "tool_calls" ≠ some (.arr tcs)) :
    (canonical texts m).get "content" = some content := by
  have hsame : (sanitizeRequestMessage m).get "content" = some content := by
    rcases get_sanitize_content m with h | ⟨h, -⟩
    · rw [h, hcontent]
    · rw [hcontent] at h
      cases h
  have hplain' : ((sanitizeRequestMessage m).get "role").bind Json.asStr = some "assistant" →
      ∀ tcs, (sanitizeRequestMessage m).get "tool_calls" ≠ some (.arr tcs) := by
    intro hrole
    rw [get_sanitize m (by decide) (by decide)] at hrole ⊢
    exact hplain (decide_eq_true hrole)
  rw [canonical]
  cases hm : sanitizeRequestMessage m with
  | obj fields =>
    rw [hm] at hsame hplain'
    refine (get_canonicalIdField_of_ne texts _ (by decide)).trans ?_
    rw [canonicalToolCalls]
    split
    case h_1 tcs htcs =>
      have hother : ¬ (JsonMap.get fields "role").bind Json.asStr = some "assistant" :=
        fun hrole => hplain' hrole tcs htcs
      rw [withToolCalls, if_neg hother, JsonMap.get_insert_of_ne _ _ (by decide)]
      exact hsame
    case h_2 => exact hsame
  | _ =>
    rw [hm] at hsame
    cases hsame

-- ---
-- Ids and arguments
-- ---

/-- What the libraries are known for. -/
structure Texts.Lawful (texts : Texts) : Prop where
  fromStr_empty : texts.fromStr "" = none
  fromStr_braces : texts.fromStr "{}" = some (.obj [])
  toText_braces : texts.toText (.obj []) = "{}"
  digest_length : ∀ s, (texts.sha256Hex s).toList.length = 64
  digest_hex : ∀ s, ∀ c ∈ (texts.sha256Hex s).toList, c.isAlphanum = true

theorem isShortId_normalize {texts : Texts} (hlaws : texts.Lawful) (id : String) :
    isShortId (normalizeToolCallId texts id) = true := by
  rw [normalizeToolCallId]
  split
  case isTrue h => exact h
  case isFalse =>
    rw [isShortId, String.toList_ofList, Bool.and_eq_true, decide_eq_true_eq, List.length_take,
      hlaws.digest_length, List.all_eq_true]
    exact ⟨rfl, fun c hc => hlaws.digest_hex id c (List.mem_of_mem_take hc)⟩

theorem normalize_of_isShortId (texts : Texts) {id : String} (h : isShortId id = true) :
    normalizeToolCallId texts id = id := if_pos h

theorem canonicalId_canonicalId {texts : Texts} (hlaws : texts.Lawful) (v : Json) :
    canonicalId texts (canonicalId texts v) = canonicalId texts v := by
  cases v with
  | str s => exact congrArg Json.str (normalize_of_isShortId texts (isShortId_normalize hlaws s))
  | _ => rfl

/-- The object that the arguments are or spell. -/
def objectOf (texts : Texts) : Json → Option JsonMap
  | .obj o => some o
  | .str s => (texts.fromStr (RustStr.trim s)).bind Json.asObject
  | _ => none

/-- The arguments are the text of their object, or of an empty one. -/
theorem normalizeToolCallArguments_eq {texts : Texts} (hlaws : texts.Lawful) (raw : Json) :
    normalizeToolCallArguments texts raw = texts.toText (.obj ((objectOf texts raw).getD [])) := by
  cases raw with
  | obj o => rfl
  | str s =>
    rw [normalizeToolCallArguments, objectOf]
    by_cases hempty : RustStr.trim s = ""
    · rw [if_pos hempty, hempty, hlaws.fromStr_empty]
      exact hlaws.toText_braces.symm
    · rw [if_neg hempty]
      cases hread : texts.fromStr (RustStr.trim s) with
      | none => exact hlaws.toText_braces.symm
      | some v =>
        cases v with
        | obj o => rfl
        | _ => exact hlaws.toText_braces.symm
  | _ => exact hlaws.toText_braces.symm

/-- The text of an object is read as the object. -/
def ReadsBack (texts : Texts) (o : JsonMap) : Prop :=
  texts.fromStr (RustStr.trim (texts.toText (.obj o))) = some (.obj o)

theorem readsBack_nil {texts : Texts} (hlaws : texts.Lawful) : ReadsBack texts [] := by
  have htrim : RustStr.trim "{}" = "{}" := by decide
  rw [ReadsBack, hlaws.toText_braces, htrim, hlaws.fromStr_braces]

theorem normalizeToolCallArguments_toText {texts : Texts} (hlaws : texts.Lawful) {o : JsonMap}
    (h : ReadsBack texts o) :
    normalizeToolCallArguments texts (.str (texts.toText (.obj o))) = texts.toText (.obj o) := by
  rw [normalizeToolCallArguments_eq hlaws, objectOf, h]
  rfl

/-- The arguments of a tool call, or null. -/
def rawArguments (tc : Json) : Json := ((tc.get "function").bind fun f => f.get "arguments").getD .null

theorem get_withArguments_of_ne (texts : Texts) (fields : JsonMap) (h : key ≠ "function") :
    JsonMap.get (withArguments texts fields) key = JsonMap.get fields key := by
  rw [withArguments]
  split
  · exact JsonMap.get_insert_of_ne _ _ h
  · exact JsonMap.get_insert_of_ne _ _ h

theorem withArguments_spec (texts : Texts) (fields : JsonMap) :
    ∃ fn, withArguments texts fields = JsonMap.insert fields "function" (.obj fn) ∧
      JsonMap.get fn "arguments" =
        some (.str (normalizeToolCallArguments texts (rawArguments (.obj fields)))) := by
  rw [withArguments]
  have hget : Json.get (.obj fields) "function" = JsonMap.get fields "function" := rfl
  rw [rawArguments, hget]
  split
  case h_1 fn hfn =>
    refine ⟨_, rfl, ?_⟩
    rw [hfn]
    exact JsonMap.get_insert_self _ _ _
  case h_2 hother =>
    refine ⟨_, rfl, ?_⟩
    have hnull : ((JsonMap.get fields "function").bind fun f => f.get "arguments").getD .null =
        .null := by
      cases hfn : JsonMap.get fields "function" with
      | none => rfl
      | some f =>
        cases f with
        | obj fn => exact absurd hfn (hother fn)
        | _ => rfl
    rw [hnull]
    rfl

theorem rawArguments_canonicalIdField (texts : Texts) (fields : JsonMap) :
    rawArguments (.obj (canonicalIdField texts fields "id")) = rawArguments (.obj fields) := by
  have hget : Json.get (.obj (canonicalIdField texts fields "id")) "function" =
      Json.get (.obj fields) "function" := get_canonicalIdField_of_ne texts fields (by decide)
  rw [rawArguments, hget, rawArguments]

variable {tc : Json}

theorem rawArguments_canonicalCall {texts : Texts} (hlaws : texts.Lawful) (h : tc.asObject.isSome) :
    rawArguments (canonicalCall texts tc) =
      .str (texts.toText (.obj ((objectOf texts (rawArguments tc)).getD []))) := by
  cases tc with
  | obj fields =>
    obtain ⟨fn, heq, harguments⟩ :=
      withArguments_spec texts (canonicalIdField texts fields "id")
    rw [rawArguments_canonicalIdField, normalizeToolCallArguments_eq hlaws] at harguments
    have hget : Json.get (canonicalCall texts (.obj fields)) "function" = some (.obj fn) := by
      rw [canonicalCall, heq]
      exact JsonMap.get_insert_self _ _ _
    rw [rawArguments, hget, Option.bind_some]
    exact congrArg (Option.getD · Json.null) harguments
  | _ => cases h

/-- A tool call that has been treated is not changed again, when its arguments can be read
back. -/
theorem canonicalCall_canonicalCall {texts : Texts} (hlaws : texts.Lawful)
    (h : ∀ o, objectOf texts (rawArguments tc) = some o → ReadsBack texts o) :
    canonicalCall texts (canonicalCall texts tc) = canonicalCall texts tc := by
  cases tc with
  | obj fields =>
    obtain ⟨fn, heq, harguments⟩ :=
      withArguments_spec texts (canonicalIdField texts fields "id")
    rw [rawArguments_canonicalIdField, normalizeToolCallArguments_eq hlaws] at harguments
    rw [canonicalCall, heq, canonicalCall]
    congr 1
    have hread : ReadsBack texts ((objectOf texts (rawArguments (.obj fields))).getD []) := by
      cases ho : objectOf texts (rawArguments (.obj fields)) with
      | none => exact readsBack_nil hlaws
      | some o => exact h o ho
    -- the id and the function are found as they have been left
    have hid : canonicalIdField texts
        (JsonMap.insert (canonicalIdField texts fields "id") "function" (.obj fn)) "id" =
        JsonMap.insert (canonicalIdField texts fields "id") "function" (.obj fn) := by
      have hget : JsonMap.get
          (JsonMap.insert (canonicalIdField texts fields "id") "function" (.obj fn)) "id" =
          (JsonMap.get fields "id").map (canonicalId texts) :=
        (JsonMap.get_insert_of_ne _ _ (by decide)).trans (get_canonicalIdField texts fields "id")
      rw [canonicalIdField]
      cases hfield : JsonMap.get fields "id" with
      | none =>
        rw [hfield] at hget
        rw [hget]
        rfl
      | some v =>
        rw [hfield] at hget
        rw [hget]
        refine (JsonMap.insert_eq_self_iff _ _ _).mpr (hget.trans ?_)
        exact congrArg some (canonicalId_canonicalId hlaws v).symm
    rw [hid, withArguments, JsonMap.get_insert_self]
    dsimp only
    rw [harguments, Option.getD_some, normalizeToolCallArguments_toText hlaws hread,
      (JsonMap.insert_eq_self_iff fn _ _).mpr harguments]
    exact (JsonMap.insert_eq_self_iff _ _ _).mpr (JsonMap.get_insert_self _ _ _)
  | _ => rfl

-- ---
-- A message that has been treated
-- ---

/-- What the pass establishes of the fields of a message. -/
structure CanonicalFields (texts : Texts) (fields : JsonMap) : Prop where
  allowed : ∀ f ∈ fields, f.1 ∈ allowedMsgKeys
  content : (JsonMap.get fields "role").bind Json.asStr = some "assistant" →
    (JsonMap.get fields "content").isSome
  calls : ∀ tcs, JsonMap.get fields "tool_calls" = some (.arr tcs) →
    (∀ tc ∈ tcs, canonicalCall texts tc = tc) ∧
      ((JsonMap.get fields "role").bind Json.asStr = some "assistant" →
        JsonMap.get fields "content" = some .null)
  id : ∀ v, JsonMap.get fields "tool_call_id" = some v → canonicalId texts v = v

def IsCanonical (texts : Texts) (m : Json) : Prop :=
  ∀ fields, m = .obj fields → CanonicalFields texts fields

theorem isSome_get_eq_containsKey (fields : JsonMap) (key : String) :
    JsonMap.containsKey fields key = (JsonMap.get fields key).isSome :=
  Json.containsKey_eq (.obj fields) key

theorem canonical_of_isCanonical {texts : Texts} (h : IsCanonical texts m) :
    canonical texts m = m := by
  cases m with
  | obj fields =>
    obtain ⟨hallowed, hcontent, hcalls, hid⟩ := h fields rfl
    have hsanitized : sanitizeRequestMessage (.obj fields) = .obj fields := by
      have hfilter : fields.filter (fun f => f.1 ∈ allowedMsgKeys) = fields :=
        List.filter_eq_self.mpr fun f hf => decide_eq_true (hallowed f hf)
      rw [sanitizeRequestMessage, hfilter, isSome_get_eq_containsKey]
      refine if_neg fun hcond => ?_
      rw [Bool.and_eq_true, decide_eq_true_eq, Bool.not_eq_true'] at hcond
      have hrole : (JsonMap.get fields "role").bind Json.asStr = some "assistant" := by
        cases hr : (JsonMap.get fields "role").bind Json.asStr with
        | none =>
          rw [hr] at hcond
          exact absurd hcond.1 (by decide)
        | some r =>
          rw [hr] at hcond
          exact congrArg some hcond.1
      rw [hcontent hrole] at hcond
      cases hcond.2
    have htoolCalls : canonicalToolCalls texts fields = fields := by
      rw [canonicalToolCalls]
      split
      case h_1 tcs htcs =>
        obtain ⟨hfixed, hnull⟩ := hcalls tcs htcs
        have hmap : tcs.map (canonicalCall texts) = tcs := by
          conv_rhs => rw [← List.map_id tcs]
          exact List.map_congr_left hfixed
        rw [hmap, withToolCalls, (JsonMap.insert_eq_self_iff fields _ _).mpr htcs]
        split
        case isTrue hrole => exact (JsonMap.insert_eq_self_iff fields _ _).mpr (hnull hrole)
        case isFalse => rfl
      case h_2 => rfl
    rw [canonical, hsanitized]
    dsimp only
    rw [htoolCalls, canonicalIdField]
    cases hget : JsonMap.get fields "tool_call_id" with
    | none => rfl
    | some v =>
      dsimp only
      rw [hid v hget]
      exact congrArg Json.obj ((JsonMap.insert_eq_self_iff fields _ _).mpr hget)
  | _ => rfl

variable {P : String → Prop} {fields : JsonMap}

/-- The keys of a map after an insertion. -/
theorem forall_key_insert (v : Json) (h : ∀ f ∈ fields, P f.1) (hkey : P key) :
    ∀ f ∈ JsonMap.insert fields key v, P f.1 := by
  induction fields with
  | nil => exact List.forall_mem_singleton.mpr hkey
  | cons g rest ih =>
    obtain ⟨k, w⟩ := g
    obtain ⟨hk, hrest⟩ := List.forall_mem_cons.mp h
    rw [JsonMap.insert]
    split
    · exact List.forall_mem_cons.mpr ⟨hk, hrest⟩
    · exact List.forall_mem_cons.mpr ⟨hk, ih hrest⟩

theorem forall_key_canonicalIdField (texts : Texts) (h : ∀ f ∈ fields, P f.1) (hkey : P key) :
    ∀ f ∈ canonicalIdField texts fields key, P f.1 := by
  rw [canonicalIdField]
  split
  · exact forall_key_insert _ h hkey
  · exact h

theorem forall_key_canonicalToolCalls (texts : Texts) (h : ∀ f ∈ fields, P f.1)
    (hcalls : P "tool_calls") (hcontent : P "content") :
    ∀ f ∈ canonicalToolCalls texts fields, P f.1 := by
  rw [canonicalToolCalls]
  split
  · rw [withToolCalls]
    split
    · exact forall_key_insert _ (forall_key_insert _ h hcalls) hcontent
    · exact forall_key_insert _ h hcalls
  · exact h

theorem sanitize_spec (h : sanitizeRequestMessage m = .obj fields) :
    (∀ f ∈ fields, f.1 ∈ allowedMsgKeys) ∧
      ((JsonMap.get fields "role").bind Json.asStr = some "assistant" →
        (JsonMap.get fields "content").isSome) := by
  cases m with
  | obj fields₀ =>
    have hallowed : ∀ f ∈ fields₀.filter (fun f => f.1 ∈ allowedMsgKeys), f.1 ∈ allowedMsgKeys :=
      fun f hf => of_decide_eq_true (List.mem_filter.mp hf).2
    rw [sanitizeRequestMessage] at h
    split at h
    case isTrue =>
      obtain rfl := Json.obj.inj h
      refine ⟨forall_key_insert _ hallowed (by decide), fun _ => ?_⟩
      rw [JsonMap.get_insert_self]
      rfl
    case isFalse hcond =>
      obtain rfl := Json.obj.inj h
      refine ⟨hallowed, fun hrole => ?_⟩
      rw [isSome_get_eq_containsKey, hrole, Option.getD_some, decide_eq_true rfl, Bool.true_and,
        Bool.not_eq_true', Bool.not_eq_false] at hcond
      exact hcond
  | _ => cases h

theorem isCanonical_canonical {texts : Texts} (hlaws : texts.Lawful)
    (hread : ∀ tc ∈ callsOf m, ∀ o, objectOf texts (rawArguments tc) = some o →
      ReadsBack texts o) : IsCanonical texts (canonical texts m) := by
  intro fields' hfields'
  have hrole : (JsonMap.get fields' "role").bind Json.asStr = m.getStr "role" := by
    have hget := @get_canonical texts m "role" (by decide) (by decide) (by decide) (by decide)
    rw [hfields'] at hget
    exact congrArg (Option.bind · Json.asStr) hget
  have hcallsOf : ∀ tcs, JsonMap.get fields' "tool_calls" = some (.arr tcs) →
      ∃ tcs₀, m.get "tool_calls" = some (.arr tcs₀) ∧ tcs = tcs₀.map (canonicalCall texts) := by
    intro tcs htcs
    have hget := get_canonical_calls texts m
    rw [hfields'] at hget
    obtain ⟨v, hv, hform⟩ := Option.map_eq_some_iff.mp (hget.symm.trans htcs)
    cases v with
    | arr tcs₀ => exact ⟨tcs₀, hv, (Json.arr.inj hform).symm⟩
    | _ => cases hform
  have hsanitized : ∃ fields, sanitizeRequestMessage m = .obj fields ∧
      fields' = canonicalIdField texts (canonicalToolCalls texts fields) "tool_call_id" := by
    rw [canonical] at hfields'
    cases hm : sanitizeRequestMessage m with
    | obj fields =>
      rw [hm] at hfields'
      exact ⟨fields, rfl, (Json.obj.inj hfields').symm⟩
    | _ =>
      rw [hm] at hfields'
      cases hfields'
  obtain ⟨fields, hm, rfl⟩ := hsanitized
  obtain ⟨hallowed, hcontent⟩ := sanitize_spec hm
  refine ⟨?_, ?_, ?_, ?_⟩
  · exact forall_key_canonicalIdField texts (forall_key_canonicalToolCalls texts hallowed
      (by decide) (by decide)) (by decide)
  · intro hassistant
    rw [get_canonicalIdField_of_ne texts _ (by decide)]
    have hbefore : (JsonMap.get fields "role").bind Json.asStr = some "assistant" := by
      rw [get_canonicalIdField_of_ne texts _ (by decide),
        get_canonicalToolCalls_of_ne texts _ (by decide) (by decide)] at hassistant
      exact hassistant
    rw [canonicalToolCalls]
    split
    · rw [withToolCalls, if_pos hbefore, JsonMap.get_insert_self]
      rfl
    · exact hcontent hbefore
  · intro tcs htcs
    obtain ⟨tcs₀, htcs₀, rfl⟩ := hcallsOf tcs htcs
    refine ⟨?_, fun hassistant => ?_⟩
    · intro tc htc
      obtain ⟨tc₀, htc₀, rfl⟩ := List.mem_map.mp htc
      refine canonicalCall_canonicalCall hlaws (hread tc₀ ?_)
      rw [callsOf, htcs₀]
      exact htc₀
    · have hstr : m.getStr "role" = some "assistant" := hrole.symm.trans hassistant
      have hnull := get_canonical_content_of_calls texts (decide_eq_true hstr) htcs₀
      rw [hfields'] at hnull
      exact hnull
  · intro v hv
    rw [get_canonicalIdField] at hv
    obtain ⟨v₀, -, rfl⟩ := Option.map_eq_some_iff.mp hv
    exact canonicalId_canonicalId hlaws v₀

end HiveClaw.Providers.OpenaiCompat
