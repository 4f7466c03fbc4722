import HiveClaw.Sessions.Retention
import HiveClaw.Utils.Orphans

/-!
# The history of a session for the model

`get_history_with_options` of `crates/session/src/manager.rs`: the last messages that are not
consolidated, from a user message on, legal, without commands and empty answers, rendered for the
model and, if there is a budget, cut from the back.

* `noOrphan_getHistoryWithOptions` — no tool result of the history lacks its call, unless a
  command declared it;
* `suffix_getHistoryWithOptions_iff` — with a budget the history is a suffix of the one without,
  unless the last turn had to be recovered: then its messages are rendered by a second copy of the
  code, which leaves out the breadcrumbs, the times and the sanitising.
-/

namespace HiveClaw

namespace RustStr

-- `str::lines`
def lines (text : String) : List String :=
  let parts := text.toList.splitOn '\n'
  -- each part but the last ended with `\n`, and loses a `\r` before it
  let ended := parts.dropLast.map fun l => if l.getLast? = some '\r' then l.dropLast else l
  let last := (parts.getLast?.getD []).isEmpty
  ((if last then ended else ended ++ [parts.getLast?.getD []])).map String.ofList

example : lines "a\r\nb\n\nc\r" = ["a", "b", "", "c\r"] := by decide +kernel

end RustStr

namespace Sessions

open Utils

/-! ## Sanitising -/

/-- The rest of a text after a literal. -/
def dropLiteral (literal : String) (text : List Char) : Option (List Char) :=
  if literal.toList.isPrefixOf text then some (text.drop literal.length) else none

/-- `[^c]+c`: the rest of a text after the first `c`, which is not its first character. -/
def afterNonempty (c : Char) (text : List Char) : Option (List Char) :=
  match text.span (· ≠ c) with
  | (_ :: _, _ :: rest) => some rest
  | _ => none

/-- `MESSAGE_TIME_PREFIX_RE.replace(content, "")`, for `^\[Message Time: [^\]]+\]\n?`. -/
def stripMessageTime (content : List Char) : List Char :=
  match (dropLiteral "[Message Time: " content).bind (afterNonempty ']') with
  | some ('\n' :: rest) => rest
  | some rest => rest
  | none => content

/-- `LOCAL_IMAGE_BREADCRUMB_RE`: `^\[image: (?:/|~)[^\]]+\]\s*$`. -/
def isLocalImageBreadcrumb (line : List Char) : Bool :=
  match dropLiteral "[image: " line with
  | some (c :: rest) =>
    (c = '/' || c = '~') && (afterNonempty ']' rest).any fun tail => tail.all RustStr.isWhitespace
  | _ => false

-- `\([^)]*\)\s*$`
def isArgumentList (text : List Char) : Bool :=
  match text with
  | '(' :: rest =>
    match rest.span (· ≠ ')') with
    | (_, _ :: tail) => tail.all RustStr.isWhitespace
    | _ => false
  | _ => false

/-- `TOOL_CALL_ECHO_RE`: `^\s*(?:generate_image|message)\([^)]*\)\s*$`. -/
def isToolCallEcho (line : List Char) : Bool :=
  let text := line.dropWhile RustStr.isWhitespace
  (dropLiteral "generate_image" text).any isArgumentList ||
    (dropLiteral "message" text).any isArgumentList

-- `sanitize_assistant_replay_text`
def sanitizeAssistantReplayText (content : String) : String :=
  let content := String.ofList (stripMessageTime content.toList)
  RustStr.trim (String.intercalate "\n" ((RustStr.lines content).filter fun line =>
    !isLocalImageBreadcrumb line.toList && !isToolCallEcho line.toList))

example : sanitizeAssistantReplayText
    "[Message Time: 10:00]\nhere\n[image: /tmp/a.png] \n message(text)\ndone " = "here\ndone" := by
  decide +kernel

/-! ## Entries -/

/-- `image_placeholder_text` of a path. -/
def imagePlaceholderText (path : String) : String :=
  if path = "" then "[image]" else "[image: " ++ path ++ "]"

/-- The breadcrumbs of the media of a message. -/
def breadcrumbs (media : List Json) : List String :=
  (media.filterMap fun v => v.asStr.filter (· ≠ "")).map imagePlaceholderText

/-- The text with the breadcrumbs. -/
def withBreadcrumbs (media : List Json) (text : String) : String :=
  if text = "" then String.intercalate "\n" (breadcrumbs media)
  else text ++ "\n" ++ String.intercalate "\n" (breadcrumbs media)

/-- The media of a message, if it has some. -/
def mediaOf (message : Json) : Option (List Json) :=
  ((message.get "media").bind Json.asArray).filter fun media => !media.isEmpty

/-- The role of a message as text. -/
def roleText (message : Json) : String := (message.getStr "role").getD ""

/-- The content of a message as it is stored. -/
def storedContent (message : Json) : Json := (message.get "content").getD (.str "")

/-- The text of a message for the model: an assistant's text sanitised, a user's text with the
breadcrumbs of its media and its time. -/
def renderedText (includeTimestamps : Bool) (message : Json) (text : String) : String :=
  let text := if roleText message = "assistant" then sanitizeAssistantReplayText text else text
  let text := match decide (roleText message = "user"), mediaOf message with
    | true, some media => withBreadcrumbs media text
    | _, _ => text
  match includeTimestamps && decide (roleText message = "user"), message.getStr "timestamp" with
  | true, some ts => "[Message Time: " ++ ts ++ "]\n" ++ text
  | _, _ => text

/-- The content of a message for the model. -/
def renderedContent (includeTimestamps : Bool) (message : Json) : Json :=
  match storedContent message with
  | .str text => .str (renderedText includeTimestamps message text)
  | other => other

def copiedKeys : List String :=
  ["tool_calls", "tool_call_id", "name", "reasoning_content", "thinking_blocks"]

def entryWith (role content message : Json) : Json :=
  .obj ([("role", role), ("content", content)] ++
    copiedKeys.filterMap fun key => (message.get key).map fun v => (key, v))

def entryOf (includeTimestamps : Bool) (message : Json) : Json :=
  entryWith (.str (roleText message)) (renderedContent includeTimestamps message) message

/-- The entry of a message of a recovered turn. -/
def recoveredEntry (message : Json) : Json :=
  entryWith ((message.get "role").getD .null) (storedContent message) message

/-! ## The history -/

/-- `_command` is set. -/
def isCommand (message : Json) : Bool := message.get "_command" = some (.bool true)

/-- An assistant message with nothing in it. -/
def isEmptyAssistant (message : Json) : Bool :=
  message.getStr "role" = some "assistant" &&
  !((message.getStr "content").any (fun s => RustStr.trim s ≠ "") ||
    (message.get "tool_calls").any (fun v => !v.isNull) ||
    (message.getStr "reasoning_content").any (· ≠ "") ||
    ((message.get "thinking_blocks").bind Json.asArray).any fun blocks => !blocks.isEmpty)

/-- Where the messages start: at the first user message, or at a delivery right before it. -/
def turnStart (messages : List Json) : Nat :=
  match messages.findIdx? fun m => m.getStr "role" = some "user" with
  | none => 0
  | some i =>
    if 0 < i ∧ (messages[i - 1]?.any fun prev => (prev.get "_channel_delivery").isSome) = true
    then i - 1 else i

-- `estimate_tokens_for_message`
def estimateTokensForMessage (msg : Json) : Nat :=
  ((msg.getStr "content").getD "").utf8ByteSize / 4 +
    (((msg.get "tool_calls").bind Json.asArray).map fun calls => calls.length * 20).getD 0 + 10

namespace Session

/-- The messages of the history: `sliced`, after the two filters. -/
def visibleMessages (s : Session Json) (maxMessages : Nat) : List Json :=
  let maxMessages := if maxMessages > 0 then maxMessages else 120
  let unconsolidated := s.messages.drop (min s.lastConsolidated s.messages.length)
  let sliced := unconsolidated.drop (unconsolidated.length - maxMessages)
  let sliced := sliced.drop (turnStart sliced)
  let sliced := sliced.drop (findLegalMessageStart sliced)
  (sliced.filter fun m => !isCommand m).filter fun m => !isEmptyAssistant m

/-- The entries that the budget keeps: from their first user message on, or the last turn, which
is rendered again. -/
def withinBudget (maxTokens : Nat) (sliced out : List Json) : List Json :=
  let kept := keepFitting estimateTokensForMessage maxTokens [] 0 out.reverse
  let kept := match kept.findIdx? fun m => m.getStr "role" = some "user" with
    | some i => kept.drop i
    | none =>
      match rposition (fun m : Json => m.getStr "role" = some "user") sliced with
      | some i => (sliced.drop i).map recoveredEntry
      | none => kept
  kept.drop (findLegalMessageStart kept)

-- `get_history_with_options`
def getHistoryWithOptions (s : Session Json) (maxMessages : Nat) (maxTokens : Option Nat)
    (includeTimestamps : Bool) : List Json :=
  let sliced := s.visibleMessages maxMessages
  let out := sliced.map (entryOf includeTimestamps)
  match maxTokens with
  | none => out
  | some maxTok => if out.isEmpty then out else withinBudget maxTok sliced out

end Session

/-! ## Calls and answers of the entries -/

theorem lookup_filterMap_keys (g : String → Option Json) (keys : List String) (key : String) :
    (keys.filterMap fun k => (g k).map fun v => (k, v)).lookup key =
      if key ∈ keys then g key else none := by
  induction keys with
  | nil => rfl
  | cons k keys ih =>
    rw [List.filterMap_cons]
    cases hk : g k with
    | none =>
      simp only [Option.map_none, ih, List.mem_cons]
      by_cases heq : key = k
      · subst heq
        simp [hk]
      · simp [heq]
    | some v =>
      simp only [Option.map_some, List.lookup_cons, List.mem_cons, ih]
      by_cases heq : key = k
      · subst heq
        simp [hk]
      · simp [heq, beq_false_of_ne heq]

theorem get_entryWith (role content message : Json) {key : String} (hkey : key ∈ copiedKeys) :
    (entryWith role content message).get key = message.get key := by
  have hrole : key ≠ "role" := by rintro rfl; exact absurd hkey (by decide)
  have hcontent : key ≠ "content" := by rintro rfl; exact absurd hkey (by decide)
  show List.lookup key _ = _
  rw [List.cons_append, List.cons_append, List.nil_append, List.lookup_cons, List.lookup_cons,
    beq_false_of_ne hrole, beq_false_of_ne hcontent, lookup_filterMap_keys, if_pos hkey]

theorem keepsCalls_entryWith {role content : Json → Json}
    (hrole : ∀ m r, r ≠ "" → ((role m).asStr = some r ↔ m.getStr "role" = some r)) :
    KeepsCalls fun m => entryWith (role m) (content m) m := by
  have hget : ∀ m, (entryWith (role m) (content m) m).getStr "role" = (role m).asStr := fun m => rfl
  have hcalls : ∀ m, (entryWith (role m) (content m) m).get "tool_calls" = m.get "tool_calls" :=
    fun m => get_entryWith _ _ m (by decide)
  have hid : ∀ m, (entryWith (role m) (content m) m).get "tool_call_id" = m.get "tool_call_id" :=
    fun m => get_entryWith _ _ m (by decide)
  have hanswered : ∀ m, answeredId (entryWith (role m) (content m) m) = answeredId m := by
    intro m
    unfold answeredId
    rw [hid]
  refine ⟨fun m => ?_, hanswered, fun m => ?_⟩
  · unfold AnswersCall
    rw [hanswered, hget, hrole m "tool" (by decide)]
  · unfold declaredBy declaredIds
    rw [hcalls, hget]
    simp only [hrole m "assistant" (by decide)]

variable {r : String}

theorem roleText_eq_iff (m : Json) (hr : r ≠ "") :
    some (roleText m) = some r ↔ m.getStr "role" = some r := by
  unfold roleText
  cases m.getStr "role" with
  | none => simpa using Ne.symm hr
  | some r' => rfl

theorem keepsCalls_entryOf (includeTimestamps : Bool) : KeepsCalls (entryOf includeTimestamps) :=
  keepsCalls_entryWith fun m _ hr => roleText_eq_iff m hr

theorem keepsCalls_recoveredEntry : KeepsCalls recoveredEntry := by
  refine keepsCalls_entryWith fun m r _ => ?_
  unfold Json.getStr
  cases m.get "role" with
  | none => simp [Json.asStr]
  | some v => rfl

/-! ## No orphans -/

theorem noOrphan_visibleMessages {s : Session Json} (n : Nat)
    (h : ∀ m ∈ s.messages, declaredBy m ≠ [] → isCommand m = false) :
    NoOrphan (s.visibleMessages n) := by
  unfold Session.visibleMessages
  dsimp only
  generalize hsliced : (s.messages.drop (min s.lastConsolidated s.messages.length)).drop _ = sliced
  have hmem : ∀ m ∈ sliced, m ∈ s.messages := fun m hm =>
    List.drop_subset _ _ (List.drop_subset _ _ (hsliced ▸ hm))
  refine ((noOrphan_drop_findLegalMessageStart _).filter fun m hm hflag => ?_).filter
    fun m _ hempty => ?_
  · by_contra hcalls
    have hplain := h m (hmem m (List.drop_subset _ _ (List.drop_subset _ _ hm))) hcalls
    rw [hplain] at hflag
    cases hflag
  · -- an assistant message with calls is not empty
    by_contra hcalls
    have hempty' : isEmptyAssistant m = true := by simpa using hempty
    unfold isEmptyAssistant at hempty'
    simp only [Bool.and_eq_true, Bool.not_eq_true', Bool.or_eq_false_iff] at hempty'
    have hnone := hempty'.2.1.1.2
    unfold declaredBy declaredIds at hcalls
    cases hget : m.get "tool_calls" with
    | none => simp [hget] at hcalls
    | some v =>
      rw [hget] at hnone
      have hnull : v = .null := by
        cases v <;> simp [Json.isNull] at hnone ⊢
      simp [hget, hnull, Json.asArray] at hcalls

/-- **Tool results of the history.** Where no message that declares tool calls is flagged as a
command, every tool message with an id follows, in the history, an assistant message that declares
the id; whatever the limits are. -/
theorem noOrphan_getHistoryWithOptions (s : Session Json) (maxMessages : Nat)
    (maxTokens : Option Nat) (includeTimestamps : Bool)
    (h : ∀ m ∈ s.messages, declaredBy m ≠ [] → isCommand m = false) :
    NoOrphan (s.getHistoryWithOptions maxMessages maxTokens includeTimestamps) := by
  have hout : NoOrphan ((s.visibleMessages maxMessages).map (entryOf includeTimestamps)) :=
    (keepsCalls_entryOf includeTimestamps).noOrphan (noOrphan_visibleMessages maxMessages h)
  unfold Session.getHistoryWithOptions
  cases maxTokens with
  | none => exact hout
  | some maxTok =>
    dsimp only
    split
    · exact hout
    · exact noOrphan_drop_findLegalMessageStart _

/-- A question, a tool call and its result. -/
def toolSession : Session Json :=
  { key := "cli:direct", createdAt := 0, updatedAt := 0
    messages :=
      [.obj [("role", .str "user"), ("content", .str "look")],
        .obj [("role", .str "assistant"), ("content", .str ""),
          ("tool_calls", .arr [.obj [("id", .str "a")]])],
        .obj [("role", .str "tool"), ("content", .str "seen"), ("tool_call_id", .str "a")]] }

/-- Also where the budget keeps one message only. -/
theorem noOrphan_toolSession : NoOrphan (toolSession.getHistoryWithOptions 10 (some 1) false) :=
  noOrphan_getHistoryWithOptions toolSession 10 (some 1) false (by decide +kernel)

/-! ## The two constructions of an entry -/

/-- Both constructions of the entry of a message agree: its role is text, an assistant's text is
sanitised already, and a user's text gets neither breadcrumbs nor a time. -/
def RendersAlike (includeTimestamps : Bool) (m : Json) : Prop :=
  (m.getStr "role").isSome ∧ ∀ text, storedContent m = .str text →
    (m.getStr "role" = some "assistant" → sanitizeAssistantReplayText text = text) ∧
    (m.getStr "role" = some "user" →
      (∀ media, mediaOf m = some media → text = "" ∧ breadcrumbs media = []) ∧
      (includeTimestamps = true → m.getStr "timestamp" = none))

theorem intercalate_cons_ne_empty {sep first : String} (hfirst : first ≠ "") (rest : List String) :
    String.intercalate sep (first :: rest) ≠ "" := by
  intro h
  have hchars := congrArg String.toList h
  cases rest with
  | nil => exact hfirst (by simpa using h)
  | cons x rest =>
    rw [String.intercalate_cons_of_ne_nil (by simp), String.toList_append, String.toList_append]
      at hchars
    obtain ⟨hchars, -⟩ := List.append_eq_nil_iff.mp hchars
    obtain ⟨hchars, -⟩ := List.append_eq_nil_iff.mp hchars
    exact hfirst (String.toList_eq_nil_iff.mp hchars)

theorem imagePlaceholderText_ne_empty (path : String) : imagePlaceholderText path ≠ "" := by
  unfold imagePlaceholderText
  split
  · decide
  · intro h
    have hchars := congrArg String.length h
    rw [String.length_append, String.length_append] at hchars
    have hpos : 0 < "]".length := by decide
    have hzero : "".length = 0 := rfl
    omega

theorem length_withBreadcrumbs (media : List Json) (text : String) :
    text.length ≤ (withBreadcrumbs media text).length := by
  unfold withBreadcrumbs
  split
  · rename_i hempty
    rw [hempty]
    exact Nat.zero_le _
  · rw [String.length_append, String.length_append]
    omega

theorem withBreadcrumbs_eq_iff (media : List Json) (text : String) :
    withBreadcrumbs media text = text ↔ text = "" ∧ breadcrumbs media = [] := by
  unfold withBreadcrumbs
  split
  · rename_i hempty
    subst hempty
    refine ⟨fun h => ⟨rfl, ?_⟩, fun h => by rw [h.2]; rfl⟩
    cases hcrumbs : breadcrumbs media with
    | nil => rfl
    | cons crumb rest =>
      rw [hcrumbs] at h
      have hcrumb : crumb ∈ breadcrumbs media := by
        rw [hcrumbs]
        exact List.mem_cons_self
      obtain ⟨path, -, rfl⟩ := List.mem_map.mp hcrumb
      exact absurd h (intercalate_cons_ne_empty (imagePlaceholderText_ne_empty path) rest)
  · rename_i hempty
    refine ⟨fun h => ?_, fun h => absurd h.1 hempty⟩
    have hlength := congrArg String.length h
    rw [String.length_append, String.length_append] at hlength
    have hpos : 0 < "\n".length := by decide
    omega

theorem renderedText_eq_iff (includeTimestamps : Bool) {m : Json}
    (hrole : m.getStr "role" = some r) (text : String) :
    renderedText includeTimestamps m text = text ↔
      (r = "assistant" → sanitizeAssistantReplayText text = text) ∧
      (r = "user" →
        (∀ media, mediaOf m = some media → text = "" ∧ breadcrumbs media = []) ∧
        (includeTimestamps = true → m.getStr "timestamp" = none)) := by
  have hr : roleText m = r := by
    unfold roleText
    rw [hrole]
    rfl
  unfold renderedText
  rw [hr]
  by_cases hassistant : r = "assistant"
  · subst hassistant
    simp
  · by_cases huser : r = "user"
    · subst huser
      simp only [decide_true, Bool.and_true]
      -- with the time the text is longer
      have hlonger : ∀ ts text' : String, text.length ≤ text'.length →
          "[Message Time: " ++ ts ++ "]\n" ++ text' ≠ text := by
        intro ts text' hle h
        have hlength := congrArg String.length h
        rw [String.length_append, String.length_append, String.length_append] at hlength
        have hpos : 0 < "]\n".length := by decide
        omega
      cases hmedia : mediaOf m with
      | none =>
        cases includeTimestamps with
        | false => simp
        | true =>
          cases hts : m.getStr "timestamp" with
          | none => simp
          | some ts =>
            have hne := hlonger ts text (Nat.le_refl _)
            simp [hne]
      | some media =>
        cases includeTimestamps with
        | false => simp [withBreadcrumbs_eq_iff]
        | true =>
          cases hts : m.getStr "timestamp" with
          | none => simp [withBreadcrumbs_eq_iff]
          | some ts =>
            have hne := hlonger ts _ (length_withBreadcrumbs media text)
            simp [hne]
    · simp [hassistant, huser]

theorem recoveredEntry_eq_iff (includeTimestamps : Bool) (m : Json) :
    recoveredEntry m = entryOf includeTimestamps m ↔ RendersAlike includeTimestamps m := by
  have hfields : recoveredEntry m = entryOf includeTimestamps m ↔
      (m.get "role").getD .null = .str (roleText m) ∧
        storedContent m = renderedContent includeTimestamps m := by
    unfold recoveredEntry entryOf entryWith
    simp
  have hrole : (m.get "role").getD .null = .str (roleText m) ↔ (m.getStr "role").isSome := by
    unfold roleText Json.getStr
    cases m.get "role" with
    | none => simp
    | some v => cases v <;> simp [Json.asStr]
  rw [hfields, hrole]
  unfold RendersAlike
  refine and_congr_right fun hsome => ?_
  obtain ⟨r, hr⟩ := Option.isSome_iff_exists.mp hsome
  unfold renderedContent
  cases storedContent m with
  | str text =>
    simp only [Json.str.injEq, forall_eq', hr, Option.some.injEq]
    rw [eq_comm, renderedText_eq_iff includeTimestamps hr]
  | _ => simp

/-! ## The budget -/

/-- The last turn of the history fits the budget or is one message, or both constructions agree on
what of it is legal by itself. -/
def LastTurnSafe (s : Session Json) (maxMessages maxTokens : Nat) (includeTimestamps : Bool) :
    Prop :=
  ∀ i, rposition (fun m : Json => m.getStr "role" = some "user") (s.visibleMessages maxMessages) =
      some i →
    ((((s.visibleMessages maxMessages).drop i).map fun m =>
        estimateTokensForMessage (entryOf includeTimestamps m)).sum ≤ maxTokens ∨
      ((s.visibleMessages maxMessages).drop i).length = 1) ∨
    ∀ m ∈ ((s.visibleMessages maxMessages).drop i).drop
        (findLegalMessageStart ((s.visibleMessages maxMessages).drop i)),
      RendersAlike includeTimestamps m

theorem getStr_role_entryOf (includeTimestamps : Bool) (m : Json) :
    (entryOf includeTimestamps m).getStr "role" = some "user" ↔ m.getStr "role" = some "user" :=
  roleText_eq_iff m (by decide)

theorem map_drop_suffix_map_iff {α β : Type} (f g : α → β) (l : List α) (k : Nat) :
    (l.drop k).map f <:+ l.map g ↔ ∀ x ∈ l.drop k, f x = g x := by
  rw [List.suffix_iff_eq_drop]
  have hdrop : (l.map g).drop ((l.map g).length - ((l.drop k).map f).length) = (l.drop k).map g := by
    rw [List.length_map, List.length_map, List.length_drop, ← List.map_drop]
    congr 1
    by_cases hk : k ≤ l.length
    · rw [show l.length - (l.length - k) = k by omega]
    · rw [List.drop_eq_nil_of_le (by omega), List.drop_eq_nil_of_le (by omega)]
  rw [hdrop, List.map_inj_left]

variable {V : List Json} {i : Nat}

theorem rposition_split (h : rposition (fun m : Json => m.getStr "role" = some "user") V = some i) :
    ∃ u post, V.drop i = u :: post ∧ u.getStr "role" = some "user" ∧
      ∀ x ∈ post, x.getStr "role" ≠ some "user" := by
  obtain ⟨hlt, huser, hafter⟩ := rposition_eq_some h
  refine ⟨V[i], V.drop (i + 1), List.drop_eq_getElem_cons hlt, ?_, fun x hx => ?_⟩
  · simpa using huser V[i] (List.getElem?_eq_getElem hlt)
  · obtain ⟨j, hj, hget⟩ := List.mem_drop_iff_getElem.mp hx
    have hno := hafter (i + 1 + j) x (by omega) (by rw [List.getElem?_eq_getElem (by omega), ← hget])
    simpa using hno

theorem exists_user_keepFitting_iff {maxTokens : Nat} (includeTimestamps : Bool)
    (h : rposition (fun m : Json => m.getStr "role" = some "user") V = some i) :
    (∃ e ∈ keepFitting estimateTokensForMessage maxTokens [] 0
        (V.map (entryOf includeTimestamps)).reverse, e.getStr "role" = some "user") ↔
      ((V.drop i).map fun m => estimateTokensForMessage (entryOf includeTimestamps m)).sum ≤
        maxTokens ∨ (V.drop i).length = 1 := by
  obtain ⟨u, post, hturn, huser, hpost⟩ := rposition_split h
  have hsplit : V.map (entryOf includeTimestamps) =
      (V.take i).map (entryOf includeTimestamps) ++
        entryOf includeTimestamps u :: post.map (entryOf includeTimestamps) := by
    rw [← List.map_cons, ← hturn, ← List.map_append, List.take_append_drop]
  have hsum : ((V.drop i).map fun m => estimateTokensForMessage (entryOf includeTimestamps m)) =
      (entryOf includeTimestamps u :: post.map (entryOf includeTimestamps)).map
        estimateTokensForMessage := by
    rw [hturn, ← List.map_cons, List.map_map]
    rfl
  have hlength : (V.drop i).length =
      (entryOf includeTimestamps u :: post.map (entryOf includeTimestamps)).length := by
    rw [hturn]
    simp
  rw [hsum, hlength]
  obtain ⟨-, hsuffix, hfits⟩ := keepFitting_spec estimateTokensForMessage maxTokens []
    (V.map (entryOf includeTimestamps)).reverse (Or.inl (Nat.zero_le _))
  rw [List.reverse_reverse, List.append_nil] at hsuffix
  simp only [List.map_nil, List.sum_nil] at hsuffix hfits
  constructor
  · intro hkept
    have hpost' : ∀ x ∈ post.map (entryOf includeTimestamps), ¬ x.getStr "role" = some "user" := by
      intro x hx
      obtain ⟨m, hm, rfl⟩ := List.mem_map.mp hx
      rw [getStr_role_entryOf]
      exact hpost m hm
    have hlast := last_suffix_of_suffix hsuffix hkept hsplit hpost'
    rcases hfits with hsmall | hone
    · left
      obtain ⟨front, hfront⟩ := hlast
      rw [← hfront, List.map_append, List.sum_append] at hsmall
      omega
    · have hle := hlast.length_le
      rw [List.length_cons] at hle ⊢
      exact Or.inr (by omega)
  · intro hsmall
    have hmax := keepFitting_maximal estimateTokensForMessage maxTokens []
      (V.map (entryOf includeTimestamps)).reverse
      (entryOf includeTimestamps u :: post.map (entryOf includeTimestamps)) _
      (by rw [List.reverse_reverse]; exact hsplit)
      (by rw [List.append_nil]; exact hsmall.imp_right fun h => h.le)
    rw [List.append_nil] at hmax
    exact ⟨entryOf includeTimestamps u, hmax.subset List.mem_cons_self,
      (getStr_role_entryOf includeTimestamps u).mpr huser⟩

/-- **The budget.** The history with a budget is a suffix of the history without one exactly if its
last turn fits the budget (or is one message), or both constructions of an entry agree on the last
turn. -/
theorem suffix_getHistoryWithOptions_iff (s : Session Json) (maxMessages maxTokens : Nat)
    (includeTimestamps : Bool) :
    s.getHistoryWithOptions maxMessages (some maxTokens) includeTimestamps <:+
        s.getHistoryWithOptions maxMessages none includeTimestamps ↔
      LastTurnSafe s maxMessages maxTokens includeTimestamps := by
  unfold Session.getHistoryWithOptions LastTurnSafe
  dsimp only
  generalize s.visibleMessages maxMessages = V
  have hsuffix : keepFitting estimateTokensForMessage maxTokens [] 0
      (V.map (entryOf includeTimestamps)).reverse <:+ V.map (entryOf includeTimestamps) := by
    have h := (keepFitting_spec estimateTokensForMessage maxTokens []
      (V.map (entryOf includeTimestamps)).reverse (Or.inl (Nat.zero_le _))).2.1
    rw [List.reverse_reverse, List.append_nil] at h
    exact h
  split
  · rename_i hempty
    have hnil : V = [] := by simpa using hempty
    subst hnil
    exact iff_of_true (List.suffix_refl _) (fun i hi => by simp [rposition] at hi)
  · unfold Session.withinBudget
    dsimp only
    cases hfind : (keepFitting estimateTokensForMessage maxTokens [] 0
        (V.map (entryOf includeTimestamps)).reverse).findIdx?
        fun m => m.getStr "role" = some "user" with
    | some k =>
      refine iff_of_true ((List.drop_suffix _ _).trans ((List.drop_suffix _ _).trans hsuffix)) ?_
      intro i hi
      obtain ⟨hlt, huser, -⟩ := List.findIdx?_eq_some_iff_getElem.mp hfind
      exact Or.inl ((exists_user_keepFitting_iff includeTimestamps hi).mp
        ⟨_, List.getElem_mem hlt, by simpa using huser⟩)
    | none =>
      have hnone := List.findIdx?_eq_none_iff.mp hfind
      cases hpos : rposition (fun m : Json => m.getStr "role" = some "user") V with
      | none =>
        refine iff_of_true ((List.drop_suffix _ _).trans hsuffix) ?_
        intro i hi
        cases hi
      | some i =>
        have hlong : ¬ (((V.drop i).map fun m =>
            estimateTokensForMessage (entryOf includeTimestamps m)).sum ≤ maxTokens ∨
            (V.drop i).length = 1) := by
          rw [← exists_user_keepFitting_iff includeTimestamps hpos]
          rintro ⟨e, he, huser⟩
          have hno := hnone e he
          simp [huser] at hno
        dsimp only
        rw [keepsCalls_recoveredEntry.findLegalMessageStart, ← List.map_drop, List.drop_drop,
          map_drop_suffix_map_iff]
        simp only [Option.some.injEq, forall_eq', hlong, false_or, recoveredEntry_eq_iff,
          List.drop_drop]

/-- A question with its time, and an answer. -/
def timedSession : Session Json :=
  { key := "cli:direct", createdAt := 0, updatedAt := 0
    messages :=
      [.obj [("role", .str "user"), ("content", .str "hi"), ("timestamp", .str "10:00")],
        .obj [("role", .str "assistant"), ("content", .str "hello")]] }

/-- Where the budget keeps the answer only, the question is recovered without its time. -/
theorem not_suffix_timedSession :
    ¬ timedSession.getHistoryWithOptions 10 (some 1) true <:+
      timedSession.getHistoryWithOptions 10 none true := by
  decide +kernel

end Sessions

end HiveClaw
