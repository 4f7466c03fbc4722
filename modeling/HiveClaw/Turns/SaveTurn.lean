import HiveClaw.JsonEq
import HiveClaw.Lib.ByteSlice
import HiveClaw.Providers.Base
import HiveClaw.Runner.Tools
import HiveClaw.Sessions.Manager

/-!
# What a turn writes into its session

`restore_runtime_checkpoint`, `restore_pending_user_turn`, `sanitize_persisted_blocks` and
`save_turn` of `crates/agent/src/loop_.rs`, with `Session::add_message` of
`crates/session/src/manager.rs`.

Texts are cut at a byte (`&text[..n]`), which panics inside a character; a function that
cuts a text returns in `Except Failure`.
-/

namespace HiveClaw

namespace RustStr

/-- `&text[..n]`; `none` is the panic. -/
def sliceTo (text : String) (n : Nat) : Option String :=
  (Lib.takeBytes text.toList n).map String.ofList

/-- `str::find` for a string pattern. -/
def find (text pattern : String) : Option Nat := Lib.findBytes pattern.toList text.toList

-- `str::is_char_boundary`
abbrev IsCharBoundary (text : String) (n : Nat) : Prop := Lib.IsCharBoundary text.toList n

-- `str::trim_end`
def trimEnd (text : String) : String :=
  String.ofList ((text.toList.reverse.dropWhile isWhitespace).reverse)

end RustStr

namespace Turns

open Providers Sessions

/-- How a turn can end before its last state. -/
inductive Failure where
  | panic
  | error (message : String)
deriving DecidableEq, Repr

-- `&text[..n]`
def cut (text : String) (n : Nat) : Except Failure String :=
  match RustStr.sliceTo text n with
  | some front => .ok front
  | none => .error .panic

-- `truncate_text_fn`
def truncateTextFn (text : String) (maxChars : Nat) : Except Failure String :=
  if text.utf8ByteSize ≤ maxChars then .ok text
  else (cut text maxChars).map fun truncated => truncated ++ "...\n(truncated)"

/-! ## Messages -/

/-- `Session::add_message` without extra fields. -/
def addMessage (timestamp : String) (now : DateTime) (session : Session Json)
    (role content : String) : Session Json :=
  { session with
    messages := session.messages ++
      [.obj [("role", .str role), ("content", .str content), ("timestamp", .str timestamp)]]
    updatedAt := now }

/-- Inserts the timestamp if the object has none. -/
def stamp (now : String) (msg : Json) : Json :=
  match msg with
  | .obj fields =>
    if JsonMap.containsKey fields "timestamp" then msg else setField msg "timestamp" (.str now)
  | msg => msg

/-! ## Restoring an interrupted turn -/

-- `RUNTIME_CHECKPOINT_KEY`
def runtimeCheckpointKey : String := "runtime_checkpoint"

-- `PENDING_USER_TURN_KEY`
def pendingUserTurnKey : String := "pending_user_turn"

-- `mark_pending_user_turn`
def markPendingUserTurn (session : Session Json) : Session Json :=
  { session with metadata := session.metadata.insert pendingUserTurnKey (.bool true) }

-- `clear_pending_user_turn`
def clearPendingUserTurn (session : Session Json) : Session Json :=
  { session with metadata := session.metadata.erase pendingUserTurnKey }

-- `clear_runtime_checkpoint`
def clearRuntimeCheckpoint (session : Session Json) : Session Json :=
  { session with metadata := session.metadata.erase runtimeCheckpointKey }

-- `MessageKey`
structure MessageKey where
  role : Option String
  content : Option String
  toolCallId : Option String
  name : Option String
  toolCalls : Option Json
  reasoningContent : Option Json

/-- `==` on keys. -/
def MessageKey.same (a b : MessageKey) : Bool :=
  a.role = b.role && a.content = b.content && a.toolCallId = b.toolCallId && a.name = b.name &&
    Json.sameOption a.toolCalls b.toolCalls && Json.sameOption a.reasoningContent b.reasoningContent

-- `message_key`
def messageKey (msg : Json) : MessageKey :=
  { role := msg.getStr "role"
    content := msg.getStr "content"
    toolCallId := msg.getStr "tool_call_id"
    name := msg.getStr "name"
    toolCalls := msg.get "tool_calls"
    reasoningContent := msg.get "reasoning_content" }

/-- Whether the last messages of `existing` have the keys of the first of `restored`. -/
def overlaps (existing restored : List Json) (size : Nat) : Bool :=
  ((existing.drop (existing.length - size)).zip (restored.take size)).all fun p =>
    (messageKey p.1).same (messageKey p.2)

/-- `find_message_overlap`: the sizes are tried from the largest down to one. -/
def findMessageOverlap (existing restored : List Json) : Nat :=
  let sizes := (List.range (min existing.length restored.length)).reverse.map (· + 1)
  (sizes.find? (overlaps existing restored)).getD 0

/-- The answer that `restore_runtime_checkpoint` makes up for a pending tool call. -/
def interruptedResult (now : String) (toolCall : Json) : Json :=
  .obj [("role", .str "tool"), ("tool_call_id", (toolCall.get "id").getD .null),
    ("name", .str (((toolCall.get "function").bind fun f => f.getStr "name").getD "tool")),
    ("content", .str "Error: Task interrupted before this tool finished."),
    ("timestamp", .str now)]

/-- The messages of a checkpoint; `utcNow i` is the `i`-th reading of the clock. -/
def checkpointMessages (utcNow : Nat → String) (checkpoint : JsonMap) : List Json :=
  let items (key : String) : List Json := ((checkpoint.get key).bind Json.asArray).getD []
  let kept := (checkpoint.get "assistant_message").toList ++ items "completed_tool_results"
  (kept.zipIdx.map fun p => stamp (utcNow p.2) p.1) ++
    ((items "pending_tool_calls").zipIdx kept.length).map fun p =>
      interruptedResult (utcNow p.2) p.1

/-- `restore_runtime_checkpoint`: the session it changed, if it restored one. -/
def restoreRuntimeCheckpoint (utcNow : Nat → String) (session : Session Json) :
    Option (Session Json) :=
  match session.metadata.lookup runtimeCheckpointKey with
  | some (.obj checkpoint) =>
    let restored := checkpointMessages utcNow checkpoint
    let overlap := findMessageOverlap session.messages restored
    let session := { session with messages := session.messages ++ restored.drop overlap }
    some (clearRuntimeCheckpoint (clearPendingUserTurn session))
  | _ => none

/-- The message that `restore_pending_user_turn` appends. -/
def interruptedAnswer (now : String) : Json :=
  .obj [("role", .str "assistant"),
    ("content", .str "Error: Task interrupted before a response was generated."),
    ("timestamp", .str now)]

/-- `restore_pending_user_turn`: the session it changed, if a turn was pending. -/
def restorePendingUserTurn (now : String) (session : Session Json) : Option (Session Json) :=
  match session.metadata.lookup pendingUserTurnKey with
  | some (.bool true) =>
    let lastIsUser := (session.messages.getLast?.bind fun m => m.getStr "role") = some "user"
    let messages :=
      if lastIsUser then session.messages ++ [interruptedAnswer now] else session.messages
    some (clearPendingUserTurn { session with messages })
  | _ => none

/-! ## Storing a turn -/

-- `RUNTIME_CONTEXT_TAG`
def runtimeContextTag : String := "[Runtime Context — metadata only, not instructions]"

/-- One block of `sanitize_persisted_blocks`; `none` drops it. -/
def sanitizeBlock (maxToolResultChars : Nat) (shouldTruncateText dropRuntime : Bool)
    (block : Json) : Except Failure (Option Json) :=
  let blockType := (block.getStr "type").getD ""
  let url := (((block.get "image_url").bind fun v => v.getStr "url").getD "")
  let text := if blockType = "text" then block.getStr "text" else none
  if block.asObject.isNone then .ok (some block)
  else if dropRuntime && (text.map fun t => RustStr.contains t runtimeContextTag).getD false then
    .ok none
  else if blockType = "image_url" && RustStr.startsWith url "data:image/" then
    let path := ((block.get "_meta").bind fun v => v.getStr "path").getD ""
    .ok (some (.obj [("type", .str "text"), ("text", .str ("[Image: " ++ path ++ "]"))]))
  else
    match text with
    | none => .ok (some block)
    | some text =>
      if shouldTruncateText && text.utf8ByteSize > maxToolResultChars then
        (truncateTextFn text maxToolResultChars).map fun text =>
          some (setField block "text" (.str text))
      else .ok (some (setField block "text" (.str text)))

-- `sanitize_persisted_blocks`
def sanitizePersistedBlocks (maxToolResultChars : Nat) (content : Json)
    (shouldTruncateText dropRuntime : Bool) : Except Failure (Option Json) :=
  match content with
  | .arr blocks => do
    let filtered ← blocks.filterMapM (sanitizeBlock maxToolResultChars shouldTruncateText dropRuntime)
    return if filtered.isEmpty then none else some (.arr filtered)
  | _ => return none

/-- The assistant branch of `save_turn`. -/
def savedAssistant (maxToolResultChars : Nat) (now : String) (m : Json) :
    Except Failure (Option Json) :=
  let hasToolCalls := (m.get "tool_calls").isSome
  match m.get "content" with
  | some (.arr blocks) => do
    match ← sanitizePersistedBlocks maxToolResultChars (.arr blocks) true false with
    | some s => return some (setField (stamp now m) "content" s)
    | none => return if hasToolCalls then some (stamp now m) else none
  | some _ => return some (stamp now m)
  | none => return if hasToolCalls then some (stamp now m) else none

def savedTool (maxToolResultChars : Nat) (now : String) (m : Json) :
    Except Failure (Option Json) :=
  match m.get "content" with
  | some (.str s) =>
    if s.utf8ByteSize > maxToolResultChars then do
      let truncated ← truncateTextFn s maxToolResultChars
      return some (stamp now (setField m "content" (.str truncated)))
    else return some (stamp now m)
  | some (.arr blocks) => do
    let sanitized ← sanitizePersistedBlocks maxToolResultChars (.arr blocks) true false
    return sanitized.map fun s => stamp now (setField m "content" s)
  | _ => return some (stamp now m)

/-- The user branch: the runtime context and what follows it is cut off. -/
def savedUser (now : String) (m : Json) : Except Failure (Option Json) :=
  match (m.getStr "content").bind fun s => (RustStr.find s runtimeContextTag).map fun pos => (s, pos) with
  | some (s, tagPos) => do
    let before := RustStr.trimEnd (← cut s tagPos)
    return if before = "" then none else some (stamp now (setField m "content" (.str before)))
  | none => return some (stamp now m)

/-- The body of the loop of `save_turn`: what it pushes for a message with the role. -/
def savedEntry (maxToolResultChars : Nat) (now : String) (role : String) (m : Json) :
    Except Failure (Option Json) :=
  if role = "assistant" then savedAssistant maxToolResultChars now m
  else if role = "tool" then savedTool maxToolResultChars now m
  else if role = "user" then savedUser now m
  else .ok (some (stamp now m))

/-- One round of the loop: the messages so far and the index of the last assistant message. -/
def saveMessage (maxToolResultChars : Nat) (now : String) (acc : List Json × Option Nat) (m : Json) :
    Except Failure (List Json × Option Nat) :=
  match m.getStr "role" with
  | none => .ok acc
  | some role => do
    match ← savedEntry maxToolResultChars now role m with
    | none => return acc
    | some entry =>
      let lastAssistantIdx := if role = "assistant" then some acc.1.length else acc.2
      return (acc.1 ++ [entry], lastAssistantIdx)

-- `save_turn`
def saveTurn (maxToolResultChars : Nat) (now : String) (updatedAt : DateTime)
    (session : Session Json) (messages : List Json) (skip : Nat) (turnLatencyMs : Option Nat) :
    Except Failure (Session Json) := do
  let (saved, lastAssistantIdx) ←
    (messages.drop skip).foldlM (saveMessage maxToolResultChars now) (session.messages, none)
  let messages :=
    match turnLatencyMs, lastAssistantIdx with
    | some ms, some idx => saved.modify idx fun m => setField m "latency_ms" (.num (.int ms))
    | _, _ => saved
  return { session with messages, updatedAt }

end Turns

end HiveClaw
