import HiveClaw.Providers.Base
import HiveClaw.Utils.Helpers

/-!
# The context governance of the agent runner

The passes of `crates/agent/src/runner.rs` that clean and shorten the messages before a model
call, and what they need of `crates/utils/src/helpers.rs` and `runtime.rs`.

What lies outside the runner is a parameter (`Env`): the model, the tools, the injection
callback and the hook, the store of long tool results, the token estimates, and the texts
that `serde_json`, `str::to_lowercase` and the extraction of reasoning produce. It works on a
state `ω` of its own, so a run with any sequence of responses is a run over some `Env`.
-/

namespace HiveClaw.Runner

open Providers Utils

/-! ## The environment -/

/-- The fields of `AgentRunSpec` that the runner reads. -/
structure AgentRunSpec where
  initialMessages : List Json
  maxIterations : Nat
  maxTokens : Option Nat := none
  errorMessage : Option String := none
  maxIterationsMessage : Option String := none
  concurrentTools : Bool := false
  failOnToolError : Bool := false
  contextWindowTokens : Option Nat := none
  contextBlockLimit : Option Nat := none

structure Env (ω : Type) where
  /-- `request_model`: one request of the main loop. -/
  requestModel : ω → List Json → LLMResponse × ω
  /-- `chat_with_retry` without tools. -/
  chatWithRetry : ω → List Json → LLMResponse × ω
  /-- The injection callback, if there is one. -/
  injectionCallback : Option (ω → Nat → List Json × ω) := none
  /-- `ToolRegistry::execute`. -/
  executeTool : ω → String → Json → Json × ω
  /-- Whether the registry has the tool and it is safe to run beside others. -/
  concurrencySafe : ω → String → Bool := fun _ _ => false
  /-- `AgentHook::finalize_content`. -/
  finalizeContent : ω → Option String → Option String × ω := fun w content => (content, w)
  /-- `maybe_persist_tool_result` on a call id and a content. -/
  maybePersist : ω → String → Json → Json × ω := fun w _ content => (content, w)
  /-- `Path::canonicalize`. -/
  canonicalize : ω → String → Option String := fun _ _ => none
  /-- The content that `extract_reasoning` leaves. -/
  extractReasoning : LLMResponse → Option String := LLMResponse.content
  estimatePromptTokens : List Json → Nat := fun _ => 0
  estimateMessageTokens : Json → Nat := fun _ => 0
  /-- `serde_json::to_string`. -/
  toJson : Json → String := fun _ => ""
  /-- `str::to_lowercase`. -/
  toLowercase : String → String := RustStr.toAsciiLowercase

variable {ω : Type}

/-! ## Messages -/

def role (msg : Json) : Option String := msg.getStr "role"

/-- The ids of the tool calls of an assistant message. -/
def callIds (msg : Json) : List String :=
  if role msg = some "assistant" then
    (((msg.get "tool_calls").bind Json.asArray).getD []).filterMap fun tc => tc.getStr "id"
  else []

/-- The id that a tool message answers. -/
def answers (msg : Json) : Option String :=
  if role msg = some "tool" then msg.getStr "tool_call_id" else none

-- `{"role": role, "content": content}`
def textMessage (role content : String) : Json :=
  .obj [("role", .str role), ("content", .str content)]

-- `{"role": "tool", "tool_call_id": .., "name": .., "content": ..}`
def toolMessage (callId : Json) (name : String) (content : Json) : Json :=
  .obj [("role", .str "tool"), ("tool_call_id", callId), ("name", .str name), ("content", content)]

@[simp] theorem role_textMessage (r content : String) : role (textMessage r content) = some r := rfl

@[simp] theorem role_toolMessage (callId : Json) (name : String) (content : Json) :
    role (toolMessage callId name content) = some "tool" := rfl

@[simp] theorem answers_toolMessage (id name : String) (content : Json) :
    answers (toolMessage (.str id) name content) = some id := rfl

variable {msg : Json}

theorem callIds_of_role_ne (h : role msg ≠ some "assistant") : callIds msg = [] :=
  if_neg h

theorem answers_of_role_ne (h : role msg ≠ some "tool") : answers msg = none :=
  if_neg h

/-- The fields other than the content stay when the content is set. -/
theorem role_setContent (msg v : Json) : role (setField msg "content" v) = role msg :=
  congrArg (Option.bind · Json.asStr) (get_setField_of_ne msg v (by decide))

-- `build_assistant_message`
def buildAssistantMessage (content : Option String) (toolCalls : List Json)
    (reasoningContent : Option String) (thinkingBlocks : Option (List Json)) : Json :=
  .obj ([("role", .str "assistant"), ("content", .str (content.getD ""))] ++
    (if toolCalls.isEmpty then [] else [("tool_calls", .arr toolCalls)]) ++
    (if reasoningContent.isSome || thinkingBlocks.isSome then
      [("reasoning_content", .str (reasoningContent.getD ""))] else []) ++
    (if (thinkingBlocks.getD []).isEmpty then []
      else [("thinking_blocks", .arr (thinkingBlocks.getD []))]))

/-! ## Tool results -/

-- `stringify_text_blocks`
def stringifyTextBlocks (content : List Json) : Option String :=
  (content.mapM fun block =>
    if block.getStr "type" = some "text" then block.getStr "text" else none).map
    (String.intercalate "\n")

-- `ensure_nonempty_tool_result`
def ensureNonemptyToolResult (toolName : String) (content : Json) : Json :=
  let empty := Json.str ("(" ++ toolName ++ " completed with no output)")
  match content with
  | .null => empty
  | .str s => if RustStr.trim s = "" then empty else content
  | .arr items =>
    if items.isEmpty then empty
    else if (stringifyTextBlocks items).any fun text => RustStr.trim text = "" then empty
    else content
  | content => content

-- `normalize_tool_result`
def normalizeToolResult (env : Env ω) (w : ω) (toolCallId toolName : String) (result : Json) :
    Json × ω :=
  env.maybePersist w toolCallId (ensureNonemptyToolResult toolName result)

/-! ## The passes -/

/-- One turn of the loop of `drop_orphan_tool_results`: the ids declared so far, and the copy
without the orphans once there is one. -/
def dropStep (messages : List Json) (st : List String × Option (List Json)) (p : Json × Nat) :
    List String × Option (List Json) :=
  match role p.1 with
  | none => st
  | some r =>
    let declared := st.1 ++ callIds p.1
    let tid := (p.1.getStr "tool_call_id").getD ""
    if r = "tool" ∧ tid ≠ "" ∧ tid ∉ declared then
      (declared, some (st.2.getD (messages.take p.2)))
    else (declared, st.2.map (· ++ [p.1]))

-- `drop_orphan_tool_results`
def dropOrphanToolResults (messages : List Json) : List Json :=
  (messages.zipIdx.foldl (dropStep messages) ([], none)).2.getD messages

-- `BACKFILL_CONTENT`
def backfillContent : String := "[Tool result unavailable — call was interrupted or lost]"

/-- A tool call that a message declares: its position, its id and its name. -/
structure Declared where
  idx : Nat
  id : String
  name : String
deriving DecidableEq, Repr

/-- The calls that the message at a position declares. -/
def declaredAt (p : Json × Nat) : List Declared :=
  if role p.1 = some "assistant" then
    (((p.1.get "tool_calls").bind Json.asArray).getD []).filterMap fun tc =>
      (tc.getStr "id").map fun id =>
        ⟨p.2, id, ((tc.get "function").bind fun f => f.getStr "name").getD ""⟩
  else []

/-- The calls that no tool message answers. -/
def missingCalls (messages : List Json) : List Declared :=
  (messages.zipIdx.flatMap declaredAt).filter fun d => d.id ∉ messages.filterMap answers

/-- Where the synthetic result of a call goes: after the tool messages at `start`. -/
def insertPosition (messages : List Json) (start : Nat) : Nat :=
  start + ((messages.drop start).takeWhile fun m => role m = some "tool").length

/-- One insertion of `backfill_missing_tool_results`: the messages, and the offset. -/
def backfillStep (st : List Json × Nat) (d : Declared) : List Json × Nat :=
  (st.1.insertIdx (insertPosition st.1 (d.idx + 1 + st.2))
    (toolMessage (.str d.id) d.name (.str backfillContent)), st.2 + 1)

-- `backfill_missing_tool_results`
def backfillMissingToolResults (messages : List Json) : List Json :=
  ((missingCalls messages).foldl backfillStep (messages, 0)).1

-- `COMPACTABLE_TOOLS`
def compactableTools : List String :=
  ["read_file", "exec", "grep", "web_search", "web_fetch", "list_dir"]

-- `MICROCOMPACT_KEEP_RECENT`
def microcompactKeepRecent : Nat := 10

-- `MICROCOMPACT_MIN_CHARS`
def microcompactMinChars : Nat := 500

/-- Whether a message is the result of a tool that may be compacted. -/
def compactable (msg : Json) : Bool :=
  role msg = some "tool" && (msg.getStr "name").any compactableTools.contains

/-- The message with a one-line summary, if it is long enough. -/
def compacted (msg : Json) : Json :=
  if ((msg.getStr "content").getD "").utf8ByteSize < microcompactMinChars then msg
  else
    let name := (msg.getStr "name").getD "tool"
    toolMessage ((msg.get "tool_call_id").getD .null) name
      (.str ("[" ++ name ++ " result omitted from context]"))

-- `microcompact`
def microcompact (messages : List Json) : List Json :=
  let indices := (messages.zipIdx.filter fun p => compactable p.1).map Prod.snd
  let stale := indices.take (indices.length - microcompactKeepRecent)
  messages.zipIdx.map fun p => if p.2 ∈ stale then compacted p.1 else p.1

/-- The content of the message at a position after the budget. -/
def budgeted (env : Env ω) (w : ω) (idx : Nat) (msg : Json) : Json × ω :=
  if role msg ≠ some "tool" then (msg, w)
  else
    let toolCallId := (msg.getStr "tool_call_id").getD ("tool_" ++ toString idx)
    let toolName := (msg.getStr "name").getD "tool"
    let (normalized, w) := normalizeToolResult env w toolCallId toolName
      ((msg.get "content").getD .null)
    if some normalized = msg.get "content" then (msg, w)
    else (setField msg "content" normalized, w)

/-- The loop of `apply_tool_result_budget`. -/
def budgetFrom (env : Env ω) : ω → Nat → List Json → List Json × ω
  | w, _, [] => ([], w)
  | w, idx, msg :: rest =>
    let (msg', w) := budgeted env w idx msg
    let (rest', w) := budgetFrom env w (idx + 1) rest
    (msg' :: rest', w)

-- `apply_tool_result_budget`
def applyToolResultBudget (env : Env ω) (w : ω) (messages : List Json) : List Json × ω :=
  budgetFrom env w 0 messages

-- `SNIP_SAFETY_BUFFER`
def snipSafetyBuffer : Nat := 1024

/-- The kept messages from the first user message on, or from the last user message before. -/
def fromUser (kept nonSystem : List Json) : List Json :=
  match kept.findIdx? fun m => role m = some "user" with
  | some i => kept.drop i
  | none =>
    match rposition (fun m => role m = some "user") nonSystem with
    | some i => nonSystem.drop i
    | none => kept

/-- The messages without a start that no assistant message declares. -/
def fromLegalStart (kept : List Json) : List Json := kept.drop (findLegalMessageStart kept)

/-- The budget in tokens; `none` if there is none. -/
def snipBudget (spec : AgentRunSpec) : Option Nat :=
  match spec.contextWindowTokens with
  | none => none
  | some window =>
    if window = 0 then none
    else
      let budget := spec.contextBlockLimit.getD
        (window - spec.maxTokens.getD 4096 - snipSafetyBuffer)
      if budget = 0 then none else some budget

-- `snip_history`
def snipHistory (env : Env ω) (spec : AgentRunSpec) (messages : List Json) : List Json :=
  match snipBudget spec with
  | none => messages
  | some budget =>
    if env.estimatePromptTokens messages ≤ budget then messages
    else
      let system := messages.filter fun m => role m = some "system"
      let nonSystem := messages.filter fun m => role m ≠ some "system"
      if nonSystem.isEmpty then messages
      else
        let remaining := max 128 budget - (system.map env.estimateMessageTokens).sum
        let kept := keepFitting env.estimateMessageTokens remaining [] 0 nonSystem.reverse
        let kept := if kept.isEmpty then kept else fromLegalStart (fromUser kept nonSystem)
        let kept := if kept.isEmpty then
            fromLegalStart (nonSystem.drop (nonSystem.length - min nonSystem.length 4))
          else kept
        system ++ kept

/-- The messages for the model, from those of the run. -/
def govern (env : Env ω) (spec : AgentRunSpec) (w : ω) (messages : List Json) : List Json × ω :=
  let messages := microcompact (backfillMissingToolResults (dropOrphanToolResults messages))
  let (messages, w) := applyToolResultBudget env w messages
  (backfillMissingToolResults (dropOrphanToolResults (snipHistory env spec messages)), w)

end HiveClaw.Runner
