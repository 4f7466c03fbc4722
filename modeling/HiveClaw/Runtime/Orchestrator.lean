import HiveClaw.Runtime.Tools

/-!
# The orchestrator

`run_session_internal_impl` and `finalize_with_variant` of
`crates/hiveweb/src/runtime/orchestrator.rs`: a loop of hops. In each hop the
current agent is loaded and the model is asked; the model answers or calls
tools, and a tool may route the session to another agent. The end of the loop
is followed by the hooks of `after_agent_end`, by the message that is stored,
and by the last events of the stream.

A hop that leaves the loop throws its `HopEnd`. How it came to that is kept as
an `Exit`; the source has no such value.
-/

namespace HiveClaw.Runtime

open Lib Context

-- ---
-- Messages
-- ---

/-- A stored message, as `HasRoleContent` shows it. -/
structure ChatMessage where
  role : String
  content : Option String
  extensions : Option Json

def message (role content : String) : Json :=
  .obj [("role", .str role), ("content", .str content)]

-- the extensions of a message but for `usage` and `card`
def keptExtensions (m : ChatMessage) : Option (List Json) :=
  match (m.extensions.bind Json.asArray).map fun arr =>
      arr.filter fun e => (e.getStr "content_type").getD "" ≠ "usage" &&
        (e.getStr "content_type").getD "" ≠ "card" with
  | some (e :: rest) => some (e :: rest)
  | _ => none

/-- One message of the history for the model. An old or empty message of the
assistant becomes a placeholder. -/
def chatMessage (env : Env) (trim isLastAssistant : Bool) (m : ChatMessage) : Json :=
  let content := m.content.getD ""
  if m.role = "assistant" then
    let kept := keptExtensions m
    if (RustStr.trim content = "" && kept.isNone) || (trim && !isLastAssistant) then
      message "assistant" "[已省略]"
    else
      match kept with
      | some exts =>
        message m.role (env.toText (.obj [("content", .str content), ("extensions", .arr exts)]))
      | none => message m.role content
  else message m.role content

-- the index of the last message of the assistant
def lastAssistantIdx (history : List ChatMessage) : Option Nat :=
  (history.reverse.findIdx? fun m => m.role = "assistant").map fun i => history.length - 1 - i

-- the text of the last user message that has one
def lastUserContent (history : List ChatMessage) : Option String :=
  (history.reverse.find? fun m => m.role = "user" && m.content.isSome).bind ChatMessage.content

-- `build_chat_messages`
def buildChatMessages (env : Env) (history : List ChatMessage) (userContent : String) :
    List Json :=
  (history.zipIdx.map fun (m, i) =>
    chatMessage env (decide (5 ≤ history.length)) (lastAssistantIdx history = some i) m) ++
  if lastUserContent history = some userContent then [] else [message "user" userContent]

/-- The message of the assistant that a hop appends. -/
def assistantMessage (env : Env) (resp : LLMResponse) : Json :=
  let content := resp.content.getD ""
  if resp.toolCalls = [] then message "assistant" content
  else
    .obj ([("role", .str "assistant"),
      ("content", if content = "" then .null else .str content),
      ("tool_calls", .arr (resp.toolCalls.map (ToolCallRequest.toOpenaiToolCall env.toText)))] ++
      match resp.reasoningContent with
      | some rc => [("reasoning_content", .str rc)]
      | none => [])

/-- The message with the result of a tool call. -/
def toolMessage (env : Env) (tc : ToolCallRequest) (payload : Json) : Json :=
  .obj [("role", .str "tool"), ("tool_call_id", .str tc.id),
    ("content", .str (env.toText payload))]

-- ---
-- Extensions of the reply
-- ---

-- `flatten_extension`
def flattenExtension (e : ExtensionContent) : Json :=
  .obj (((e.data.asObject).getD []).foldl (fun flat f => JsonMap.insert flat f.1 f.2)
    [("content_type", .str e.contentType.toString)])

-- the two texts of `rewrite_content_for_empty_extensions`
def noDurationCardText : String :=
  "暂未查询到您的时长卡购买记录。如您需要更多游戏时长，推荐购买会员产品，通常会比单独购买时长卡更划算。"

def noDiskText : String :=
  "暂未查询到您的云硬盘购买记录。如您需要使用云硬盘，可前往「我的」页面点击「云硬盘」进行购买。您也可以购买会员产品，享受赠送的 5GB 会员专属云硬盘权益。"

/-- The text that replaces the reply when a card has nothing to show. -/
def emptyCardText (ext : Json) : Option String :=
  if ext.getStr "content_type" ≠ some "card" then none
  else
    let payload := ext.get "payload"
    let category := (ext.getStr "category").getD ""
    let dcEmpty := ((payload.bind fun p => p.get "duration_card").bind Json.asArray).all
      List.isEmpty
    let diskEmpty := (((payload.bind fun p => p.get "info").bind fun i =>
      i.get "disk_total_size").bind Json.isZeroF64).getD true
    if category = "duration_card" ∧ dcEmpty then some noDurationCardText
    else if category = "disk" ∧ diskEmpty then some noDiskText
    else none

/-- `rewrite_content_for_empty_extensions`: the first card without data
decides. -/
def rewriteContentForEmptyExtensions (content : Option String) (exts : List Json) :
    Option String :=
  (exts.findSome? emptyCardText).or content

-- ---
-- The session
-- ---

/-- The arguments of `run_session_internal_impl`. -/
structure Session where
  sessionId : Int
  startingAgentId : Int
  actorId : Int
  history : List ChatMessage
  userContent : String

/-- The variables of the loop that live from one hop to the next. -/
structure Locals where
  currentAgentId : Int
  visited : List Int
  messages : List Json
  lastHooks : Option (List (String × List AgentHook)) := none
  lastIdentifier : Option String := none

-- `last_hooks = Some(..); last_identifier = Some(..);`
def Locals.remember (l : Locals) (content : AgentContent) : Locals :=
  { l with lastHooks := some content.hooks, lastIdentifier := some content.identifier }

inductive Exit where
  | contentFailed
  | hookBlocked
  | presetError
  | modelError
  | answered
  | toolBlocked
  | routeLoop
  | loopBreak
  | hopLimit
  | exhausted
deriving DecidableEq, Repr

/-- What the end of the loop hands to `finalize_with_variant`. -/
structure Ending where
  exit : Exit
  content : Option String
  agentId : Int
  hooks : Option (List (String × List AgentHook))
  identifier : Option String

/-- How a hop leaves the loop: the client has gone, `break`, or `return
finalize_with_variant(..)`. -/
inductive HopEnd where
  | cancelled
  | leave (e : Ending)
  | finish (e : Ending)

-- code of a hop
abbrev Hop (α : Type) := ExceptT HopEnd (Prog Point Moment World) α

-- code that does not leave the loop
def Hop.lift {α : Type} (p : Rt α) : Hop α := ExceptT.lift p

def hookContext (env : Env) (s : Session) (agentId : Int) (identifier point : String) :
    HookContext :=
  { agentId := agentId, identifier := identifier, sessionId := s.sessionId, actorId := s.actorId
    triggerPoint := point, message := env.message, channel := env.channel
    clientType := env.clientType, clientVersion := env.clientVersion }

/-- The hooks of the current agent at one point of a hop. -/
def agentHooks (env : Env) (s : Session) (content : AgentContent) (point : String) :
    Rt (Except String Unit) :=
  runHooks env content.hooks point (hookContext env s content.agentId content.identifier point)

/-- The end of a session that breaks out of the loop without a reply. -/
def noReply (s : Session) (l : Locals) (exit : Exit) : HopEnd :=
  .leave { exit := exit, content := none, agentId := s.startingAgentId, hooks := l.lastHooks
           identifier := l.lastIdentifier }

/-- The hooks of a point that can stop the session. -/
def guardHooks (env : Env) (s : Session) (content : AgentContent) (l : Locals) (point : String) :
    Hop Unit := do
  let r ← Hop.lift (agentHooks env s content point)
  match r with
  | .ok () => pure ()
  | .error e => do
    Hop.lift (Rt.emitError 6005 e)
    throw (noReply s l .hookBlocked)

/-- Steps 0 and 1: the check for a client that has gone, and the agent. -/
def loadAgent (s : Session) (l : Locals) : Hop AgentContent := do
  let cancelled ← Hop.lift (Rt.look Moment.cancelled)
  if cancelled then throw HopEnd.cancelled
  else do
    Hop.lift (Rt.emit (.fetchContent l.currentAgentId))
    let r ← Hop.lift (fetchContent l.currentAgentId)
    match r with
    | .ok content => do
      Hop.lift (Rt.emit (.loaded l.currentAgentId content))
      pure content
    | .error e => do
      Hop.lift (Rt.emitError 5000 s!"agent context: {e}")
      throw (noReply s l .contentFailed)

-- `build_primary`
def buildProvider (s : Session) (l : Locals) : Hop String := do
  let p ← Hop.lift (Rt.look Moment.provider)
  match p with
  | .ok model => pure model
  | .error e => do
    Hop.lift (Rt.emitError 5007 s!"preset error: {e}")
    throw (noReply s l .presetError)

def systemPrompt (env : Env) (content : AgentContent) : String :=
  s!"{content.systemPrompt}\n\n[当前客户端]\n渠道：{env.channel}\n平台：{env.clientType}\n版本：{env.clientVersion}"

/-- `chat_stream_with_retry`: the answer, after the tokens it was streamed
in. -/
def chatStream (messages : List Json) : Rt LLMResponse := do
  Rt.emit (.modelRequest messages)
  let answer ← Rt.ask fun m => (m.deltas, m.response)
  Rt.forEach answer.1 fun text => Rt.sse (.token text)
  pure answer.2

-- `unwrap_or(5000) as u16`
def errorCode (resp : LLMResponse) : Nat := ((resp.errorStatusCode.getD 5000) % 65536).toNat

-- `resp.content.or(resp.error_kind).unwrap_or("LLM error")`
def errorText (resp : LLMResponse) : String :=
  (resp.content.or resp.errorKind).getD "LLM error"

/-- Steps 2 to 4: the model is asked. -/
def askModel (env : Env) (s : Session) (content : AgentContent) (l : Locals) :
    Hop LLMResponse := do
  guardHooks env s content l "before_agent_start"
  let _ ← buildProvider s l
  guardHooks env s content l "before_llm_call"
  let resp ← Hop.lift (chatStream (message "system" (systemPrompt env content) :: l.messages))
  if resp.isError then do
    Hop.lift (Rt.emitError (errorCode resp) (errorText resp))
    let _ ← Hop.lift (agentHooks env s content "on_agent_error")
    Hop.lift (Rt.tryCtx fun _ ctx => ctx.setLifecycleState .terminated)
    throw (noReply s l .modelError)
  else do
    let _ ← Hop.lift (agentHooks env s content "after_llm_call")
    pure resp

-- the text that takes the place of a sensitive answer
def safetyText : String := "内容安全警告：输出的文本数据可能包含不适当的内容！"

-- `filter_output`
def filterOutput (env : Env) (content : String) : String :=
  match env.check content with
  | some _ => safetyText
  | none => content

-- ---
-- Tool calls
-- ---

/-- The variables of the loop over the tool calls. -/
structure ToolState where
  messages : List Json
  visited : List Int
  routedTo : Option Int := none

/-- The end of a session in the middle of its tool calls. -/
def toolEnd (content : AgentContent) (currentAgentId : Int) (exit : Exit) (text : String) :
    HopEnd :=
  .finish { exit := exit, content := some text, agentId := currentAgentId
            hooks := some content.hooks, identifier := some content.identifier }

def blockedText : String := "Hook blocked tool execution"

def guardTool (env : Env) (s : Session) (content : AgentContent) (currentAgentId : Int) :
    Hop Unit := do
  let r ← Hop.lift (agentHooks env s content "before_tool_call")
  match r with
  | .ok () => pure ()
  | .error e => do
    Hop.lift (Rt.emitError 6005 e)
    Hop.lift (Rt.tryCtx fun _ ctx => ctx.setResponsePayload (.new blockedText))
    Hop.lift (Rt.tryCtx fun _ ctx => ctx.setLifecycleState .terminated)
    throw (toolEnd content currentAgentId .toolBlocked blockedText)

/-- The records of a tool call in the context. -/
def recordTool (env : Env) (hop : Nat) (tc : ToolCallRequest) (payload : Json) : Rt Unit := do
  Rt.tryCtx fun now ctx => ctx.recordToolCall tc.name (.obj tc.arguments) (some payload)
    (if (payload.get "error").isSome then .failure else .success) now (some now)
  Rt.tryCtx fun now ctx =>
    ctx.setRecord env.lower now .toolResults s!"{tc.name}-{tc.id}" payload tc.name hop

-- a record of a state change by the orchestrator
def recordChange (env : Env) (hop : Nat) (key : String) (value : Json) : Rt Unit :=
  Rt.tryCtx fun now ctx => ctx.setRecord env.lower now .stateChanges key value "orchestrator" hop

/-- An accepted route: the event, and the records in the context. -/
def recordRoute (env : Env) (hop : Nat) (fromAgent toAgent : Int) (identifier : String) :
    Rt Unit := do
  Rt.sse (.routed toAgent identifier)
  Rt.tryCtx fun now ctx => ctx.recordDelegation (toString toAgent) ""
    (.obj [("from_agent", .num (.int fromAgent)), ("via", .str "route_to_subagent")]) none true
    now none
  recordChange env hop s!"route-hop-{hop}"
    (.obj [("event", .str "routed"), ("from", .num (.int fromAgent)), ("to", .num (.int toAgent))])

/-- What follows a result that routes to `next`. -/
def takeRoute (env : Env) (content : AgentContent) (currentAgentId : Int) (hop : Nat)
    (assistantContent : String) (st : ToolState) (outcome : ToolOutcome) : Hop ToolState :=
  match outcome.routeTo with
  | none => pure st
  | some next =>
    if next ∈ st.visited then do
      Hop.lift (Rt.emitError 5006 s!"路由循环检测：agent_id={next} 已访问过")
      Hop.lift (Rt.tryCtx fun _ ctx => ctx.setResponsePayload (.new assistantContent))
      Hop.lift (Rt.tryCtx fun _ ctx => ctx.setLifecycleState .terminated)
      throw (toolEnd content currentAgentId .routeLoop assistantContent)
    else do
      Hop.lift (recordRoute env hop currentAgentId next (outcome.routeIdentifier.getD ""))
      pure { st with routedTo := some next, visited := st.visited ++ [next] }

/-- One round of the loop over the tool calls. -/
def runTool (env : Env) (s : Session) (content : AgentContent) (currentAgentId : Int) (hop : Nat)
    (assistantContent : String) (st : ToolState) (tc : ToolCallRequest) : Hop ToolState := do
  guardTool env s content currentAgentId
  Hop.lift (Rt.sse (.toolCall tc.id tc.name tc.arguments))
  let outcome ← Hop.lift (handleToolCall env content st.visited tc)
  Hop.lift (Rt.sse (.toolResult tc.id outcome.payload))
  let _ ← Hop.lift (agentHooks env s content "after_tool_call")
  Hop.lift (recordTool env hop tc outcome.payload)
  takeRoute env content currentAgentId hop assistantContent
    { st with messages := st.messages ++ [toolMessage env tc outcome.payload] } outcome

/-- Step 6: the loop over the tool calls. -/
def runTools (env : Env) (s : Session) (content : AgentContent) (currentAgentId : Int) (hop : Nat)
    (assistantContent : String) : List ToolCallRequest → ToolState → Hop ToolState
  | [], st => pure st
  | tc :: rest, st => do
    let st ← runTool env s content currentAgentId hop assistantContent st tc
    runTools env s content currentAgentId hop assistantContent rest st

-- ---
-- Hops
-- ---

/-- `break` with a reply of the current agent. -/
def reply (content : AgentContent) (l : Locals) (exit : Exit) (text : String) : HopEnd :=
  .leave { exit := exit, content := some text, agentId := l.currentAgentId
           hooks := some content.hooks, identifier := some content.identifier }

/-- The reply of a tool that asked for the end of the loop. -/
def loopReply (ctx : AgentContext) : String :=
  RustStr.trim ((ctx.getMetadata "agent_loop_reply").getD "")

/-- The variables for the next hop. -/
def nextLocals (content : AgentContent) (l : Locals) (st : ToolState) : Locals :=
  { currentAgentId := st.routedTo.getD l.currentAgentId, visited := st.visited
    messages := st.messages, lastHooks := some content.hooks
    lastIdentifier := some content.identifier }

/-- What follows the tool calls of a hop: the end of the loop that a tool asked
for, the route, or the next round with the same agent. -/
def afterTools (env : Env) (content : AgentContent) (l : Locals) (hop : Nat)
    (assistantContent : String) (st : ToolState) : Hop Locals := do
  let ctx ← Hop.lift Rt.getCtx
  if ctx.getMetadata "agent_loop_break" = some "true" then do
    Hop.lift (recordChange env hop s!"hop-{hop}-loop-break"
      (.obj [("iteration", .num (.int hop)), ("event", .str "agent_loop_break"),
        ("triggered_by", .str "tool_metadata")]))
    Hop.lift (Rt.tryCtx fun _ ctx => ctx.setLifecycleState .completed)
    throw (reply content l .loopBreak (loopReply ctx))
  else
    match st.routedTo with
    | some next => do
      Hop.lift (recordChange env hop s!"hop-{hop}-routed"
        (.obj [("iteration", .num (.int hop)), ("event", .str "agent_routed"),
          ("to_agent", .num (.int next))]))
      pure (nextLocals content l st)
    | none =>
      if hop + 1 = env.maxHops then do
        Hop.lift (Rt.emitError 5006 s!"已达最大 hop {env.maxHops}")
        Hop.lift (Rt.tryCtx fun _ ctx => ctx.setLifecycleState .terminated)
        throw (reply content l .hopLimit assistantContent)
      else pure (nextLocals content l st)

def runHop (env : Env) (s : Session) (hop : Nat) (l : Locals) : Hop Locals := do
  let content ← loadAgent s l
  let resp ← askModel env s content (l.remember content)
  let assistantContent := resp.content.getD ""
  if resp.shouldExecuteTools = false then
    throw (reply content l .answered (filterOutput env assistantContent))
  else do
    Hop.lift (Rt.emit (.toolCalls content l.visited resp))
    let st ← runTools env s content l.currentAgentId hop assistantContent resp.toolCalls
      { messages := l.messages ++ [assistantMessage env resp], visited := l.visited }
    afterTools env content l hop assistantContent st

/-- `for hop in 0..max_hops`; the first argument is the number of hops left. -/
def runHops (env : Env) (s : Session) : Nat → Nat → Locals → Rt HopEnd
  | 0, _, l => pure (noReply s l .exhausted)
  | n + 1, hop, l => do
    let r ← (runHop env s hop l).run
    match r with
    | .error e => pure e
    | .ok l' => runHops env s n (hop + 1) l'

-- ---
-- The end of a session
-- ---

/-- `append_assistant_message_user`: the row is inserted, then read back. -/
def appendAssistantMessage (text : String) (extensions : Option Json) :
    Rt (Option (String × Option Json)) := do
  let inserted ← Rt.await fun m w =>
    match m.dbError with
    | some _ => (false, w)
    | none => (true, w.log (.saved text extensions))
  if inserted then do
    let row ← Rt.query fun _ => (text, extensions)
    pure row.toOption
  else pure none

/-- The flattened extensions of the context. -/
def collectedExtensions (rank : String → Nat) (ctx : AgentContext) : List Json :=
  (extensionsInOrder rank ctx).map flattenExtension

/-- The text that is stored: `response_content` of the metadata if there is
one, else the reply unless a card without data replaces it. -/
def finalText (ctx : AgentContext) (content : Option String) (exts : List Json) :
    Option String :=
  match (ctx.getMetadata "response_content").filter fun rc => rc ≠ "" with
  | some rc => some rc
  | none => rewriteContentForEmptyExtensions content exts

-- `exts.is_empty()` is `None`
def extensionsField (exts : List Json) : Option Json :=
  if exts = [] then none else some (.arr exts)

/-- The hooks after the end of the loop. -/
def endHooks (env : Env) (s : Session) (e : Ending) : Rt Unit :=
  match e.hooks, e.identifier with
  | some hooks, some identifier => do
    let _ ← runHooks env hooks "after_agent_end"
      (hookContext env s e.agentId identifier "after_agent_end")
    pure ()
  | _, _ => pure ()

-- an empty text without extensions is not stored
def storeMessage (text : Option String) (exts : List Json) : Rt (Option (String × Option Json)) :=
  if text = some "" ∧ exts = [] then pure none
  else appendAssistantMessage (text.getD "") (extensionsField exts)

-- the root agent is not named
def finalAgentId (e : Ending) : Option Int := if e.agentId ≠ 1 then some e.agentId else none

/-- What is stored and sent once the context is final. -/
def storeReply (elapsed : Int) (e : Ending) (ctx : AgentContext) (exts : List Json) :
    Rt (Option (String × Option Json)) := do
  let saved ← storeMessage (finalText ctx e.content exts) exts
  Rt.sse (.done elapsed (finalAgentId e))
  if exts = [] then pure saved
  else do
    Rt.sse (.extensions (.arr exts))
    pure saved

-- `finalize_with_variant`
def finalize (env : Env) (s : Session) (e : Ending) : Rt (Option (String × Option Json)) := do
  let elapsed ← Rt.look Moment.elapsed
  endHooks env s e
  let collected ← Rt.sync fun m w => ((w.ctx, collectedExtensions m.rank w.ctx), w)
  storeReply elapsed e collected.1 collected.2

/-- The block after the loop: the payload and the last state of the context. -/
def closeContext (content : Option String) : Rt Unit :=
  match content with
  | some text => do
    Rt.tryCtx fun _ ctx => ctx.setResponsePayload (.new text)
    Rt.tryCtx fun _ ctx => ctx.setLifecycleState .completed
  | none => Rt.tryCtx fun _ ctx => ctx.setLifecycleState .terminated

/-- What a session comes to: its end, unless the client went away, and the
stored message that the source returns. -/
structure SessionEnd where
  ending : Option Ending
  saved : Option (String × Option Json)

/-- The context and the variables of a new session. -/
def initialContext (env : Env) (s : Session) (now : DateTime) : AgentContext :=
  .new now s!"session-{s.sessionId}-agent-{s.startingAgentId}"
    { rawText := s.userContent, sessionId := some (toString s.sessionId), messageId := none
      timestamp := now
      metadata := [("channel", env.channel), ("client_type", env.clientType),
        ("client_version", env.clientVersion), ("actor_id", toString s.actorId)] }
    .default

def initialLocals (env : Env) (s : Session) : Locals :=
  { currentAgentId := s.startingAgentId, visited := [s.startingAgentId]
    messages := buildChatMessages env s.history s.userContent }

/-- `run_session_internal_impl`, after its loop. -/
def endSession (env : Env) (s : Session) : HopEnd → Rt SessionEnd
  | .cancelled => pure ⟨none, none⟩
  | .leave e => do
    closeContext e.content
    let saved ← finalize env s e
    pure ⟨some e, saved⟩
  | .finish e => do
    let saved ← finalize env s e
    pure ⟨some e, saved⟩

-- `run_session_internal_impl`
def runSession (env : Env) (s : Session) : Rt SessionEnd := do
  Rt.tryCtx fun _ ctx => ctx.setMessages (buildChatMessages env s.history s.userContent)
  let e ← runHops env s env.maxHops 0 (initialLocals env s)
  endSession env s e

/-- The state in which a session starts. -/
def initialWorld (env : Env) (s : Session) (now : DateTime) : World :=
  { ctx := initialContext env s now, trace := [] }

end HiveClaw.Runtime
