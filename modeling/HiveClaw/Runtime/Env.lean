import HiveClaw.Lib.Resumption
import HiveClaw.Runtime.ContextUpdates
import HiveClaw.Runtime.SensitiveFilter
import HiveClaw.Workflow.InputSource

/-!
# The runtime and its outside

A chat session runs in one task: the orchestrator calls the model, tools, hooks
and workflows one after the other on one `AgentContext`. `Rt` is such a piece
of code, a resumption (`Lib.Prog`) over the `World`: the context and the trace
of what the session did so far.

Everything the code gets from outside at one point is a `Moment`: the clock,
the database, Redis, the model's answer, what a function returns. A point is
an `await`, where a timer around the code may fire, or it is not (`sync`).
Fixed for a session is the `Env`: the deployment, the request's own texts, and
library functions that are not part of the repository.
-/

namespace HiveClaw.Runtime

open Lib Context

-- ---
-- The model's side
-- ---

-- `ToolCallRequest`
structure ToolCallRequest where
  id : String
  name : String
  arguments : JsonMap
  extraContent : Option JsonMap := none
  providerSpecificFields : Option JsonMap := none
  functionProviderSpecificFields : Option JsonMap := none

-- `if let Some(f) = o { out[key] = f }`
def optField (key : String) (o : Option JsonMap) : JsonMap :=
  match o with
  | some f => [(key, .obj f)]
  | none => []

-- `to_openai_tool_call`
def ToolCallRequest.toOpenaiToolCall (toText : Json → String) (tc : ToolCallRequest) : Json :=
  let func : JsonMap :=
    [("name", .str tc.name), ("arguments", .str (toText (.obj tc.arguments)))] ++
      optField "provider_specific_fields" tc.functionProviderSpecificFields
  .obj ([("id", .str tc.id), ("type", .str "function"), ("function", .obj func)] ++
    optField "extra_content" tc.extraContent ++
    optField "provider_specific_fields" tc.providerSpecificFields)

-- `LLMResponse`, the fields the orchestrator reads
structure LLMResponse where
  content : Option String := none
  toolCalls : List ToolCallRequest := []
  finishReason : String := "stop"
  reasoningContent : Option String := none
  errorStatusCode : Option Int := none
  errorKind : Option String := none

-- `should_execute_tools`
def LLMResponse.shouldExecuteTools (r : LLMResponse) : Bool :=
  !r.toolCalls.isEmpty &&
    (r.finishReason = "tool_calls" || r.finishReason = "function_call" || r.finishReason = "stop")

-- `is_error`
def LLMResponse.isError (r : LLMResponse) : Bool := r.finishReason = "error"

-- ---
-- Outside
-- ---

structure Env where
  /-- `str::to_lowercase` -/
  lower : String → String
  /-- the collation of the database's texts -/
  collationKey : String → String
  /-- `serde_json::to_string` and `from_str` -/
  toText : Json → String
  ofText : String → Option Json
  /-- the derived `Deserialize` of `InputSource` -/
  inputSource : Json → Except String Workflow.InputSource
  /-- the derived `Serialize` of a `ContextSnapshot` -/
  contextSnapshot : AgentContext → Json
  sensitiveFilter : SensitiveFilter
  /-- `AGENT_MAX_HOPS` -/
  maxHops : Nat
  message : String
  channel : String
  clientType : String
  clientVersion : String

/-- `SensitiveFilter::check` of the session's filter. -/
def Env.check (env : Env) (text : String) : Option SensitivePattern :=
  env.sensitiveFilter.check env.lower text

mutual

/-- JSON text of values without doubles and without characters that need an
escape. -/
def compactText : Json → String
  | .null => "null"
  | .bool b => if b then "true" else "false"
  | .num (.int n) => toString n
  | .num (.float m _) => toString m
  | .str s => "\"" ++ s ++ "\""
  | .arr items => "[" ++ compactItems items ++ "]"
  | .obj fields => "\x7b" ++ compactFields fields ++ "\x7d"

def compactItems : List Json → String
  | [] => ""
  | [v] => compactText v
  | v :: rest => compactText v ++ "," ++ compactItems rest

def compactFields : List (String × Json) → String
  | [] => ""
  | [(k, v)] => "\"" ++ k ++ "\":" ++ compactText v
  | (k, v) :: rest => "\"" ++ k ++ "\":" ++ compactText v ++ "," ++ compactFields rest

end

/-- A deployment with five hops and no sensitive words, for texts in lower case
and outputs that are no JSON. -/
def Env.plain : Env :=
  { lower := id, collationKey := id, toText := compactText, ofText := fun _ => none
    inputSource := fun _ => .error "missing field `kind`", contextSnapshot := fun _ => .null
    sensitiveFilter := { patterns := [], ac := none }, maxHops := 5, message := ""
    channel := "app", clientType := "web", clientVersion := "1" }

/-- What becomes of a webhook: no client could be built, no connection, or an
answer with its status and the status line's text. -/
inductive WebhookAnswer where
  | clientError (message : String)
  | noConnection
  | status (code : Nat) (text : String)

/-- What a piece of code finds outside at one point of a session. -/
structure Moment where
  /-- `Utc::now()`, and the same in RFC 3339 -/
  now : DateTime
  nowText : String
  /-- the database and the cache, and the driver's error if it gives none -/
  store : Store
  dbError : Option String
  /-- the client has gone -/
  cancelled : Bool
  /-- `LlmRegistry::build_primary`: the model's name -/
  provider : Except String String
  /-- the model's answer and the text it streamed before -/
  response : LLMResponse
  deltas : List String
  /-- what the handler of a builtin function returns -/
  handler : Except String Json
  /-- what `Invoker::invoke` returns -/
  invoked : Except String String
  webhook : WebhookAnswer
  /-- the number of awaits after which a timer set here fires -/
  timer : Option Nat
  /-- the order of hash maps and of rows -/
  rank : String → Nat
  rowRank : Int → Nat
  /-- `started.elapsed()` in milliseconds -/
  elapsed : Int

/-- A quiet outside: the database `store`, no errors, no timers. -/
def Moment.of (store : Store) : Moment :=
  { now := 0, nowText := "1970-01-01T00:00:00+00:00", store := store, dbError := none
    cancelled := false, provider := .ok "model", response := {}, deltas := []
    handler := .ok .null, invoked := .ok "", webhook := .status 200 "200 OK"
    timer := none, rank := fun _ => 0, rowRank := fun _ => 0, elapsed := 0 }

-- a builtin function
def functionRow (id : Int) (identifier : String) (capabilities : List String) : Function :=
  { id := id, identifier := identifier, name := identifier, description := none, kind := 1
    inputSchema := .obj [], outputSchema := .obj [], pluginId := none, pluginExport := none
    requiredCapabilities := some (.arr (capabilities.map .str)) }

-- ---
-- What a session does
-- ---

/-- The events of the stream to the client. -/
inductive Sse where
  | token (text : String)
  | toolCall (id name : String) (args : JsonMap)
  | toolResult (id : String) (result : Json)
  | routed (agentId : Int) (agentIdentifier : String)
  | error (code : Nat) (message : String)
  | done (elapsedMs : Int) (finalAgentId : Option Int)
  | extensions (items : Json)

/-- How the runtime comes to execute a function: by a call of a tool that wraps
it or a workflow (also `invoke_workflow`), by `invoke_function`, or by a hook. -/
inductive Via where
  | tool (t : ToolRef)
  | invokeFunction
  | hook (h : AgentHook)

/-- A function is executed: by which way, at which node if it was a
workflow's, its row as it is stored, the permissions of the agent, and the
input. -/
structure Execution where
  via : Via
  node : Option String := none
  function : Option Function
  permissions : List String
  input : Json

inductive Event where
  | sse (e : Sse)
  | fetchContent (agentId : Int)
  | loaded (agentId : Int) (content : AgentContent)
  | modelRequest (messages : List Json)
  | toolCalls (content : AgentContent) (visited : List Int) (resp : LLMResponse)
  | hooks (point : String)
  | executed (e : Execution)
  | contextUpdate (ctx : AgentContext) (now : DateTime) (entry : ContextEntry)
  | webhook (url : String) (payload : Json)
  | saved (content : String) (extensions : Option Json)

structure World where
  ctx : AgentContext
  trace : List Event

/-- The state with one more event. -/
def World.log (w : World) (e : Event) : World := { w with trace := w.trace ++ [e] }

@[simp] theorem World.log_ctx (w : World) (e : Event) : (w.log e).ctx = w.ctx := rfl

-- ---
-- Code
-- ---

/-- Whether a timer may fire at a point of the code. -/
inductive Point where
  | await
  | sync
deriving DecidableEq, Repr

-- code of the runtime
abbrev Rt (α : Type) := Prog Point Moment World α

namespace Rt

variable {α β : Type}

def sync (f : Moment → World → α × World) : Rt α := Prog.modify .sync f

/-- `….await` on something outside. -/
def await (f : Moment → World → α × World) : Rt α := Prog.modify .await f

/-- Asks for something at an await. -/
def ask (f : Moment → α) : Rt α := await fun m w => (f m, w)

/-- Looks at something without waiting for it. -/
def look (f : Moment → α) : Rt α := sync fun m w => (f m, w)

def emit (e : Event) : Rt Unit := sync fun _ w => ((), w.log e)

def sse (e : Sse) : Rt Unit := emit (.sse e)

-- `emit_error`
def emitError (code : Nat) (message : String) : Rt Unit := sse (.error code message)

/-- A query: the driver's error, or what it reads. -/
def query (read : Moment → α) : Rt (Except String α) :=
  ask fun m =>
    match m.dbError with
    | some e => .error e
    | none => .ok (read m)

def getCtx : Rt AgentContext := sync fun _ w => (w.ctx, w)

/-- `let _ = ctx.op(..)`: an operation on the context whose error is thrown
away. -/
def tryCtx (op : DateTime → AgentContext → Except ContextError AgentContext) : Rt Unit :=
  sync fun m w => ((), { w with ctx := w.ctx.ignoring (op m.now w.ctx) })

-- `tokio::time::timeout`
def timeout (p : Rt α) : Rt (Option α) := do
  let t ← look Moment.timer
  Prog.timeout (fun l => decide (l = .await)) p t

-- `for x in xs { body(x) }`
def forEach (xs : List β) (body : β → Rt Unit) : Rt Unit :=
  match xs with
  | [] => pure ()
  | x :: rest => do
    body x
    forEach rest body

end Rt

-- `apply_agent_context_updates`
def applyAgentContextUpdates (env : Env) (output : Json) : Rt Unit :=
  Rt.forEach (contextEntries output) fun entry =>
    Rt.sync fun m w =>
      ((), { w.log (.contextUpdate w.ctx m.now entry) with
        ctx := w.ctx.ignoring (entry.apply env.lower m.now w.ctx) })

-- `inject_agent_context_snapshot`
def injectSnapshot (input : Json) : Rt Json :=
  Rt.sync fun m w => (injectAgentContextSnapshot m.rank w.ctx input, w)

-- ---
-- Functions
-- ---

-- the identifiers of `BUILTINS`
def builtins : List String :=
  ["format_template", "json_parse", "json_stringify", "text_regex_match", "chat_respond",
   "game_list", "game_info", "query_balance", "rag_answer", "support_card"]

-- `builtins::lookup(identifier).is_some()`
def lookupBuiltin (identifier : String) : Bool := identifier ∈ builtins

/-- The handler of a builtin function is called. -/
def callHandler (e : Execution) : Rt (Except String Json) := do
  Rt.emit (.executed e)
  Rt.look Moment.handler

/-- `Invoker::invoke` runs the export of a plugin. -/
def invoke (e : Execution) : Rt (Except String String) := do
  Rt.emit (.executed e)
  Rt.ask Moment.invoked

-- `serde_json::from_str(&out).unwrap_or_else(|_| Value::String(out))`
def parseOutput (env : Env) (out : String) : Json := (env.ofText out).getD (.str out)

end HiveClaw.Runtime
