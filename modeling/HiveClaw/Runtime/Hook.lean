import HiveClaw.Runtime.Content
import HiveClaw.Workflow.Executor

/-!
# Agent hooks

`crates/hiveweb/src/runtime/hook.rs`: at each trigger point of a session the
hooks of the agent run one after the other. A hook that fails or times out ends
the session if it is in blocking mode and is passed over otherwise. What a
hook's function or workflow returns updates the context.

A webhook that fails is tried again by a task of its own, which has no part in
the session.
-/

namespace HiveClaw.Runtime

open Lib Context

-- `HookContext`
structure HookContext where
  agentId : Int
  identifier : String
  sessionId : Int
  actorId : Int
  requestId : String := ""
  triggerPoint : String
  message : String
  channel : String
  clientType : String
  clientVersion : String

-- the derived `Serialize` of `HookContext`
def HookContext.toValue (c : HookContext) : Json :=
  .obj [("agent_id", .num (.int c.agentId)), ("identifier", .str c.identifier),
    ("session_id", .num (.int c.sessionId)), ("actor_id", .num (.int c.actorId)),
    ("request_id", .str c.requestId), ("trigger_point", .str c.triggerPoint),
    ("message", .str c.message), ("channel", .str c.channel),
    ("client_type", .str c.clientType), ("client_version", .str c.clientVersion)]

-- ---
-- Actions
-- ---

/-- A plugin function as a hook calls it; an output that is no JSON is dropped. -/
def hookPlugin (env : Env) (hook : AgentHook) (ctx : HookContext) (f : Function) (input : Json) :
    Rt (Except String Unit) :=
  match f.pluginId, f.pluginExport with
  | none, _ => pure (.error "call_function: function 缺 plugin_id")
  | some _, none => pure (.error "call_function: function 缺 plugin_export")
  | some _, some _ => do
    let permissions ← queryOrEmpty fun m => permissionRows m ctx.agentId
    let out ← invoke
      { via := .hook hook, function := some f, permissions := permissions, input := input }
    match out with
    | .error e => pure (.error s!"plugin invoke failed: {e}")
    | .ok out =>
      match env.ofText out with
      | none => pure (.ok ())
      | some value => do
        applyAgentContextUpdates env value
        pure (.ok ())

/-- A builtin function as a hook calls it. -/
def hookBuiltin (env : Env) (hook : AgentHook) (permissions : List String) (f : Function)
    (input : Json) : Rt (Except String Unit) :=
  if lookupBuiltin f.identifier = false then
    pure (.error s!"call_function: builtin「{f.identifier}」handler 未找到")
  else do
    let out ← callHandler
      { via := .hook hook, function := some f, permissions := permissions, input := input }
    match out with
    | .error e => pure (.error s!"builtin function 执行失败: {e}")
    | .ok out => do
      applyAgentContextUpdates env out
      pure (.ok ())

-- `execute_call_function`
def executeCallFunction (env : Env) (hook : AgentHook) (ctx : HookContext) :
    Rt (Except String Unit) :=
  match (hook.actionParams.get "function_id").bind Json.asI64 with
  | none => pure (.error "call_function: function_id is required")
  | some functionId => do
    let row ← Rt.query fun m =>
      (m.store.function? functionId).map fun f => (f, permissionRows m ctx.agentId)
    match row with
    | .error e => pure (.error s!"function lookup: {e}")
    | .ok none => pure (.error s!"call_function: function id={functionId} 不存在")
    | .ok (some (f, permissions)) => do
      let input ← injectSnapshot (.obj [])
      if f.kind = 1 ∧ f.pluginId = none then hookBuiltin env hook permissions f input
      else if f.kind = 1 ∨ f.kind = 2 then hookPlugin env hook ctx f input
      else pure (.error s!"call_function: function「{f.identifier}」kind={f.kind} 不支持")

-- `execute_call_workflow`
def executeCallWorkflow (env : Env) (hook : AgentHook) (ctx : HookContext) :
    Rt (Except String Unit) :=
  match (hook.actionParams.get "workflow_id").bind Json.asI64 with
  | none => pure (.error "call_workflow: workflow_id is required")
  | some workflowId => do
    let input ← injectSnapshot ctx.toValue
    let permissions ← queryOrEmpty fun m => permissionRows m ctx.agentId
    let outcome ← Workflow.execute env (.hook hook) permissions workflowId input
    match outcome with
    | .error e => pure (.error s!"workflow execute: {e.message}")
    | .ok outcome => do
      applyAgentContextUpdates env outcome.endValue
      pure (.ok ())

-- a header with a line break in its name or value
def illegalHeader (header : String × Json) : Bool :=
  match header.2.asStr with
  | some v => header.1.toList.any (fun c => c = '\r' || c = '\n') ||
      v.toList.any (fun c => c = '\r' || c = '\n')
  | none => false

-- `execute_http_webhook`
def executeHttpWebhook (hook : AgentHook) (ctx : HookContext) : Rt (Except String Unit) :=
  match hook.actionParams.getStr "webhook_url" with
  | none => pure (.error "webhook_url is required for http_webhook")
  | some url =>
    if "https://".toList.isPrefixOf url.toList = false then
      pure (.error "Webhook URL must use HTTPS")
    else do
      let nowText ← Rt.look Moment.nowText
      let payload : Json := .obj
        [("agent_identifier", .str ctx.identifier), ("session_id", .num (.int ctx.sessionId)),
         ("trigger_point", .str ctx.triggerPoint), ("timestamp", .str nowText),
         ("hook_name", .str hook.name), ("message", .str ctx.message),
         ("channel", .str ctx.channel), ("client_type", .str ctx.clientType),
         ("client_version", .str ctx.clientVersion)]
      let client ← Rt.look Moment.webhook
      match client with
      | .clientError e => pure (.error s!"webhook client: {e}")
      | _ =>
        if (((hook.actionParams.get "headers").bind Json.asObject).getD []).any illegalHeader then
          pure (.error "Header contains illegal characters")
        else do
          Rt.emit (.webhook url payload)
          let answer ← Rt.ask Moment.webhook
          match answer with
          | .status code text =>
            if 200 ≤ code ∧ code < 300 then pure (.ok ())
            else pure (.error s!"Webhook returned HTTP {text}")
          | _ => pure (.error "Webhook connection failed — pending async retry")

-- `execute_hook_action`
def executeHookAction (env : Env) (hook : AgentHook) (ctx : HookContext) :
    Rt (Except String Unit) :=
  if hook.actionType = "call_function" then executeCallFunction env hook ctx
  else if hook.actionType = "call_workflow" then executeCallWorkflow env hook ctx
  else if hook.actionType = "http_webhook" then executeHttpWebhook hook ctx
  else pure (.error s!"Unknown action type: {hook.actionType}")

-- ---
-- The hooks of a trigger point
-- ---

/-- The loop of `run_hooks`. -/
def runHookList (env : Env) (ctx : HookContext) : List AgentHook → Rt (Except String Unit)
  | [] => pure (.ok ())
  | hook :: rest =>
    if hook.enabled = false then runHookList env ctx rest
    else do
      let result ← Rt.timeout (executeHookAction env hook ctx)
      match result with
      | some (.ok ()) => runHookList env ctx rest
      | some (.error e) =>
        if hook.blockingMode then pure (.error s!"Hook「{hook.name}」阻塞模式执行失败: {e}")
        else runHookList env ctx rest
      | none =>
        if hook.blockingMode then pure (.error s!"Hook「{hook.name}」阻塞模式执行超时")
        else runHookList env ctx rest

-- `run_hooks`
def runHooks (env : Env) (hooks : List (String × List AgentHook)) (point : String)
    (ctx : HookContext) : Rt (Except String Unit) := do
  Rt.emit (.hooks point)
  match hooks.lookup point with
  | none => pure (.ok ())
  | some list => runHookList env ctx list

end HiveClaw.Runtime
