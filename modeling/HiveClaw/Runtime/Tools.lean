import HiveClaw.Runtime.Hook

/-!
# Tool calls

How `crates/hiveweb/src/runtime/orchestrator.rs` handles one tool call of the
model: `handle_route_tool`, `handle_workspace_tool` and `handle_meta_tool`. A
tool never fails the session: every error becomes the payload of its result.
-/

namespace HiveClaw.Runtime

open Lib Context

-- `ToolOutcome`
structure ToolOutcome where
  payload : Json
  routeTo : Option Int := none
  routeIdentifier : Option String := none

namespace ToolOutcome

def ok (payload : Json) : ToolOutcome := { payload := payload }

def route (agentId : Int) (identifier : String) : ToolOutcome :=
  { payload := .obj [("routed", .bool true), ("agent_id", .num (.int agentId)),
      ("agent_identifier", .str identifier)]
    routeTo := some agentId, routeIdentifier := some identifier }

def error (msg : String) : ToolOutcome := { payload := .obj [("error", .str msg)] }

end ToolOutcome

-- `ROUTE_TOOL_NAME`
def routeToolName : String := "route_to_subagent"

/-- `handle_route_tool`: a direct child of the current agent that the session
has not visited yet. -/
def handleRouteTool (parent : AgentContent) (visited : List Int) (tc : ToolCallRequest) :
    ToolOutcome :=
  let target := ((tc.arguments.get "agent_identifier").bind Json.asStr).getD ""
  if target = "" then .error "agent_identifier 缺失"
  else
    match parent.children.find? fun c => c.identifier = target with
    | none =>
      .error s!"agent「{target}」不是当前 agent「{parent.identifier}」的子 agent，路由拒绝"
    | some child =>
      if child.id ∈ visited then .error s!"agent_id={child.id} 已在本会话访问过，循环路由拒绝"
      else .route child.id child.identifier

-- the required capabilities that the agent does not have
def missingCapabilities (required permissions : List String) : List String :=
  required.filter fun c => c ∉ permissions

-- ---
-- Functions
-- ---

/-- A call of a builtin function for a tool; its output updates the context. -/
def toolBuiltin (env : Env) (e : Execution) : Rt ToolOutcome := do
  let out ← callHandler e
  match out with
  | .error err => pure (.error s!"builtin function 执行失败: {err}")
  | .ok result => do
    applyAgentContextUpdates env result
    pure (.ok result)

/-- `invoke_function` on a plugin function; its output updates the context. -/
def metaPlugin (env : Env) (f : Function) (e : Execution) : Rt ToolOutcome :=
  match f.pluginId, f.pluginExport with
  | none, _ => pure (.error "function 缺 plugin_id")
  | some _, none => pure (.error "function 缺 plugin_export")
  | some _, some _ => do
    let out ← invoke e
    match out with
    | .error err => pure (.error s!"plugin invoke failed: {err}")
    | .ok out => do
      applyAgentContextUpdates env (parseOutput env out)
      pure (.ok (parseOutput env out))

/-- The `invoke_function` branch of `handle_meta_tool`, once the function and
its input are known. -/
def invokeFunctionRow (env : Env) (content : AgentContent) (ident : String) (f : Function)
    (input : Json) : Rt ToolOutcome :=
  let missing := missingCapabilities (capabilityList f.requiredCapabilities) content.permissions
  if missing ≠ [] then
    let names := "、".intercalate missing
    pure (.error s!"function「{ident}」需要能力「{names}」，但当前 Agent 未授权")
  else do
    let input ← injectSnapshot input
    let e : Execution :=
      { via := .invokeFunction, function := some f, permissions := content.permissions
        input := input }
    if f.kind = 1 ∧ f.pluginId = none then
      if lookupBuiltin ident = false then
        pure (.error s!"builtin function「{ident}」未找到 handler")
      else toolBuiltin env e
    else if f.kind = 1 ∨ f.kind = 2 then metaPlugin env f e
    else pure (.error s!"invoke_function: function「{ident}」kind={f.kind} 不支持")

-- the `invoke_function` branch of `handle_meta_tool`
def invokeFunction (env : Env) (content : AgentContent) (tc : ToolCallRequest) : Rt ToolOutcome :=
  match (tc.arguments.get "function_identifier").bind Json.asStr with
  | none => pure (.error "invoke_function: function_identifier 缺失")
  | some ident =>
    match tc.arguments.get "function_input" with
    | none => pure (.error "invoke_function: function_input 缺失")
    | some input => do
      let row ← Rt.query fun m =>
        m.store.functions.find? fun f => env.collationKey f.identifier = env.collationKey ident
      match row with
      | .ok (some f) => invokeFunctionRow env content ident f input
      | _ => pure (.error s!"invoke_function: function「{ident}」不存在")

-- ---
-- Workflows
-- ---

/-- A workflow executed for a tool; its output updates the context. -/
def toolWorkflow (env : Env) (content : AgentContent) (tool : ToolRef) (workflowId : Int)
    (input : Json) : Rt ToolOutcome := do
  let outcome ← Workflow.execute env (.tool tool) content.permissions workflowId input
  match outcome with
  | .error e => pure (.error s!"workflow execute: {e.message}")
  | .ok outcome => do
    applyAgentContextUpdates env outcome.endValue
    pure (.ok outcome.endValue)

-- the `invoke_workflow` branch of `handle_meta_tool`
def invokeWorkflow (env : Env) (content : AgentContent) (tool : ToolRef) (tc : ToolCallRequest) :
    Rt ToolOutcome :=
  match (tc.arguments.get "workflow_identifier").bind Json.asStr with
  | none => pure (.error "invoke_workflow: workflow_identifier 缺失")
  | some ident =>
    match tc.arguments.get "workflow_input" with
    | none => pure (.error "invoke_workflow: workflow_input 缺失")
    | some input => do
      let input ← injectSnapshot input
      let row ← Rt.query fun m =>
        m.store.workflows.find? fun w => env.collationKey w.identifier = env.collationKey ident
      match row with
      | .ok (some wf) => toolWorkflow env content tool wf.id input
      | _ => pure (.error s!"invoke_workflow: workflow「{ident}」不存在")

-- `handle_meta_tool`
def handleMetaTool (env : Env) (content : AgentContent) (tool : ToolRef) (tc : ToolCallRequest) :
    Rt ToolOutcome :=
  if tool.identifier = "invoke_function" then invokeFunction env content tc
  else if tool.identifier = "invoke_workflow" then invokeWorkflow env content tool tc
  else pure (.error s!"未知元工具: {tool.identifier}")

-- ---
-- Workspace tools
-- ---

-- the function a tool wraps, as it is stored while it runs
def wrappedFunction (tool : ToolRef) (s : Store) : Option Function :=
  tool.functionId.bind s.function?

/-- A tool that wraps a builtin function. -/
def wrappedBuiltin (env : Env) (content : AgentContent) (tool : ToolRef) (tc : ToolCallRequest) :
    Rt ToolOutcome :=
  if tool.functionId = none then pure (.error "builtin function 缺 function_id")
  else
    let lookupId := tool.functionIdentifier.getD tool.identifier
    if lookupBuiltin lookupId = false then
      pure (.error s!"builtin function「{lookupId}」未找到 handler")
    else do
      let input ← injectSnapshot (.obj tc.arguments)
      let f ← Rt.look fun m => wrappedFunction tool m.store
      toolBuiltin env
        { via := .tool tool, function := f, permissions := content.permissions, input := input }

/-- A tool that wraps a plugin function. It gets no snapshot, and its output
does not update the context. -/
def wrappedPlugin (env : Env) (content : AgentContent) (tool : ToolRef) (tc : ToolCallRequest) :
    Rt ToolOutcome :=
  match tool.pluginId, tool.pluginExport with
  | none, _ => pure (.error "function 缺 plugin_id")
  | some _, none => pure (.error "function 缺 plugin_export")
  | some _, some _ => do
    let f ← Rt.look fun m => wrappedFunction tool m.store
    let out ← invoke
      { via := .tool tool, function := f, permissions := content.permissions
        input := .obj tc.arguments }
    match out with
    | .error e => pure (.error s!"plugin invoke failed: {e}")
    | .ok out => pure (.ok (parseOutput env out))

def wrappedWorkflow (env : Env) (content : AgentContent) (tool : ToolRef) (tc : ToolCallRequest) :
    Rt ToolOutcome :=
  match tool.workflowId with
  | none => pure (.error "workflow-wrap tool 缺 workflow_id")
  | some workflowId => do
    let input ← injectSnapshot (.obj tc.arguments)
    toolWorkflow env content tool workflowId input

-- `handle_workspace_tool`
def handleWorkspaceTool (env : Env) (content : AgentContent) (tool : ToolRef)
    (tc : ToolCallRequest) : Rt ToolOutcome :=
  let missing := missingCapabilities tool.requiredCapabilities content.permissions
  if missing ≠ [] then
    let names := "、".intercalate missing
    pure (.error s!"tool「{tool.identifier}」需要能力「{names}」，但当前 Agent 未授权")
  else if tool.kind = 1 then
    if tool.isMetaTool then handleMetaTool env content tool tc
    else if tool.isBuiltinFunction then wrappedBuiltin env content tool tc
    else wrappedPlugin env content tool tc
  else if tool.kind = 2 then wrappedWorkflow env content tool tc
  else pure (.error s!"未知 tool kind: {tool.kind}")

def handleToolCall (env : Env) (content : AgentContent) (visited : List Int)
    (tc : ToolCallRequest) : Rt ToolOutcome :=
  if tc.name = routeToolName then pure (handleRouteTool content visited tc)
  else
    match content.tools.find? fun t => t.identifier = tc.name with
    | some tool => handleWorkspaceTool env content tool tc
    | none => pure (.error s!"未知工具：{tc.name}")

end HiveClaw.Runtime
