import HiveClaw.Runtime.Frame

/-!
# Workflows, hooks and tools keep to the frame

One lemma for each piece of code that a session calls: every statement of it
keeps to `Frame`, so that the whole does, also where a timer cuts it off.

* `steps_runHookList`, `steps_handleToolCall` — the two that a hop uses.
-/

namespace HiveClaw.Runtime

open Lib Context
open Lib.Prog (Steps Returns)

section Steps

variable {R : World → World → Prop} (hR : Permits R)

include hR

-- ---
-- Workflows
-- ---

/-- Every function that is executed this way is authorized. -/
def AuthorizedFor (via : Via) (permissions : List String) : Prop :=
  ∀ node function input,
    Execution.Authorized { via := via, node := node, function := function
                           permissions := permissions, input := input }

omit hR in
/-- A tool whose capabilities have been checked may execute any function. -/
theorem authorizedFor_tool {t : ToolRef} {permissions : List String}
    (h : missingCapabilities t.requiredCapabilities permissions = []) :
    AuthorizedFor (.tool t) permissions :=
  fun _ _ _ => h

omit hR in
/-- A hook may execute any function: `hook_executor.rs` asks for no capability. -/
theorem authorizedFor_hook (h : AgentHook) (permissions : List String) :
    AuthorizedFor (.hook h) permissions :=
  fun _ _ _ => trivial

section Workflows

variable {via : Via} {permissions : List String} (hv : AuthorizedFor via permissions)

theorem steps_answerText (prompt : String) : Steps R (Workflow.answerText prompt) := by
  refine (steps_look hR _).bind fun provider => ?_
  cases provider with
  | error e => exact .done _
  | ok model =>
    refine (steps_emit hR rfl fun _ => .modelRequest prompt).bind fun _ => ?_
    refine (steps_ask hR _).bind fun resp => ?_
    split
    · exact .done _
    · exact .done _

theorem steps_executeAnswerNode (env : Env) (nodeKey : String) (input : Json)
    (nodeConfig : Option Json) :
    Steps R (Workflow.executeAnswerNode env nodeKey input nodeConfig) := by
  refine (steps_sync_read hR _).bind fun ctx => ?_
  exact (steps_answerText hR _).bind fun answer => .done _

include hv

theorem steps_executeBuiltinFunction (nodeKey : String) (f : Function) (input : Json) :
    Steps R (Workflow.executeBuiltinFunction via permissions nodeKey f input) := by
  unfold Workflow.executeBuiltinFunction
  split
  · exact .done _
  · refine (steps_injectSnapshot hR _).bind fun nodeInput => ?_
    refine (steps_callHandler hR (hv _ _ _)).bind fun out => ?_
    cases out with
    | error e => exact .done _
    | ok out => exact .done _

theorem steps_executePluginFunction (env : Env) (nodeKey : String) (f : Function)
    (input : Json) :
    Steps R (Workflow.executePluginFunction env via permissions nodeKey f input) := by
  unfold Workflow.executePluginFunction
  split
  · exact .done _
  · exact .done _
  · refine (steps_injectSnapshot hR _).bind fun nodeInput => ?_
    refine (steps_invoke hR (hv _ _ _)).bind fun out => ?_
    cases out with
    | error e => exact .done _
    | ok out => exact .done _

/-- A function node: the row is read, then the function is executed by its type. -/
theorem steps_executeFunctionNode (env : Env) (nodeKey : String) (functionId : Int)
    (input : Json) :
    Steps R (Workflow.executeFunctionNode env via permissions nodeKey functionId input) := by
  refine (steps_query hR _).bind fun row => ?_
  match row with
  | .error e => exact .done _
  | .ok none => exact .done _
  | .ok (some f) =>
    dsimp only
    split
    · exact steps_executeBuiltinFunction hR hv nodeKey f input
    · exact steps_executePluginFunction hR hv env nodeKey f input

/-- Any node of a workflow, an answer node included, keeps to the relation. -/
theorem steps_executeNode (env : Env) (functionId : Option Int) (nodeType : NodeType)
    (nodeConfig : Option Json) (nodeKey : String) (input : Json) :
    Steps R
      (Workflow.executeNode env via permissions functionId nodeType nodeConfig nodeKey input) := by
  unfold Workflow.executeNode
  split
  · exact steps_executeAnswerNode hR env nodeKey input nodeConfig
  · split
    · exact .done _
    · exact steps_executeFunctionNode hR hv env nodeKey _ input
  · exact .done _

theorem steps_executeAll (env : Env) (nodes : List Workflow.Prepared) :
    Steps R (Workflow.executeAll env via permissions nodes) := by
  induction nodes with
  | nil => exact .done _
  | cons p rest ih =>
    refine (steps_executeNode hR hv env _ _ _ _ _).bind fun r => ?_
    exact ih.bind fun rs => .done _

omit hv in
/-- The updates that the outputs of a layer ask for are applied one by one. -/
theorem steps_takeResults (env : Env) (topo : Workflow.Topology)
    (results : List (Except Workflow.WorkflowError (String × Json)))
    (st : Workflow.LayerState) : Steps R (Workflow.takeResults env topo results st) := by
  induction results generalizing st with
  | nil => exact .done _
  | cons r rest ih =>
    cases r with
    | error e => exact .done _
    | ok out => exact (steps_applyAgentContextUpdates hR env out.2).bind fun _ => ih _

/-- The loop over the layers, by induction on the fuel. -/
theorem steps_runLayers (env : Env) (topo : Workflow.Topology) (externalInput : Json) (fuel : Nat)
    (st : Workflow.LayerState) :
    Steps R (Workflow.runLayers env via permissions topo externalInput fuel st) := by
  induction fuel generalizing st with
  | zero =>
    unfold Workflow.runLayers
    split
    · exact .done _
    · exact .done _
  | succ fuel ih =>
    unfold Workflow.runLayers
    split
    · exact .done _
    refine (steps_look hR _).bind fun layer => ?_
    split
    · exact .done _
    refine (steps_sync_read hR _).bind fun prepared => ?_
    match prepared with
    | .error e => exact .done _
    | .ok (nodes, st₁) =>
      refine (steps_executeAll hR hv env nodes).bind fun results => ?_
      refine (steps_takeResults hR env topo results _).bind fun taken => ?_
      cases taken with
      | error e => exact .done _
      | ok st₂ => exact ih st₂

/-- A whole workflow, also where its timer ends it early. -/
theorem steps_execute (env : Env) (workflowId : Int) (externalInput : Json) :
    Steps R (Workflow.execute env via permissions workflowId externalInput) := by
  refine (steps_query hR _).bind fun wfRow => ?_
  match wfRow with
  | .error e => exact .done _
  | .ok none => exact .done _
  | .ok (some wf) =>
    refine (steps_query hR _).bind fun nodes => ?_
    match nodes with
    | .error e => exact .done _
    | .ok nodes =>
      refine (steps_query hR _).bind fun edges => ?_
      match edges with
      | .error e => exact .done _
      | .ok edges =>
        refine (steps_timeout hR (steps_runLayers hR hv env _ _ _ _)).bind fun result => ?_
        cases result with
        | none => exact .done _
        | some fin =>
          dsimp only
          split
          · exact .done _
          · exact .done _

end Workflows

-- ---
-- Hooks
-- ---

theorem steps_hookBuiltin (env : Env) (hook : AgentHook) (permissions : List String) (f : Function)
    (input : Json) : Steps R (hookBuiltin env hook permissions f input) := by
  unfold hookBuiltin
  split
  · exact .done _
  refine (steps_callHandler hR (authorizedFor_hook hook permissions _ _ _)).bind fun out => ?_
  cases out with
  | error e => exact .done _
  | ok out => exact (steps_applyAgentContextUpdates hR env out).bind fun _ => .done _

theorem steps_hookPlugin (env : Env) (hook : AgentHook) (ctx : HookContext) (f : Function)
    (input : Json) : Steps R (hookPlugin env hook ctx f input) := by
  unfold hookPlugin
  split
  · exact .done _
  · exact .done _
  refine (steps_queryOrEmpty hR _).bind fun permissions => ?_
  refine (steps_invoke hR (authorizedFor_hook hook permissions _ _ _)).bind fun out => ?_
  cases out with
  | error e => exact .done _
  | ok out =>
    dsimp only
    split
    · exact .done _
    · exact (steps_applyAgentContextUpdates hR env _).bind fun _ => .done _

/-- A hook that calls a function. -/
theorem steps_executeCallFunction (env : Env) (hook : AgentHook) (ctx : HookContext) :
    Steps R (executeCallFunction env hook ctx) := by
  unfold executeCallFunction
  split
  · exact .done _
  refine (steps_query hR _).bind fun row => ?_
  match row with
  | .error e => exact .done _
  | .ok none => exact .done _
  | .ok (some (f, permissions)) =>
    refine (steps_injectSnapshot hR _).bind fun input => ?_
    split
    · exact steps_hookBuiltin hR env hook permissions f input
    split
    · exact steps_hookPlugin hR env hook ctx f input
    · exact .done _

theorem steps_executeCallWorkflow (env : Env) (hook : AgentHook) (ctx : HookContext) :
    Steps R (executeCallWorkflow env hook ctx) := by
  unfold executeCallWorkflow
  split
  · exact .done _
  refine (steps_injectSnapshot hR _).bind fun input => ?_
  refine (steps_queryOrEmpty hR _).bind fun permissions => ?_
  refine (steps_execute hR (authorizedFor_hook hook permissions) env _ input).bind fun outcome => ?_
  cases outcome with
  | error e => exact .done _
  | ok outcome => exact (steps_applyAgentContextUpdates hR env _).bind fun _ => .done _

theorem steps_executeHttpWebhook (hook : AgentHook) (ctx : HookContext) :
    Steps R (executeHttpWebhook hook ctx) := by
  unfold executeHttpWebhook
  split
  · exact .done _
  split
  · exact .done _
  refine (steps_look hR _).bind fun nowText => ?_
  refine (steps_look hR _).bind fun client => ?_
  split
  · exact .done _
  split
  · exact .done _
  refine (steps_emit hR rfl fun _ => .webhook _ _).bind fun _ => ?_
  refine (steps_ask hR _).bind fun answer => ?_
  split
  · split
    · exact .done _
    · exact .done _
  · exact .done _

/-- A hook of any action type. -/
theorem steps_executeHookAction (env : Env) (hook : AgentHook) (ctx : HookContext) :
    Steps R (executeHookAction env hook ctx) := by
  unfold executeHookAction
  split
  · exact steps_executeCallFunction hR env hook ctx
  split
  · exact steps_executeCallWorkflow hR env hook ctx
  split
  · exact steps_executeHttpWebhook hR hook ctx
  · exact .done _

/-- All hooks of a trigger point, up to the one that blocks. -/
theorem steps_runHookList (env : Env) (ctx : HookContext) (hooks : List AgentHook) :
    Steps R (runHookList env ctx hooks) := by
  induction hooks with
  | nil => exact .done _
  | cons hook rest ih =>
    unfold runHookList
    split
    · exact ih
    refine (steps_timeout hR (steps_executeHookAction hR env hook ctx)).bind fun result => ?_
    split
    · exact ih
    · split
      · exact .done _
      · exact ih
    · split
      · exact .done _
      · exact ih

-- ---
-- Tools
-- ---

variable {x : Execution}

theorem steps_toolBuiltin (env : Env) (hx : x.Authorized) : Steps R (toolBuiltin env x) := by
  refine (steps_callHandler hR hx).bind fun out => ?_
  cases out with
  | error e => exact .done _
  | ok result => exact (steps_applyAgentContextUpdates hR env result).bind fun _ => .done _

theorem steps_metaPlugin (env : Env) (f : Function) (hx : x.Authorized) :
    Steps R (metaPlugin env f x) := by
  unfold metaPlugin
  split
  · exact .done _
  · exact .done _
  refine (steps_invoke hR hx).bind fun out => ?_
  cases out with
  | error e => exact .done _
  | ok out => exact (steps_applyAgentContextUpdates hR env _).bind fun _ => .done _

/-- `invoke_function` checks the capabilities of the row it found before it executes it. -/
theorem steps_invokeFunctionRow (env : Env) (content : AgentContent) (ident : String)
    (f : Function) (input : Json) :
    Steps R (invokeFunctionRow env content ident f input) := by
  unfold invokeFunctionRow
  dsimp only
  split
  · exact .done _
  next hmissing =>
  refine (steps_injectSnapshot hR _).bind fun input => ?_
  have hx : Execution.Authorized
      { via := .invokeFunction, function := some f, permissions := content.permissions
        input := input } := by
    rintro _ ⟨rfl⟩
    exact not_not.mp hmissing
  split
  · split
    · exact .done _
    · exact steps_toolBuiltin hR env hx
  split
  · exact steps_metaPlugin hR env f hx
  · exact .done _

theorem steps_invokeFunction (env : Env) (content : AgentContent) (tc : ToolCallRequest) :
    Steps R (invokeFunction env content tc) := by
  unfold invokeFunction
  split
  · exact .done _
  split
  · exact .done _
  refine (steps_query hR _).bind fun row => ?_
  split
  · exact steps_invokeFunctionRow hR env content _ _ _
  · exact .done _

section WorkspaceTools

variable (env : Env) (content : AgentContent) {tool : ToolRef} (tc : ToolCallRequest)
  (hcaps : missingCapabilities tool.requiredCapabilities content.permissions = [])

include hcaps

theorem steps_toolWorkflow (workflowId : Int) (input : Json) :
    Steps R (toolWorkflow env content tool workflowId input) := by
  refine (steps_execute hR (authorizedFor_tool hcaps) env workflowId input).bind fun outcome => ?_
  cases outcome with
  | error e => exact .done _
  | ok outcome => exact (steps_applyAgentContextUpdates hR env _).bind fun _ => .done _

theorem steps_invokeWorkflow : Steps R (invokeWorkflow env content tool tc) := by
  unfold invokeWorkflow
  split
  · exact .done _
  split
  · exact .done _
  refine (steps_injectSnapshot hR _).bind fun input => ?_
  refine (steps_query hR _).bind fun row => ?_
  split
  · exact steps_toolWorkflow hR env content hcaps _ _
  · exact .done _

/-- The meta tools: `invoke_function` and `invoke_workflow`. -/
theorem steps_handleMetaTool : Steps R (handleMetaTool env content tool tc) := by
  unfold handleMetaTool
  split
  · exact steps_invokeFunction hR env content tc
  split
  · exact steps_invokeWorkflow hR env content tc hcaps
  · exact .done _

theorem steps_wrappedBuiltin : Steps R (wrappedBuiltin env content tool tc) := by
  unfold wrappedBuiltin
  split
  · exact .done _
  dsimp only
  split
  · exact .done _
  refine (steps_injectSnapshot hR _).bind fun input => ?_
  refine (steps_look hR _).bind fun f => ?_
  exact steps_toolBuiltin hR env (authorizedFor_tool hcaps _ _ _)

theorem steps_wrappedPlugin : Steps R (wrappedPlugin env content tool tc) := by
  unfold wrappedPlugin
  split
  · exact .done _
  · exact .done _
  refine (steps_look hR _).bind fun f => ?_
  refine (steps_invoke hR (authorizedFor_tool hcaps _ _ _)).bind fun out => ?_
  cases out with
  | error e => exact .done _
  | ok out => exact .done _

theorem steps_wrappedWorkflow : Steps R (wrappedWorkflow env content tool tc) := by
  unfold wrappedWorkflow
  split
  · exact .done _
  refine (steps_injectSnapshot hR _).bind fun input => ?_
  exact steps_toolWorkflow hR env content hcaps _ input

end WorkspaceTools

/-- A tool of the workspace of any execution type. -/
theorem steps_handleWorkspaceTool (env : Env) (content : AgentContent) (tool : ToolRef)
    (tc : ToolCallRequest) : Steps R (handleWorkspaceTool env content tool tc) := by
  unfold handleWorkspaceTool
  dsimp only
  split
  · exact .done _
  next hmissing =>
  have hcaps : missingCapabilities tool.requiredCapabilities content.permissions = [] :=
    not_not.mp hmissing
  split
  · split
    · exact steps_handleMetaTool hR env content tc hcaps
    split
    · exact steps_wrappedBuiltin hR env content tc hcaps
    · exact steps_wrappedPlugin hR env content tc hcaps
  split
  · exact steps_wrappedWorkflow hR env content tc hcaps
  · exact .done _

/-- A tool call of a hop, from the check of its name to its result. -/
theorem steps_handleToolCall (env : Env) (content : AgentContent) (visited : List Int)
    (tc : ToolCallRequest) : Steps R (handleToolCall env content visited tc) := by
  unfold handleToolCall
  split
  · exact .done _
  split
  · exact steps_handleWorkspaceTool hR env content _ tc
  · exact .done _

end Steps

-- ---
-- Routes
-- ---

/-- The outcome sends the session to no other agent. -/
def Stays (o : ToolOutcome) : Prop := o.routeTo = none

theorem returns_toolBuiltin (env : Env) (x : Execution) : Returns Stays (toolBuiltin env x) := by
  refine (Prog.returns_true _).bind fun out _ => ?_
  cases out with
  | error e => exact .done rfl
  | ok result => exact (Prog.returns_true _).bind fun _ _ => .done rfl

theorem returns_metaPlugin (env : Env) (f : Function) (x : Execution) :
    Returns Stays (metaPlugin env f x) := by
  unfold metaPlugin
  split
  · exact .done rfl
  · exact .done rfl
  refine (Prog.returns_true _).bind fun out _ => ?_
  cases out with
  | error e => exact .done rfl
  | ok out => exact (Prog.returns_true _).bind fun _ _ => .done rfl

theorem returns_invokeFunctionRow (env : Env) (content : AgentContent) (ident : String)
    (f : Function) (input : Json) :
    Returns Stays (invokeFunctionRow env content ident f input) := by
  unfold invokeFunctionRow
  dsimp only
  split
  · exact .done rfl
  refine (Prog.returns_true _).bind fun input _ => ?_
  split
  · split
    · exact .done rfl
    · exact returns_toolBuiltin env _
  split
  · exact returns_metaPlugin env f _
  · exact .done rfl

section WorkspaceTools

variable (env : Env) (content : AgentContent) (tool : ToolRef) (tc : ToolCallRequest)

theorem returns_invokeFunction : Returns Stays (invokeFunction env content tc) := by
  unfold invokeFunction
  split
  · exact .done rfl
  split
  · exact .done rfl
  refine (Prog.returns_true _).bind fun row _ => ?_
  split
  · exact returns_invokeFunctionRow env content _ _ _
  · exact .done rfl

theorem returns_toolWorkflow (workflowId : Int) (input : Json) :
    Returns Stays (toolWorkflow env content tool workflowId input) := by
  refine (Prog.returns_true _).bind fun outcome _ => ?_
  cases outcome with
  | error e => exact .done rfl
  | ok outcome => exact (Prog.returns_true _).bind fun _ _ => .done rfl

theorem returns_invokeWorkflow : Returns Stays (invokeWorkflow env content tool tc) := by
  unfold invokeWorkflow
  split
  · exact .done rfl
  split
  · exact .done rfl
  refine (Prog.returns_true _).bind fun input _ => ?_
  refine (Prog.returns_true _).bind fun row _ => ?_
  split
  · exact returns_toolWorkflow env content tool _ _
  · exact .done rfl

theorem returns_handleMetaTool : Returns Stays (handleMetaTool env content tool tc) := by
  unfold handleMetaTool
  split
  · exact returns_invokeFunction env content tc
  split
  · exact returns_invokeWorkflow env content tool tc
  · exact .done rfl

theorem returns_wrappedBuiltin : Returns Stays (wrappedBuiltin env content tool tc) := by
  unfold wrappedBuiltin
  split
  · exact .done rfl
  dsimp only
  split
  · exact .done rfl
  refine (Prog.returns_true _).bind fun input _ => ?_
  refine (Prog.returns_true _).bind fun f _ => ?_
  exact returns_toolBuiltin env _

theorem returns_wrappedPlugin : Returns Stays (wrappedPlugin env content tool tc) := by
  unfold wrappedPlugin
  split
  · exact .done rfl
  · exact .done rfl
  refine (Prog.returns_true _).bind fun f _ => ?_
  refine (Prog.returns_true _).bind fun out _ => ?_
  cases out with
  | error e => exact .done rfl
  | ok out => exact .done rfl

theorem returns_wrappedWorkflow : Returns Stays (wrappedWorkflow env content tool tc) := by
  unfold wrappedWorkflow
  split
  · exact .done rfl
  refine (Prog.returns_true _).bind fun input _ => ?_
  exact returns_toolWorkflow env content tool _ input

theorem returns_handleWorkspaceTool : Returns Stays (handleWorkspaceTool env content tool tc) := by
  unfold handleWorkspaceTool
  dsimp only
  split
  · exact .done rfl
  split
  · split
    · exact returns_handleMetaTool env content tool tc
    split
    · exact returns_wrappedBuiltin env content tool tc
    · exact returns_wrappedPlugin env content tool tc
  split
  · exact returns_wrappedWorkflow env content tool tc
  · exact .done rfl

end WorkspaceTools

-- the agent that an outcome routes to, by its id and its identifier
def ToolOutcome.target (o : ToolOutcome) : Option (Int × String) :=
  o.routeTo.map fun next => (next, o.routeIdentifier.getD "")

/-- The agent that a tool call routes to. -/
def callRoute (content : AgentContent) (visited : List Int) (tc : ToolCallRequest) :
    Option (Int × String) :=
  if tc.name = routeToolName then (handleRouteTool content visited tc).target else none

variable {visited : List Int} {tc : ToolCallRequest}

/-- Only a call of the route tool routes. -/
theorem handleToolCall_route {env : Env} {content : AgentContent} {w w' : World} {o : ToolOutcome}
    (h : (handleToolCall env content visited tc).Runs w o w') :
    o.target = callRoute content visited tc := by
  have hret : Returns (fun o => o.target = callRoute content visited tc)
      (handleToolCall env content visited tc) := by
    unfold handleToolCall callRoute
    split
    · exact .done rfl
    have hstays : ∀ o, Stays o → o.target = none := fun o ho => by
      rw [ToolOutcome.target, ho, Option.map_none]
    split
    · exact (returns_handleWorkspaceTool env content _ tc).mono hstays
    · exact .done rfl
  exact hret.runs h

theorem callRoute_eq_some {content : AgentContent} {next : Int × String}
    (h : callRoute content visited tc = some next) :
    (∃ child ∈ content.children, child.id = next.1) ∧ next.1 ∉ visited := by
  unfold callRoute handleRouteTool at h
  dsimp only at h
  split at h
  · split at h
    · cases h
    split at h
    · cases h
    · next child hfind =>
      split at h
      · cases h
      · next hvisited =>
        cases h
        exact ⟨⟨child, List.mem_of_find?_eq_some hfind, rfl⟩, hvisited⟩
  · cases h

end HiveClaw.Runtime
