import HiveClaw.Workflow.Nodes

/-!
# Executing a workflow

`workflow_executor.rs` of `crates/hiveweb/src/runtime/workflow`: the graph is
loaded, its nodes are executed layer by layer as their in-degrees drop to zero,
and the output of the end node is put together.

The nodes of a layer run concurrently in the source. They share nothing but the
context, which is written only after all of them have finished, so their order
is immaterial and they are executed one after the other here, in the order of
the layer.
-/

namespace HiveClaw.Workflow

open HiveClaw.Runtime Context Lib

-- ---
-- The topology
-- ---

/-- The lookup tables of `execute`. -/
structure Topology where
  nodes : List WorkflowNode
  byKey : HashMap String WorkflowNode
  succ : HashMap String (List String)

-- `nodes.iter().map(|(id, k, ..)| (id, k)).collect()`
def idToKey (nodes : List WorkflowNode) : HashMap Int String :=
  nodes.foldl (fun m n => m.insert n.id n.nodeKey) ∅

-- `key_to_function`, `key_to_node_type` and `key_to_node_config` in one map
def keyToNode (nodes : List WorkflowNode) : HashMap String WorkflowNode :=
  nodes.foldl (fun m n => m.insert n.nodeKey n) ∅

/-- The keys of an edge's ends; an edge with an unknown end is passed over. -/
def edgeKeys (ids : HashMap Int String) (e : WorkflowEdge) : Option (String × String) :=
  match ids.lookup e.srcNodeId, ids.lookup e.dstNodeId with
  | some src, some dst => some (src, dst)
  | _, _ => none

-- `*indegree.entry(dst).or_insert(0) += 1`
def bump (indegree : HashMap String Nat) (key : String) : HashMap String Nat :=
  indegree.insert key ((indegree.lookup key).getD 0 + 1)

-- `succ.entry(src).or_default().push(dst)`
def push (succ : HashMap String (List String)) (src dst : String) : HashMap String (List String) :=
  succ.insert src ((succ.lookup src).getD [] ++ [dst])

def initialIndegree (nodes : List WorkflowNode) : HashMap String Nat :=
  nodes.foldl (fun m n => m.insert n.nodeKey 0) ∅

/-- The loop over the edges that fills `indegree` and `succ`. -/
def loadEdges (ids : HashMap Int String) (edges : List WorkflowEdge)
    (indegree : HashMap String Nat) (succ : HashMap String (List String)) :
    HashMap String Nat × HashMap String (List String) :=
  (edges.filterMap (edgeKeys ids)).foldl (fun acc e => (bump acc.1 e.2, push acc.2 e.1 e.2))
    (indegree, succ)

-- ---
-- Layers
-- ---

/-- The variables of `run_layers`. `layers` keeps the layers in the order in
which they were executed; the source has no such variable. -/
structure LayerState where
  remaining : List String
  indegree : HashMap String Nat
  outputs : NodeValueMap := ∅
  nodeInputs : NodeValueMap := ∅
  nodeAgentContexts : NodeValueMap := ∅
  layers : List (List String) := []

/-- How `run_layers` ends. -/
inductive LayerEnd where
  | done (st : LayerState)
  | nodeError (e : WorkflowError)
  | unschedulable
  | outOfFuel

/-- A node that is ready to be executed. -/
structure Prepared where
  node : WorkflowNode
  input : Json

/-- The nodes that can be scheduled: no predecessor is left. -/
def nextLayer (rank : String → Nat) (st : LayerState) : List String :=
  (hashOrder rank st.remaining).filter fun k => (st.indegree.lookup k).getD 0 = 0

-- the `_agent_context` of an input is not shown
def cleanInput : Json → Json
  | .obj fields => .obj (JsonMap.remove fields "_agent_context")
  | v => v

/-- The loop that prepares a layer. An input that cannot be resolved ends the
workflow before any node of the layer has run. -/
def prepareLayer (env : Env) (rank : String → Nat) (ctx : AgentContext) (topo : Topology)
    (externalInput : Json) :
    List String → LayerState → Except WorkflowError (List Prepared × LayerState)
  | [], st => .ok ([], st)
  | key :: rest, st =>
    -- a key without a node gets the defaults `function_node` and no config
    let node := topo.byKey.lookup key
    match buildNodeInput env rank ctx ((node.map (·.nodeType)).getD .functionNode) key
        st.outputs externalInput (node.bind (·.nodeConfig)) with
    | .error e => .error (.mappingResolve key e.1 e.2)
    | .ok input =>
      match node with
      | none => .error (.missingFunction key)
      | some node =>
        match prepareLayer env rank ctx topo externalInput rest
            { st with
              nodeInputs := st.nodeInputs.insert key (cleanInput input)
              nodeAgentContexts := st.nodeAgentContexts.insert key (env.contextSnapshot ctx) } with
        | .error e => .error e
        | .ok (prepared, st') => .ok (⟨node, input⟩ :: prepared, st')

/-- `join_all`: every node of the layer is executed, also after a failure. -/
def executeAll (env : Env) (via : Via) (permissions : List String) :
    List Prepared → Rt (List (Except WorkflowError (String × Json)))
  | [] => pure []
  | p :: rest => do
    let r ← executeNode env via permissions p.node.functionId p.node.nodeType p.node.nodeConfig
      p.node.nodeKey p.input
    let rs ← executeAll env via permissions rest
    pure (r :: rs)

-- `if let Some(d) = indegree.get_mut(dst) { *d = d.saturating_sub(1) }`
def decrement (indegree : HashMap String Nat) (dst : String) : HashMap String Nat :=
  match indegree.lookup dst with
  | some d => indegree.insert dst (d - 1)
  | none => indegree

/-- What a finished node changes in the variables of the loop. -/
def finishNode (topo : Topology) (st : LayerState) (key : String) (out : Json) : LayerState :=
  { st with
    outputs := st.outputs.insert key out
    remaining := st.remaining.filter fun k => k ≠ key
    indegree := ((topo.succ.lookup key).getD []).foldl decrement st.indegree }

/-- The loop over the results: the first error ends the workflow. -/
def takeResults (env : Env) (topo : Topology) :
    List (Except WorkflowError (String × Json)) → LayerState →
      Rt (Except WorkflowError LayerState)
  | [], st => pure (.ok st)
  | .error e :: _, _ => pure (.error e)
  | .ok (key, out) :: rest, st => do
    applyAgentContextUpdates env out
    takeResults env topo rest (finishNode topo st key out)

/-- `run_layers`, for at most `fuel` layers. -/
def runLayers (env : Env) (via : Via) (permissions : List String) (topo : Topology)
    (externalInput : Json) : Nat → LayerState → Rt LayerEnd
  | fuel, st =>
    if st.remaining = [] then pure (.done st)
    else
      match fuel with
      | 0 => pure .outOfFuel
      | fuel + 1 => do
        let layer ← Rt.look fun m => nextLayer m.rank st
        if layer = [] then pure .unschedulable
        else do
          let prepared ← Rt.sync fun m w =>
            (prepareLayer env m.rank w.ctx topo externalInput layer st, w)
          match prepared with
          | .error e => pure (.nodeError e)
          | .ok (nodes, st₁) => do
            let results ← executeAll env via permissions nodes
            let taken ← takeResults env topo results { st₁ with layers := st₁.layers ++ [layer] }
            match taken with
            | .error e => pure (.nodeError e)
            | .ok st₂ => runLayers env via permissions topo externalInput fuel st₂

-- ---
-- The whole workflow
-- ---

-- `ExecuteOutcome`
structure ExecuteOutcome where
  endValue : Json
  nodeResults : NodeValueMap
  nodeInputs : NodeValueMap
  nodeAgentContexts : NodeValueMap

/-- The fields of the schema, from the last nodes in the order of the rows. -/
def endFields (topo : Topology) (outputs : NodeValueMap) (fields : List String) : JsonMap :=
  (topo.nodes.filter fun n => (topo.succ.lookup n.nodeKey).isNone).foldl (fun acc n =>
    match (outputs.lookup n.nodeKey).bind Json.asObject with
    | none => acc
    | some obj => fields.foldl (fun acc field =>
      match obj.get field with
      | some v => acc.insert field v
      | none => acc) acc) []

/-- `build_end_output`. No node is called `end`, so that without a schema the
output is empty. -/
def buildEndOutput (topo : Topology) (outputs : NodeValueMap) (outputSchema : Option Json) : Json :=
  match outputSchema with
  | some schema =>
    let fields := (((schema.get "properties").bind Json.asObject).map fun m =>
      m.map Prod.fst).getD []
    .obj (endFields topo outputs fields)
  | none =>
    match outputs.lookup "end" with
    | some (.obj map) => .obj (JsonMap.remove map "_agent_context_updates")
    | some out => out
    | none => .obj []

/-- The rows of a workflow's nodes, in any order. -/
def nodeRows (m : Moment) (workflowId : Int) : List WorkflowNode :=
  (m.store.workflowNodes.filter fun n => n.workflowId = workflowId).insertionSort
    fun a b => m.rowRank a.id ≤ m.rowRank b.id

@[inherit_doc nodeRows]
def edgeRows (m : Moment) (workflowId : Int) : List WorkflowEdge :=
  (m.store.workflowEdges.filter fun e => e.workflowId = workflowId).insertionSort
    fun a b => m.rowRank a.id ≤ m.rowRank b.id

def topologyOf (nodes : List WorkflowNode) (edges : List WorkflowEdge) : Topology :=
  { nodes := nodes, byKey := keyToNode nodes
    succ := (loadEdges (idToKey nodes) edges (initialIndegree nodes) ∅).2 }

def initialState (nodes : List WorkflowNode) (edges : List WorkflowEdge) : LayerState :=
  { remaining := (nodes.map WorkflowNode.nodeKey).dedup
    indegree := (loadEdges (idToKey nodes) edges (initialIndegree nodes) ∅).1 }

/-- The end of `run_layers` as the caller sees it. -/
def LayerEnd.result (timeoutMs : Int) : LayerEnd → Except WorkflowError LayerState
  | .done st => .ok st
  | .nodeError e => .error e
  | .unschedulable =>
    .error (.nodeFailure "<topology>"
      "no schedulable node — possible cycle slipped past save-time check")
  -- a loop that went on for ever would be ended by the timer
  | .outOfFuel => .error (.timeout timeoutMs)

-- `WorkflowExecutor::execute`
def execute (env : Env) (via : Via) (permissions : List String) (workflowId : Int)
    (externalInput : Json) : Rt (Except WorkflowError ExecuteOutcome) := do
  let wfRow ← Rt.query fun m => m.store.workflow? workflowId
  match wfRow with
  | .error e => pure (.error (.loadFailed e))
  | .ok none => pure (.error (.notFound workflowId))
  | .ok (some wf) => do
    let nodes ← Rt.query fun m => nodeRows m workflowId
    match nodes with
    | .error e => pure (.error (.loadFailed e))
    | .ok nodes => do
      let edges ← Rt.query fun m => edgeRows m workflowId
      match edges with
      | .error e => pure (.error (.loadFailed e))
      | .ok edges => do
        let topo := topologyOf nodes edges
        let result ← Rt.timeout
          (runLayers env via permissions topo externalInput nodes.length (initialState nodes edges))
        match result with
        | none => pure (.error (.timeout wf.timeoutMs))
        | some fin =>
          match fin.result wf.timeoutMs with
          | .error e => pure (.error e)
          | .ok st =>
            pure (.ok
              { endValue := buildEndOutput topo st.outputs wf.outputSchema
                nodeResults := st.outputs, nodeInputs := st.nodeInputs
                nodeAgentContexts := st.nodeAgentContexts })

end HiveClaw.Workflow
