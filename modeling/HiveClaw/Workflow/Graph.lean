import HiveClaw.Store.Service
import HiveClaw.Workflow.CycleCheck
import HiveClaw.Workflow.InputSource

/-!
# Saving a workflow graph

`put_graph` and `fetch_graph` of `crates/hiveweb/src/services/workflow.rs`. A
graph is replaced as a whole: its checks run first, then one transaction
deletes the old rows and inserts the new ones. The virtual nodes `start` and
`end` and their edges are not stored; `fetch_graph` puts them back.

The start node's description and the schemas of the virtual nodes travel in
their `position`.
-/

namespace HiveClaw.Workflow

open Service Lib

-- `GraphNode`
structure GraphNode where
  id : Option Int := none
  nodeKey : String
  nodeType : NodeType := .functionNode
  functionId : Option Int := none
  position : Option Json := none
  nodeConfig : Option Json := none
deriving DecidableEq

-- `GraphEdge`
structure GraphEdge where
  id : Option Int := none
  srcNodeKey : String
  dstNodeKey : String
  mapping : Json
deriving DecidableEq

-- `GraphPut`
structure GraphPut where
  nodes : List GraphNode
  edges : List GraphEdge
deriving DecidableEq

-- `WorkflowGraph`; the row of `workflows` has the struct's own name in the source
structure WorkflowGraph where
  workflow : HiveClaw.Workflow
  nodes : List GraphNode
  edges : List GraphEdge
deriving DecidableEq

/-- What `put_graph` takes from outside: the server's collation and JSON
normal form, the order in which hash maps are iterated, and `serde`. -/
structure Platform where
  mysql : Mysql
  rank : String → Nat
  inputSource : Json → Except String InputSource

-- ---
-- Reading a graph
-- ---

-- `serde_json::json!({ "type": "object", "properties": {} })`
def emptySchema : Json := .obj [("type", .str "object"), ("properties", .obj [])]

-- `fetch_by_id`
def fetchById (id : Int) : Service HiveClaw.Workflow := do
  let row ← query "workflow fetch" fun s => s.workflow? id
  okOr row (.notFound s!"workflow id={id} not found")

-- the virtual start node
def startNode (wf : HiveClaw.Workflow) : GraphNode :=
  { nodeKey := "start", nodeType := .startNode
    position := some (.obj [("x", .num (.int 100)), ("y", .num (.int 300)),
      ("input_schema", wf.inputSchema.getD emptySchema)]) }

-- the virtual end node
def endNode (wf : HiveClaw.Workflow) : GraphNode :=
  { nodeKey := "end", nodeType := .endNode
    position := some (.obj ([("x", .num (.int 100)), ("y", .num (.int 600))] ++
      match wf.outputSchema with
      | some schema => [("output_schema", schema)]
      | none => [])) }

-- `id_to_key.get(&id).cloned().unwrap_or_default()`
def keyOf (nodes : List WorkflowNode) (id : Int) : String :=
  ((nodes.find? fun n => n.id = id).map WorkflowNode.nodeKey).getD ""

/-- The edges from `start` to a node without predecessor and from a node
without successor to `end`. -/
def virtualEdges (edges : List GraphEdge) (n : GraphNode) : List GraphEdge :=
  if n.nodeKey = "start" ∨ n.nodeKey = "end" then []
  else
    (if edges.any fun e => e.dstNodeKey = n.nodeKey then []
      else [{ srcNodeKey := "start", dstNodeKey := n.nodeKey, mapping := .obj [] }]) ++
    (if edges.any fun e => e.srcNodeKey = n.nodeKey then []
      else [{ srcNodeKey := n.nodeKey, dstNodeKey := "end", mapping := .obj [] }])

-- `fetch_graph`
def fetchGraph (id : Int) : Service WorkflowGraph := do
  let wf ← fetchById id
  let nodes ← query "nodes list" fun s =>
    (s.workflowNodes.filter fun n => n.workflowId = id).insertionSort fun a b => a.id ≤ b.id
  let edges ← query "edges list" fun s =>
    (s.workflowEdges.filter fun e => e.workflowId = id).insertionSort fun a b => a.id ≤ b.id
  let dbNodes := nodes.map fun n =>
    ({ id := some n.id, nodeKey := n.nodeKey, nodeType := n.nodeType,
       functionId := n.functionId, position := n.position,
       nodeConfig := n.nodeConfig } : GraphNode)
  let allNodes := [startNode wf] ++ dbNodes ++ [endNode wf]
  let dbEdges := edges.map fun e =>
    ({ id := some e.id, srcNodeKey := keyOf nodes e.srcNodeId,
       dstNodeKey := keyOf nodes e.dstNodeId, mapping := e.mapping } : GraphEdge)
  pure ⟨wf, allNodes, dbEdges ++ allNodes.flatMap (virtualEdges dbEdges)⟩

-- ---
-- The checks
-- ---

-- the nodes that are stored: `start` and `end` are not
def dbNodes (graph : GraphPut) : List GraphNode :=
  graph.nodes.filter fun n =>
    n.nodeType ≠ .startNode && n.nodeKey ≠ "start" && n.nodeType ≠ .endNode && n.nodeKey ≠ "end"

-- the edges that are stored
def dbEdges (graph : GraphPut) : List GraphEdge :=
  graph.edges.filter fun e =>
    e.srcNodeKey ≠ "start" && e.dstNodeKey ≠ "start" && e.srcNodeKey ≠ "end" &&
      e.dstNodeKey ≠ "end"

-- 1. `if !keys_seen.insert(..) { return Err(..) }`
def checkNodeKeys : List GraphNode → List String → Except AppError Unit
  | [], _ => .ok ()
  | n :: rest, seen =>
    if n.nodeKey ∈ seen then .error (.badRequest s!"node_key 重复：{n.nodeKey}")
    else checkNodeKeys rest (n.nodeKey :: seen)

-- 2. the functions of the function nodes
def functionIds (nodes : List GraphNode) : List Int :=
  (nodes.filter fun n => n.nodeType = .functionNode).filterMap GraphNode.functionId

/-- The rows of the functions a graph refers to; without any, nothing is
asked. -/
def functionSchemas (ids : List Int) : Service (List Function) :=
  if ids = [] then pure []
  else do
    let found ← query "function schemas" fun s => s.functions.filter fun f => f.id ∈ ids
    match ids.find? fun fid => found.all fun f => f.id ≠ fid with
    | some fid => fail (.notFound s!"function id={fid} not found")
    | none => pure found

-- `adjacency.insert(n.node_key.as_str(), vec![])` for every node
def emptyAdjacency (nodes : List GraphNode) : Adjacency :=
  nodes.foldl (fun adj n => adj.insert n.nodeKey []) ∅

-- 3. the edges enter the adjacency lists, both ends checked
def addEdges (keys : List String) : List GraphEdge → Adjacency → Except AppError Adjacency
  | [], adj => .ok adj
  | e :: rest, adj =>
    if e.srcNodeKey ∉ keys then
      .error (.badRequest s!"edge src_node_key {e.srcNodeKey} 不在 nodes 内")
    else if e.dstNodeKey ∉ keys then
      .error (.badRequest s!"edge dst_node_key {e.dstNodeKey} 不在 nodes 内")
    else
      addEdges keys rest
        (adj.insert e.srcNodeKey ((adj.lookup e.srcNodeKey).getD [] ++ [e.dstNodeKey]))

/-- Steps 1 and 3 with the cycle check; the source skips the latter for a graph
without stored nodes. -/
def checkTopology (rank : String → Nat) (nodes : List GraphNode) (edges : List GraphEdge) :
    Except AppError Unit := do
  let adj ← addEdges (nodes.map GraphNode.nodeKey) edges (emptyAdjacency nodes)
  if nodes = [] then .ok ()
  else
    match detectCycle rank adj with
    | .finished _ => .ok ()
    | .cycle keys =>
      .error (.dagCycle s!"工作流中存在环，请检查节点 {debugStrings keys} 之间的连线")
    -- the search does not run out: `detectCycle_ne_outOfFuel`
    | .outOfFuel => .error (.internal "")

-- 4a. the `input_mapping` of a node is a valid spec
def checkInputMapping (ofJson : Json → Except String InputSource) (n : GraphNode) :
    Except AppError Unit :=
  if n.nodeType = .functionNode ∨ n.nodeType = .generateAnswerNode then
    match n.nodeConfig.bind fun c => c.get "input_mapping" with
    | none => .ok ()
    | some specValue =>
      match parseInputSpec ofJson specValue with
      | .error e =>
        .error (.workflowMappingInvalid s!"节点「{n.nodeKey}」的 input_mapping 格式错误：{e}")
      | .ok spec =>
        match validateInputSpec spec with
        | .error e =>
          .error (.workflowMappingInvalid s!"节点「{n.nodeKey}」的 input_mapping 校验失败：{e}")
        | .ok () => .ok ()
  else .ok ()

-- 4b. the required inputs of a node's function are mapped
def checkRequiredInputs (schemas : List Function) (n : GraphNode) : Except AppError Unit :=
  match n.functionId.bind fun fid => schemas.find? fun f => f.id = fid with
  | none => .ok ()
  | some f =>
    let required := (((f.inputSchema.get "required").bind Json.asArray).map Json.strings).getD []
    let specMap := (n.nodeConfig.bind fun c => c.get "input_mapping").bind Json.asObject
    match required.find? fun field =>
        !((specMap.map fun m => m.containsKey field).getD false) with
    | some field =>
      .error (.workflowMappingInvalid s!"节点「{n.nodeKey}」的输入映射「{field}」无效")
    | none => .ok ()

-- 5. the capabilities of all functions, sorted
def workflowCaps (schemas : List Function) (nodes : List GraphNode) : Option Json :=
  let caps := nodes.flatMap fun n =>
    match n.functionId.bind fun fid => schemas.find? fun f => f.id = fid with
    | some f => ((f.requiredCapabilities.bind Json.asArray).map Json.strings).getD []
    | none => []
  if caps = [] then none
  else some (.arr ((caps.dedup.insertionSort fun a b => a ≤ b).map Json.str))

-- ---
-- The transaction
-- ---

/-- The columns of `workflows` that a graph brings along in the positions of
its virtual nodes. -/
structure StartEnd where
  inputSchema : Option Json
  startDescription : Option String
  outputSchema : Option Json

def startEnd (wf : HiveClaw.Workflow) (graph : GraphPut) : StartEnd :=
  let start := (graph.nodes.find? fun n =>
    n.nodeType = .startNode || n.nodeKey = "start").bind GraphNode.position
  let stop := (graph.nodes.find? fun n =>
    n.nodeType = .endNode || n.nodeKey = "end").bind GraphNode.position
  { inputSchema := ((start.bind fun p => p.get "input_schema").or wf.inputSchema).or
      (some emptySchema)
    startDescription := (start.bind fun p => p.getStr "start_description").or wf.startDescription
    outputSchema := (stop.bind fun p => p.get "output_schema").or wf.outputSchema }

/-- The constraints of `workflow_nodes`. -/
def checkNodeRow (mysql : Mysql) (s : Store) (row : WorkflowNode) : Except Failure Unit :=
  let what := "node insert " ++ row.nodeKey
  if 32 < row.nodeKey.length then
    .error (internal what "Data too long for column 'node_key' at row 1")
  else if s.workflowNodes.any fun n => n.workflowId = row.workflowId &&
      mysql.collationKey n.nodeKey = mysql.collationKey row.nodeKey then
    .error (internal what "Duplicate entry for key 'workflow_nodes.uk_workflow_node'")
  else if (s.workflow? row.workflowId).isNone ∨
      row.functionId.any (fun fid => (s.function? fid).isNone) then
    .error (internal what "Cannot add or update a child row: a foreign key constraint fails")
  else .ok ()

-- `INSERT INTO workflow_nodes …`
def insertNode (pf : Platform) (id : Int) (i : Input) (n : GraphNode) : Tx Int := do
  let nodeId ← modifyGet fun s =>
    (s.workflowNodesAutoIncrement,
      { s with workflowNodesAutoIncrement := s.workflowNodesAutoIncrement + 1 })
  Tx.check (i.check ("node insert " ++ n.nodeKey))
  let row : WorkflowNode :=
    { id := nodeId, workflowId := id, nodeKey := n.nodeKey, functionId := n.functionId
      nodeType := n.nodeType, position := n.position.map pf.mysql.jsonNormal
      nodeConfig := n.nodeConfig.map pf.mysql.jsonNormal }
  let s ← get
  Tx.check (checkNodeRow pf.mysql s row)
  set { s with workflowNodes := s.workflowNodes ++ [row] }
  pure nodeId

/-- The loop over the nodes, with the map from keys to ids it fills. -/
def insertNodes (pf : Platform) (id : Int) (i : Input) :
    List GraphNode → HashMap String Int → Tx (HashMap String Int)
  | [], keyToId => pure keyToId
  | n :: rest, keyToId => do
    let nodeId ← insertNode pf id i n
    insertNodes pf id i rest (keyToId.insert n.nodeKey nodeId)

-- `*key_to_id.get(key).unwrap()`
def unwrapKey (keyToId : HashMap String Int) (key : String) : Except Failure Int :=
  match keyToId.lookup key with
  | some id => .ok id
  | none => .error (.panic "called `Option::unwrap()` on a `None` value")

-- `INSERT INTO workflow_edges …`
def insertEdge (pf : Platform) (id : Int) (i : Input) (keyToId : HashMap String Int)
    (e : GraphEdge) : Tx Unit := do
  let src ← Tx.check (unwrapKey keyToId e.srcNodeKey)
  let dst ← Tx.check (unwrapKey keyToId e.dstNodeKey)
  let edgeId ← modifyGet fun s =>
    (s.workflowEdgesAutoIncrement,
      { s with workflowEdgesAutoIncrement := s.workflowEdgesAutoIncrement + 1 })
  Tx.check (i.check "edge insert")
  modify fun s => { s with workflowEdges := s.workflowEdges ++
    [{ id := edgeId, workflowId := id, srcNodeId := src, dstNodeId := dst
       mapping := pf.mysql.jsonNormal e.mapping }] }

def insertEdges (pf : Platform) (id : Int) (i : Input) (keyToId : HashMap String Int) :
    List GraphEdge → Tx Unit
  | [] => pure ()
  | e :: rest => do
    insertEdge pf id i keyToId e
    insertEdges pf id i keyToId rest

-- `UPDATE workflows SET …`
def updateWorkflow (mysql : Mysql) (id : Int) (caps : Option Json) (cols : StartEnd) (s : Store) :
    Store :=
  { s with workflows := s.workflows.map fun w =>
      if w.id = id then
        { w with
          requiredCapabilities := caps.map mysql.jsonNormal
          inputSchema := cols.inputSchema.map mysql.jsonNormal
          startDescription := cols.startDescription
          outputSchema := cols.outputSchema.map mysql.jsonNormal }
      else w }

-- steps 6 and 7
def putGraphTx (pf : Platform) (id : Int) (caps : Option Json) (cols : StartEnd)
    (nodes : List GraphNode) (edges : List GraphEdge) (i : Input) : Tx Unit := do
  Tx.check (i.check "tx begin")
  Tx.check (i.check "workflow capabilities update")
  modify (updateWorkflow pf.mysql id caps cols)
  Tx.check (i.check "edges clear")
  modify fun s => { s with workflowEdges := s.workflowEdges.filter fun e => e.workflowId ≠ id }
  Tx.check (i.check "nodes clear")
  modify fun s => { s with workflowNodes := s.workflowNodes.filter fun n => n.workflowId ≠ id }
  let keyToId ← insertNodes pf id i nodes ∅
  insertEdges pf id i keyToId edges
  Tx.check (i.check "tx commit")

-- `put_graph`
def putGraph (pf : Platform) (id : Int) (graph : GraphPut) : Service WorkflowGraph := do
  let wf ← fetchById id
  let nodes := dbNodes graph
  let edges := dbEdges graph
  lift (checkNodeKeys nodes [])
  let schemas ← functionSchemas (functionIds nodes)
  lift (checkTopology pf.rank nodes edges)
  lift (nodes.forM (checkInputMapping pf.inputSource))
  lift (nodes.forM (checkRequiredInputs schemas))
  transaction "graph replace"
    (putGraphTx pf id (workflowCaps schemas nodes) (startEnd wf graph) nodes edges)
  fetchGraph id

end HiveClaw.Workflow
