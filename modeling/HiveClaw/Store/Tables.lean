import HiveClaw.Json

/-!
# The tables of hiveweb

Rows and constraints of `crates/hiveweb/migrations` for the tables the modelled
services touch, and `AgentContent`, the runtime view of an agent that
`services/agent.rs` assembles from them and keeps in Redis.

A table is the list of its rows in some order; a `SELECT` without `ORDER BY`
may return them in any other. Columns keep the source's names. A time stamp is
the number of microseconds since the epoch: `DATETIME` columns hold whole
seconds, `DATETIME(6)` columns any value.
-/

namespace HiveClaw

/-- A time stamp in microseconds since the epoch. -/
abbrev DateTime := Int

namespace DateTime

/-- `DateTime::timestamp`: the seconds of a time stamp. -/
def timestamp (t : DateTime) : Int := Int.fdiv t 1000000

/-- What a `DATETIME` column keeps of a time stamp. -/
def toSecond (t : DateTime) : DateTime := timestamp t * 1000000

@[simp] theorem timestamp_toSecond (t : DateTime) : timestamp (toSecond t) = timestamp t :=
  Int.mul_fdiv_cancel _ (by decide)

end DateTime

/-! ## Agents -/

/-- A row of `agents`. -/
structure Agent where
  id : Int
  identifier : String
  name : String
  description : Option String
  systemPrompt : String
  parentAgentId : Option Int
  depth : Int
  modelPreset : Option String
  createdAt : DateTime
  updatedAt : DateTime
deriving DecidableEq, Repr

/-- A row of `agent_tools`. -/
structure AgentTool where
  agentId : Int
  toolId : Int
deriving DecidableEq, Repr

/-- A row of `agent_skills`. -/
structure AgentSkill where
  agentId : Int
  skillId : Int
deriving DecidableEq, Repr

/-- A row of `agent_permissions`. -/
structure AgentPermission where
  agentId : Int
  capability : String
deriving DecidableEq, Repr

/-- A row of `agent_hooks`. -/
structure AgentHook where
  id : Int
  agentId : Int
  name : String
  description : Option String
  triggerPoint : String
  actionType : String
  actionParams : Json
  enabled : Bool
  sortOrder : Int
  blockingMode : Bool
  timeoutMs : Int
  createdAt : DateTime
  updatedAt : DateTime
deriving DecidableEq

/-! ## Plugins, functions, tools and skills -/

/-- A row of `plugins`. -/
structure Plugin where
  id : Int
  identifier : String
  name : String
  description : Option String
  manifest : Option Json
  runtime : String
  version : String
  author : Option String
  repositoryUrl : Option String
  s3Key : String
  sha256 : String
  sizeBytes : Int
  categoryId : Option Int
  createdAt : DateTime
  updatedAt : DateTime
  deletedAt : Option DateTime
deriving DecidableEq

/-- A row of `functions`; `kind` is 1 for builtin and 2 for custom. -/
structure Function where
  id : Int
  identifier : String
  name : String
  description : Option String
  kind : Int
  inputSchema : Json
  outputSchema : Json
  pluginId : Option Int
  pluginExport : Option String
  requiredCapabilities : Option Json
deriving DecidableEq

/-- A row of `tools`; `kind` is 1 for a function and 2 for a workflow. -/
structure Tool where
  id : Int
  identifier : String
  name : String
  description : String
  kind : Int
  source : String
  isAlways : Bool
  functionId : Option Int
  workflowId : Option Int
  inputSchema : Json
  outputSchema : Json
  categoryId : Option Int
  requiredCapabilities : Option Json
  createdAt : DateTime
  updatedAt : DateTime
deriving DecidableEq

/-- A row of `skills`. -/
structure Skill where
  id : Int
  identifier : String
  name : String
  content : String
deriving DecidableEq, Repr

/-- A row of `tags`. -/
structure Tag where
  id : Int
  name : String
deriving DecidableEq, Repr

/-- A row of `taggings`. -/
structure Tagging where
  tagId : Int
  entityType : String
  entityId : Int
deriving DecidableEq, Repr

/-! ## Workflows -/

-- `NodeType`
inductive NodeType where
  | functionNode
  | startNode
  | endNode
  | generateAnswerNode
deriving DecidableEq, Repr

/-- A row of `workflows`. -/
structure Workflow where
  id : Int
  identifier : String
  name : String
  timeoutMs : Int
  requiredCapabilities : Option Json
  inputSchema : Option Json
  startDescription : Option String
  outputSchema : Option Json
  endDescription : Option String
deriving DecidableEq

/-- A row of `workflow_nodes`. -/
structure WorkflowNode where
  id : Int
  workflowId : Int
  nodeKey : String
  functionId : Option Int
  nodeType : NodeType
  position : Option Json
  nodeConfig : Option Json
deriving DecidableEq

/-- A row of `workflow_edges`. -/
structure WorkflowEdge where
  id : Int
  workflowId : Int
  srcNodeId : Int
  dstNodeId : Int
  mapping : Json
deriving DecidableEq

/-! ## The runtime view of an agent -/

-- `ToolRef`
structure ToolRef where
  id : Int
  identifier : String
  name : String
  description : String
  kind : Int
  functionId : Option Int
  functionIdentifier : Option String
  workflowId : Option Int
  inputSchema : Json
  pluginId : Option Int
  pluginExport : Option String
  isBuiltinFunction : Bool
  isMetaTool : Bool
  requiredCapabilities : List String
deriving DecidableEq

-- `ChildAgent`
structure ChildAgent where
  id : Int
  identifier : String
  description : Option String
deriving DecidableEq, Repr

/-- `AgentContent`; the map from trigger points to hooks is the list of its
entries. -/
structure AgentContent where
  agentId : Int
  identifier : String
  systemPrompt : String
  modelPreset : Option String
  tools : List ToolRef
  permissions : List String
  children : List ChildAgent
  hooks : List (String × List AgentHook)
deriving DecidableEq

/-! ## The store -/

/-- The database, the counters of its `AUTO_INCREMENT` columns, and the keys
`agent:content:{id}` of the Redis cache. -/
structure Store where
  agents : List Agent := []
  agentTools : List AgentTool := []
  agentSkills : List AgentSkill := []
  agentPermissions : List AgentPermission := []
  agentHooks : List AgentHook := []
  functions : List Function := []
  tools : List Tool := []
  skills : List Skill := []
  tags : List Tag := []
  taggings : List Tagging := []
  workflows : List Workflow := []
  workflowNodes : List WorkflowNode := []
  workflowEdges : List WorkflowEdge := []
  agentsAutoIncrement : Int := 1
  agentHooksAutoIncrement : Int := 1
  workflowNodesAutoIncrement : Int := 1
  workflowEdgesAutoIncrement : Int := 1
  contentCache : List (Int × AgentContent) := []
deriving DecidableEq

namespace Store

-- `SELECT * FROM agents WHERE id = ?`
def agent? (s : Store) (id : Int) : Option Agent := s.agents.find? fun a => a.id = id

-- `SELECT * FROM functions WHERE id = ?`
def function? (s : Store) (id : Int) : Option Function := s.functions.find? fun f => f.id = id

-- `SELECT * FROM tools WHERE id = ?`
def tool? (s : Store) (id : Int) : Option Tool := s.tools.find? fun t => t.id = id

-- `SELECT * FROM workflows WHERE id = ?`
def workflow? (s : Store) (id : Int) : Option Workflow := s.workflows.find? fun w => w.id = id

-- `SELECT * FROM agent_hooks WHERE id = ?`
def agentHook? (s : Store) (id : Int) : Option AgentHook := s.agentHooks.find? fun h => h.id = id

-- `DEL agent:content:{id}`
def dropContent (s : Store) (id : Int) : Store :=
  { s with contentCache := s.contentCache.filter fun e => e.1 ≠ id }

end Store

/-- `UPDATE … WHERE id = ?` followed by `SELECT … WHERE id = ?`. -/
theorem find?_map_update {ρ : Type} (key : ρ → Int) (id : Int) (g : ρ → ρ)
    (hkey : ∀ r, key (g r) = key r) (rows : List ρ) :
    (rows.map fun r => if key r = id then g r else r).find? (fun r => key r = id) =
      (rows.find? fun r => key r = id).map g := by
  induction rows with
  | nil => rfl
  | cons r rest ih =>
    by_cases hr : key r = id
    · simp [hr, hkey]
    · simp [hr, ih]

end HiveClaw
