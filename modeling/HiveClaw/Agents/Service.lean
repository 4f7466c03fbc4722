import Mathlib.Data.List.Sort
import HiveClaw.RustStd
import HiveClaw.Store.OptimisticLock

/-!
# The agent service

`crates/hiveweb/src/services/agent.rs`: the operations that change the table
of agents, and the tree that `list_tree` builds from it.

Each operation is a `Service`; `create` and `update` write in one transaction,
`delete` in one statement that cascades to the association tables.
-/

namespace HiveClaw.Agents

open Service

/-! ## Registries -/

/-- `Capability`, without its description. -/
structure Capability where
  name : String
  isDangerous : Bool
deriving DecidableEq, Repr

-- `CAPABILITIES`
def capabilities : List Capability :=
  [⟨"network.http", true⟩, ⟨"fs.read", false⟩, ⟨"fs.write", false⟩, ⟨"s3.read", false⟩,
   ⟨"s3.write", false⟩, ⟨"db.query", false⟩, ⟨"db.execute", true⟩, ⟨"llm.invoke", false⟩,
   ⟨"secret.get", true⟩, ⟨"time.now", false⟩, ⟨"log.emit", false⟩, ⟨"chat_respond", false⟩,
   ⟨"exec.run", true⟩, ⟨"agent.spawn", false⟩, ⟨"cron.manage", false⟩]

-- `CapabilityRegistry::lookup`
def lookupCapability (name : String) : Option Capability :=
  capabilities.find? fun c => c.name = name

-- `CapabilityRegistry::is_dangerous`
def isDangerous (name : String) : Bool :=
  ((lookupCapability name).map fun c => c.isDangerous).getD false

/-- What the service is deployed with: the names of the loaded LLM presets
and the database server. -/
structure Deployment where
  presets : List String
  mysql : Mysql

-- `MAX_DEPTH`
def maxDepth : Int := 10

-- `MAIN_AGENT_IDENTIFIER`
def mainAgentIdentifier : String := "main"

/-! ## Requests and answers -/

-- `CreateMeta`
structure CreateMeta where
  identifier : String
  name : String
  description : Option String := none
  systemPrompt : String
  parentAgentId : Option Int := none
  modelPreset : Option String := none
  toolIds : List Int := []
  skillIds : List Int := []
  permissions : List String := []
deriving DecidableEq, Repr

-- `UpdateMeta`
structure UpdateMeta where
  name : Option String := none
  description : Option String := none
  systemPrompt : Option String := none
  parentAgentId : Option Int := none
  modelPreset : Option String := none
  toolIds : Option (List Int) := none
  skillIds : Option (List Int) := none
  permissions : Option (List String) := none
  updatedAt : DateTime
deriving DecidableEq, Repr

-- `ToolBrief` and `SkillBrief`
structure Brief where
  id : Int
  identifier : String
  name : String
deriving DecidableEq, Repr

-- `AgentDetail`
structure AgentDetail where
  agent : Agent
  tools : List Brief
  skills : List Brief
  permissions : List String
deriving DecidableEq, Repr

/-! ## Checks -/

-- `check_model_preset`
def checkModelPreset (dep : Deployment) (preset : Option String) : Except AppError Unit :=
  match preset with
  | none => .ok ()
  | some p =>
    if p ∈ dep.presets then .ok ()
    else .error (.modelPresetUnknown s!"模型 preset「{p}」不存在，请重新选择")

/-- `check_dangerous_permissions`: first no dangerous capability without the
Super role, then no unknown capability. -/
def checkDangerousPermissions (permissions : List String) (actorRole : Int) :
    Except AppError Unit :=
  match permissions.find? fun p => isDangerous p && actorRole != 3 with
  | some p => .error (.insufficientPermission s!"授予危险能力「{p}」需 Super 角色")
  | none =>
    match permissions.find? fun p => (lookupCapability p).isNone with
    | some p => .error (.badRequest s!"未知 capability「{p}」")
    | none => .ok ()

/-- The depth of a child of the agent `pid`, from the lookup both `create`
and `update` make. -/
def childDepth (pid : Int) : Service Int := do
  let p ← query "parent lookup" fun s => (s.agent? pid).map Agent.depth
  let parentDepth ← okOr p (.notFound s!"parent agent id={pid} not found")
  failIf (parentDepth + 1 > maxDepth)
    (.agentDepthExceeded s!"Agent 层级已达最大深度 {maxDepth}")
  pure (parentDepth + 1)

/-! ## Association rows -/

/-- `INSERT IGNORE INTO agent_tools`: a duplicate row or an unknown tool is
skipped. -/
def insertTool (agentId : Int) (s : Store) (toolId : Int) : Store :=
  if ⟨agentId, toolId⟩ ∈ s.agentTools ∨ s.tool? toolId = none then s
  else { s with agentTools := s.agentTools ++ [⟨agentId, toolId⟩] }

-- `INSERT IGNORE INTO agent_skills`
def insertSkill (agentId : Int) (s : Store) (skillId : Int) : Store :=
  if ⟨agentId, skillId⟩ ∈ s.agentSkills ∨ s.skills.all (fun k => k.id ≠ skillId) then s
  else { s with agentSkills := s.agentSkills ++ [⟨agentId, skillId⟩] }

-- `INSERT IGNORE INTO agent_permissions`
def insertPermission (mysql : Mysql) (agentId : Int) (s : Store) (capability : String) : Store :=
  if s.agentPermissions.any fun p => p.agentId = agentId &&
      mysql.collationKey p.capability = mysql.collationKey capability then s
  else { s with agentPermissions := s.agentPermissions ++ [⟨agentId, capability⟩] }

/-- The rows of one agent in the three association tables are replaced where
the request gives new ones. -/
def replaceTools (agentId : Int) (toolIds : List Int) (s : Store) : Store :=
  toolIds.foldl (insertTool agentId)
    { s with agentTools := s.agentTools.filter fun r => r.agentId ≠ agentId }

@[inherit_doc replaceTools]
def replaceSkills (agentId : Int) (skillIds : List Int) (s : Store) : Store :=
  skillIds.foldl (insertSkill agentId)
    { s with agentSkills := s.agentSkills.filter fun r => r.agentId ≠ agentId }

@[inherit_doc replaceTools]
def replacePermissions (mysql : Mysql) (agentId : Int) (permissions : List String) (s : Store) :
    Store :=
  permissions.foldl (insertPermission mysql agentId)
    { s with agentPermissions := s.agentPermissions.filter fun r => r.agentId ≠ agentId }

/-! ## Reading -/

-- `fetch_detail`
def fetchDetail (id : Int) : Service AgentDetail := do
  let row ← query "agent fetch" fun s => s.agent? id
  let agent ← okOr row (.notFound s!"agent id={id} not found")
  let tools ← query "tools list" fun s =>
    (s.tools.filter fun t => ⟨id, t.id⟩ ∈ s.agentTools).map fun t =>
      (⟨t.id, t.identifier, t.name⟩ : Brief)
  let skills ← query "skills list" fun s =>
    (s.skills.filter fun k => ⟨id, k.id⟩ ∈ s.agentSkills).map fun k =>
      (⟨k.id, k.identifier, k.name⟩ : Brief)
  let perms ← query "perms list" fun s =>
    (s.agentPermissions.filter fun p => p.agentId = id).map AgentPermission.capability
  pure ⟨agent, tools, skills, perms⟩

/-! ## Writing -/

/-- A row that refers to `parent` satisfies `fk_agents_parent`. -/
def parentStored (s : Store) (parent : Option Int) : Bool :=
  match parent with
  | none => true
  | some pid => (s.agent? pid).isSome

-- `identifier … UNIQUE`
def checkIdentifier (dep : Deployment) (s : Store) (identifier : String) : Except Failure Unit :=
  if s.agents.any fun a =>
      dep.mysql.collationKey a.identifier = dep.mysql.collationKey identifier then
    .error (.error (.conflict s!"Agent identifier 已存在：{identifier}"))
  else .ok ()

/-- The error of the `INSERT`, told apart by its text. -/
def insertFault (i : Input) (identifier : String) : Except Failure Unit :=
  match i.fault "agent insert" with
  | none => .ok ()
  | some e =>
    if RustStr.contains e "Duplicate" then
      .error (.error (.conflict s!"Agent identifier 已存在：{identifier}"))
    else .error (internal "agent insert" e)

/-- The row constraints `fk_agents_parent` and `chk_agents_depth`. -/
def checkRow (what : String) (s : Store) (a : Agent) : Except Failure Unit :=
  if parentStored s a.parentAgentId = false then
    .error (internal what "Cannot add or update a child row: a foreign key constraint fails")
  else if a.depth < 0 ∨ 10 < a.depth then
    .error (internal what "Check constraint 'chk_agents_depth' is violated.")
  else .ok ()

/-- Takes the next value of `id BIGINT PRIMARY KEY AUTO_INCREMENT`. -/
def nextId : Tx Int :=
  modifyGet fun s =>
    (s.agentsAutoIncrement, { s with agentsAutoIncrement := s.agentsAutoIncrement + 1 })

/-- The transaction of `create`. -/
def createTx (dep : Deployment) (req : CreateMeta) (depth : Int) (i : Input) : Tx Int := do
  Tx.check (i.check "tx begin")
  -- `AUTO_INCREMENT` moves on even if the row is refused
  let id ← nextId
  let s ← get
  Tx.check (checkIdentifier dep s req.identifier)
  Tx.check (insertFault i req.identifier)
  let row : Agent :=
    { id := id, identifier := req.identifier, name := req.name,
      description := req.description, systemPrompt := req.systemPrompt,
      parentAgentId := req.parentAgentId, depth := depth, modelPreset := req.modelPreset,
      createdAt := i.now.toSecond, updatedAt := i.now.toSecond }
  Tx.check (checkRow "agent insert" s row)
  modify fun s => { s with agents := s.agents ++ [row] }
  Tx.check (i.check "agent_tools")
  modify fun s => req.toolIds.foldl (insertTool id) s
  Tx.check (i.check "agent_skills")
  modify fun s => req.skillIds.foldl (insertSkill id) s
  Tx.check (i.check "agent_permissions")
  modify fun s => req.permissions.foldl (insertPermission dep.mysql id) s
  Tx.check (i.check "tx commit")
  pure id

def createDepth (parent : Option Int) : Service Int :=
  match parent with
  | some pid => childDepth pid
  | none => pure 0

-- `create`
def create (dep : Deployment) (actorRole : Int) (req : CreateMeta) : Service AgentDetail := do
  lift (checkModelPreset dep req.modelPreset)
  lift (checkDangerousPermissions req.permissions actorRole)
  let depth ← createDepth req.parentAgentId
  let id ← transaction "agent insert" (createTx dep req depth)
  -- the parent's list of children has changed
  onSome req.parentAgentId invalidateContentCache
  fetchDetail id

/-- The row that `UPDATE agents SET … COALESCE(?, …)` makes of `a`, its time
stamp apart. -/
def applyUpdate (req : UpdateMeta) (newDepth : Option Int) (a : Agent) : Agent :=
  { a with
    name := req.name.getD a.name
    description := req.description.or a.description
    systemPrompt := req.systemPrompt.getD a.systemPrompt
    parentAgentId := req.parentAgentId.or a.parentAgentId
    depth := newDepth.getD a.depth
    modelPreset := req.modelPreset.or a.modelPreset }

/-- `updated_at … ON UPDATE CURRENT_TIMESTAMP`: the time stamp moves only if
some column changes. -/
def touch (now : DateTime) (old new : Agent) : Agent :=
  if new = old then old else { new with updatedAt := now.toSecond }

/-- The table after `UPDATE agents SET … WHERE id = ?`. -/
def updatedRows (id : Int) (req : UpdateMeta) (newDepth : Option Int) (now : DateTime)
    (s : Store) : List Agent :=
  s.agents.map fun a => if a.id = id then touch now a (applyUpdate req newDepth a) else a

/-- The transaction of `update`. -/
def updateTx (dep : Deployment) (id : Int) (req : UpdateMeta) (newDepth : Option Int)
    (i : Input) : Tx Unit := do
  Tx.check (i.check "tx begin")
  Tx.check (i.check "agent update")
  let s ← get
  Tx.check (((updatedRows id req newDepth i.now s).filter fun a => a.id = id).forM
    (checkRow "agent update" s))
  modify fun s => { s with agents := updatedRows id req newDepth i.now s }
  Tx.onSome req.toolIds fun toolIds => do
    Tx.check (i.check "agent_tools clear")
    Tx.check (i.check "agent_tools insert")
    modify (replaceTools id toolIds)
  Tx.onSome req.skillIds fun skillIds => do
    Tx.check (i.check "agent_skills clear")
    Tx.check (i.check "agent_skills insert")
    modify (replaceSkills id skillIds)
  Tx.onSome req.permissions fun permissions => do
    Tx.check (i.check "agent_permissions clear")
    Tx.check (i.check "agent_permissions insert")
    modify (replacePermissions dep.mysql id permissions)
  Tx.check (i.check "tx commit")

/-- The depth an update gives its agent: recomputed only if the request names
another parent. -/
def updateDepth (existing : Agent) (req : UpdateMeta) : Service (Option Int) :=
  match req.parentAgentId with
  | some pid =>
    if some pid ≠ existing.parentAgentId then
      if pid = existing.id then fail (.badRequest "parent_agent_id 不能指向自身")
      else do
        let depth ← childDepth pid
        pure (some depth)
    else pure none
  | none => pure none

-- `update`
def update (dep : Deployment) (actorRole id : Int) (req : UpdateMeta) :
    Service AgentDetail := do
  let row ← query "agent fetch" fun s => s.agent? id
  let existing ← okOr row (.notFound s!"agent id={id} not found")
  failIf (existing.identifier = mainAgentIdentifier ∧ actorRole ≠ 3)
    (.insufficientPermission "入口 Agent「main」仅 Super 可修改")
  lift (checkModelPreset dep req.modelPreset)
  onSome req.permissions fun permissions =>
    lift (checkDangerousPermissions permissions actorRole)
  let newDepth ← updateDepth existing req
  OptimisticLock.checkAndBump "agents" id (fun s => (s.agent? id).map Agent.updatedAt)
    req.updatedAt
  transaction "agent update" (updateTx dep id req newDepth)
  invalidateContentCache id
  -- a new parent: both lists of children have changed
  if req.parentAgentId.isSome ∧ req.parentAgentId ≠ existing.parentAgentId then do
    onSome existing.parentAgentId invalidateContentCache
    onSome req.parentAgentId invalidateContentCache
    fetchDetail id
  else fetchDetail id

/-- `DELETE FROM agents WHERE id = ?` with its cascades; a row that another
one refers to is kept back by the foreign key. -/
def deleteRow (id : Int) (i : Input) (s : Store) : Except Failure Unit × Store :=
  match i.check "agent delete" with
  | .error e => (.error e, s)
  | .ok () =>
    if s.agents.any fun a => a.parentAgentId = some id then
      (.error (internal "agent delete"
        "Cannot delete or update a parent row: a foreign key constraint fails"), s)
    else
      (.ok (), { s with
        agents := s.agents.filter fun a => a.id ≠ id
        agentTools := s.agentTools.filter fun r => r.agentId ≠ id
        agentSkills := s.agentSkills.filter fun r => r.agentId ≠ id
        agentPermissions := s.agentPermissions.filter fun r => r.agentId ≠ id
        agentHooks := s.agentHooks.filter fun h => h.agentId ≠ id })

-- `delete`
def delete (id : Int) : Service Unit := do
  let row ← query "agent fetch" fun s => s.agent? id
  let existing ← okOr row (.notFound s!"agent id={id} not found")
  failIf (existing.identifier = mainAgentIdentifier)
    (.cannotDeleteMainAgent "入口 Agent「main」不可删除")
  let cnt ← query "agent child count" fun s =>
    (s.agents.filter fun a => a.parentAgentId = some id).length
  failIf (cnt > 0) (.resourceInUse s!"agent 有 {cnt} 个子 Agent，无法删除")
  execute "agent delete" (deleteRow id)
  invalidateContentCache id
  onSome existing.parentAgentId invalidateContentCache

/-! ## The tree -/

-- `AgentTreeNode`
inductive AgentTreeNode where
  | node (agent : Agent) (children : List AgentTreeNode)

/-- The map of `list_tree` from a parent to its children. -/
abbrev ByParent := HashMap (Option Int) (List Agent)

-- `by_parent.entry(r.parent_agent_id).or_default().push(r)`
def ByParent.push (map : ByParent) (r : Agent) : ByParent :=
  map.insert r.parentAgentId ((map.lookup r.parentAgentId).getD [] ++ [r])

/-- The loop of `build` over the children of one agent; `rec` is `build`
itself. -/
def buildRows (rec : Option Int → ByParent → Option (List AgentTreeNode × ByParent)) :
    List Agent → ByParent → Option (List AgentTreeNode × ByParent)
  | [], map => some ([], map)
  | r :: rs, map => do
    let (children, map) ← rec (some r.id) map
    let (out, map) ← buildRows rec rs map
    pure (.node r children :: out, map)

/-- `build`; every call that recurses removes a key, so the number of keys
bounds the depth of the recursion and `none` (no fuel left) does not occur
from `listTree`. -/
def build : Nat → Option Int → ByParent → Option (List AgentTreeNode × ByParent)
  | 0, _, _ => none
  | fuel + 1, parent, map =>
    match map.lookup parent with
    | none => some ([], map)
    | some rs => buildRows (build fuel) rs (map.erase parent)

/-- `ORDER BY parent_agent_id, name`, `NULL` first. -/
def rowLe (mysql : Mysql) (a b : Agent) : Bool :=
  match a.parentAgentId, b.parentAgentId with
  | none, some _ => true
  | some _, none => false
  | none, none => mysql.nameLe a.name b.name
  | some p, some q => p < q || (p = q && mysql.nameLe a.name b.name)

def treeOf (rows : List Agent) : Option (List AgentTreeNode) :=
  let byParent := rows.foldl ByParent.push ∅
  (build (byParent.entries.length + 1) none byParent).map Prod.fst

-- `list_tree`
def listTree (mysql : Mysql) : Service (List AgentTreeNode) := do
  let rows ← query "agent list" fun s =>
    s.agents.insertionSort fun a b => rowLe mysql a b
  match treeOf rows with
  | some tree => pure tree
  | none => throw (.panic "stack overflow")

end HiveClaw.Agents
