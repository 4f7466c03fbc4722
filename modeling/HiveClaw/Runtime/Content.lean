import HiveClaw.Runtime.Env

/-!
# Loading an agent

`fetch_content` of `crates/hiveweb/src/services/agent.rs`: the runtime view of
an agent comes from Redis, or is put together from the database. Only the
agent's own row is required; a query for one of its parts that fails leaves the
part empty.
-/

namespace HiveClaw.Runtime

open Lib

-- `….fetch_all(pool).await.unwrap_or_default()`
def queryOrEmpty {α : Type} (read : Moment → List α) : Rt (List α) := do
  let rows ← Rt.query read
  match rows with
  | .ok rows => pure rows
  | .error _ => pure []

-- the strings of a JSON column that holds an array
def capabilityList (caps : Option Json) : List String :=
  ((caps.bind Json.asArray).map Json.strings).getD []

-- a row of the `tools t LEFT JOIN functions f` of the source
def toolRef (s : Store) (t : Tool) : ToolRef :=
  let f := t.functionId.bind s.function?
  { id := t.id, identifier := t.identifier, name := t.name, description := t.description
    kind := t.kind, functionId := t.functionId
    functionIdentifier := f.map Function.identifier
    workflowId := t.workflowId, inputSchema := t.inputSchema
    pluginId := f.bind Function.pluginId
    pluginExport := f.bind Function.pluginExport
    isBuiltinFunction := t.kind = 1 && (f.bind Function.pluginId).isNone
    isMetaTool := t.kind = 1 && t.functionId.isNone
    -- `COALESCE(t.required_capabilities, f.required_capabilities)`
    requiredCapabilities :=
      capabilityList (t.requiredCapabilities.or (f.bind Function.requiredCapabilities)) }

/-- The tools of an agent and those that every agent has. -/
def toolRows (m : Moment) (agentId : Int) : List ToolRef :=
  ((m.store.tools.filter fun t =>
      ⟨agentId, t.id⟩ ∈ m.store.agentTools || t.isAlways).insertionSort
    fun a b => m.rowRank a.id ≤ m.rowRank b.id).map (toolRef m.store)

def childRows (m : Moment) (agentId : Int) : List ChildAgent :=
  ((m.store.agents.filter fun a => a.parentAgentId = some agentId).insertionSort
    fun a b => m.rowRank a.id ≤ m.rowRank b.id).map fun a => ⟨a.id, a.identifier, a.description⟩

-- `SELECT capability FROM agent_permissions WHERE agent_id = ?`
def permissionRows (m : Moment) (agentId : Int) : List String :=
  (m.store.agentPermissions.filter fun p => p.agentId = agentId).map AgentPermission.capability

-- `map.entry(hook.trigger_point).or_default().push(hook)`
def addHook (hooks : List (String × List AgentHook)) (h : AgentHook) :
    List (String × List AgentHook) :=
  match hooks with
  | [] => [(h.triggerPoint, [h])]
  | (point, list) :: rest =>
    if point = h.triggerPoint then (point, list ++ [h]) :: rest
    else (point, list) :: addHook rest h

-- `load_hooks_for_agent`
def hookRows (m : Moment) (agentId : Int) : List AgentHook :=
  ((m.store.agentHooks.filter fun h => h.agentId = agentId && h.enabled).insertionSort
    fun a b => m.rowRank a.id ≤ m.rowRank b.id).insertionSort fun a b => a.sortOrder ≤ b.sortOrder

-- the skills of an agent, in any order
def skillRows (m : Moment) (agentId : Int) : List String :=
  ((m.store.skills.filter fun k => ⟨agentId, k.id⟩ ∈ m.store.agentSkills).insertionSort
    fun a b => m.rowRank a.id ≤ m.rowRank b.id).map Skill.content

-- `fetch_content_from_db`
def fetchContentFromDb (agentId : Int) : Rt (Except String AgentContent) := do
  let row ← Rt.query fun m => m.store.agent? agentId
  match row with
  | .error e => pure (.error s!"agent fetch: {e}")
  | .ok none => pure (.error s!"agent id={agentId} not found")
  | .ok (some a) => do
    let skills ← queryOrEmpty fun m => skillRows m agentId
    let tools ← queryOrEmpty fun m => toolRows m agentId
    let permissions ← queryOrEmpty fun m => permissionRows m agentId
    let children ← queryOrEmpty fun m => childRows m agentId
    let hooks ← queryOrEmpty fun m => hookRows m agentId
    pure (.ok
      { agentId := agentId, identifier := a.identifier
        systemPrompt := skills.foldl (fun prompt md => prompt ++ "\n\n" ++ md) a.systemPrompt
        modelPreset := a.modelPreset, tools := tools, permissions := permissions
        children := children, hooks := hooks.foldl addHook [] })

/-- `fetch_content`; writing the cache has no effect on the session. -/
def fetchContent (agentId : Int) : Rt (Except String AgentContent) := do
  let cached ← Rt.query fun m => m.store.contentCache.lookup agentId
  match cached with
  | .ok (some c) => pure (.ok c)
  | _ => fetchContentFromDb agentId

end HiveClaw.Runtime
