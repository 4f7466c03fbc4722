import HiveClaw.RustStd
import HiveClaw.Agents.Service

/-!
# The agent hook service

`create_hook`, `update_hook` and `delete_hook` of
`crates/hiveweb/src/services/agent_hook.rs`. An update reads the whole row, merges
the given fields into it and writes every column back. A failing lock check is
answered with the conflict error whatever the reason.

`str::to_lowercase` is the argument `lower`.
-/

namespace HiveClaw.Hooks

open Service Lib

-- `UpdateHookRequest`
structure UpdateHookRequest where
  name : Option String := none
  description : Option (Option String) := none
  triggerPoint : Option String := none
  actionType : Option String := none
  actionParams : Option Json := none
  enabled : Option Bool := none
  sortOrder : Option Int := none
  blockingMode : Option Bool := none
  timeoutMs : Option Int := none
  updatedAt : DateTime

-- `CreateHookRequest`
structure CreateHookRequest where
  name : String
  description : Option String := none
  triggerPoint : String
  actionType : String
  actionParams : Json
  enabled : Bool := true
  sortOrder : Int := 0
  blockingMode : Bool := false
  timeoutMs : Int := 10000

/-! ## Checks -/

/-- `check_hook_permission`: the hooks of the main agent are for Super only,
those of the others for System and above. -/
def checkHookPermission (agentId actorRole : Int) : Service Unit := do
  let row ← query "agent lookup" fun s => (s.agent? agentId).map Agent.identifier
  let ident ← okOr row (.notFound "Agent 不存在")
  failIf (ident = Agents.mainAgentIdentifier ∧ actorRole ≠ 3)
    (.insufficientPermission "入口 Agent「main」的 Hook 配置仅 Super 可操作")
  failIf (actorRole < 2) (.insufficientPermission "Hook 配置需 System 及以上角色")

/-- The patterns of private addresses `validate_webhook_url` looks for. -/
def blockedPatterns : List String :=
  ["127.0.0.1", "localhost", "10.", "192.168.", "172.16.", "172.17.", "172.18.", "172.19.",
   "172.20.", "172.21.", "172.22.", "172.23.", "172.24.", "172.25.", "172.26.", "172.27.",
   "172.28.", "172.29.", "172.30.", "172.31.", "169.254.", "0.0.0.0",
   "metadata.google.internal", "169.254.169.254"]

-- `validate_webhook_url`
def validateWebhookUrl (lower : String → String) (url : String) : Except AppError Unit :=
  if url = "" then .error (.hookWebhookUrlInvalid "Webhook URL 不能为空")
  else if ¬ "https://".toList.IsPrefix url.toList then
    .error (.hookWebhookUrlInvalid "Webhook URL 仅支持 HTTPS 协议")
  else
    match blockedPatterns.find? fun pat => RustStr.contains (lower url) pat with
    | some pat => .error (.hookWebhookUrlInvalid s!"Webhook URL 不允许指向内网地址: {pat}")
    | none => .ok ()

/-- The text has a carriage return or a line feed. -/
def hasLineBreak (s : String) : Bool := s.toList.any fun c => c = '\r' || c = '\n'

/-- The regular expression `^[a-zA-Z0-9_-]+$`. -/
def isHeaderName (name : String) : Bool :=
  name ≠ "" && name.toList.all fun c => c.isAlphanum || c = '_' || c = '-'

/-- One header of `validate_webhook_headers`. -/
def checkHeader (header : String × Json) : Except AppError Unit :=
  let value := header.2.asStr.getD ""
  if hasLineBreak header.1 || hasLineBreak value then
    .error (.hookWebhookUrlInvalid
      ("HTTP header 不允许包含回车或换行符: header '" ++ header.1 ++ "'"))
  else if isHeaderName header.1 then .ok ()
  else .error (.hookWebhookUrlInvalid
    ("HTTP header 名称仅允许 [a-zA-Z0-9_-] 字符: '" ++ header.1 ++ "'"))

-- `validate_webhook_headers`
def validateWebhookHeaders (params : Json) : Except AppError Unit :=
  match (params.get "headers").bind Json.asObject with
  | some headers => headers.forM checkHeader
  | none => .ok ()

/-- `validate_hook_action`: the reference or URL of a new action type; without
new parameters nothing is checked. -/
def validateHookAction (lower : String → String) (actionType : String)
    (params : Option Json) : Service Unit :=
  onSome params fun p =>
    if actionType = "call_function" then
      onSome ((p.get "function_id").bind Json.asI64) fun fid => do
        let found ← query "function lookup" fun s => s.function? fid
        failIf (found = none) (.hookReferenceInvalid "Hook 引用的 Function 不存在或已删除")
    else if actionType = "call_workflow" then
      onSome ((p.get "workflow_id").bind Json.asI64) fun wid => do
        let found ← query "workflow lookup" fun s => s.workflow? wid
        failIf (found = none) (.hookReferenceInvalid "Hook 引用的 Workflow 不存在或已删除")
    else if actionType = "http_webhook" then
      lift (validateWebhookUrl lower ((p.getStr "webhook_url").getD ""))
    else pure ()

/-- The lock check with every error turned into the conflict error. -/
def checkLock (hookId : Int) (clientUpdatedAt : DateTime) : Service Unit :=
  ExceptT.mk <| Prog.read (.lockCheck "agent_hooks") fun i s =>
    match OptimisticLock.checkRead "agent_hooks" hookId
        (fun s => (s.agentHook? hookId).map AgentHook.updatedAt) clientUpdatedAt i s with
    | .ok () => .ok ()
    | .error _ =>
      .error (.error (.optimisticLockConflict "Hook 配置已被他人修改，请刷新后重试"))

/-- The per-trigger limit, counted again if the trigger point changes. -/
def checkTriggerLimit (mysql : Mysql) (agentId hookId : Int) (existing : AgentHook)
    (req : UpdateHookRequest) : Service Unit :=
  if req.triggerPoint.isSome ∧ req.triggerPoint ≠ some existing.triggerPoint then do
    let triggerPoint := req.triggerPoint.getD existing.triggerPoint
    let count ← query "hook count" fun s =>
      (s.agentHooks.filter fun h => h.agentId = agentId ∧ h.id ≠ hookId ∧
        mysql.collationKey h.triggerPoint = mysql.collationKey triggerPoint).length
    failIf (count ≥ 5) (.hookTriggerLimitExceeded "该触发点最多配置 5 个 Hook")
  else pure ()

/-! ## Writing -/

/-- The columns the `UPDATE` writes: those of the request, else those read
before. -/
def merge (mysql : Mysql) (existing : AgentHook) (req : UpdateHookRequest) (h : AgentHook) :
    AgentHook :=
  { h with
    name := req.name.getD existing.name
    description := req.description.getD existing.description
    triggerPoint := req.triggerPoint.getD existing.triggerPoint
    actionType := req.actionType.getD existing.actionType
    actionParams := mysql.jsonNormal (req.actionParams.getD existing.actionParams)
    enabled := req.enabled.getD existing.enabled
    sortOrder := req.sortOrder.getD existing.sortOrder
    blockingMode := req.blockingMode.getD existing.blockingMode
    timeoutMs := req.timeoutMs.getD existing.timeoutMs }

-- `updated_at DATETIME(6) … ON UPDATE CURRENT_TIMESTAMP(6)`
def touch (now : DateTime) (old new : AgentHook) : AgentHook :=
  if new = old then old else { new with updatedAt := now }

/-- The values of `chk_agent_hooks_trigger_point`. -/
def triggerPoints : List String :=
  ["before_agent_start", "after_agent_end", "on_agent_error", "before_tool_call",
   "after_tool_call", "before_llm_call", "after_llm_call"]

/-- The values of `chk_agent_hooks_action_type`. -/
def actionTypes : List String := ["call_function", "call_workflow", "http_webhook"]

/-- The three checks on a row. -/
def checkValues (mysql : Mysql) (h : AgentHook) (what : String) : Except Failure Unit :=
  let among (x : String) (xs : List String) : Bool :=
    xs.any fun y => mysql.collationKey y = mysql.collationKey x
  if among h.triggerPoint triggerPoints = false then
    .error (internal what "Check constraint 'chk_agent_hooks_trigger_point' is violated.")
  else if among h.actionType actionTypes = false then
    .error (internal what "Check constraint 'chk_agent_hooks_action_type' is violated.")
  else if h.timeoutMs < 1000 then
    .error (internal what "Check constraint 'chk_agent_hooks_timeout_ms' is violated.")
  else .ok ()

/-- The constraints on a row: the checks and the unique index `idx_agent_hooks_seq`. -/
def checkRow (mysql : Mysql) (s : Store) (h : AgentHook) (what : String) : Except Failure Unit :=
  match checkValues mysql h what with
  | .error e => .error e
  | .ok () =>
    if s.agentHooks.any fun o => o.id ≠ h.id && o.agentId = h.agentId &&
        o.sortOrder = h.sortOrder &&
        mysql.collationKey o.triggerPoint = mysql.collationKey h.triggerPoint then
      .error (internal what "Duplicate entry for key 'idx_agent_hooks_seq'")
    else .ok ()

/-- `UPDATE agent_hooks SET … WHERE id = ?`. The driver counts matched rows,
so a row that already has the values is no missing row. -/
def updateRow (mysql : Mysql) (hookId : Int) (existing : AgentHook) (req : UpdateHookRequest)
    (i : Input) (s : Store) : Except Failure Unit × Store :=
  match i.check "hook update", s.agentHook? hookId with
  | .error e, _ => (.error e, s)
  | .ok (), none => (.error (.error (.hookNotFound "Hook 配置不存在")), s)
  | .ok (), some old =>
    match checkRow mysql s (merge mysql existing req old) "hook update" with
    | .error e => (.error e, s)
    | .ok () =>
      (.ok (), { s with
        agentHooks := s.agentHooks.map fun h =>
          if h.id = hookId then touch i.now h (merge mysql existing req h) else h })

-- `update_hook`
def updateHook (mysql : Mysql) (lower : String → String) (agentId hookId actorRole : Int)
    (req : UpdateHookRequest) : Service AgentHook := do
  checkHookPermission agentId actorRole
  let row ← query "hook fetch" fun s => s.agentHook? hookId
  let existing ← okOr row (.hookNotFound "Hook 配置不存在")
  failIf (existing.agentId ≠ agentId) (.hookNotFound "Hook 配置不存在")
  checkLock hookId req.updatedAt
  let newActionType := req.actionType.filter fun t => t ≠ existing.actionType
  onSome newActionType fun t => validateHookAction lower t req.actionParams
  checkTriggerLimit mysql agentId hookId existing req
  execute "hook update" (updateRow mysql hookId existing req)
  let updated ← query "hook fetch after update" fun s => s.agentHook? hookId
  okOr updated (.internal ("hook fetch after update: no rows returned by a query that " ++
    "expected to return at least one row"))

/-- The actions `create_hook` accepts: it looks at them as `validate_hook_action`
does, and at the headers of a webhook. -/
def validateNewAction (lower : String → String) (actionType : String) (params : Json) :
    Service Unit :=
  if actionType = "call_function" ∨ actionType = "call_workflow" then
    validateHookAction lower actionType (some params)
  else if actionType = "http_webhook" then do
    validateHookAction lower actionType (some params)
    lift (validateWebhookHeaders params)
  else fail (.badRequest ("不支持的动作类型: " ++ actionType))

/-- The row `create_hook` inserts. -/
def newRow (mysql : Mysql) (agentId : Int) (req : CreateHookRequest) (id : Int) (now : DateTime) :
    AgentHook :=
  { id := id, agentId := agentId, name := req.name, description := req.description
    triggerPoint := req.triggerPoint, actionType := req.actionType
    actionParams := mysql.jsonNormal req.actionParams, enabled := req.enabled
    sortOrder := req.sortOrder, blockingMode := req.blockingMode, timeoutMs := req.timeoutMs
    createdAt := now, updatedAt := now }

/-- `INSERT INTO agent_hooks …`; the agent has to be there (`fk_agent_hooks_agent`). A row that
passes the checks takes its id, also if an index or a key refuses it then. -/
def insertRow (mysql : Mysql) (agentId : Int) (req : CreateHookRequest) (i : Input) (s : Store) :
    Except Failure Int × Store :=
  let row := newRow mysql agentId req s.agentHooksAutoIncrement i.now
  let taken := { s with agentHooksAutoIncrement := s.agentHooksAutoIncrement + 1 }
  match i.check "hook insert", checkValues mysql row "hook insert" with
  | .error e, _ => (.error e, s)
  | .ok (), .error e => (.error e, s)
  | .ok (), .ok () =>
    match checkRow mysql s row "hook insert", s.agent? agentId with
    | .error e, _ => (.error e, taken)
    | .ok (), none =>
      (.error (internal "hook insert" ("Cannot add or update a child row: a foreign key " ++
        "constraint fails (fk_agent_hooks_agent)")), taken)
    | .ok (), some _ => (.ok row.id, { taken with agentHooks := s.agentHooks ++ [row] })

-- `create_hook`
def createHook (mysql : Mysql) (lower : String → String) (agentId actorRole : Int)
    (req : CreateHookRequest) : Service AgentHook := do
  checkHookPermission agentId actorRole
  let count ← query "hook count" fun s =>
    (s.agentHooks.filter fun h => h.agentId = agentId ∧
      mysql.collationKey h.triggerPoint = mysql.collationKey req.triggerPoint).length
  failIf (count ≥ 5) (.hookTriggerLimitExceeded "该触发点最多配置 5 个 Hook")
  validateNewAction lower req.actionType req.actionParams
  let id ← execute "hook insert" (insertRow mysql agentId req)
  let created ← query "hook fetch after insert" fun s => s.agentHook? id
  okOr created (.internal ("hook fetch after insert: no rows returned by a query that " ++
    "expected to return at least one row"))

-- `DELETE FROM agent_hooks WHERE id = ? AND agent_id = ?`
def deleteRow (agentId hookId : Int) (i : Input) (s : Store) : Except Failure Unit × Store :=
  match i.check "hook delete" with
  | .error e => (.error e, s)
  | .ok () =>
    if s.agentHooks.any fun h => h.id = hookId && h.agentId = agentId then
      (.ok (), { s with
        agentHooks := s.agentHooks.filter fun h => !(h.id = hookId && h.agentId = agentId) })
    else (.error (.error (.hookNotFound "Hook 配置不存在")), s)

-- `delete_hook`
def deleteHook (agentId hookId actorRole : Int) : Service Unit := do
  checkHookPermission agentId actorRole
  execute "hook delete" (deleteRow agentId hookId)

/-! ## Requests -/

/-- A call of one of the three endpoints that write hooks. -/
inductive HookRequest where
  | create (agentId actorRole : Int) (req : CreateHookRequest)
  | update (agentId hookId actorRole : Int) (req : UpdateHookRequest)
  | delete (agentId hookId actorRole : Int)

/-- The service a request is routed to. -/
def handle (mysql : Mysql) (lower : String → String) :
    HookRequest → Service (Option AgentHook)
  | .create agentId actorRole req => some <$> createHook mysql lower agentId actorRole req
  | .update agentId hookId actorRole req =>
    some <$> updateHook mysql lower agentId hookId actorRole req
  | .delete agentId hookId actorRole => do
    deleteHook agentId hookId actorRole
    pure none

end HiveClaw.Hooks
