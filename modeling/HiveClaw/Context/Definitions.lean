import HiveClaw.Json
import HiveClaw.RustStd

/-!
# AgentContext — the state carrier of one agent execution

Model of `crates/agent/src/context`: the categories of records, the dynamic
extensions, the metadata, the audit log and the lifecycle guard that closes
the context to writes once an execution has ended.

The source keeps each part behind its own `RwLock`; an operation takes the
lock for its whole read-modify-write, so each operation is one function on
the context value here. Locks are poisoned only by a panic of a writer, and
no writer panics, so the `… lock poisoned` errors have no counterpart. `new`
inserts all nine categories and nothing removes one, so the map from
categories to stores is total and `CategoryNotFound` cannot occur.

Time stamps are taken from the argument `now`, and `str::to_lowercase`, whose
Unicode tables are not part of the repository, is the argument `lower`.
-/

namespace HiveClaw

namespace Context

/-! ## Records and their categories -/

-- `Category`
inductive Category where
  | entities
  | intentions
  | toolResults
  | queryResults
  | workflowResults
  | reasoningResults
  | extensions
  | stateChanges
  | subagentResults
deriving DecidableEq, Repr

-- `RecordEntry`
structure RecordEntry where
  key : String
  value : Json
  source : String
  timestamp : Int
  iteration : Nat

-- `ToolCallStatus`
inductive ToolCallStatus where
  | success
  | failure
  | timeout
deriving DecidableEq, Repr

/-- `CategoryStore`: the records of one category with its soft limit. -/
structure CategoryStore where
  records : List RecordEntry
  softLimit : Nat
  warningEmitted : Bool

-- `CategoryStore::new`
def CategoryStore.new (softLimit : Nat) : CategoryStore :=
  { records := [], softLimit := softLimit, warningEmitted := false }

/-! ## Response content -/

-- `ExtensionType`
inductive ExtensionType where
  | card
  | image
  | suggestion
  | link
  | button
  | table
  | chart
  | objectRef
  | usage
deriving DecidableEq, Repr

-- `Display for ExtensionType`
def ExtensionType.toString : ExtensionType → String
  | .card => "card"
  | .image => "image"
  | .suggestion => "suggestion"
  | .link => "link"
  | .button => "button"
  | .table => "table"
  | .chart => "chart"
  | .objectRef => "object_ref"
  | .usage => "usage"

-- `ExtensionContent`
structure ExtensionContent where
  id : String
  contentType : ExtensionType
  reply : Option Json
  data : Json
  renderHints : List (String × String)

-- `ExtensionContent::new`
def ExtensionContent.new (id : String) (contentType : ExtensionType) (reply : Option Json)
    (data : Json) : ExtensionContent :=
  { id := id, contentType := contentType, reply := reply, data := data, renderHints := [] }

-- `ObjectRef`
structure ObjectRef where
  objectType : String
  objectId : String
  displayName : String
  metadata : List (String × String)

-- `ResponsePayload`
structure ResponsePayload where
  text : String
  extensions : List ExtensionContent
  objectRefs : List ObjectRef
  suggestions : List String

-- `ResponsePayload::new`
def ResponsePayload.new (text : String) : ResponsePayload :=
  { text := text, extensions := [], objectRefs := [], suggestions := [] }

/-! ## Audit records -/

-- `SkillExecutionStatus`
inductive SkillExecutionStatus where
  | success
  | failure
  | interrupted
  | timeout
deriving DecidableEq, Repr

/-- `AuditRecord` with the fields of its four record types. -/
inductive AuditRecord where
  | toolCall (toolName : String) (arguments : Json) (result : Option Json)
      (status : ToolCallStatus) (startedAt : Int) (completedAt : Option Int)
  | skillExecution (skillName : String) (input : Json) (output : Option Json)
      (status : SkillExecutionStatus) (startedAt : Int) (completedAt : Option Int)
  | stateChange (category : Category) (key : String) (oldValue : Option Json)
      (newValue : Json) (source : String) (iteration : Nat) (changedAt : Int)
  | delegation (subagentId delegationChain : String) (input : Json) (output : Option Json)
      (success : Bool) (startedAt : Int) (completedAt : Option Int)

/-! ## Lifecycle and errors -/

-- `LifecycleState`
inductive LifecycleState where
  | active
  | completed
  | terminated
  | merging
deriving DecidableEq, Repr

-- `LifecycleState::is_valid_transition`
def LifecycleState.isValidTransition : LifecycleState → LifecycleState → Bool
  | .active, .completed => true
  | .active, .terminated => true
  | .active, .merging => true
  | .merging, .active => true
  | .merging, .completed => true
  | _, _ => false

-- `ContextError`
inductive ContextError where
  | categoryNotFound (category : Category)
  | recordNotFound (category : Category) (key : String)
  | blacklistedCategoryWrite (category : Category) (subagentId : String)
  | illegalStateTransition (source target : LifecycleState)
  | mergeFailed (message : String)
  | rejectedSensitiveData (fieldName reason : String)
  | invalidBlacklist (category : Category) (reason : String)
  | schemaVersionMismatch (expected found : String)
deriving DecidableEq, Repr

/-! ## The context -/

-- `UserInput`
structure UserInput where
  rawText : String
  sessionId : Option String
  messageId : Option String
  timestamp : Int
  metadata : List (String × String)

-- `ContextConfig`
structure ContextConfig where
  softLimit : Nat
  maxPromptTokens : Nat
  tokenEstimationMode : String
  debugMode : Bool
  schemaVersion : String

-- `ContextConfig::default`
def ContextConfig.default : ContextConfig :=
  { softLimit := 100, maxPromptTokens := 8000, tokenEstimationMode := "chars",
    debugMode := false, schemaVersion := "v1" }

-- `AgentContext`
structure AgentContext where
  contextId : String
  userInput : UserInput
  categories : Category → CategoryStore
  extensions : HashMap String ExtensionContent
  auditLog : List AuditRecord
  responsePayload : Option ResponsePayload
  lifecycleState : LifecycleState
  createdAt : Int
  metadata : HashMap String String
  messages : List Json
  config : ContextConfig
  blacklistedCategories : Option (List Category)
  subagentId : Option String
  delegationChain : String

namespace AgentContext

-- `AgentContext::new`
def new (now : Int) (contextId : String) (userInput : UserInput) (config : ContextConfig) :
    AgentContext :=
  { contextId := contextId
    userInput := userInput
    categories := fun _ => CategoryStore.new config.softLimit
    extensions := ∅
    auditLog := []
    responsePayload := none
    lifecycleState := .active
    createdAt := now
    metadata := ∅
    messages := []
    config := config
    blacklistedCategories := none
    subagentId := none
    delegationChain := "" }

/-! ### Reads -/

-- `get_category`
def getCategory (ctx : AgentContext) (category : Category) : List RecordEntry :=
  (ctx.categories category).records

-- `get_record`
def getRecord (ctx : AgentContext) (category : Category) (key : String) : Option RecordEntry :=
  (ctx.getCategory category).find? fun r => r.key = key

/-- `get_extensions`: the values of the map, in the order of its entries. -/
def getExtensions (ctx : AgentContext) : List ExtensionContent :=
  ctx.extensions.entries.map fun e => e.2

-- `get_metadata`
def getMetadata (ctx : AgentContext) (key : String) : Option String :=
  ctx.metadata.lookup key

/-! ### The guards of a write -/

-- `SENSITIVE_FIELD_PATTERNS`
def sensitiveFieldPatterns : List String :=
  ["api_key", "token", "password", "secret", "credential", "authorization", "private_key"]

-- `is_sensitive_key`
def isSensitiveKey (lower : String → String) (key : String) : Bool :=
  sensitiveFieldPatterns.any fun p => RustStr.contains (lower key) p

/-- `is_sensitive_value`: looks at the top-level keys of an object only. -/
def isSensitiveValue (lower : String → String) : Json → Bool
  | .obj fields => fields.any fun f => isSensitiveKey lower f.1
  | _ => false

-- `check_write_allowed`
def checkWriteAllowed (ctx : AgentContext) : Except ContextError Unit :=
  match ctx.lifecycleState with
  | .active | .merging => .ok ()
  | .completed => .error (.illegalStateTransition .completed .active)
  | .terminated => .error (.illegalStateTransition .terminated .active)

-- `check_blacklist`
def checkBlacklist (ctx : AgentContext) (category : Category) : Except ContextError Unit :=
  match ctx.blacklistedCategories, ctx.subagentId with
  | some blacklist, some subagentId =>
    if category ∈ blacklist then .error (.blacklistedCategoryWrite category subagentId)
    else .ok ()
  | _, _ => .ok ()

-- `check_sensitive_data`
def checkSensitiveData (lower : String → String) (key : String) (value : Json) :
    Except ContextError Unit :=
  if isSensitiveKey lower key then
    .error (.rejectedSensitiveData key "Key matches sensitive field pattern")
  else if isSensitiveValue lower value then
    .error (.rejectedSensitiveData key "Value contains sensitive field keys")
  else .ok ()

/-! ### Writes -/

/-- The update-or-insert of `set_record`: the first record with the key gets
the new value, source, time stamp and iteration; without one the record is
appended. -/
def upsert (entry : RecordEntry) : List RecordEntry → List RecordEntry
  | [] => [entry]
  | r :: rest => if r.key = entry.key then entry :: rest else r :: upsert entry rest

/-- Replaces the store of one category. -/
def withStore (ctx : AgentContext) (category : Category) (store : CategoryStore) :
    AgentContext :=
  { ctx with categories := Function.update ctx.categories category store }

-- `set_record`
def setRecord (lower : String → String) (now : Int) (ctx : AgentContext)
    (category : Category) (key : String) (value : Json) (source : String)
    (iteration : Nat) : Except ContextError AgentContext := do
  ctx.checkWriteAllowed
  ctx.checkBlacklist category
  checkSensitiveData lower key value
  let store := ctx.categories category
  -- an overwrite leaves a state change in the audit log
  let auditLog := match store.records.find? (fun r => r.key = key) with
    | some existing =>
      ctx.auditLog ++
        [.stateChange category key (some existing.value) value source iteration now]
    | none => ctx.auditLog
  let entry : RecordEntry := ⟨key, value, source, now, iteration⟩
  let store' : CategoryStore :=
    { store with
      records := upsert entry store.records
      warningEmitted := store.warningEmitted || decide (store.softLimit ≤ store.records.length) }
  pure { ctx.withStore category store' with auditLog := auditLog }

-- `append_record`
def appendRecord (lower : String → String) (now : Int) (ctx : AgentContext)
    (category : Category) (key : String) (value : Json) (source : String)
    (iteration : Nat) : Except ContextError AgentContext := do
  ctx.checkWriteAllowed
  ctx.checkBlacklist category
  checkSensitiveData lower key value
  let store := ctx.categories category
  let store' : CategoryStore :=
    { store with
      records := store.records ++ [⟨key, value, source, now, iteration⟩]
      warningEmitted := store.warningEmitted || decide (store.softLimit ≤ store.records.length) }
  pure (ctx.withStore category store')

-- `add_extension`
def addExtension (ctx : AgentContext) (id : String) (content : ExtensionContent) :
    Except ContextError AgentContext := do
  ctx.checkWriteAllowed
  pure { ctx with extensions := ctx.extensions.insert id content }

-- `set_lifecycle_state`
def setLifecycleState (ctx : AgentContext) (target : LifecycleState) :
    Except ContextError AgentContext :=
  if ctx.lifecycleState.isValidTransition target then
    .ok { ctx with lifecycleState := target }
  else .error (.illegalStateTransition ctx.lifecycleState target)

-- `set_response_payload`
def setResponsePayload (ctx : AgentContext) (payload : ResponsePayload) :
    Except ContextError AgentContext := do
  ctx.checkWriteAllowed
  pure { ctx with responsePayload := some payload }

/-- `set_metadata`: the one write without a lifecycle check. -/
def setMetadata (ctx : AgentContext) (key value : String) : Except ContextError AgentContext :=
  .ok { ctx with metadata := ctx.metadata.insert key value }

-- `set_messages`
def setMessages (ctx : AgentContext) (messages : List Json) : Except ContextError AgentContext :=
  .ok { ctx with messages := messages }

-- `record_tool_call`
def recordToolCall (ctx : AgentContext) (toolName : String) (arguments : Json)
    (result : Option Json) (status : ToolCallStatus) (startedAt : Int)
    (completedAt : Option Int) : Except ContextError AgentContext := do
  ctx.checkWriteAllowed
  pure { ctx with auditLog := ctx.auditLog ++
    [.toolCall toolName arguments result status startedAt completedAt] }

-- `record_skill_execution`
def recordSkillExecution (ctx : AgentContext) (skillName : String) (input : Json)
    (output : Option Json) (status : SkillExecutionStatus) (startedAt : Int)
    (completedAt : Option Int) : Except ContextError AgentContext := do
  ctx.checkWriteAllowed
  pure { ctx with auditLog := ctx.auditLog ++
    [.skillExecution skillName input output status startedAt completedAt] }

-- `record_delegation`
def recordDelegation (ctx : AgentContext) (subagentId delegationChain : String)
    (input : Json) (output : Option Json) (success : Bool) (startedAt : Int)
    (completedAt : Option Int) : Except ContextError AgentContext := do
  ctx.checkWriteAllowed
  pure { ctx with auditLog := ctx.auditLog ++
    [.delegation subagentId delegationChain input output success startedAt completedAt] }

/-- `let _ = ctx.op(…)`: an operation whose error the caller throws away. -/
def ignoring (ctx : AgentContext) (r : Except ContextError AgentContext) : AgentContext :=
  match r with
  | .ok ctx' => ctx'
  | .error _ => ctx

end AgentContext

end Context

end HiveClaw
