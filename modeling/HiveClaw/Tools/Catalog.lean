import HiveClaw.Plugins.Binding
import HiveClaw.Tools.Service

/-!
# Functions and the tools that wrap them

`create_custom` and `update` of `crates/hiveweb/src/services/function.rs` and
`create` of `crates/hiveweb/src/services/tool.rs`, over one store; `update` of the
tools is `Tools.update` on its part of it.

The columns `category_id` and `updated_at` of `functions` stand beside the rows. A
transaction is one statement here. Unless a function checks it, a column that is too
long or a foreign key that is not there shows up as a `fault` of the statement.
-/

namespace HiveClaw.Catalog

open Lib PluginBinding

/-! ## The store -/

/-- The columns of `functions` beside those of `Function`. -/
structure FunctionColumns where
  id : Int
  categoryId : Option Int
  updatedAt : DateTime
deriving DecidableEq, Repr

structure CatalogStore where
  store : Store
  plugins : List Plugin := []
  categories : List Int := []
  functionColumns : List FunctionColumns := []
  functionsAutoIncrement : Int := 1
  toolsAutoIncrement : Int := 1

abbrev CatalogM (α : Type) := ExceptT Failure (Prog Stmt Input CatalogStore) α

/-- A service that needs the tables of `Store` only. -/
def onStore {α : Type} (m : Service α) : CatalogM α :=
  ExceptT.mk (m.run.zoom CatalogStore.store fun s c => { c with store := s })

def execute {α : Type} (what : String)
    (f : Input → CatalogStore → Except Failure α × CatalogStore) : CatalogM α :=
  ExceptT.mk <| Prog.modify (.write what) f

-- `r?`
def check {α : Type} (r : Except AppError α) : CatalogM α := onStore (Service.lift r)

-- `if c { return Err(e) }`
def failIf (c : Prop) [Decidable c] (e : AppError) : CatalogM Unit := onStore (Service.failIf c e)

-- `opt.ok_or_else(|| e)?`
def okOr {α : Type} (o : Option α) (e : AppError) : CatalogM α := onStore (Service.okOr o e)

/-! ## Functions -/

/-- `fetch_by_id` of the functions. -/
def fetchFunction (id : Int) : CatalogM Function := onStore do
  let row ← Service.query "function fetch" fun s => s.function? id
  Service.okOr row (.notFound s!"function id={id} not found")

/-- `INSERT IGNORE INTO taggings`: a tag that is not there or comes twice is skipped. -/
def insertTagging (s : Store) (t : Tagging) : Store :=
  if t ∈ s.taggings ∨ s.tags.all (fun tag => tag.id ≠ t.tagId) then s
  else { s with taggings := s.taggings ++ [t] }

/-- Why the transaction of `create_custom` is given up, and whether its `INSERT` has
used up an id. -/
def refusal (cfg : BindingConfig) (req : CreateMeta) (i : Input) (c : CatalogStore) :
    Option (Failure × Bool) :=
  let fault (what : String) (used : Bool) : Option (Failure × Bool) :=
    (i.fault what).map fun e => (internal what e, used)
  let plugin : Option (Failure × Bool) :=
    match c.plugins.find? fun p => p.id = req.pluginId with
    | none => some (.error (.notFound s!"plugin id={req.pluginId} not found"), false)
    | some p =>
      if p.deletedAt ≠ none then
        some (.error (.resourceInUse s!"plugin id={req.pluginId} 已软删除，无法绑定 Function"), false)
      else none
  let insert : Option (Failure × Bool) :=
    match i.fault "function insert", (columns req).find? fun col => col.2.1.length > col.2.2,
        checkKeys cfg.mysql
          { functions := c.store.functions, categories := c.categories } req with
    | some e, _, _ => some (.error (insertError req e), false)
    | none, some col, _ => some (.error (insertError req ("Data too long for column '" ++ col.1 ++
        "' at row 1")), false)
    | none, none, .error e => some (.error (insertError req e), true)
    | none, none, .ok () => none
  fault "function transaction begin" false <|> fault "plugin lookup" false <|> plugin <|>
    insert <|> (if req.tagIds.isEmpty then none else fault "tag bind" true) <|>
    fault "function transaction commit" true

def addFunction (cfg : BindingConfig) (req : CreateMeta) (now : DateTime) (c : CatalogStore) :
    CatalogStore :=
  let id := c.functionsAutoIncrement
  let store := { c.store with functions := c.store.functions ++ [newFunction cfg.mysql req id] }
  { c with
    store := (req.tagIds.map fun tagId => ⟨tagId, "function", id⟩).foldl insertTagging store
    functionColumns := c.functionColumns ++ [⟨id, req.categoryId, now.toSecond⟩]
    functionsAutoIncrement := id + 1 }

/-- The transaction of `create_custom`. -/
def bindFunction (cfg : BindingConfig) (req : CreateMeta) : CatalogM Int :=
  execute "function transaction" fun i c =>
    match refusal cfg req i c with
    | some (e, used) => (.error e,
        if used then { c with functionsAutoIncrement := c.functionsAutoIncrement + 1 } else c)
    | none => (.ok c.functionsAutoIncrement, addFunction cfg req i.now c)

-- `create_custom`
def createCustom (cfg : BindingConfig) (req : CreateMeta) : CatalogM Function := do
  check (validateSchema cfg req.inputSchema "input_schema")
  check (validateSchema cfg req.outputSchema "output_schema")
  let id ← bindFunction cfg req
  fetchFunction id

/-- `UpdateMeta` of the functions. -/
structure FunctionUpdateMeta where
  name : Option String := none
  description : Option String := none
  categoryId : Option Int := none
  inputSchema : Option Json := none
  outputSchema : Option Json := none
  requiredCapabilities : Option (List String) := none
  tagIds : Option (List Int) := none
  updatedAt : DateTime

/-- The row `UPDATE functions SET … COALESCE(?, …)` makes of `f`. -/
def applyFunctionUpdate (mysql : Mysql) (req : FunctionUpdateMeta) (f : Function) : Function :=
  { f with
    name := req.name.getD f.name
    description := req.description.or f.description
    inputSchema := (req.inputSchema.map mysql.jsonNormal).getD f.inputSchema
    outputSchema := (req.outputSchema.map mysql.jsonNormal).getD f.outputSchema
    requiredCapabilities :=
      (req.requiredCapabilities.map fun c => mysql.jsonNormal (.arr (c.map .str))).or
        f.requiredCapabilities }

/-- `UPDATE functions SET …, category_id = COALESCE(?, category_id) WHERE id = ?`, with
`ON UPDATE CURRENT_TIMESTAMP`. -/
def updateFunctionRow (id : Int) (categoryId : Option Int) (g : Function → Function) :
    CatalogM Unit :=
  execute "function update" fun i c =>
    match i.check "function update" with
    | .error e => (.error e, c)
    | .ok () =>
      let changed := c.store.functions.any fun f => f.id = id && g f ≠ f
      (.ok (), { c with
        store := { c.store with
          functions := c.store.functions.map fun f => if f.id = id then g f else f }
        functionColumns := c.functionColumns.map fun col =>
          if col.id = id ∧ (changed = true ∨ categoryId.or col.categoryId ≠ col.categoryId) then
            { col with
              categoryId := categoryId.or col.categoryId
              updatedAt := i.now.toSecond }
          else col })

/-- The loop of `INSERT IGNORE INTO taggings`. -/
def insertFunctionTags (id : Int) : List Int → CatalogM Unit
  | [] => pure ()
  | tagId :: rest => do
    execute "tag insert" fun i c =>
      match i.check "tag insert" with
      | .error e => (.error e, c)
      | .ok () => (.ok (), { c with store := insertTagging c.store ⟨tagId, "function", id⟩ })
    insertFunctionTags id rest

/-- The tags are replaced if the request gives new ones. -/
def replaceFunctionTags (id : Int) : Option (List Int) → CatalogM Unit
  | none => pure ()
  | some tags => do
    execute "tag clear" fun i c =>
      match i.check "tag clear" with
      | .error e => (.error e, c)
      | .ok () => (.ok (), { c with store := { c.store with
          taggings := c.store.taggings.filter fun g =>
            ¬ (g.entityType = "function" ∧ g.entityId = id) } })
    insertFunctionTags id tags

-- `check_and_bump` on `functions`
def checkAndBump (id : Int) (clientUpdatedAt : DateTime) : CatalogM Unit :=
  ExceptT.mk <| Prog.read (.lockCheck "functions") fun i c =>
    OptimisticLock.checkRead "functions" id
      (fun _ => (c.functionColumns.find? fun col => col.id = id).map FunctionColumns.updatedAt)
      clientUpdatedAt i c.store

def onlyCategoryAndTags : AppError := .conflict "内置 function 仅可编辑分类和标签"

/-- `validate_schema` of a schema the request brings. -/
def validateGiven (cfg : BindingConfig) (schema : Option Json) (label : String) : CatalogM Unit :=
  match schema with
  | some s => check (validateSchema cfg s label)
  | none => pure ()

/-- `update` of the functions. -/
def updateFunction (cfg : BindingConfig) (id : Int) (req : FunctionUpdateMeta) :
    CatalogM Function := do
  let existing ← fetchFunction id
  failIf (existing.kind = 1 ∧ req.name.isSome) onlyCategoryAndTags
  failIf (existing.kind = 1 ∧ req.description.isSome) onlyCategoryAndTags
  failIf (existing.kind = 1 ∧ req.inputSchema.isSome) onlyCategoryAndTags
  failIf (existing.kind = 1 ∧ req.outputSchema.isSome) onlyCategoryAndTags
  failIf (existing.kind = 1 ∧ req.requiredCapabilities.isSome) onlyCategoryAndTags
  checkAndBump id req.updatedAt
  if existing.kind = 1 then
    updateFunctionRow id req.categoryId fun f => f
    replaceFunctionTags id req.tagIds
    fetchFunction id
  else do
    validateGiven cfg req.inputSchema "input_schema"
    validateGiven cfg req.outputSchema "output_schema"
    updateFunctionRow id req.categoryId (applyFunctionUpdate cfg.mysql req)
    replaceFunctionTags id req.tagIds
    fetchFunction id

/-! ## Tools -/

/-- `CreateMeta` of the tools. -/
structure ToolCreateMeta where
  identifier : String
  name : String
  description : String
  kind : Int
  source : String
  isAlways : Bool
  functionId : Option Int := none
  workflowId : Option Int := none
  inputSchema : Json
  outputSchema : Json
  categoryId : Option Int := none
  requiredCapabilities : Option (List String) := none
  tagIds : List Int := []

/-- `create`: the source. -/
def sourceOf (source : String) : Except AppError String :=
  if source = "" ∨ source = "workspace" then .ok "workspace"
  else if source = "builtin" then .ok "builtin"
  else .error (.badRequest "source 必须为 workspace 或 builtin")

/-- `create`: a tool of kind 1. Without a function there is nothing to check. -/
def checkFunctionTool (source : String) (req : ToolCreateMeta) : CatalogM Unit :=
  match req.functionId with
  | none => pure ()
  | some fid => do
    failIf req.workflowId.isSome (.badRequest "kind=1 时不允许提供 workflow_id")
    if source = "builtin" then do
      let f ← fetchFunction fid
      failIf (f.kind ≠ 1) (.badRequest "builtin Tool 只能包装 builtin Function（kind=1）")
      onStore (Tools.validateSchemasFunction fid req.inputSchema req.outputSchema)
    else onStore (Tools.validateSchemasFunction fid req.inputSchema req.outputSchema)

/-- `create`: a tool of kind 2. -/
def checkWorkflowTool (source : String) (req : ToolCreateMeta) : CatalogM Unit := do
  let wid ← okOr req.workflowId (.badRequest "kind=2 时必须提供 workflow_id")
  failIf req.functionId.isSome (.badRequest "kind=2 时不允许提供 function_id")
  failIf (source = "builtin") (.badRequest "builtin Tool 不允许包装 Workflow")
  onStore (Tools.validateSchemasWorkflow wid req.inputSchema)

/-- `create`: the checks by kind. -/
def checkTool (source : String) (req : ToolCreateMeta) : CatalogM Unit :=
  if req.kind = 1 then checkFunctionTool source req
  else if req.kind = 2 then checkWorkflowTool source req
  else onStore (Service.fail (.badRequest "kind 必须为 1 或 2"))

def newTool (mysql : Mysql) (req : ToolCreateMeta) (source : String) (id : Int) (now : DateTime) :
    Tool :=
  { id := id, identifier := req.identifier, name := req.name, description := req.description
    kind := req.kind, source := source, isAlways := req.isAlways, functionId := req.functionId
    workflowId := req.workflowId, inputSchema := mysql.jsonNormal req.inputSchema
    outputSchema := mysql.jsonNormal req.outputSchema, categoryId := req.categoryId
    requiredCapabilities := req.requiredCapabilities.map fun caps =>
      mysql.jsonNormal (.arr (caps.map .str))
    createdAt := now.toSecond, updatedAt := now.toSecond }

/-- The error of a failed `INSERT INTO tools`. -/
def toolInsertError (req : ToolCreateMeta) (msg : String) : Failure :=
  if RustStr.contains msg "Duplicate" then .error (.conflict s!"tool identifier 已存在：{req.identifier}")
  else internal "tool insert" msg

/-- `INSERT INTO tools`. A row that the unique identifier refuses has used up its id. -/
def insertTool (mysql : Mysql) (req : ToolCreateMeta) (source : String) : CatalogM Int :=
  execute "tool insert" fun i c =>
    let id := c.toolsAutoIncrement
    match i.fault "tool insert" with
    | some e => (.error (toolInsertError req e), c)
    | none =>
      if c.store.tools.any fun t =>
          mysql.collationKey t.identifier = mysql.collationKey req.identifier then
        (.error (toolInsertError req
            ("Duplicate entry '" ++ req.identifier ++ "' for key 'tools.identifier'")),
          { c with toolsAutoIncrement := id + 1 })
      else (.ok id, { c with
        store := { c.store with
          tools := c.store.tools ++ [newTool mysql req source id i.now] }
        toolsAutoIncrement := id + 1 })

/-- `create` of the tools. -/
def createTool (mysql : Mysql) (req : ToolCreateMeta) : CatalogM Tools.ToolListItem := do
  let source ← check (sourceOf req.source)
  checkTool source req
  let id ← insertTool mysql req source
  onStore (Tools.insertTaggings id req.tagIds)
  onStore (Tools.fetchToolWithTags id)

/-! ## Requests -/

inductive CatalogRequest where
  | createFunction (req : CreateMeta)
  | updateFunction (id : Int) (req : FunctionUpdateMeta)
  | createTool (req : ToolCreateMeta)
  | updateTool (id : Int) (req : Tools.UpdateMeta)

/-- What a request is answered with. -/
inductive CatalogAnswer where
  | function (f : Function)
  | tool (t : Tools.ToolListItem)

def handle (cfg : BindingConfig) : CatalogRequest → CatalogM CatalogAnswer
  | .createFunction req => CatalogAnswer.function <$> createCustom cfg req
  | .updateFunction id req => CatalogAnswer.function <$> updateFunction cfg id req
  | .createTool req => CatalogAnswer.tool <$> createTool cfg.mysql req
  | .updateTool id req => CatalogAnswer.tool <$> onStore (Tools.update cfg.mysql id req)

end HiveClaw.Catalog
