import HiveClaw.Lib.Pool
import HiveClaw.Lib.RowLock
import HiveClaw.RustStd
import HiveClaw.Store.Service

/-!
# Deleting a plugin while a function is bound to it

`soft_delete` of `crates/hiveweb/src/services/plugin.rs` and `create_custom` of
`crates/hiveweb/src/services/function.rs`, statement by statement. Each opens a
transaction, locks the row of the plugin (`FOR UPDATE`, `FOR SHARE`), looks at it and
writes.

InnoDB is `Lib.Locking`: locks are held to the end of the transaction, locking
reads see the committed rows, and so does the one plain `SELECT` of `soft_delete`,
the first of its transaction. An `INSERT` of an identifier that an open transaction
has inserted waits for it. A transaction that is dropped is rolled back; session
`n` belongs to the `n`-th request. The compiler of JSON schemas is a parameter.
-/

namespace HiveClaw.PluginBinding

open Lib

/-! ## The store -/

/-- The tables `plugins`, `functions`, `tags`, `taggings` and `categories`. -/
structure BindingTables where
  plugins : List Plugin := []
  functions : List Function := []
  tags : List Tag := []
  taggings : List Tagging := []
  categories : List Int := []
  functionsAutoIncrement : Int := 1
  primaryKey : (plugins.map Plugin.id).Nodup := by decide

/-- The rows a transaction writes. -/
inductive BindingWrite where
  | softDelete (id : Int) (at_ : DateTime)
  | insertFunction (f : Function)
  | bindTag (t : Tagging)
deriving DecidableEq

namespace BindingTables

-- `SELECT … FROM plugins WHERE id = ?`
def plugin? (d : BindingTables) (id : Int) : Option Plugin := d.plugins.find? fun p => p.id = id

-- `SELECT * FROM functions WHERE id = ?`
def function? (d : BindingTables) (id : Int) : Option Function :=
  d.functions.find? fun f => f.id = id

-- `SELECT COUNT(*) FROM functions WHERE plugin_id = ?`
def references (d : BindingTables) (id : Int) : Nat :=
  (d.functions.filter fun f => f.pluginId = some id).length

-- `UPDATE plugins SET deleted_at = NOW() WHERE id = ?`
def softDelete (d : BindingTables) (id : Int) (at_ : DateTime) : BindingTables :=
  { d with
    plugins := d.plugins.map fun p =>
      if p.id = id then { p with deletedAt := some at_, updatedAt := at_ } else p
    primaryKey := by
      have hid : (d.plugins.map fun p =>
          if p.id = id then { p with deletedAt := some at_, updatedAt := at_ } else p).map
          Plugin.id = d.plugins.map Plugin.id := by
        rw [List.map_map]
        refine List.map_congr_left fun p _ => ?_
        simp only [Function.comp_apply]
        split <;> rfl
      rw [hid]
      exact d.primaryKey }

/-- What becomes of the tables when a write is committed. -/
def apply (d : BindingTables) : BindingWrite → BindingTables
  | .softDelete id at_ => d.softDelete id at_
  | .insertFunction f => { d with functions := d.functions ++ [f] }
  | .bindTag t => { d with taggings := d.taggings ++ [t] }

end BindingTables

/-- The database with its open transactions. -/
abbrev BindingStore := Locking Int BindingWrite BindingTables

/-! ## Statements -/

/-- `CreateMeta` of the functions. -/
structure CreateMeta where
  identifier : String
  name : String
  description : Option String := none
  pluginId : Int
  pluginExport : String
  inputSchema : Json
  outputSchema : Json
  categoryId : Option Int := none
  requiredCapabilities : Option (List String) := none
  tagIds : List Int := []

/-- The statements; those that may have to wait say for what. -/
inductive BindingStmt where
  | begin
  | lockPlugin (session : Nat) (id : Int) (mode : LockMode)
  | count
  | markDeleted
  | insertFunction (session : Nat) (identifier : String)
  | bindTag (t : Tagging)
  | commit
  | rollback
  | fetch
deriving DecidableEq, Repr

/-- What a statement gets from outside: the time, the error it is answered with, and
for a commit whether it takes effect nevertheless. -/
structure BindingInput where
  now : DateTime := 0
  fault : Option String := none
  executed : Bool := true

abbrev Binding (α : Type) := ExceptT AppError (Prog BindingStmt BindingInput BindingStore) α

/-- What the services are deployed with: the database server, and
`jsonschema::JSONSchema::compile`. -/
structure BindingConfig where
  mysql : Mysql
  compileSchema : Json → Except String Unit

def ask {α : Type} (l : BindingStmt) (what : String) (read : BindingTables → α) : Binding α :=
  ExceptT.mk <| Prog.read l fun i s =>
    match i.fault with
    | some e => .error (.internal (what ++ ": " ++ e))
    | none => .ok (read s.data)

-- `SELECT id, deleted_at FROM plugins WHERE id = ? FOR …`
def lockPlugin (n : Nat) (what : String) (id : Int) (mode : LockMode) : Binding (Option Plugin) :=
  ExceptT.mk <| Prog.modify (.lockPlugin n id mode) fun i s =>
    match i.fault, s.data.plugin? id with
    | some e, _ => (.error (.internal (what ++ ": " ++ e)), s)
    | none, none => (.ok none, s)
    | none, some p => (.ok (some p), s.lock n id mode)

-- `tx.commit()`
def commitTx (n : Nat) (what : String) : Binding Unit :=
  ExceptT.mk <| Prog.modify .commit fun i s =>
    match i.fault with
    | some e => (.error (.internal (what ++ ": " ++ e)),
        if i.executed then s.commit BindingTables.apply n else s)
    | none => (.ok (), s.commit BindingTables.apply n)

/-- The transaction of session `n`: an error drops it. -/
def inTx {α : Type} (n : Nat) (m : Binding α) : Binding α :=
  ExceptT.mk <| m.run >>= fun r =>
    match r with
    | .ok a => pure (.ok a)
    | .error e => Prog.modify .rollback fun _ s => (.error e, s.release n)

/-! ## Deleting a plugin -/

/-- `UPDATE plugins SET deleted_at = NOW() WHERE id = ?` in the transaction. -/
def markDeleted (n : Nat) (id : Int) : Binding Unit :=
  ExceptT.mk <| Prog.modify .markDeleted fun i s =>
    match i.fault with
    | some e => (.error (.internal ("plugin soft delete: " ++ e)), s)
    | none => (.ok (), s.write n (.softDelete id i.now.toSecond))

-- `soft_delete`
def softDelete (n : Nat) (id : Int) : Binding Unit := do
  ask .begin "tx begin" fun _ => ()
  inTx n do
    let plugin ← lockPlugin n "plugin lock" id .exclusive
    match plugin with
    | none => throw (.notFound ("plugin id=" ++ toString id ++ " not found"))
    | some p =>
      if p.deletedAt ≠ none then throw (.conflict "plugin already deleted")
      else do
        let cnt ← ask .count "plugin ref count" fun d => d.references id
        if cnt > 0 then
          throw (.resourceInUse ("plugin 被 " ++ toString cnt ++ " 个 function 引用，无法删除"))
        else do
          markDeleted n id
          commitTx n "tx commit"

/-! ## Creating a function -/

-- `validate_schema`
def validateSchema (cfg : BindingConfig) (schema : Json) (label : String) : Except AppError Unit :=
  let compile : Except AppError Unit :=
    match schema with
    | .obj _ =>
      match cfg.compileSchema schema with
      | .ok () => .ok ()
      | .error e => .error (.badRequest (label ++ " 不是合法 JSON Schema: " ++ e))
    | .arr _ => .error (.badRequest (label ++ " 必须是 JSON 对象，不能是 数组。"))
    | .str _ => .error (.badRequest (label ++ " 必须是 JSON 对象，不能是 字符串。"))
    | .num _ => .error (.badRequest (label ++ " 必须是 JSON 对象，不能是 数字。"))
    | _ => .error (.badRequest (label ++ " 必须是 JSON 对象，不能是 布尔值或其他类型。"))
  match schema.get "required" with
  | some (.bool _) => .error (.badRequest (label ++ " 中 required 字段格式错误：required " ++
      "应为字符串数组（例如 [\"field1\", \"field2\"]），不能是布尔值 true/false。若 schema " ++
      "的顶层 type 为 string / number / boolean 等基础类型，请移除 required 字段。"))
  | some (.arr _) | none => compile
  | some _ => .error (.badRequest (label ++ " 中 required 字段格式错误：required " ++
      "应为字符串数组，例如 [\"field1\", \"field2\"]。"))

/-- The row of a new function; kind 2 is custom. -/
def newFunction (mysql : Mysql) (req : CreateMeta) (id : Int) : Function :=
  { id := id, identifier := req.identifier, name := req.name, description := req.description
    kind := 2, inputSchema := mysql.jsonNormal req.inputSchema
    outputSchema := mysql.jsonNormal req.outputSchema, pluginId := some req.pluginId
    pluginExport := some req.pluginExport
    requiredCapabilities := req.requiredCapabilities.map fun caps =>
      mysql.jsonNormal (.arr (caps.map .str)) }

/-- The text columns of a new function with the lengths the table allows. -/
def columns (req : CreateMeta) : List (String × String × Nat) :=
  [("identifier", req.identifier, 64), ("name", req.name, 128),
   ("description", req.description.getD "", 512), ("plugin_export", req.pluginExport, 64)]

/-- The unique identifier and `fk_functions_category`. -/
def checkKeys (mysql : Mysql) (d : BindingTables) (req : CreateMeta) : Except String Unit :=
  if d.functions.any fun f =>
      mysql.collationKey f.identifier = mysql.collationKey req.identifier then
    .error ("Duplicate entry '" ++ req.identifier ++ "' for key 'functions.identifier'")
  else if req.categoryId.any fun c => !d.categories.contains c then
    .error ("Cannot add or update a child row: a foreign key constraint fails " ++
      "(fk_functions_category)")
  else .ok ()

/-- The error of a failed `INSERT INTO functions`. -/
def insertError (req : CreateMeta) (msg : String) : AppError :=
  if RustStr.contains msg "Duplicate" then
    .conflict ("function identifier 已存在：" ++ req.identifier)
  else .internal ("function insert: " ++ msg)

/-- The next id of a function is used up. -/
def burnId (s : BindingStore) : BindingStore :=
  { s with data := { s.data with functionsAutoIncrement := s.data.functionsAutoIncrement + 1 } }

/-- `INSERT INTO functions …` in the transaction. A row the keys refuse has used up
its id. -/
def insertFunction (mysql : Mysql) (n : Nat) (req : CreateMeta) : Binding Int :=
  ExceptT.mk <| Prog.modify (.insertFunction n req.identifier) fun i s =>
    let id := s.data.functionsAutoIncrement
    match i.fault, (columns req).find? fun c => c.2.1.length > c.2.2 with
    | some e, _ => (.error (insertError req e), s)
    | none, some c => (.error (insertError req ("Data too long for column '" ++ c.1 ++
        "' at row 1")), s)
    | none, none =>
      match checkKeys mysql s.data req with
      | .error e => (.error (insertError req e), burnId s)
      | .ok () => (.ok id, (burnId s).write n (.insertFunction (newFunction mysql req id)))

/-- `INSERT IGNORE INTO taggings …` in the transaction: a tag that is not there or
comes twice is skipped. -/
def bindTag (n : Nat) (t : Tagging) : Binding Unit :=
  ExceptT.mk <| Prog.modify (.bindTag t) fun i s =>
    match i.fault with
    | some e => (.error (.internal ("tag bind: " ++ e)), s)
    | none =>
      if (s.data.tags.any fun tag => tag.id = t.tagId) && !s.data.taggings.contains t &&
          !(s.writesOf n).contains (.bindTag t) then
        (.ok (), s.write n (.bindTag t))
      else (.ok (), s)

/-- The loop over `tag_ids`. -/
def bindTags (n : Nat) (id : Int) : List Int → Binding Unit
  | [] => pure ()
  | tagId :: rest => do
    bindTag n ⟨tagId, "function", id⟩
    bindTags n id rest

/-- `fetch_by_id` of the functions. -/
def fetchFunction (id : Int) : Binding Function := do
  let row ← ask .fetch "function fetch" fun d => d.function? id
  match row with
  | some f => pure f
  | none => throw (.notFound ("function id=" ++ toString id ++ " not found"))

/-- The transaction of `create_custom`. -/
def bindFunction (cfg : BindingConfig) (n : Nat) (req : CreateMeta) : Binding Int := do
  let plugin ← lockPlugin n "plugin lookup" req.pluginId .shared
  match plugin with
  | none => throw (.notFound ("plugin id=" ++ toString req.pluginId ++ " not found"))
  | some p =>
    if p.deletedAt ≠ none then
      throw (.resourceInUse ("plugin id=" ++ toString req.pluginId ++
        " 已软删除，无法绑定 Function"))
    else do
      let id ← insertFunction cfg.mysql n req
      bindTags n id req.tagIds
      commitTx n "function transaction commit"
      pure id

-- `create_custom`
def createCustom (cfg : BindingConfig) (n : Nat) (req : CreateMeta) : Binding Function := do
  ExceptT.mk (pure (validateSchema cfg req.inputSchema "input_schema"))
  ExceptT.mk (pure (validateSchema cfg req.outputSchema "output_schema"))
  ask .begin "function transaction begin" fun _ => ()
  let id ← inTx n (bindFunction cfg n req)
  fetchFunction id

/-! ## Requests -/

inductive BindingRequest where
  | softDelete (id : Int)
  | createCustom (req : CreateMeta)

/-- The plugin a request is about. -/
def BindingRequest.target : BindingRequest → Int
  | .softDelete id => id
  | .createCustom req => req.pluginId

/-- The service of a request, in session `n`. -/
def handle (cfg : BindingConfig) (n : Nat) : BindingRequest → Binding (Option Function)
  | .softDelete id => do
    softDelete n id
    pure none
  | .createCustom req => do
    let f ← createCustom cfg n req
    pure (some f)

/-- A statement does not have to wait. A lock waits for the conflicting ones, an
`INSERT` for the open transactions with a row of its key; a statement that fails
does not wait any longer. -/
def ready (mysql : Mysql) (l : BindingStmt) (i : BindingInput) (s : BindingStore) : Bool :=
  match l with
  | .lockPlugin n id mode => i.fault.isSome || s.grants n id mode
  | .insertFunction n identifier => i.fault.isSome || s.pending.all fun w => w.1 = n ||
      match w.2 with
      | .insertFunction f => mysql.collationKey f.identifier ≠ mysql.collationKey identifier
      | _ => true
  | _ => true

/-- The requests, interleaved; a request that crashes loses its connection. -/
def bindings (cfg : BindingConfig) :
    System BindingRequest BindingStmt BindingInput BindingStore
      (Except AppError (Option Function)) Empty where
  program n r := (handle cfg n r).run
  ready := ready cfg.mysql
  hangUp n s := s.release n
  outside := nofun

end HiveClaw.PluginBinding
