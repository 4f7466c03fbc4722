import HiveClaw.Lib.Resumption
import HiveClaw.Plugins.WasmImports

/-!
# Uploading a plugin

`upload` of `crates/hiveweb/src/services/plugin.rs`. The module goes to the object
store first and its row to the database afterwards; both have the key that is
made of the identifier and the version. If the `INSERT` fails, the object under
the key is deleted.

The transaction is the request's own copy of the tables it writes, until its
commit. A command to MySQL or S3 that fails may have taken effect or not; the
text of the error and this are the input of the command.
-/

namespace HiveClaw.Plugins

open Lib

/-! ## The store -/

/-- The tables the transaction writes. -/
structure PluginTables where
  plugins : List Plugin := []
  taggings : List Tagging := []
deriving DecidableEq

structure PluginStore where
  tables : PluginTables := {}
  tags : List Tag := []
  categories : List Int := []
  pluginsAutoIncrement : Int := 1
  objects : String → Option Bytes := fun _ => none

namespace PluginStore

/-- `PUT` of an object. -/
def put (s : PluginStore) (key : String) (bytes : Bytes) : PluginStore :=
  { s with objects := fun k => if k = key then some bytes else s.objects k }

/-- `DELETE` of an object. -/
def drop (s : PluginStore) (key : String) : PluginStore :=
  { s with objects := fun k => if k = key then none else s.objects k }

end PluginStore

/-- What a command gets from outside: the time, the error it is answered with, and
whether it takes effect nevertheless. -/
structure PluginInput where
  now : DateTime := 0
  fault : Option String := none
  executed : Bool := true

abbrev PluginM (α : Type) := ExceptT AppError (Prog String PluginInput PluginStore) α

-- `AppError::Internal(format!("{what}: {e}"))`
def fault (what e : String) : AppError := .internal (what ++ ": " ++ e)

/-- A `SELECT`. -/
def query {α : Type} (what : String) (read : PluginStore → α) : PluginM α :=
  ExceptT.mk <| Prog.read what fun i s =>
    match i.fault with
    | some e => .error (fault what e)
    | none => .ok (read s)

/-- A command that changes the store; one that fails may still do so. -/
def command (what : String) (f : PluginStore → PluginStore) : PluginM Unit :=
  ExceptT.mk <| Prog.modify what fun i s =>
    match i.fault with
    | some e => (.error (fault what e), if i.executed then f s else s)
    | none => (.ok (), f s)

/-! ## Requests -/

-- `UploadMeta`
structure UploadMeta where
  identifier : String
  name : String
  version : String
  description : Option String := none
  manifest : Option Json := none
  runtime : String := "extism"
  author : Option String := none
  repositoryUrl : Option String := none
  categoryId : Option Int := none
  tagIds : List Int := []

/-- What the service is deployed with: whether there is a client for S3, the bound
`plugin_max_bytes` (`PLUGIN_MAX_BYTES`), SHA-256 in hexadecimal, and the database
server. -/
structure Config where
  s3Client : Bool
  pluginMaxBytes : Nat := 16 * 1024 * 1024
  sha256 : Bytes → String
  mysql : Mysql

-- `WASM_MAGIC`
def wasmMagic : Bytes := [0x00, 0x61, 0x73, 0x6d]

/-- The checks of `upload` that ask nobody. -/
def checkModule (cfg : Config) (bytes : Bytes) : Except AppError Unit :=
  if cfg.s3Client = false then .error (.pluginSystemDisabled "插件系统已关闭，无法上传 Plugin")
  else if bytes.length > cfg.pluginMaxBytes then
    .error (.badRequest ("WASM 文件大小 " ++ toString bytes.length ++ " 超过上限 " ++
      toString cfg.pluginMaxBytes))
  else if bytes.length < 4 ∨ bytes.take 4 ≠ wasmMagic then
    .error (.badRequest "不是合法的 WASM 文件（magic bytes 校验失败）")
  else scanWasmImports bytes registeredImports

/-- The loop over `tag_ids` before the transaction. -/
def checkTags : List Int → PluginM Unit
  | [] => pure ()
  | tagId :: rest => do
    let known ← query "tag check" fun s => s.tags.any fun t => t.id = tagId
    if known then checkTags rest
    else throw (.badRequest ("tag_id=" ++ toString tagId ++ " 不存在"))

def objectKey (req : UploadMeta) : String :=
  "plugins/" ++ req.identifier ++ "/" ++ req.version ++ ".wasm"

/-! ## Writing -/

def newRow (cfg : Config) (req : UploadMeta) (bytes : Bytes) (id : Int) (now : DateTime) : Plugin :=
  { id := id, identifier := req.identifier, name := req.name, description := req.description
    manifest := req.manifest.map cfg.mysql.jsonNormal, runtime := req.runtime
    version := req.version, author := req.author, repositoryUrl := req.repositoryUrl
    s3Key := objectKey req, sha256 := cfg.sha256 bytes, sizeBytes := bytes.length
    categoryId := req.categoryId, createdAt := now.toSecond, updatedAt := now.toSecond
    deletedAt := none }

/-- The text columns of a row with the lengths the table allows. -/
def columns (p : Plugin) : List (String × String × Nat) :=
  [("identifier", p.identifier, 64), ("name", p.name, 128),
   ("description", p.description.getD "", 512), ("runtime", p.runtime, 32),
   ("version", p.version, 32), ("author", p.author.getD "", 64),
   ("repository_url", p.repositoryUrl.getD "", 255), ("s3_key", p.s3Key, 255),
   ("sha256", p.sha256, 64)]

/-- The constraints of the table: `uk_plugins_identifier_version`, which counts
deleted rows too, and `fk_plugins_category`. -/
def checkKeys (mysql : Mysql) (s : PluginStore) (p : Plugin) : Except String Unit :=
  if s.tables.plugins.any fun o =>
      mysql.collationKey o.identifier = mysql.collationKey p.identifier &&
        mysql.collationKey o.version = mysql.collationKey p.version then
    .error ("Duplicate entry '" ++ p.identifier ++ "-" ++ p.version ++
      "' for key 'plugins.uk_plugins_identifier_version'")
  else if p.categoryId.any fun c => !s.categories.contains c then
    .error ("Cannot add or update a child row: a foreign key constraint fails " ++
      "(fk_plugins_category)")
  else .ok ()

/-- `INSERT INTO plugins …`: the id and the tables as the transaction sees them. A
row the keys refuse has used up its id. -/
def insertPlugin (cfg : Config) (req : UploadMeta) (bytes : Bytes) :
    Prog String PluginInput PluginStore (Except String (Int × PluginTables)) :=
  Prog.modify "plugin insert" fun i s =>
    let row := newRow cfg req bytes s.pluginsAutoIncrement i.now
    match i.fault, (columns row).find? fun c => c.2.1.length > c.2.2 with
    | some e, _ => (.error e, s)
    | none, some c => (.error ("Data too long for column '" ++ c.1 ++ "' at row 1"), s)
    | none, none =>
      let burnt := { s with pluginsAutoIncrement := s.pluginsAutoIncrement + 1 }
      match checkKeys cfg.mysql s row with
      | .error e => (.error e, burnt)
      | .ok () =>
        (.ok (row.id, { s.tables with plugins := s.tables.plugins ++ [row] }), burnt)

/-- `INSERT INTO taggings …` in the transaction: the tag is there
(`fk_taggings_tag`), and the primary key keeps a tag from coming twice. -/
def insertTagging (s : PluginStore) (staged : PluginTables) (t : Tagging) :
    Except String PluginTables :=
  if t ∈ staged.taggings then .error "Duplicate entry for key 'taggings.PRIMARY'"
  else if s.tags.all fun tag => tag.id ≠ t.tagId then
    .error "Cannot add or update a child row: a foreign key constraint fails (fk_taggings_tag)"
  else .ok { staged with taggings := staged.taggings ++ [t] }

/-- The loop over `tag_ids` in the transaction. -/
def bindTags (id : Int) : List Int → PluginTables → PluginM PluginTables
  | [], staged => pure staged
  | tagId :: rest, staged => do
    let inserted ← query "tag bind" fun s => insertTagging s staged ⟨tagId, "plugin", id⟩
    match inserted with
    | .error e => throw (fault "tag bind" e)
    | .ok staged => bindTags id rest staged

-- `fetch_by_id`
def fetchById (id : Int) : PluginM Plugin := do
  let row ← query "plugin fetch" fun s => s.tables.plugins.find? fun p => p.id = id
  match row with
  | some p => pure p
  | none => throw (.notFound ("plugin id=" ++ toString id ++ " not found"))

-- `let _ = s3::delete_wasm(…)`
def deleteWasm (key : String) : Prog String PluginInput PluginStore Unit :=
  Prog.modify "S3 delete" fun i s =>
    ((), if i.fault = none ∨ i.executed then s.drop key else s)

/-- `upload` from the start of the transaction. -/
def storePlugin (cfg : Config) (req : UploadMeta) (bytes : Bytes) : PluginM Plugin := do
  command "tx begin" id
  command "S3 upload failed" fun s => s.put (objectKey req) bytes
  let inserted ← ExceptT.lift (insertPlugin cfg req bytes)
  match inserted with
  | .error e =>
    ExceptT.lift (deleteWasm (objectKey req))
    throw (.conflict ("Plugin " ++ req.identifier ++ "@" ++ req.version ++
      " 已存在或插入失败: " ++ e))
  | .ok (id, staged) =>
    let staged ← bindTags id req.tagIds staged
    command "tx commit" fun s => { s with tables := staged }
    fetchById id

-- `upload`
def upload (cfg : Config) (req : UploadMeta) (bytes : Bytes) : PluginM Plugin := do
  ExceptT.mk (pure (checkModule cfg bytes))
  checkTags req.tagIds
  storePlugin cfg req bytes

end HiveClaw.Plugins
