import HiveClaw.RustStd
import HiveClaw.Store.Autocommit

/-!
# The RAGFlow configuration of several instances

`create`, `update` and `delete` of `crates/hiveweb/src/services/global_config.rs`, and
`initialize`, `sync_global_value`, `remove_global_value` and the subscriber of
`services/ragflow_config.rs`, over the table `global_configs` (migration V019) and any
number of instances of the server.

Each instance has the RAGFlow rows in its memory (`RAGFLOW_CONFIG_STATE`, for its
`global_values`; `resolved` is computed from these and the environment at every change).
Whoever changes the table changes the memory of its own instance and publishes the name
of the instance; the subscribers of the other instances then load the rows again. The
instances are numbered, and their numbers stand for `INSTANCE_ID`. The columns with the
times are left out.
-/

namespace HiveClaw.RagflowConfig

open Lib Autocommit

/-! ## The keys -/

-- `GLOBAL_RAGFLOW_KEYS`
def ragflowKeys : List String :=
  ["ragflow_base_url", "ragflow_api_key", "ragflow_dataset_ids", "ragflow_document_ids",
    "ragflow_page", "ragflow_page_size", "ragflow_similarity_threshold",
    "ragflow_vector_similarity_weight", "ragflow_top_k", "ragflow_rerank_id", "ragflow_keyword",
    "ragflow_highlight", "ragflow_timeout_secs"]

-- `RagflowSeedRow`
structure SeedRow where
  key : String
  name : String
  configType : String
  data : Json
deriving DecidableEq

/-- A row of `ragflow_seed_rows`, with its entry of `GLOBAL_RAGFLOW_NAMES`. -/
def seedRow (key name configType : String) (value : Json) : SeedRow :=
  { key, name, configType, data := .obj [("value", value)] }

/-- `ragflow_seed_rows`; the defaults 0.2 and 0.3 are `f32`. -/
def ragflowSeedRows : List SeedRow :=
  [seedRow "ragflow_base_url" "RAGFlow Base URL" "string" (.str ""),
    seedRow "ragflow_api_key" "RAGFlow API Key" "string" (.str ""),
    seedRow "ragflow_dataset_ids" "RAGFlow Dataset IDs" "json" (.arr []),
    seedRow "ragflow_document_ids" "RAGFlow Document IDs" "json" (.arr []),
    seedRow "ragflow_page" "RAGFlow Page" "number" (.num (.int 1)),
    seedRow "ragflow_page_size" "RAGFlow Page Size" "number" (.num (.int 6)),
    seedRow "ragflow_similarity_threshold" "RAGFlow Similarity Threshold" "number"
      (.num (.float 13421773 (-26))),
    seedRow "ragflow_vector_similarity_weight" "RAGFlow Vector Similarity Weight" "number"
      (.num (.float 10066330 (-25))),
    seedRow "ragflow_top_k" "RAGFlow Top K" "number" (.num (.int 10)),
    seedRow "ragflow_rerank_id" "RAGFlow Rerank ID" "string" .null,
    seedRow "ragflow_keyword" "RAGFlow Keyword" "boolean" (.bool true),
    seedRow "ragflow_highlight" "RAGFlow Highlight" "boolean" (.bool false),
    seedRow "ragflow_timeout_secs" "RAGFlow Timeout Secs" "number" (.num (.int 30))]

-- `normalize_global_key`
def normalizeGlobalKey (key : String) : Option String :=
  let normalized := RustStr.toAsciiLowercase key
  if normalized ∈ ragflowKeys then some normalized else none

/-! ## The table -/

-- `GlobalConfig`
structure GlobalConfig where
  id : Int
  name : String
  key : String
  configType : String
  data : Json
deriving DecidableEq

/-- The table `global_configs`, with its primary and its unique key. -/
structure ConfigTable (m : Mysql) where
  rows : List GlobalConfig
  autoIncrement : Int
  below : ∀ r ∈ rows, r.id < autoIncrement
  primary : (rows.map (·.id)).Nodup
  unique : (rows.map fun r => m.collationKey r.key).Nodup

variable {m : Mysql}

namespace ConfigTable

-- `SELECT … WHERE id = ?`
def byId (t : ConfigTable m) (id : Int) : Option GlobalConfig := t.rows.find? fun r => r.id = id

def taken (t : ConfigTable m) (key : String) : Bool :=
  t.rows.any fun r => m.collationKey r.key = m.collationKey key

def add (t : ConfigTable m) (name key configType : String) (data : Json)
    (hfree : t.taken key = false) : ConfigTable m where
  rows := t.rows ++ [{ id := t.autoIncrement, name, key, configType, data := m.jsonNormal data }]
  autoIncrement := t.autoIncrement + 1
  below := by
    intro r hr
    rcases List.mem_append.mp hr with hr | hr
    · exact lt_trans (t.below r hr) (Int.lt_succ _)
    · rw [List.mem_singleton.mp hr]
      exact Int.lt_succ _
  primary := by
    rw [List.map_append, List.map_singleton]
    refine t.primary.append (List.nodup_singleton _) (List.disjoint_singleton.mpr fun hmem => ?_)
    obtain ⟨r, hr, hid⟩ := List.mem_map.mp hmem
    exact absurd (t.below r hr) (by rw [hid]; exact lt_irrefl _)
  unique := by
    rw [List.map_append, List.map_singleton]
    refine t.unique.append (List.nodup_singleton _) (List.disjoint_singleton.mpr fun hmem => ?_)
    obtain ⟨r, hr, hkey⟩ := List.mem_map.mp hmem
    exact List.any_eq_false.mp hfree r hr (by simpa using hkey)

/-- `UPDATE` of the row `id`; its id and its key stay. -/
def modify (t : ConfigTable m) (id : Int) (name configType : Option String) (data : Option Json) :
    ConfigTable m :=
  let f (r : GlobalConfig) : GlobalConfig :=
    if r.id = id then
      { r with
        name := name.getD r.name
        configType := configType.getD r.configType
        data := (data.map m.jsonNormal).getD r.data }
    else r
  have hid : ∀ r, (f r).id = r.id := by
    intro r
    dsimp only [f]
    split <;> rfl
  have hkey : ∀ r, (f r).key = r.key := by
    intro r
    dsimp only [f]
    split <;> rfl
  { rows := t.rows.map f
    autoIncrement := t.autoIncrement
    below := by
      intro r hr
      obtain ⟨r', hr', rfl⟩ := List.mem_map.mp hr
      rw [hid]
      exact t.below r' hr'
    primary := by
      rw [List.map_map, Function.comp_def, List.map_congr_left fun r _ => hid r]
      exact t.primary
    unique := by
      rw [List.map_map, Function.comp_def,
        List.map_congr_left fun r _ => congrArg m.collationKey (hkey r)]
      exact t.unique }

/-- `DELETE` of the row `id`. -/
def remove (t : ConfigTable m) (id : Int) : ConfigTable m where
  rows := t.rows.filter fun r => r.id ≠ id
  autoIncrement := t.autoIncrement
  below := fun r hr => t.below r (List.mem_of_mem_filter hr)
  primary := t.primary.sublist (List.filter_sublist.map _)
  unique := t.unique.sublist (List.filter_sublist.map _)

/-- `INSERT IGNORE`; the rows that are seeded fit their columns. -/
def insertIgnore (t : ConfigTable m) (row : SeedRow) : ConfigTable m :=
  if hfree : t.taken row.key = false then t.add row.name row.key row.configType row.data hfree
  else t

end ConfigTable

/-- The statements of the requests that write. -/
inductive ConfigWrite where
  | insert (name key configType : String) (data : Json)
  | update (id : Int) (name configType : Option String) (data : Option Json)
  | delete (id : Int)
deriving DecidableEq

namespace ConfigWrite

def duplicateEntry : String := "Duplicate entry for key 'global_configs.key'"

def dataTooLong : String := "Data too long for column"

/-- The statement's answer, `last_insert_id` or `rows_affected`, and the table after it. -/
def apply (t : ConfigTable m) : ConfigWrite → Except String (Int × ConfigTable m)
  | .insert name key configType data =>
    if name.length > 64 ∨ key.length > 64 ∨ configType.length > 32 then .error dataTooLong
    else if hfree : t.taken key = false then
      .ok (t.autoIncrement, t.add name key configType data hfree)
    else .error duplicateEntry
  | .update id name configType data =>
    if (t.byId id).isSome ∧ ((name.getD "").length > 64 ∨ (configType.getD "").length > 32) then
      .error dataTooLong
    else .ok (t.rows.countP (fun r => r.id = id), t.modify id name configType data)
  | .delete id => .ok (t.rows.countP (fun r => r.id = id), t.remove id)

end ConfigWrite

/-- `fetch_values_by_keys` for the RAGFlow keys. -/
def fetchValuesByKeys (t : ConfigTable m) : HashMap String Json :=
  .collect ((t.rows.filter fun r => ragflowKeys.any fun key =>
    m.collationKey key = m.collationKey r.key).map fun r => (r.key, r.data))

-- `load_global_values`
def loadGlobalValues (t : ConfigTable m) : HashMap String Json :=
  .collect ((fetchValuesByKeys t).entries.map fun e => (RustStr.toAsciiLowercase e.1, e.2))

/-! ## The instances -/

/-- An instance of the server: its configuration in memory, the notifications its
subscriber has not handled yet, by their sources, and whether it is handling one. -/
structure Instance where
  globalValues : HashMap String Json
  queue : List Nat := []
  busy : Bool := false

structure ConfigStore (m : Mysql) where
  table : ConfigTable m
  instances : List Instance

namespace ConfigStore

/-- `upsert` and `remove` of `RagflowConfigState`, for a normalized key. -/
def sync (s : ConfigStore m) (n : Nat) (key : String) (value : Option Json) : ConfigStore m :=
  { s with instances := s.instances.modify n fun inst =>
      { inst with globalValues := match value with
          | some data => inst.globalValues.insert key data
          | none => inst.globalValues.erase key } }

/-- `PUBLISH`: every subscriber is sent the source. -/
def publish (s : ConfigStore m) (source : Nat) : ConfigStore m :=
  { s with instances := s.instances.map fun inst =>
      { inst with queue := inst.queue ++ [source] } }

/-- The source of the next notification. -/
def nextSource (s : ConfigStore m) (n : Nat) : Option Nat :=
  s.instances[n]?.bind fun inst => inst.queue.head?

/-- The subscriber takes the next notification. -/
def receive (s : ConfigStore m) (n : Nat) : ConfigStore m :=
  { s with instances := s.instances.modify n fun inst =>
      { inst with queue := inst.queue.tail, busy := true } }

/-- The subscriber has handled it. -/
def resume (s : ConfigStore m) (n : Nat) : ConfigStore m :=
  { s with instances := s.instances.modify n fun inst => { inst with busy := false } }

-- `*write_state() = RagflowConfigState::from_sources(values, ..)`
def install (s : ConfigStore m) (n : Nat) (values : HashMap String Json) : ConfigStore m :=
  { s with instances := s.instances.modify n fun inst => { inst with globalValues := values } }

/-- `ensure_key` for a row to be seeded. -/
def seed (s : ConfigStore m) (row : SeedRow) : ConfigStore m :=
  { s with table := s.table.insertIgnore row }

end ConfigStore

/-! ## Statements -/

/-- The label of a statement, with the instance that executes it. -/
inductive ConfigStmt where
  | fetch (n : Nat) (id : Int)
  | write (n : Nat) (w : ConfigWrite)
  | sync (n : Nat) (key : String) (value : Option Json)
  | publish (n : Nat)
  | receive (n : Nat)
  | fetchExisting (n : Nat)
  | seed (n : Nat) (row : SeedRow)
  | load (n : Nat)
  | install (n : Nat) (values : HashMap String Json)
  | resume (n : Nat)

/-- A function over the table and the instances. -/
abbrev ConfigM (m : Mysql) (ε α : Type) := Autocommit ConfigStmt (ConfigStore m) ε α

variable {ε : Type}

/-- A request's statement that writes the table. -/
def write (n : Nat) (w : ConfigWrite) : ConfigM m String Int :=
  execute (.write n w) fun s => do
    let (answer, table) ← w.apply s.table
    pure (answer, { s with table })

-- `fetch_by_id`
def fetchById (n : Nat) (id : Int) : ConfigM m AppError GlobalConfig := do
  let row ← ExceptT.adapt (fun e => .internal ("global_config fetch: " ++ e))
    (query (.fetch n id) fun s => s.table.byId id)
  okOr row (.notFound ("global_config id=" ++ toString id ++ " not found"))

/-- `publish_change`; an error is only logged. -/
def publishChange (n : Nat) : ConfigM m ε Unit := do
  let _ ← attempt (execute (.publish n) fun s => .ok ((), s.publish n))
  pure ()

/-- `sync_global_value` for `some data`, `remove_global_value` for `none`. -/
def syncGlobalValue (n : Nat) (key : String) (value : Option Json) : ConfigM m ε Unit :=
  match normalizeGlobalKey key with
  | none => pure ()
  | some key => do
    inMemory (.sync n key value) fun s => s.sync n key value
    publishChange n

/-! ## `services/global_config.rs` -/

-- `CreateMeta`
structure CreateMeta where
  name : String
  key : String
  configType : String
  data : Json
deriving DecidableEq

-- `UpdateMeta`
structure UpdateMeta where
  name : Option String := none
  configType : Option String := none
  data : Option Json := none
deriving DecidableEq

/-- The error of an `INSERT` that failed. -/
def insertError (key msg : String) : AppError :=
  if RustStr.contains msg "Duplicate" then .conflict ("配置 key 已存在：" ++ key)
  else .internal ("global_config insert: " ++ msg)

/-- `create`, on instance `n`. -/
def create (n : Nat) (config : CreateMeta) : ConfigM m AppError Unit := do
  let id ← ExceptT.adapt (insertError config.key)
    (write n (.insert config.name config.key config.configType config.data))
  let row ← fetchById n id
  syncGlobalValue n row.key (some row.data)

/-- `update`, on instance `n`. -/
def update (n : Nat) (id : Int) (config : UpdateMeta) : ConfigM m AppError Unit := do
  let _ ← ExceptT.adapt (fun e => .internal ("global_config update: " ++ e))
    (write n (.update id config.name config.configType config.data))
  let row ← fetchById n id
  syncGlobalValue n row.key (some row.data)

/-- `delete`, on instance `n`. -/
def delete (n : Nat) (id : Int) : ConfigM m AppError Unit := do
  let row ← fetchById n id
  let rowsAffected ← ExceptT.adapt (fun e => .internal ("global_config delete: " ++ e))
    (write n (.delete id))
  failIf (rowsAffected = 0) (.notFound ("global_config id=" ++ toString id ++ " not found"))
  syncGlobalValue n row.key none

/-! ## The subscriber -/

/-- `ensure_global_keys`; errors are only logged. -/
def ensureGlobalKeys (n : Nat) : ConfigM m ε Unit := do
  match ← attempt (query (.fetchExisting n) fun s => fetchValuesByKeys s.table) with
  | .error _ => pure ()
  | .ok existing =>
    (ragflowSeedRows.filter fun row => (existing.lookup row.key).isNone).forM fun row => do
      let _ ← attempt (execute (.seed n row) fun s => .ok ((), s.seed row))
      pure ()

/-- `initialize`; an error is only logged. -/
def initializeConfig (n : Nat) : ConfigM m ε Unit := do
  ensureGlobalKeys n
  match ← attempt (query (.load n) fun s => loadGlobalValues s.table) with
  | .error _ => pure ()
  | .ok values => inMemory (.install n values) fun s => s.install n values

-- `should_reload_from_notification`
def shouldReloadFromNotification (source here : Nat) : Bool := source ≠ here

/-- One turn of the loop of `subscribe_once`. -/
def handleNotification (n : Nat) : ConfigM m ε Unit := do
  let source ← ExceptT.lift (Prog.modify (.receive n) fun _ s => (s.nextSource n, s.receive n))
  match source with
  | none => pure ()
  | some source => do
    if shouldReloadFromNotification source n then initializeConfig n else pure ()
    inMemory (.resume n) fun s => s.resume n

/-! ## The system -/

/-- A request to an instance, or a turn of its subscriber. -/
inductive ConfigRequest where
  | create (n : Nat) (config : CreateMeta)
  | update (n : Nat) (id : Int) (config : UpdateMeta)
  | delete (n : Nat) (id : Int)
  | notified (n : Nat)
deriving DecidableEq

def handle : ConfigRequest → ConfigM m AppError Unit
  | .create n config => create n config
  | .update n id config => update n id config
  | .delete n id => delete n id
  | .notified n => handleNotification n

/-- A subscriber waits for a notification and handles one at a time. -/
def configReady (l : ConfigStmt) (_ : Option String) (s : ConfigStore m) : Bool :=
  match l with
  | .receive n => s.instances[n]?.any fun inst => !inst.busy && !inst.queue.isEmpty
  | _ => true

/-- Requests and notifications on all instances, interleaved statement by statement. -/
def configSystem (m : Mysql) :
    System ConfigRequest ConfigStmt (Option String) (ConfigStore m) (Except AppError Unit) Empty where
  program := fun _ r => (handle r).run
  ready := configReady
  outside := nofun

end HiveClaw.RagflowConfig
