import HiveClaw.Sessions.Retention

/-!
# The files of the sessions

`SessionManager` of `crates/session/src/manager.rs` over a disk: `get_or_create` with the
migration of legacy files, the strict reader and the repair, `save`, `flush_all`,
`invalidate` and `delete_session`.

The cache is kept by the key of the session, the files by `safe_key`, which replaces
characters and trims (`safe_filename` of `crates/utils/src/helpers.rs`). So two keys are
independent of each other exactly if their safe keys differ
(`independent_iff_safeKey_ne`).

Reading and writing JSON and times is third-party code (`Codec`); which calls of the
operating system fail is an input (`Io`).
-/

namespace HiveClaw.Sessions

/-! ## Names -/

-- `UNSAFE_CHARS`
def unsafeChars : List Char := ['<', '>', ':', '"', '/', '\\', '|', '?', '*']

-- `safe_filename`
def safeFilename (name : String) : String :=
  RustStr.trim (String.ofList (name.toList.map fun c => if c ∈ unsafeChars then '_' else c))

-- `safe_key`
def safeKey (key : String) : String :=
  safeFilename (String.ofList (key.toList.map fun c => if c = ':' then '_' else c))

/-- A file: its directory and its name. -/
structure Path where
  dir : String
  name : String
deriving DecidableEq, Repr

/-- The part of a name before the last dot; a dot in front does not count. -/
def fileStem (name : String) : String :=
  match rposition (fun c => c = '.') name.toList with
  | some i => if i = 0 then name else String.ofList (name.toList.take i)
  | none => name

-- `Path::with_extension`
def Path.withExtension (p : Path) (extension : String) : Path :=
  { p with name := fileStem p.name ++ "." ++ extension }

example : (Path.mk "sessions" "telegram_c.1.jsonl").withExtension "jsonl.tmp" =
    ⟨"sessions", "telegram_c.1.jsonl.tmp"⟩ := by decide +kernel

/-! ## The disk -/

/-- The lines of a file; `none` is a line that cannot be read as text. -/
abbrev FileText := List (Option String)

/-- `serde_json::to_string`, `serde_json::from_str`, `DateTime::to_rfc3339` and what
`parse_isoformat` tries of `chrono`. -/
structure Codec where
  toJson : Json → String
  fromJson : String → Option Json
  toRfc3339 : DateTime → String
  parseIsoformat : String → Option DateTime

/-- How a `save` ends: a call fails, the writing after some lines, or none does. -/
inductive SaveEnd where
  | createFails
  | writeFails (lines : Nat)
  | renameFails
  | saved
deriving DecidableEq, Repr

/-- The clock and which calls of the operating system succeed. -/
structure Io where
  now : DateTime := 0
  migrates : Bool := true
  opens : Bool := true
  removes : Bool := true
  saveEnd : SaveEnd := .saved
deriving DecidableEq, Repr

/-- `SessionManager`, with the disk. -/
structure SessionManager where
  sessionsDir : String
  legacySessionsDir : String
  cache : HashMap String (Session Json) := ∅
  files : HashMap Path FileText

namespace SessionManager

/-- The name of the file for a key. -/
def fileName (key : String) : String := safeKey key ++ ".jsonl"

-- `session_path`
def sessionPath (m : SessionManager) (key : String) : Path := ⟨m.sessionsDir, fileName key⟩

-- `legacy_session_path`
def legacySessionPath (m : SessionManager) (key : String) : Path :=
  ⟨m.legacySessionsDir, fileName key⟩

/-! ## Reading -/

structure Reading where
  messages : List Json := []
  metadata : HashMap String Json := ∅
  createdAt : Option DateTime := none
  updatedAt : Option DateTime := none
  lastConsolidated : Nat := 0

def Reading.add (codec : Codec) (r : Reading) (data : Json) : Reading :=
  if data.getStr "_type" = some "metadata" then
    { r with
      metadata := match (data.get "metadata").bind Json.asObject with
        | some fields => .collect fields
        | none => r.metadata
      createdAt := (data.getStr "created_at").bind codec.parseIsoformat
      updatedAt := (data.getStr "updated_at").bind codec.parseIsoformat
      lastConsolidated := ((data.get "last_consolidated").bind Json.asU64).getD 0 }
  else { r with messages := r.messages ++ [data] }

/-- The session of what was collected. -/
def Reading.session (r : Reading) (key : String) (now : DateTime) : Session Json :=
  { key
    messages := r.messages
    createdAt := r.createdAt.getD now
    updatedAt := r.updatedAt.getD now
    metadata := r.metadata
    lastConsolidated := r.lastConsolidated }

/-- The loop of `read_strict`. -/
def readLines (codec : Codec) : Reading → FileText → Option Reading
  | r, [] => some r
  | _, none :: _ => none
  | r, some line :: rest =>
    let line := RustStr.trim line
    if line = "" then readLines codec r rest
    else
      match codec.fromJson line with
      | some data => readLines codec (r.add codec data) rest
      | none => none

/-- The loop of `repair`. -/
def repairLines (codec : Codec) : Reading → FileText → Reading
  | r, [] => r
  | r, none :: _ => r
  | r, some line :: rest =>
    let line := RustStr.trim line
    if line = "" then repairLines codec r rest
    else
      match codec.fromJson line with
      | some data => repairLines codec (r.add codec data) rest
      | none => repairLines codec r rest

-- `repair`
def repair (codec : Codec) (io : Io) (key : String) (text : FileText) : Option (Session Json) :=
  if io.opens then
    let r := repairLines codec {} text
    if r.messages.isEmpty && r.metadata.entries.isEmpty then none else some (r.session key io.now)
  else none

/-- `read_strict`, and `repair` if it fails. -/
def readSession (codec : Codec) (io : Io) (key : String) (text : FileText) :
    Option (Session Json) :=
  match (if io.opens then readLines codec {} text else none) with
  | some r => some (r.session key io.now)
  | none => repair codec io key text

-- `migrate_legacy`
def migrateLegacy (m : SessionManager) (io : Io) (key : String) : SessionManager :=
  match m.files.lookup (m.legacySessionPath key) with
  | none => m
  | some text =>
    if io.migrates then
      { m with files := (m.files.erase (m.legacySessionPath key)).insert (m.sessionPath key) text }
    else m

/-- `load`: the session, and the disk after the migration. -/
def load (codec : Codec) (io : Io) (m : SessionManager) (key : String) :
    Option (Session Json) × SessionManager :=
  let m := if (m.files.lookup (m.sessionPath key)).isNone then m.migrateLegacy io key else m
  ((m.files.lookup (m.sessionPath key)).bind (readSession codec io key), m)

/-! ## The operations -/

-- `get_or_create`
def getOrCreate (codec : Codec) (io : Io) (m : SessionManager) (key : String) :
    Session Json × SessionManager :=
  match m.cache.lookup key with
  | some s => (s, m)
  | none =>
    let (loaded, m) := m.load codec io key
    let session := loaded.getD { key, createdAt := io.now, updatedAt := io.now }
    (session, { m with cache := m.cache.insert key session })

/-- The lines that `save` writes. -/
def fileLines (codec : Codec) (s : Session Json) : FileText :=
  (Json.obj [("_type", .str "metadata"), ("key", .str s.key),
      ("created_at", .str (codec.toRfc3339 s.createdAt)),
      ("updated_at", .str (codec.toRfc3339 s.updatedAt)),
      ("metadata", .obj (s.metadata.entries.map fun e => (e.1, e.2))),
      ("last_consolidated", .num (.int s.lastConsolidated))] :: s.messages).map
    fun data => some (codec.toJson data)

/-- `save`: whether it succeeds, and the manager after it. -/
def save (codec : Codec) (io : Io) (m : SessionManager) (s : Session Json) :
    Bool × SessionManager :=
  let path := m.sessionPath s.key
  let tmpPath := path.withExtension "jsonl.tmp"
  match io.saveEnd with
  | .createFails => (false, m)
  | .writeFails n => (false, { m with files := m.files.insert tmpPath ((fileLines codec s).take n) })
  | .renameFails => (false, { m with files := m.files.erase tmpPath })
  | .saved =>
    (true, { m with
      files := (m.files.erase tmpPath).insert path (fileLines codec s)
      cache := m.cache.insert s.key s })

-- `invalidate`
def invalidate (m : SessionManager) (key : String) : SessionManager :=
  { m with cache := m.cache.erase key }

-- `delete_session`
def deleteSession (io : Io) (m : SessionManager) (key : String) : Bool × SessionManager :=
  let m := m.invalidate key
  if (m.files.lookup (m.sessionPath key)).isNone then (false, m)
  else if io.removes then (true, { m with files := m.files.erase (m.sessionPath key) })
  else (false, m)

/-- `flush_all`; `rank` is the order in which the cache is iterated. -/
def flushAll (codec : Codec) (rank : String → Nat) (io : String → Io) (m : SessionManager) :
    SessionManager :=
  (hashOrder rank m.cache.keys).foldl
    (fun m key =>
      match m.cache.lookup key with
      | some s => (m.save codec (io key) s).2
      | none => m)
    m

end SessionManager

/-! ## Sequences of operations -/

inductive Op where
  | getOrCreate (key : String)
  | save (s : Session Json)
  | invalidate (key : String)
  | deleteSession (key : String)

def Op.key : Op → String
  | .getOrCreate key | .invalidate key | .deleteSession key => key
  | .save s => s.key

/-- The manager after the operation. -/
def Op.step (codec : Codec) (io : Io) (m : SessionManager) : Op → SessionManager
  | .getOrCreate key => (m.getOrCreate codec io key).2
  | .save s => (m.save codec io s).2
  | .invalidate key => m.invalidate key
  | .deleteSession key => (m.deleteSession io key).2

/-- The manager after a sequence of operations. -/
def run (codec : Codec) (m : SessionManager) (ops : List (Op × Io)) : SessionManager :=
  ops.foldl (fun m op => op.1.step codec op.2 m) m

theorem flushAll_eq_run (codec : Codec) (rank : String → Nat) (io : String → Io)
    (m : SessionManager) :
    ∃ ops : List (Op × Io), (∀ op ∈ ops, ∃ s, op.1 = .save s) ∧
      m.flushAll codec rank io = run codec m ops := by
  unfold SessionManager.flushAll
  generalize hashOrder rank m.cache.keys = keys
  induction keys generalizing m with
  | nil => exact ⟨[], nofun, rfl⟩
  | cons key keys ih =>
    rw [List.foldl_cons]
    cases m.cache.lookup key with
    | none => exact ih m
    | some s =>
      obtain ⟨ops, hops, hrun⟩ := ih (m.save codec (io key) s).2
      refine ⟨(.save s, io key) :: ops, ?_, hrun⟩
      intro op hop
      rcases List.mem_cons.mp hop with rfl | hop
      · exact ⟨s, rfl⟩
      · exact hops op hop

/-! ## What an operation touches -/

section Frame

variable {codec : Codec} {io : Io} {m : SessionManager}

/-- Files with other names are as before, and so are the directories. -/
def Untouched (names : List String) (m m' : SessionManager) : Prop :=
  m'.sessionsDir = m.sessionsDir ∧ m'.legacySessionsDir = m.legacySessionsDir ∧
    ∀ p : Path, p.name ∉ names → m'.files.lookup p = m.files.lookup p

theorem Untouched.refl (names : List String) (m : SessionManager) : Untouched names m m :=
  ⟨rfl, rfl, fun _ _ => rfl⟩

/-- The name of the file that a `save` writes before it renames it. -/
def tmpName (key : String) : String :=
  fileStem (SessionManager.fileName key) ++ "." ++ "jsonl.tmp"

/-- The names of the files that belong to a key. -/
def ownNames (key : String) : List String := [SessionManager.fileName key, tmpName key]

variable {files : HashMap Path FileText} {p q : Path}

theorem lookup_insert_of_ne {text : FileText} (h : q.name ≠ p.name) :
    (files.insert p text).lookup q = files.lookup q :=
  AList.lookup_insert_ne fun heq => h (congrArg Path.name heq)

theorem lookup_erase_of_ne (h : q.name ≠ p.name) : (files.erase p).lookup q = files.lookup q :=
  AList.lookup_erase_ne fun heq => h (congrArg Path.name heq)

@[simp] theorem name_sessionPath (key : String) :
    (m.sessionPath key).name = SessionManager.fileName key := rfl

@[simp] theorem name_legacySessionPath (key : String) :
    (m.legacySessionPath key).name = SessionManager.fileName key := rfl

@[simp] theorem name_tmpPath (key : String) :
    ((m.sessionPath key).withExtension "jsonl.tmp").name = tmpName key := rfl

variable {key : String}

/-- Writing or removing a file of a key leaves the files with other names alone. -/
theorem lookup_of_other (hp : p.name ∉ ownNames key) (q : Path) (hq : q.name ∈ ownNames key)
    (files : HashMap Path FileText) :
    (∀ text, (files.insert q text).lookup p = files.lookup p) ∧
      (files.erase q).lookup p = files.lookup p := by
  have hne : p.name ≠ q.name := fun h => hp (h ▸ hq)
  exact ⟨fun _ => lookup_insert_of_ne hne, lookup_erase_of_ne hne⟩

theorem sessionPath_own (key : String) : (m.sessionPath key).name ∈ ownNames key := by
  rw [name_sessionPath]
  exact List.mem_cons_self

theorem legacySessionPath_own (key : String) : (m.legacySessionPath key).name ∈ ownNames key := by
  rw [name_legacySessionPath]
  exact List.mem_cons_self

theorem tmpPath_own (key : String) :
    ((m.sessionPath key).withExtension "jsonl.tmp").name ∈ ownNames key := by
  rw [name_tmpPath]
  exact List.mem_cons_of_mem _ List.mem_cons_self

theorem untouched_load (key : String) : Untouched (ownNames key) m (m.load codec io key).2 := by
  unfold SessionManager.load SessionManager.migrateLegacy
  dsimp only
  split
  · split
    · exact .refl _ m
    · split
      · refine ⟨rfl, rfl, fun p hp => ?_⟩
        exact ((lookup_of_other hp _ (sessionPath_own key) _).1 _).trans
          (lookup_of_other hp _ (legacySessionPath_own key) _).2
      · exact .refl _ m
  · exact .refl _ m

theorem untouched_step (op : Op) : Untouched (ownNames op.key) m (op.step codec io m) := by
  cases op with
  | getOrCreate key =>
    show Untouched _ m (m.getOrCreate codec io key).2
    unfold SessionManager.getOrCreate
    split
    · exact .refl _ m
    · exact untouched_load key
  | save s =>
    show Untouched (ownNames s.key) m (m.save codec io s).2
    unfold SessionManager.save
    cases io.saveEnd with
    | createFails => exact .refl _ m
    | writeFails n =>
      exact ⟨rfl, rfl, fun p hp => (lookup_of_other hp _ (tmpPath_own s.key) _).1 _⟩
    | renameFails =>
      exact ⟨rfl, rfl, fun p hp => (lookup_of_other hp _ (tmpPath_own s.key) _).2⟩
    | saved =>
      refine ⟨rfl, rfl, fun p hp => ?_⟩
      exact ((lookup_of_other hp _ (sessionPath_own s.key) _).1 _).trans
        (lookup_of_other hp _ (tmpPath_own s.key) _).2
  | invalidate key => exact ⟨rfl, rfl, fun _ _ => rfl⟩
  | deleteSession key =>
    show Untouched (ownNames key) m (m.deleteSession io key).2
    unfold SessionManager.deleteSession
    dsimp only
    split
    · exact ⟨rfl, rfl, fun _ _ => rfl⟩
    · split
      · exact ⟨rfl, rfl, fun p hp => (lookup_of_other hp _ (sessionPath_own key) _).2⟩
      · exact ⟨rfl, rfl, fun _ _ => rfl⟩

theorem files_migrateLegacy (key : String) :
    (m.migrateLegacy io key).files.lookup (m.sessionPath key) =
      match m.files.lookup (m.legacySessionPath key) with
      | none => m.files.lookup (m.sessionPath key)
      | some text => if io.migrates then some text else m.files.lookup (m.sessionPath key) := by
  unfold SessionManager.migrateLegacy
  cases m.files.lookup (m.legacySessionPath key) with
  | none => rfl
  | some text =>
    dsimp only
    split
    · exact AList.lookup_insert _
    · rfl

theorem load_eq (key : String) :
    (m.load codec io key).1 =
      match m.files.lookup (m.sessionPath key), m.files.lookup (m.legacySessionPath key) with
      | some text, _ => SessionManager.readSession codec io key text
      | none, some text => if io.migrates then SessionManager.readSession codec io key text else none
      | none, none => none := by
  have hpath : (m.migrateLegacy io key).sessionPath key = m.sessionPath key := by
    unfold SessionManager.migrateLegacy
    split
    · rfl
    · split <;> rfl
  unfold SessionManager.load
  cases hfile : m.files.lookup (m.sessionPath key) with
  | some text => simp [hfile]
  | none =>
    rw [if_pos (by rfl)]
    dsimp only
    rw [hpath, files_migrateLegacy, hfile]
    cases m.files.lookup (m.legacySessionPath key) with
    | none => rfl
    | some text =>
      dsimp only
      split <;> rfl

theorem lookup_deleteSession (io : Io) (hremoves : io.removes = true) (key : String) :
    (m.deleteSession io key).2.files.lookup (m.sessionPath key) = none := by
  have hpath : (m.invalidate key).sessionPath key = m.sessionPath key := rfl
  unfold SessionManager.deleteSession
  dsimp only
  split
  case isTrue hnone =>
    rw [hpath] at hnone
    exact Option.isNone_iff_eq_none.mp hnone
  case isFalse =>
    exact AList.lookup_erase (m.sessionPath key) _

theorem load_congr {m' : SessionManager} {names : List String} (h : Untouched names m m')
    (hname : SessionManager.fileName key ∉ names) :
    (m'.load codec io key).1 = (m.load codec io key).1 := by
  obtain ⟨hdir, hlegacy, hfiles⟩ := h
  have hpath : m'.sessionPath key = m.sessionPath key := by
    simp only [SessionManager.sessionPath, hdir]
  have hlegacyPath : m'.legacySessionPath key = m.legacySessionPath key := by
    simp only [SessionManager.legacySessionPath, hlegacy]
  rw [load_eq, load_eq, hpath, hlegacyPath, hfiles (m.sessionPath key) hname,
    hfiles (m.legacySessionPath key) hname]

end Frame

/-! ## Independent keys -/

variable {a b : String}

theorem fileName_inj :
    SessionManager.fileName a = SessionManager.fileName b ↔ safeKey a = safeKey b := by
  simp only [SessionManager.fileName, ← String.toList_inj, String.toList_append,
    List.append_cancel_right_eq]

theorem fileName_ne_tmpName (a b : String) : SessionManager.fileName b ≠ tmpName a := by
  intro h
  have hlast := congrArg (fun s : String => s.toList.getLast?) h
  simp only [SessionManager.fileName, tmpName, String.toList_append, List.append_assoc] at hlast
  rw [List.getLast?_append_of_ne_nil _ (by decide)] at hlast
  rw [List.getLast?_append_of_ne_nil _ (by decide)] at hlast
  exact absurd hlast (by decide)

theorem fileName_not_mem_ownNames (h : safeKey a ≠ safeKey b) :
    SessionManager.fileName b ∉ ownNames a := by
  intro hmem
  rcases List.mem_cons.mp hmem with heq | hmem
  · exact h (fileName_inj.mp heq).symm
  · exact fileName_ne_tmpName a b (List.mem_singleton.mp hmem)

/-- Operations on `a`, wherever they stand in a sequence, change neither what a fresh load
of `b` returns nor the files it reads. -/
def Independent (codec : Codec) (a b : String) : Prop :=
  ∀ (m : SessionManager) (ops : List (Op × Io)) (op : Op) (io : Io), op.key = a →
    (∀ i : Io, (((run codec m (ops ++ [(op, io)])).load codec i b).1 =
      ((run codec m ops).load codec i b).1)) ∧
    (run codec m (ops ++ [(op, io)])).files.lookup (m.sessionPath b) =
      (run codec m ops).files.lookup (m.sessionPath b)

theorem run_append (codec : Codec) (m : SessionManager) (ops : List (Op × Io)) (op : Op) (io : Io) :
    run codec m (ops ++ [(op, io)]) = op.step codec io (run codec m ops) := by
  simp [run]

/-- A manager whose only file is an empty one for a key. -/
def emptyFileFor (key : String) : SessionManager :=
  { sessionsDir := "sessions", legacySessionsDir := "legacy"
    files := AList.insert ⟨"sessions", SessionManager.fileName key⟩ [] ∅ }

theorem lookup_emptyFileFor (key : String) :
    (emptyFileFor key).files.lookup ((emptyFileFor key).sessionPath key) = some [] :=
  AList.lookup_insert _

theorem not_independent {codec : Codec} (hsafe : safeKey a = safeKey b) {m : SessionManager}
    {text : FileText} (hfile : m.files.lookup (m.sessionPath b) = some text) :
    ¬ Independent codec a b := by
  intro h
  have hload := (h m [] (.deleteSession a) {} rfl).2
  have hpath : m.sessionPath a = m.sessionPath b := by
    simp only [SessionManager.sessionPath, fileName_inj.mpr hsafe]
  have hgone := lookup_deleteSession (m := m) {} rfl a
  rw [hpath] at hgone
  rw [run_append] at hload
  exact absurd (hgone.symm.trans (hload.trans hfile)) nofun

/-- Two keys are independent exactly if their safe keys differ. -/
theorem independent_iff_safeKey_ne (codec : Codec) (a b : String) :
    Independent codec a b ↔ safeKey a ≠ safeKey b := by
  constructor
  · intro h hsafe
    exact not_independent hsafe (lookup_emptyFileFor b) h
  · intro hsafe m ops op io hkey
    rw [run_append]
    have huntouched : Untouched (ownNames a) (run codec m ops)
        (op.step codec io (run codec m ops)) := hkey ▸ untouched_step op
    have hname := fileName_not_mem_ownNames hsafe
    exact ⟨fun i => load_congr huntouched hname, huntouched.2.2 _ hname⟩

/-- The first line of a file for `cli_a`. -/
def cliLine : String := "\x7b\"_type\":\"metadata\",\"key\":\"cli_a\"\x7d"

/-- A reader and writer of that line. -/
def cliCodec : Codec :=
  { toJson := fun _ => cliLine
    fromJson := fun line =>
      if line = cliLine then some (.obj [("_type", .str "metadata"), ("key", .str "cli_a")])
      else none
    toRfc3339 := fun _ => ""
    parseIsoformat := fun _ => none }

/-- The session `cli_a` is on disk; `delete_session` of `cli:a` removes it. -/
theorem delete_removes_other :
    let m : SessionManager :=
      { sessionsDir := "sessions", legacySessionsDir := "legacy"
        files := AList.insert ⟨"sessions", "cli_a.jsonl"⟩ [some cliLine] ∅ }
    let after := run cliCodec m [(.deleteSession "cli:a", {})]
    "cli:a" ≠ "cli_a" ∧ (m.load cliCodec {} "cli_a").1.isSome = true ∧
      (after.load cliCodec {} "cli_a").1.isSome = false ∧
      after.files.lookup (m.sessionPath "cli_a") = none ∧
      ¬ Independent cliCodec "cli:a" "cli_a" := by
  refine ⟨by decide, by decide +kernel, by decide +kernel, by decide +kernel, ?_⟩
  exact not_independent (by decide +kernel) (lookup_emptyFileFor "cli_a")

end HiveClaw.Sessions
