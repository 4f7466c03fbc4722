import HiveClaw.Runtime.SensitiveFilter
import HiveClaw.Store.Autocommit

/-!
# Sensitive words and the refresh of the filter

`create_sensitive_word`, `update_sensitive_word`, `delete_sensitive_word` and
`SensitiveFilter::refresh_cache` of
`crates/hiveweb/src/services/sensitive_filter.rs`, over the table
`sensitive_words` (migration V025) and the filter in the memory of the process.

The filter is three values behind a lock each: the patterns, the automaton and the
list of the exact words. `build_matchers` computes them from the rows it is given
and replaces them one after another, so every replacement is a statement of its
own. The columns with the times are left out. Regular expressions and
Aho-Corasick automata are third-party code (`Engine`).
-/

namespace HiveClaw.SensitiveWords

open Lib Autocommit

/-! ## The table -/

-- `SensitiveWord`
structure SensitiveWord where
  id : Int
  word : String
  matchMode : String
  enabled : Bool
deriving DecidableEq, Repr

/-- The table `sensitive_words`. -/
structure WordTable where
  rows : List SensitiveWord
  autoIncrement : Int
deriving DecidableEq, Repr

namespace WordTable

-- `SELECT … WHERE id = ?`
def byId (t : WordTable) (id : Int) : Option SensitiveWord := t.rows.find? fun r => r.id = id

-- `SELECT … WHERE enabled = 1`
def enabledRows (t : WordTable) : List SensitiveWord := t.rows.filter (·.enabled)

/-- Another row than `id` has the key `(word, match_mode)`. -/
def taken (t : WordTable) (m : Mysql) (word matchMode : String) (id : Option Int) : Bool :=
  t.rows.any fun r => some r.id ≠ id && m.collationKey r.word = m.collationKey word &&
    m.collationKey r.matchMode = m.collationKey matchMode

end WordTable

inductive Write where
  | insert (word matchMode : String)
  | update (id : Int) (word matchMode : String) (enabled : Bool)
  | delete (id : Int)
deriving DecidableEq, Repr

namespace Write

def duplicateEntry : String := "Duplicate entry for key 'sensitive_words.uk_word_mode'"

def dataTooLong : String := "Data too long for column 'word'"

/-- The statement's answer, `last_insert_id` or `rows_affected`, and the table after
it. -/
def apply (m : Mysql) (t : WordTable) : Write → Except String (Int × WordTable)
  | .insert word matchMode =>
    if t.taken m word matchMode none then .error duplicateEntry
    else .ok (t.autoIncrement,
      { rows := t.rows ++ [{ id := t.autoIncrement, word, matchMode, enabled := true }]
        autoIncrement := t.autoIncrement + 1 })
  | .update id word matchMode enabled =>
    if (t.byId id).isSome && word.length > 512 then .error dataTooLong
    else if (t.byId id).isSome && t.taken m word matchMode (some id) then .error duplicateEntry
    else .ok (t.rows.countP (fun r => r.id = id),
      { t with rows := t.rows.map fun r =>
          if r.id = id then { id, word, matchMode, enabled } else r })
  | .delete id =>
    .ok (t.rows.countP (fun r => r.id = id), { t with rows := t.rows.filter fun r => r.id ≠ id })

/-- Whether the function refreshes the filter after the statement: the deletion of
nothing does not count. -/
def refreshes : Write → Int → Bool
  | .delete _, rowsAffected => rowsAffected > 0
  | _, _ => true

end Write

/-! ## The filter -/

/-- The crates `regex` and `aho_corasick`: `Regex::new`, a `RegexBuilder` with
`size_limit(1024 * 1024)`, and `AhoCorasick::new`, each with what it computes. -/
structure Engine where
  regexNew : String → Except String Unit
  buildRegex : String → Option (String → Bool)
  ahoCorasick : List String → Option (String → Bool)

/-- `build_matchers`: the patterns. -/
def patternsOf (e : Engine) (rows : List SensitiveWord) : List Runtime.SensitivePattern :=
  rows.filterMap fun row =>
    if row.matchMode = "regex" then
      (e.buildRegex row.word).map fun re => .regex row.id row.word re
    else some (.exact row.id row.word)

/-- `build_matchers`: the exact words. -/
def exactTuples (rows : List SensitiveWord) : List (Int × String) :=
  rows.filterMap fun row =>
    if row.matchMode = "regex" then none else some (row.id, row.word)

/-- `build_matchers`: the automaton. -/
def automatonOf (e : Engine) (rows : List SensitiveWord) : Option (String → Bool) :=
  let tuples := exactTuples rows
  if tuples.isEmpty then none else e.ahoCorasick (tuples.map (·.2))

/-- The table, and the filter of the process. -/
structure WordStore where
  table : WordTable
  filter : Runtime.SensitiveFilter
  exactWords : List (Int × String)

/-- The three values of the filter. -/
inductive Part where
  | patterns
  | ac
  | exactWords
deriving DecidableEq, Repr

namespace WordStore

/-- One of the three values is replaced. -/
def install (e : Engine) (rows : List SensitiveWord) (s : WordStore) : Part → WordStore
  | .patterns => { s with filter := { s.filter with patterns := patternsOf e rows } }
  | .ac => { s with filter := { s.filter with ac := automatonOf e rows } }
  | .exactWords => { s with exactWords := exactTuples rows }

/-- The value is the one built from these rows. -/
def BuiltFrom (e : Engine) (rows : List SensitiveWord) (s : WordStore) : Part → Prop
  | .patterns => s.filter.patterns = patternsOf e rows
  | .ac => s.filter.ac = automatonOf e rows
  | .exactWords => s.exactWords = exactTuples rows

@[simp] theorem install_table (e : Engine) (rows : List SensitiveWord) (s : WordStore)
    (part : Part) : (s.install e rows part).table = s.table := by
  cases part <;> rfl

theorem builtFrom_install (e : Engine) (rows : List SensitiveWord) (s : WordStore) (part : Part) :
    (s.install e rows part).BuiltFrom e rows part := by
  cases part <;> rfl

/-- Replacing one of the values leaves the others alone. -/
theorem builtFrom_install_ne {e : Engine} {rows rows' : List SensitiveWord} {s : WordStore}
    {part part' : Part} (hne : part' ≠ part) :
    (s.install e rows part).BuiltFrom e rows' part' ↔ s.BuiltFrom e rows' part' := by
  cases part <;> cases part' <;> first | exact absurd rfl hne | exact Iff.rfl

end WordStore

/-! ## Statements -/

/-- The label of a statement; a write and a replacement carry what they write. -/
inductive WordStmt where
  | select
  | write (w : Write)
  | selectEnabled
  | install (rows : List SensitiveWord) (part : Part)
deriving DecidableEq, Repr

/-- A function over the table and the filter. -/
abbrev WordM (ε α : Type) := Autocommit WordStmt WordStore ε α

variable {ε : Type}

/-- A statement that writes the table. -/
def write (m : Mysql) (w : Write) : WordM String Int :=
  execute (.write w) fun s => do
    let (answer, table) ← w.apply m s.table
    pure (answer, { s with table })

-- `build_matchers`
def buildMatchers (e : Engine) (rows : List SensitiveWord) : WordM ε Unit := do
  inMemory (.install rows .patterns) fun s => s.install e rows .patterns
  inMemory (.install rows .ac) fun s => s.install e rows .ac
  inMemory (.install rows .exactWords) fun s => s.install e rows .exactWords

/-- `load_from_db`, `refresh_cache`. -/
def refreshCache (e : Engine) : WordM String Unit := do
  let rows ← query .selectEnabled fun s => s.table.enabledRows
  buildMatchers e rows

/-! ## The functions -/

-- `CreateSensitiveWordRequest`
structure CreateSensitiveWordRequest where
  word : String
  matchMode : String := "exact"
deriving DecidableEq, Repr

-- `UpdateSensitiveWordRequest`
structure UpdateSensitiveWordRequest where
  word : Option String
  matchMode : Option String
  enabled : Option Bool
deriving DecidableEq, Repr

inductive WordResponse where
  | word (row : SensitiveWord)
  | deleted (b : Bool)
deriving DecidableEq, Repr

/-- The checks that `create_sensitive_word` and `update_sensitive_word` share. -/
def checkMatchMode (e : Engine) (word matchMode : String) : WordM AppError Unit := do
  failIf (matchMode ≠ "exact" ∧ matchMode ≠ "regex")
    (.badRequest "match_mode 必须为 exact 或 regex")
  if matchMode = "regex" then
    match e.regexNew word with
    | .ok _ => pure ()
    | .error err => throw (.badRequest ("正则表达式无效: " ++ err))
  else pure ()

/-- The error of a write that failed. -/
def writeError (what msg : String) : AppError :=
  if RustStr.contains msg "Duplicate" then .badRequest "该敏感词已存在"
  else .internal (what ++ msg)

-- `create_sensitive_word`
def createSensitiveWord (e : Engine) (m : Mysql) (req : CreateSensitiveWordRequest) :
    WordM AppError WordResponse := do
  let word := RustStr.trim req.word
  failIf (word = "") (.badRequest "敏感词不能为空")
  failIf (word.utf8ByteSize > 512) (.badRequest "敏感词不能超过512个字符")
  checkMatchMode e word req.matchMode
  let id ← ExceptT.adapt (writeError "create sensitive word: ")
    (write m (.insert word req.matchMode))
  -- an error of the refresh is only logged
  let _ ← attempt (refreshCache e)
  let row ← ExceptT.adapt (fun err => .internal ("fetch created word: " ++ err))
    (fetchOne .select fun s => s.table.byId id)
  pure (.word row)

-- `update_sensitive_word`
def updateSensitiveWord (e : Engine) (m : Mysql) (id : Int) (req : UpdateSensitiveWordRequest) :
    WordM AppError WordResponse := do
  let existing ← ExceptT.adapt (fun err => .internal ("fetch sensitive word: " ++ err))
    (query .select fun s => s.table.byId id)
  let existing ← okOr existing (.badRequest "敏感词不存在")
  let word := RustStr.trim (req.word.getD existing.word)
  failIf (word = "") (.badRequest "敏感词不能为空")
  let matchMode := req.matchMode.getD existing.matchMode
  checkMatchMode e word matchMode
  let enabled := req.enabled.getD existing.enabled
  let _ ← ExceptT.adapt (writeError "update sensitive word: ")
    (write m (.update id word matchMode enabled))
  let _ ← attempt (refreshCache e)
  let row ← ExceptT.adapt (fun err => .internal ("fetch updated word: " ++ err))
    (fetchOne .select fun s => s.table.byId id)
  pure (.word row)

-- `delete_sensitive_word`
def deleteSensitiveWord (e : Engine) (m : Mysql) (id : Int) : WordM AppError WordResponse := do
  let rowsAffected ← ExceptT.adapt (fun err => .internal ("delete sensitive word: " ++ err))
    (write m (.delete id))
  if rowsAffected > 0 then
    let _ ← attempt (refreshCache e)
    pure (.deleted true)
  else pure (.deleted false)

/-- A request to one of the three. -/
inductive WordRequest where
  | create (req : CreateSensitiveWordRequest)
  | update (id : Int) (req : UpdateSensitiveWordRequest)
  | delete (id : Int)
deriving DecidableEq, Repr

/-- The function that handles a request. -/
def handle (e : Engine) (m : Mysql) : WordRequest → WordM AppError WordResponse
  | .create req => createSensitiveWord e m req
  | .update id req => updateSensitiveWord e m id req
  | .delete id => deleteSensitiveWord e m id

/-- Requests on the sensitive words, interleaved statement by statement. -/
def wordSystem (e : Engine) (m : Mysql) :
    System WordRequest WordStmt (Option String) WordStore (Except AppError WordResponse) Empty where
  program := fun _ r => (handle e m r).run
  outside := fun _ s => s

end HiveClaw.SensitiveWords
