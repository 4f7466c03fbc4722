import HiveClaw.Turns.SaveTurn

/-!
# The history of the memory store

`MemoryStore` of `crates/agent/src/memory.rs` as far as `history.jsonl` goes: `append_history`,
`next_cursor`, `read_unprocessed_history` and `compact_history`, and what `MemoryDream::run`
does to it.

A dream reads its batch, works on it with the model for as long as it takes, and then advances
the dream cursor and compacts the history. The two ends of a dream are steps of their own, so
entries may be appended while a dream is under way and dreams may overlap.

Reading and writing JSON is third-party code (`HistoryEnv`), as is `strip_think`; which calls
of the operating system fail is an input. Cursors are unbounded here; the source has 64 bits.
-/

namespace HiveClaw.Memory

-- `HISTORY_ENTRY_HARD_CAP`
def historyEntryHardCap : Nat := 64000

/-- What the store needs of other code, and the configuration of the dreams. -/
structure HistoryEnv where
  /-- `serde_json::to_string`. -/
  toJson : Json → String
  /-- `serde_json::from_str`. -/
  fromJson : String → Option Json
  stripThink : String → String
  maxBatchSize : Nat

/-- `MemoryStore`: the history file, as its complete lines and what follows the last line
break, and the numbers in the cursor files as far as they can be read. -/
structure MemoryStore where
  maxHistoryEntries : Nat
  lines : List String := []
  tail : String := ""
  cursorFile : Option Int := none
  dreamCursorFile : Option Int := none

/-- How `std::fs::write` ends: the file may be empty after a failure. -/
inductive WriteEnd where
  | written
  | failed
  | truncated
deriving DecidableEq, Repr

/-- The number in a file after a write. -/
def WriteEnd.apply (e : WriteEnd) (old : Option Int) (new : Int) : Option Int :=
  match e with
  | .written => some new
  | .failed => old
  | .truncated => none

/-- How the writes of `append_history` end: the history cannot be opened, the line is torn
after some characters, or it is written and then the cursor. -/
inductive AppendEnd where
  | notOpened
  | torn (chars : Nat)
  | appended (cursor : WriteEnd)
deriving DecidableEq, Repr

/-- `valid_cursor` of an entry. -/
def validCursor (entry : Json) : Option Int := (entry.get "cursor").bind Json.asI64

/-- The record that `append_history` writes. -/
def historyRecord (cursor : Int) (timestamp content : String) : Json :=
  .obj [("cursor", .num (.int cursor)), ("timestamp", .str timestamp), ("content", .str content)]

namespace MemoryStore

variable (env : HistoryEnv) (m : MemoryStore)

def textLines : List String := m.lines ++ if m.tail = "" then [] else [m.tail]

-- `read_entries`
def readEntries : List Json :=
  (m.textLines.filter fun line => RustStr.trim line ≠ "").filterMap env.fromJson

-- `iter_valid_entries`
def validEntries : List (Json × Int) :=
  (m.readEntries env).filterMap fun e => (validCursor e).map fun c => (e, c)

/-- The last 4096 bytes of the history, if they are text. -/
def lastBytes : Option String :=
  let text := (m.lines.map fun line => line.toList ++ ['\n']).flatten ++ m.tail.toList
  if text.isEmpty then none
  else
    (Lib.takeBytes text (Lib.byteLen text - 4096)).map fun front =>
      String.ofList (text.drop front.length)

-- `read_last_entry`
def readLastEntry : Option Json := do
  let text ← m.lastBytes
  let line ← ((text.toList.splitOn '\n').map String.ofList).reverse.find? fun line =>
    RustStr.trim line ≠ ""
  env.fromJson line

-- `next_cursor`
def nextCursor : Int :=
  match m.cursorFile with
  | some v => v + 1
  | none =>
    match (m.readLastEntry env).bind validCursor with
    | some c => c + 1
    | none => (((m.validEntries env).map Prod.snd).max?).getD 0 + 1

-- `read_unprocessed_history`
def readUnprocessedHistory (sinceCursor : Int) : List Json :=
  ((m.validEntries env).filter fun p => p.2 > sinceCursor).map Prod.fst

-- `last_dream_cursor`
def lastDreamCursor : Int := m.dreamCursorFile.getD 0

/-- The record that `append_history` writes for an entry. -/
def recordFor (timestamp entry : String) (maxChars : Option Nat) : Json :=
  let limit := maxChars.getD historyEntryHardCap
  let raw := RustStr.trimEnd entry
  let raw := if raw.utf8ByteSize > limit then Runner.truncateText raw limit else raw
  historyRecord (m.nextCursor env) timestamp (env.stripThink raw)

/-- `append_history`: the cursor, if it succeeds, and the store. -/
def appendHistory (timestamp entry : String) (maxChars : Option Nat) (ends : AppendEnd) :
    Option Int × MemoryStore :=
  let cursor := m.nextCursor env
  let line := env.toJson (m.recordFor env timestamp entry maxChars)
  match ends with
  | .notOpened => (none, m)
  | .torn chars => (none, { m with tail := m.tail ++ RustStr.takeChars chars line })
  | .appended e =>
    (if e = .written then some cursor else none,
      { m with
        lines := m.lines ++ [m.tail ++ line]
        tail := ""
        cursorFile := e.apply m.cursorFile cursor })

/-- `compact_history`; the file is replaced as a whole or stays as it is. -/
def compactHistory (writes : Bool) : MemoryStore :=
  let entries := m.readEntries env
  if m.maxHistoryEntries = 0 || entries.length ≤ m.maxHistoryEntries || !writes then m
  else
    let kept := entries.drop (entries.length - m.maxHistoryEntries)
    { m with lines := kept.map env.toJson, tail := "" }

-- `set_last_dream_cursor`
def setLastDreamCursor (cursor : Int) (ends : WriteEnd) : MemoryStore :=
  { m with dreamCursorFile := ends.apply m.dreamCursorFile cursor }

end MemoryStore

/-! ## Dreams -/

/-- The batch of a dream and the cursor it ends with. -/
structure Batch where
  entries : List Json
  lastCursor : Int

/-- The first part of `Dream::run`: the batch, if there is anything to process. -/
def beginDream (env : HistoryEnv) (m : MemoryStore) : Option Batch :=
  let lastCursor := m.lastDreamCursor
  let entries := m.readUnprocessedHistory env lastCursor
  if entries.isEmpty then none
  else
    let batch := entries.take (min entries.length env.maxBatchSize)
    some ⟨batch, (batch.getLast?.bind validCursor).getD lastCursor⟩

/-- What a dream comes to: an error of the first phase, or the end of the second. -/
inductive DreamEnd where
  | phase1Error
  | ran (stopReason : String) (cursorEnds : WriteEnd) (compactWrites : Bool)

/-- The last part of `Dream::run`. -/
def endDream (env : HistoryEnv) (m : MemoryStore) (b : Batch) : DreamEnd → MemoryStore
  | .phase1Error => m
  | .ran stopReason cursorEnds compactWrites =>
    let m := if stopReason = "completed" then m.setLastDreamCursor b.lastCursor cursorEnds else m
    m.compactHistory env compactWrites

/-! ## Runs -/

/-- A call, or one end of a dream. -/
inductive Act where
  | append (timestamp entry : String) (maxChars : Option Nat) (ends : AppendEnd)
  | compact (writes : Bool)
  | beginDream
  | endDream (dream : Nat) (ends : DreamEnd)

/-- The store and the dreams that are under way. `appended` are the records that were written,
`dreamed` those of the batches of completed dreams. -/
structure History where
  store : MemoryStore
  dreams : List Batch := []
  appended : List Json := []
  dreamed : List Json := []

/-- The dream ends with `stop_reason` completed. -/
def DreamEnd.completed : DreamEnd → Bool
  | .phase1Error => false
  | .ran stopReason _ _ => stopReason = "completed"

def History.step (env : HistoryEnv) (h : History) : Act → History
  | .append timestamp entry maxChars ends =>
    { h with
      store := (h.store.appendHistory env timestamp entry maxChars ends).2
      appended :=
        match ends with
        | .appended _ => h.appended ++ [h.store.recordFor env timestamp entry maxChars]
        | _ => h.appended }
  | .compact writes => { h with store := h.store.compactHistory env writes }
  | .beginDream => { h with dreams := h.dreams ++ (beginDream env h.store).toList }
  | .endDream i ends =>
    match h.dreams[i]? with
    | none => h
    | some b =>
      { h with
        store := Memory.endDream env h.store b ends
        dreams := h.dreams.eraseIdx i
        dreamed := if ends.completed then h.dreamed ++ b.entries else h.dreamed }

def History.run (env : HistoryEnv) (h : History) (acts : List Act) : History :=
  acts.foldl (History.step env) h

end HiveClaw.Memory
