import HiveClaw.RustStd
import Mathlib.Algebra.Order.Group.Unbundled.Abs
import Mathlib.Algebra.Order.Ring.Rat
import Mathlib.Tactic.NormNum

/-!
# What the file tools remember

Model of `FileStates` in `crates/agent/src/tools/file_state.rs`: for each file
the range, the modification time and the hash of the last read or write. An
operation looks at the file as it is at that moment, which is the argument
`file`; paths are canonical.

Modification times are seconds as `f64`, taken as the rational numbers they
are. `Sha256` is the argument `sha256`.
-/

namespace HiveClaw

namespace Files

abbrev Path := String

/-- A regular file. The modification time is missing if the file system has none or it lies
before the epoch. -/
structure File where
  content : List UInt8
  mtime : Option ℚ

-- `ReadState`
structure ReadState where
  mtime : ℚ
  offset : Nat
  limit : Option Nat
  contentHash : Option String
  canDedup : Bool

/-- The map of `FileStates`. -/
abbrev FileStates := HashMap Path ReadState

-- `f64::EPSILON`
def epsilon : ℚ := 1 / 2 ^ 52

-- `(a - b).abs() > f64::EPSILON`
def mtimeChanged (a b : ℚ) : Bool := decide (epsilon < |a - b|)

namespace FileStates

section Hash

variable (sha256 : List UInt8 → String)

-- `record_read`
def recordRead (states : FileStates) (path : Path) (file : File) (offset : Nat)
    (limit : Option Nat) : FileStates :=
  match file.mtime with
  | none => states
  | some mtime =>
    states.insert path
      { mtime := mtime, offset := offset, limit := limit
        contentHash := some (sha256 file.content), canDedup := true }

-- `record_write`
def recordWrite (states : FileStates) (path : Path) (file : File) : FileStates :=
  match file.mtime with
  | none => states.erase path
  | some mtime =>
    states.insert path
      { mtime := mtime, offset := 1, limit := none
        contentHash := some (sha256 file.content), canDedup := false }

/-- "Warning: file has not been read yet. …" -/
def notRead : String :=
  "Warning: file has not been read yet. Read it first to verify content before editing."

/-- "Warning: file has been modified since last read. …" -/
def modified : String :=
  "Warning: file has been modified since last read. Re-read to verify content before editing."

/-- `check_read`: the warning, if there is one, and the map afterwards. -/
def checkRead (states : FileStates) (path : Path) (file : File) : Option String × FileStates :=
  match states.lookup path with
  | none => (some notRead, states)
  | some entry =>
    match file.mtime with
    | none => (none, states)
    | some current =>
      if mtimeChanged current entry.mtime then
        if entry.contentHash = some (sha256 file.content) then
          (none, states.insert path { entry with mtime := current })
        else (some modified, states)
      else if entry.contentHash.any (fun h => decide (some (sha256 file.content) ≠ some h)) then
        (some modified, states)
      else (none, states)

/-- `is_unchanged`: the answer and the map afterwards. -/
def isUnchanged (states : FileStates) (path : Path) (file : File) (offset : Nat)
    (limit : Option Nat) : Bool × FileStates :=
  match states.lookup path with
  | none => (false, states)
  | some entry =>
    if !entry.canDedup then (false, states)
    else if entry.offset ≠ offset ∨ entry.limit ≠ limit then (false, states)
    else
      match file.mtime with
      | none => (false, states)
      | some current =>
        if mtimeChanged current entry.mtime then
          if some (sha256 file.content) ≠ entry.contentHash then
            (false, states.insert path { entry with canDedup := false })
          else (true, states.insert path { entry with canDedup := false })
        else (true, states)

-- a file that does not change has the modification time that was recorded
theorem not_mtimeChanged_self (a : ℚ) : mtimeChanged a a = false := by
  have hnonneg : ¬epsilon < 0 := by norm_num [epsilon]
  rw [mtimeChanged, sub_self, abs_zero, decide_eq_false hnonneg]

theorem isUnchanged_recordRead_of_ne (states : FileStates) (path : Path) (file : File)
    {offset offset' : Nat} (hne : offset ≠ offset') (limit : Option Nat) :
    isUnchanged sha256 (recordRead sha256 states path file offset limit) path file offset' limit =
      (false, recordRead sha256 states path file offset limit) ∨ file.mtime = none := by
  cases hmtime : file.mtime with
  | none => exact Or.inr rfl
  | some mtime =>
    refine Or.inl ?_
    have hlookup : (recordRead sha256 states path file offset limit).lookup path =
        some ⟨mtime, offset, limit, some (sha256 file.content), true⟩ := by
      rw [recordRead, hmtime]
      exact AList.lookup_insert _
    simp only [isUnchanged, hlookup, Bool.not_true, Bool.false_eq_true, if_false]
    rw [if_pos (Or.inl hne)]

variable {file : File}

/-- Without a modification time, a file is read again. -/
theorem isUnchanged_of_no_mtime (states : FileStates) (path : Path) (hmtime : file.mtime = none)
    (offset : Nat) (limit : Option Nat) :
    isUnchanged sha256 states path file offset limit = (false, states) := by
  unfold isUnchanged
  cases states.lookup path with
  | none => rfl
  | some entry =>
    rw [hmtime]
    dsimp only
    split
    · rfl
    · split <;> rfl

theorem isUnchanged_recordRead_self (states : FileStates) (path : Path) {mtime : ℚ}
    (hmtime : file.mtime = some mtime) (offset : Nat) (limit : Option Nat) :
    (isUnchanged sha256 (recordRead sha256 states path file offset limit) path file offset
      limit).1 = true := by
  have hlookup : (recordRead sha256 states path file offset limit).lookup path =
      some ⟨mtime, offset, limit, some (sha256 file.content), true⟩ := by
    rw [recordRead, hmtime]
    exact AList.lookup_insert _
  simp [isUnchanged, hlookup, hmtime, not_mtimeChanged_self]

end Hash

end FileStates

end Files

end HiveClaw
