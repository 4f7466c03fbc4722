import HiveClaw.Lib.InkLines
import HiveClaw.Lib.Regex
import HiveClaw.RustStd

/-!
# The old history file

`split_legacy_history_chunks` of `crates/agent/src/memory.rs`, which cuts the text
of `HISTORY.md` into the entries that are migrated.

* `nonBlankLines_chunks` — the chunks have the lines of the text that are not
  blank, in their order.
-/

namespace HiveClaw.Memory

open Lib RustStr

-- ---
-- Where an entry starts
-- ---

-- `\d` is Unicode's class of decimal digits, a table of the regex library
variable (digit : Char → Bool)

-- `\d{n}`
def digits (n : Nat) : Regex := .chain (List.replicate n (.one digit))

-- `\s`
def space : Regex := .one isWhitespace

-- `\d{4}-\d{2}-\d{2}`
def date : Regex :=
  .chain [digits digit 4, .lit ['-'], digits digit 2, .lit ['-'], digits digit 2]

-- `[^\]]*`
def untilBracket : Regex := .star true (.one (· ≠ ']'))

-- `LEGACY_ENTRY_START`
def legacyEntryStart : Regex :=
  .chain [.textStart, .lit ['['], .group (.seq (date digit) untilBracket), .lit [']'],
    .star true space]

-- `LEGACY_TIMESTAMP`
def legacyTimestamp : Regex :=
  .chain [.textStart, .lit ['['],
    .group (.chain [date digit, .lit [' '], digits digit 2, .lit [':'], digits digit 2]),
    .lit [']'], .star true space]

-- `LEGACY_RAW_MESSAGE`
def legacyRawMessage : Regex :=
  .chain [.textStart, .lit ['['], date digit, untilBracket, .lit [']'], .run isWhitespace,
    .one Char.isUpper, .star true (.one fun c => c.isUpper || c.isDigit || c == '_'),
    .opt (.chain [.run isWhitespace, .lit "[tools:".toList, .star true space,
      .run (· ≠ ']'), .lit [']']]),
    .lit [':']]

/-- `Regex::is_match` for a pattern that starts with `^`. -/
def isMatch (r : Regex) (text : List Char) : Bool := (r.matchAt text.length text).isSome

/-- The line is blank: `line.trim().is_empty()`. -/
def isBlank (line : List Char) : Bool := trimBlank isWhitespace line = []

-- `is_raw_legacy_chunk`
def isRawLegacyChunk (lines : List (List Char)) : Bool :=
  let first := (lines.find? fun l => !isBlank l).getD []
  match (legacyTimestamp digit).matchAt first.length first with
  | none => false
  | some m => "[RAW]".toList.isPrefixOf (m.rest.dropWhile isWhitespace)

-- `should_start_new_legacy_chunk`
def shouldStartNewLegacyChunk (line : List Char) (current : List (List Char)) : Bool :=
  if current.isEmpty then false
  else if !isMatch (legacyEntryStart digit) line then false
  else if isRawLegacyChunk digit current && isMatch (legacyRawMessage digit) line then false
  else true

-- ---
-- The chunks
-- ---

structure Splitting where
  chunks : List (List Char) := []
  current : List (List Char) := []
  sawBlank : Bool := false

-- `current.join("\n").trim()`
def joined (current : List (List Char)) : List Char :=
  trimBlank isWhitespace (['\n'].intercalate current)

def Splitting.line (s : Splitting) (line : List Char) : Splitting :=
  if s.sawBlank && !isBlank line && !s.current.isEmpty then
    { chunks := s.chunks ++ [joined s.current], current := [line], sawBlank := false }
  else if shouldStartNewLegacyChunk digit line s.current then
    { chunks := s.chunks ++ [joined s.current], current := [line], sawBlank := false }
  else { s with current := s.current ++ [line], sawBlank := isBlank line }

-- `flush`
def Splitting.flush (s : Splitting) : List (List Char) :=
  if s.current.isEmpty then s.chunks else s.chunks ++ [joined s.current]

-- `split_legacy_history_chunks`
def splitLegacyHistoryChunks (text : String) : List String :=
  let s := (text.toList.splitOn '\n').foldl (Splitting.line digit) {}
  (s.flush.filter fun c => !c.isEmpty).map String.ofList

-- ---
-- No line is lost, duplicated or moved
-- ---

/-- The lines of a text that are not blank, trimmed. -/
def nonBlankLines (text : String) : List String :=
  ((text.toList.splitOn '\n').map fun line => trim (String.ofList line)).filter fun line =>
    line ≠ ""

theorem nonBlankLines_eq (text : String) :
    nonBlankLines text = (inkLines isWhitespace text.toList).map String.ofList := by
  have htrim : ∀ line, trim (String.ofList line) = String.ofList (trimBlank isWhitespace line) := by
    intro line
    rw [trim, String.toList_ofList, trimBlank]
  have hmap : (fun line => trim (String.ofList line)) = String.ofList ∘ trimBlank isWhitespace :=
    funext htrim
  rw [nonBlankLines, inkLines, inkOf, hmap, ← List.map_map, List.filter_map]
  congr 2
  funext line
  simp [String.ofList_eq_empty_iff]

/-- The lines that stand in the chunks and in the one that is being built are those
that have been read. -/
def Splitting.Has (s : Splitting) (done : List (List Char)) : Prop :=
  (∀ line ∈ s.current, '\n' ∉ line) ∧
    s.chunks.flatMap (inkLines isWhitespace) ++ inkOf isWhitespace s.current =
      inkOf isWhitespace done

theorem inkLines_joined {current : List (List Char)} (h : ∀ line ∈ current, '\n' ∉ line) :
    inkLines isWhitespace (joined current) = inkOf isWhitespace current := by
  rw [joined, inkLines_trimBlank, inkLines_intercalate h]

variable {s : Splitting} {done : List (List Char)}

theorem has_line {line : List Char} (hs : s.Has done) (hline : '\n' ∉ line) :
    (s.line digit line).Has (done ++ [line]) := by
  obtain ⟨hcurrent, hink⟩ := hs
  have hstart :
      (Splitting.mk (s.chunks ++ [joined s.current]) [line] false).Has (done ++ [line]) := by
    refine ⟨fun l hl => List.mem_singleton.mp hl ▸ hline, ?_⟩
    rw [List.flatMap_append, List.flatMap_singleton, inkLines_joined hcurrent, hink,
      ← inkOf_append]
  rw [Splitting.line]
  split
  case isTrue => exact hstart
  case isFalse =>
    split
    case isTrue => exact hstart
    case isFalse =>
      refine ⟨fun l hl => ?_, ?_⟩
      · rcases List.mem_append.mp hl with hl | hl
        · exact hcurrent l hl
        · exact List.mem_singleton.mp hl ▸ hline
      · rw [inkOf_append, ← List.append_assoc, hink, ← inkOf_append]

theorem has_lines {s : Splitting} {done : List (List Char)} {lines : List (List Char)}
    (hs : s.Has done) (hlines : ∀ line ∈ lines, '\n' ∉ line) :
    (lines.foldl (Splitting.line digit) s).Has (done ++ lines) := by
  induction lines generalizing s done with
  | nil => rwa [List.foldl_nil, List.append_nil]
  | cons line lines ih =>
    have hline := has_line digit hs (hlines line List.mem_cons_self)
    have hrest := ih hline fun l hl => hlines l (List.mem_cons_of_mem _ hl)
    rwa [List.append_assoc, List.singleton_append] at hrest

theorem flatMap_flush (hs : s.Has done) :
    s.flush.flatMap (inkLines isWhitespace) = inkOf isWhitespace done := by
  obtain ⟨hcurrent, hink⟩ := hs
  rw [Splitting.flush]
  split
  case isTrue hempty =>
    rw [List.isEmpty_iff] at hempty
    rw [hempty] at hink
    exact (List.append_nil _).symm.trans hink
  case isFalse =>
    rw [List.flatMap_append, List.flatMap_singleton, inkLines_joined hcurrent, hink]

/-- The lines of the chunks that are not blank, trimmed and in their order, are those of
the text. -/
theorem nonBlankLines_chunks (text : String) :
    (splitLegacyHistoryChunks digit text).flatMap nonBlankLines = nonBlankLines text := by
  have hlines : ∀ line ∈ text.toList.splitOn '\n', '\n' ∉ line := fun line hline =>
    newline_notMem_of_mem_splitOn hline
  have hhas := @has_lines digit {} [] _ ⟨nofun, rfl⟩ hlines
  -- an empty chunk has no lines, so leaving it out changes nothing
  have hretain : ∀ chunks : List (List Char),
      (chunks.filter fun c => !c.isEmpty).flatMap (inkLines isWhitespace) =
        chunks.flatMap (inkLines isWhitespace) := by
    intro chunks
    induction chunks with
    | nil => rfl
    | cons c chunks ih =>
      cases c with
      | nil => exact ih
      | cons a c => exact congrArg (inkLines isWhitespace (a :: c) ++ ·) ih
  have hchunk : (fun c => nonBlankLines (String.ofList c)) =
      fun c => (inkLines isWhitespace c).map String.ofList := by
    funext c
    rw [nonBlankLines_eq, String.toList_ofList]
  rw [splitLegacyHistoryChunks, List.flatMap_map, hchunk, ← List.map_flatMap, hretain,
    flatMap_flush hhas, nonBlankLines_eq, inkLines]
  rfl

end HiveClaw.Memory
