import HiveClaw.Files.EditMatches
import HiveClaw.Files.ReadFile
import HiveClaw.Lib.Patches
import Mathlib.Data.List.DropRight

/-!
# Editing a file

`EditFileTool::execute` of `crates/agent/src/tools/filesystem.rs`, from the
point where the path is resolved, and the functions that make the replacement
out of the new text. The file is read as text with line ends of one character,
the old text is searched and replaced in that, and the whole goes back to the
style of the file.

`char::is_alphanumeric` is the argument `alphanumeric`. What is said of a text
that is not found, a comparison with the lines that come closest, is left out.
-/

namespace HiveClaw

namespace Files

open Lib FileStates

-- ---
-- The replacement
-- ---

namespace QuoteTable

def hasCurlyDouble (s : List Char) : Bool := s.any isCurlyDouble

def hasCurlySingle (s : List Char) : Bool := s.any isCurlySingle

-- the argument tells whether the next quote opens
def curlyDoubleFrom : Bool → List Char → List Char
  | _, [] => []
  | opening, ch :: rest =>
    if ch = '"' then
      (if opening then '\u201c' else '\u201d') :: curlyDoubleFrom (!opening) rest
    else ch :: curlyDoubleFrom opening rest

-- `QuoteTable::to_curly_double`
def toCurlyDouble (s : List Char) : List Char := curlyDoubleFrom true s

-- `prev` is the character in front; an apostrophe inside a word opens nothing
def curlySingleFrom (alphanumeric : Char → Bool) : Char → Bool → List Char → List Char
  | _, _, [] => []
  | prev, opening, ch :: rest =>
    if ch ≠ '\'' then ch :: curlySingleFrom alphanumeric ch opening rest
    else if alphanumeric prev && alphanumeric (rest.head?.getD ' ') then
      '\u2019' :: curlySingleFrom alphanumeric ch opening rest
    else
      (if opening then '\u2018' else '\u2019') :: curlySingleFrom alphanumeric ch (!opening) rest

-- `QuoteTable::to_curly_single`
def toCurlySingle (alphanumeric : Char → Bool) (s : List Char) : List Char :=
  curlySingleFrom alphanumeric ' ' true s

end QuoteTable

-- `preserve_quote_style`
def preserveQuoteStyle (alphanumeric : Char → Bool) (oldText actualText newText : List Char) :
    List Char :=
  if QuoteTable.normalize (trimLine oldText) ≠ QuoteTable.normalize (trimLine actualText) ∨
      oldText = actualText then
    newText
  else
    let styled :=
      if QuoteTable.hasCurlyDouble actualText ∧ '"' ∈ newText then
        QuoteTable.toCurlyDouble newText
      else newText
    if QuoteTable.hasCurlySingle actualText ∧ '\'' ∈ styled then
      QuoteTable.toCurlySingle alphanumeric styled
    else styled

-- `leading_ws`
def leadingWs (line : List Char) : List Char := line.takeWhile fun c => c = ' ' || c = '\t'

-- `reindent_like_match`
def reindentLikeMatch (oldText actualText newText : List Char) : List Char :=
  let oldLines := oldText.splitOn '\n'
  let actualLines := actualText.splitOn '\n'
  if oldLines.length ≠ actualLines.length then newText
  else
    let comparable := (oldLines.zip actualLines).filter fun l =>
      trimLine l.1 ≠ [] ∧ trimLine l.2 ≠ []
    match comparable with
    | [] => newText
    | first :: _ =>
      if comparable.any fun l =>
          QuoteTable.normalize (trimLine l.1) ≠ QuoteTable.normalize (trimLine l.2) then
        newText
      else
        let oldWs := leadingWs first.1
        let actualWs := leadingWs first.2
        if actualWs = oldWs then newText
        else if oldWs ≠ [] ∧ ¬oldWs.isPrefixOf actualWs then newText
        else
          let delta := actualWs.drop oldWs.length
          if delta = [] then newText
          else
            ['\n'].intercalate ((newText.splitOn '\n').map fun line =>
              if line = [] then line else delta ++ line)

-- `strip_trailing_ws`
def stripTrailingWs (text : List Char) : List Char :=
  ['\n'].intercalate ((lines text).map fun line => line.rdropWhile RustStr.isWhitespace)

-- ---
-- Patching
-- ---

section Edit

variable (alphanumeric : Char → Bool)

/-- The text that a match is replaced by. -/
def replacementFor (oldText newText : List Char) (m : MatchSpan) : List Char :=
  reindentLikeMatch oldText m.text (preserveQuoteStyle alphanumeric oldText m.text newText)

/-- The end of what is replaced: deleting the text of a line deletes the line end, too. -/
def patchStop (content oldText newText : List Char) (m : MatchSpan) : Nat :=
  if replacementFor alphanumeric oldText newText m = [] ∧ m.text.getLast? ≠ some '\n' ∧
      (encodeUtf8 content)[m.stop]? = some 10 then
    m.stop + 1
  else m.stop

/-- The loop over the selected matches. -/
def patchAll (content oldText newText : List Char) (selected : List MatchSpan) :
    Option (List Char) :=
  patchRanges MatchSpan.start (patchStop alphanumeric content oldText newText)
    (replacementFor alphanumeric oldText newText) content selected

inductive Edit where
  | noMatch
  | ambiguous (count : Nat) (lines : List Nat)
  | written (text : List Char)

-- `norm_new`
def normNew (markdown : Bool) (newText : List Char) : List Char :=
  if markdown then crlfToLf newText else stripTrailingWs (crlfToLf newText)

/-- The part of `execute` behind the decoding, for an old text that is not empty; `none` is a
panic. -/
def editText (markdown crlf : Bool) (text oldText newText : List Char) (replaceAll : Bool) :
    Option Edit := do
  let content := crlfToLf text
  let normOld := crlfToLf oldText
  let spans ← findAllMatches content normOld
  if spans = [] then some .noMatch
  else if 1 < spans.length ∧ replaceAll = false then
    some (.ambiguous spans.length ((spans.take 3).map MatchSpan.line))
  else do
    let selected := if replaceAll then spans else spans.take 1
    let newContent ← patchAll alphanumeric content normOld (normNew markdown newText) selected
    some (.written (if crlf then lfToCrlf newContent else newContent))

-- `EDIT_MAX_FILE_SIZE`
def editMaxFileSize : Nat := 1024 * 1024 * 1024

/-- `edit_file` says. -/
inductive EditResult where
  | notebook
  | notFound
  | tooLarge (size : Nat)
  | notEmpty
  | nonUtf8
  | noMatch
  | ambiguous (count : Nat) (lines : List Nat)
  | created
  | edited (warning : Option String)

-- `uses_crlf`
def usesCrlf (raw : List UInt8) : Bool := decide ([13, 10] <:+: raw)

-- `path.ends_with(".ipynb")`
def Target.isNotebook (target : Target) : Bool := endsWith target.path ".ipynb"

-- `is_markdown`
def Target.isMarkdown (target : Target) : Bool := target.ext ∈ ["md", "mdx", "markdown"]

variable (sha256 : List UInt8 → String)

-- `fs::write` and `record_write`
def writeText (target : Target) (clock : Option ℚ) (states : FileStates) (text : List Char) :
    Option File × FileStates :=
  (some ⟨encodeUtf8 text, clock⟩,
    states.recordWrite sha256 target.canonical ⟨encodeUtf8 text, clock⟩)

/-- The end of `execute`: the answer, the file and the map for an edited text. -/
def finishEdit (target : Target) (f : File) (clock : Option ℚ) (warning : Option String)
    (states : FileStates) : Edit → EditResult × Option File × FileStates
  | .noMatch => (.noMatch, some f, states)
  | .ambiguous count lines => (.ambiguous count lines, some f, states)
  | .written text => (.edited warning, writeText sha256 target clock states text)

/-- `EditFileTool::execute` on a regular file or none, where writing succeeds. `clock` is the
modification time of a file that is written. The result, the file and the map afterwards; `none`
is a panic. -/
def editFile (target : Target) (file : Option File) (clock : Option ℚ) (states : FileStates)
    (oldText newText : List Char) (replaceAll : Bool) :
    Option (EditResult × Option File × FileStates) :=
  if target.isNotebook then some (.notebook, file, states)
  else
    match file with
    | none =>
      if oldText = [] then some (.created, writeText sha256 target clock states newText)
      else some (.notFound, none, states)
    | some f =>
      if editMaxFileSize < f.content.length then some (.tooLarge f.content.length, file, states)
      else if oldText = [] then
        if trimLine ((decodeStrict f.content).getD []) ≠ [] then some (.notEmpty, file, states)
        else some (.edited none, writeText sha256 target clock states newText)
      else
        let (warning, states) := states.checkRead sha256 target.canonical f
        match decodeStrict f.content with
        | none => some (.nonUtf8, file, states)
        | some text =>
          (editText alphanumeric target.isMarkdown (usesCrlf f.content) text oldText newText
            replaceAll).map (finishEdit sha256 target f clock warning states)

end Edit

-- ---
-- One place
-- ---

theorem replacementFor_self {alphanumeric : Char → Bool} {oldText newText : List Char}
    {m : MatchSpan} (h : m.text = oldText) :
    replacementFor alphanumeric oldText newText m = newText := by
  have hquotes : preserveQuoteStyle alphanumeric oldText oldText newText = newText :=
    if_pos (Or.inr rfl)
  rw [replacementFor, h, hquotes]
  unfold reindentLikeMatch
  rw [if_neg (not_not.mpr rfl)]
  dsimp only
  split
  · rfl
  · next first rest hcomparable =>
    have hfirst : first ∈ (oldText.splitOn '\n').zip (oldText.splitOn '\n') :=
      List.mem_of_mem_filter (hcomparable ▸ List.mem_cons_self)
    have hsame : first.1 = first.2 := by
      obtain ⟨i, hi, hget⟩ := List.getElem_of_mem hfirst
      rw [List.getElem_zip] at hget
      rw [← hget]
    rw [hsame]
    split
    · rfl
    · rw [if_pos rfl]

/-- What is left of the text behind a match. -/
def restBehind (oldText newText rest : List Char) : List Char :=
  if newText = [] ∧ oldText.getLast? ≠ some '\n' ∧ rest.head? = some '\n' then rest.tail else rest

variable {alphanumeric : Char → Bool}

theorem patchAll_single {front oldText rest newText : List Char} :
    patchAll alphanumeric (front ++ oldText ++ rest) oldText newText
        [exactSpan (front ++ oldText ++ rest) oldText front.length] =
      some (front ++ newText ++ restBehind oldText newText rest) := by
  have htake : (front ++ oldText ++ rest).take front.length = front := by
    rw [List.append_assoc, List.take_left]
  have hreplacement : replacementFor alphanumeric oldText newText
      (exactSpan (front ++ oldText ++ rest) oldText front.length) = newText :=
    replacementFor_self rfl
  have hstart : (exactSpan (front ++ oldText ++ rest) oldText front.length).start =
      byteLen front := by
    rw [exactSpan, htake]
  have hspan : (exactSpan (front ++ oldText ++ rest) oldText front.length).stop =
      byteLen (front ++ oldText) := by
    rw [exactSpan, htake, byteLen_append]
  have hbyte := byte_eq_newline_iff (front ++ oldText) rest
  unfold patchAll restBehind
  split
  · next h =>
    obtain ⟨hnew, hlast, hhead⟩ := h
    obtain ⟨c, tail, rfl⟩ : ∃ c tail, rest = c :: tail := by
      cases rest with
      | nil => exact absurd hhead (by simp)
      | cons c tail => exact ⟨c, tail, rfl⟩
    obtain rfl : c = '\n' := Option.some.inj hhead
    have hstop : patchStop alphanumeric (front ++ oldText ++ '\n' :: tail) oldText newText
        (exactSpan (front ++ oldText ++ '\n' :: tail) oldText front.length) =
          byteLen front + byteLen (oldText ++ ['\n']) := by
      rw [patchStop, hreplacement, if_pos ⟨hnew, hlast, by rw [hspan]; exact hbyte.mpr hhead⟩,
        hspan, byteLen_append, byteLen_append]
      rfl
    have hpatch := patchRanges_singleton (replacementFor alphanumeric oldText newText) front
      (oldText ++ ['\n']) tail hstart hstop
    rw [hreplacement] at hpatch
    simpa using hpatch
  · next h =>
    have hstop : patchStop alphanumeric (front ++ oldText ++ rest) oldText newText
        (exactSpan (front ++ oldText ++ rest) oldText front.length) =
          byteLen front + byteLen oldText := by
      rw [patchStop, hreplacement, hspan, byteLen_append, if_neg]
      rw [← byteLen_append]
      exact fun hall => h ⟨hall.1, hall.2.1, hbyte.mp hall.2.2⟩
    have hpatch := patchRanges_singleton (replacementFor alphanumeric oldText newText) front
      oldText rest hstart hstop
    rwa [hreplacement] at hpatch

/-- What is written where the old text has one place. -/
theorem editText_alone {markdown crlf : Bool} {text oldText newText front rest : List Char}
    {replaceAll : Bool} (hold : oldText ≠ [])
    (hsplit : crlfToLf text = front ++ crlfToLf oldText ++ rest)
    (halone : occurrences (crlfToLf oldText) (crlfToLf text) = [front.length]) :
    editText alphanumeric markdown crlf text oldText newText replaceAll =
      let patched := front ++ normNew markdown newText ++
        restBehind (crlfToLf oldText) (normNew markdown newText) rest
      some (.written (if crlf then lfToCrlf patched else patched)) := by
  have hspans : findAllMatches (crlfToLf text) (crlfToLf oldText) =
      some [exactSpan (crlfToLf text) (crlfToLf oldText) front.length] := by
    unfold findAllMatches
    rw [findExactMatches_eq _ (crlfToLf_ne_nil hold), halone]
    rfl
  have hpatched := @patchAll_single alphanumeric front (crlfToLf oldText) rest
    (normNew markdown newText)
  rw [← hsplit] at hpatched
  unfold editText
  dsimp only
  rw [hspans, Option.bind_eq_bind, Option.bind_some, if_neg (List.cons_ne_nil _ _),
    if_neg (by simp)]
  have hselected : (if replaceAll = true
      then [exactSpan (crlfToLf text) (crlfToLf oldText) front.length]
      else [exactSpan (crlfToLf text) (crlfToLf oldText) front.length].take 1) =
        [exactSpan (crlfToLf text) (crlfToLf oldText) front.length] := by
    split <;> rfl
  rw [hselected, hpatched, Option.bind_eq_bind, Option.bind_some]

end Files

end HiveClaw
