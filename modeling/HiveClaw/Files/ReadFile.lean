import HiveClaw.Files.FileStates
import HiveClaw.Lib.ByteSlice
import HiveClaw.Lib.Lines
import HiveClaw.Lib.Utf8

/-!
# Reading a file page by page

`ReadFileTool::execute` of `crates/agent/src/tools/filesystem.rs`, from the
point where the path is known to be a regular file. A page has at most `limit`
lines; if it is longer than `READ_MAX_CHARS` bytes, it is cut to the lines that
fit, and the result names the line to continue with.

The result is kept as the lines and the note that the text shows. `to_lowercase`
is the argument `lower`, and the text of an image, which needs base64, is the
argument `imageText`.

* `reads_all_iff` — following the offsets shows every line exactly if no
  numbered line fills a page of its own, and no page starts so late that
  `start + limit` leaves `usize`.
-/

namespace HiveClaw

namespace Files

open Lib FileStates

-- ---
-- Model
-- ---

-- `READ_MAX_CHARS`
def readMaxChars : Nat := 128000

-- `READ_DEFAULT_LIMIT`
def readDefaultLimit : Nat := 2000

/-- The number of `usize` values. -/
def usizeSize : Nat := 2 ^ 64

/-- What a call says about its file: the path as given, the canonical path, and the extension of
the latter in lower case. -/
structure Target where
  path : String
  canonical : Path
  ext : String

-- `detect_image_mime`
def detectImageMime (data : List UInt8) : Option String :=
  if [0x89, 0x50, 0x4E, 0x47, 0x0D, 0x0A, 0x1A, 0x0A].isPrefixOf data then some "image/png"
  else if [0xFF, 0xD8, 0xFF].isPrefixOf data then some "image/jpeg"
  else if (encodeUtf8 "GIF87a".toList).isPrefixOf data ∨
      (encodeUtf8 "GIF89a".toList).isPrefixOf data then
    some "image/gif"
  else if (encodeUtf8 "RIFF".toList).isPrefixOf data ∧
      (encodeUtf8 "WEBP".toList).isPrefixOf (data.drop 8) then
    some "image/webp"
  else none

/-- `str::ends_with` for a string pattern. -/
def endsWith (text pattern : String) : Bool := pattern.toList.isSuffixOf text.toList

-- `mime_from_extension`
def mimeFromExtension (lower : String → String) (path : String) : Option String :=
  if endsWith (lower path) ".png" then some "image/png"
  else if endsWith (lower path) ".jpg" ∨ endsWith (lower path) ".jpeg" then some "image/jpeg"
  else if endsWith (lower path) ".gif" then some "image/gif"
  else if endsWith (lower path) ".webp" then some "image/webp"
  else none

def imageMime (lower : String → String) (target : Target) (raw : List UInt8) : Option String :=
  (detectImageMime raw).or (mimeFromExtension lower target.path)

abbrev Line := Nat × List Char

-- `format!("{}| {}", start + i + 1, l)`
def Line.numbered (line : Line) : List Char :=
  (toString line.1).toList ++ "| ".toList ++ line.2

/-- What stands below the lines of a page. -/
inductive Note where
  | more (first last total next : Nat)
  | endOfFile (total : Nat)

/-- `read_file` says. -/
inductive ReadResult where
  | document (ext : String)
  | unchanged
  | emptyFile
  | image (mime : String)
  | binary (mime : Option String)
  | beyond (offset total : Nat)
  | page (lines : List Line) (note : Note)

def ReadResult.lines : ReadResult → List Line
  | .page lines _ => lines
  | _ => []

/-- The offset that is named for continuing. -/
def ReadResult.next : ReadResult → Option Nat
  | .page _ (.more _ _ _ next) => some next
  | _ => none

def Note.text : Note → String
  | .more first last total next =>
    s!"\n\n(Showing lines {first}-{last} of {total}. Use offset={next} to continue.)"
  | .endOfFile total => s!"\n\n(End of file — {total} lines total)"

def ReadResult.text (imageText : List UInt8 → String → String) (target : Target)
    (raw : List UInt8) : ReadResult → String
  | .document "pdf" =>
    "Error: PDF reading requires a PDF parsing library (e.g. pdf-extract or lopdf). Add the " ++
      "crate to Cargo.toml and implement read_pdf."
  | .document ext =>
    s!"Error: {ext.toUpper} reading requires an Office document parsing library. Add the " ++
      "appropriate crate (e.g. docx for .docx, calamine for .xlsx) to Cargo.toml and " ++
      "implement read_office_doc."
  | .unchanged => s!"[File unchanged since last read: {target.path}]"
  | .emptyFile => s!"(Empty file: {target.path})"
  | .image mime => imageText raw mime
  | .binary mime =>
    let mime := mime.getD "unknown"
    s!"Error: Cannot read binary file {target.path} (MIME: {mime}). " ++
      "Only UTF-8 text and images are supported."
  | .beyond offset total => s!"Error: offset {offset} is beyond end of file ({total} lines)"
  | .page lines note =>
    String.ofList (['\n'].intercalate (lines.map Line.numbered)) ++ note.text

/-- The loop that trims a page: `chars` are counted with a line break each. -/
def trimLines : Nat → List Line → List Line
  | _, [] => []
  | chars, line :: rest =>
    if readMaxChars < chars + (byteLen line.numbered + 1) then []
    else line :: trimLines (chars + (byteLen line.numbered + 1)) rest

/-- The numbered lines of a text: `text.split('\n')`. -/
def allLines (text : List Char) : List Line :=
  (text.splitOn '\n').zipIdx.map fun l => (l.2 + 1, l.1)

/-- The part of `execute` behind the decoding; `none` is a panic, where `start + limit` leaves
`usize`. -/
def readText (text : List Char) (offset : Nat) (limit : Option Nat) : Option ReadResult :=
  let lines := allLines text
  let total := lines.length
  if total < offset then some (.beyond offset total)
  else
    let start := offset - 1
    if usizeSize ≤ start + limit.getD readDefaultLimit then none
    else
      let last := min (start + limit.getD readDefaultLimit) total
      let numbered := slice lines start last
      if readMaxChars < byteLen (['\n'].intercalate (numbered.map Line.numbered)) then
        let trimmed := trimLines 0 numbered
        let actualEnd := start + trimmed.length
        some (.page trimmed (.more offset actualEnd total (actualEnd + 1)))
      else if last < total then some (.page numbered (.more offset last total (last + 1)))
      else some (.page numbered (.endOfFile total))

section Read

variable (sha256 : List UInt8 → String) (lower : String → String)

/-- What `execute` answers when it reads the file: the result and whether it is recorded. -/
def readContent (target : Target) (raw : List UInt8) (offset : Nat) (limit : Option Nat) :
    Option (ReadResult × Bool) :=
  if raw = [] then some (.emptyFile, false)
  else
    match imageMime lower target raw with
    | some mime => some (.image mime, false)
    | none =>
      match decodeStrict raw with
      | none => some (.binary none, false)
      | some text =>
        match readText (crlfToLf text) offset limit with
        | none => none
        | some (.beyond offset total) => some (.beyond offset total, false)
        | some r => some (r, true)

/-- `ReadFileTool::execute` on a regular file, with `offset.max(1)`. -/
def readFile (target : Target) (file : File) (states : FileStates) (offset : Nat)
    (limit : Option Nat) : Option (ReadResult × FileStates) :=
  let offset := max offset 1
  if target.ext ∈ ["pdf", "docx", "xlsx", "pptx"] then some (.document target.ext, states)
  else
    match states.isUnchanged sha256 target.canonical file offset limit with
    | (true, states) => some (.unchanged, states)
    | (false, states) =>
      match readContent lower target file.content offset limit with
      | none => none
      | some (r, recorded) =>
        some (r, if recorded then states.recordRead sha256 target.canonical file offset limit
          else states)

/-- Reads the file from an offset on, following the offsets that the results name: all lines
that are shown, if that ends within the given number of reads. -/
def follow (target : Target) (file : File) (limit : Option Nat) :
    Nat → FileStates → Nat → Option (List Line)
  | 0, _, _ => none
  | n + 1, states, offset =>
    match readFile sha256 lower target file states offset limit with
    | none => none
    | some (r, states') =>
      match r.next with
      | none => some r.lines
      | some next => (follow target file limit n states' next).map (r.lines ++ ·)

end Read

-- ---
-- Pages in numbers
-- ---

def lineSize (line : Line) : Nat := byteLen line.numbered

/-- How many lines of these sizes fit on a page that has the given number of bytes already. -/
def fitting : Nat → List Nat → Nat
  | _, [] => 0
  | chars, size :: rest =>
    if readMaxChars < chars + (size + 1) then 0 else fitting (chars + (size + 1)) rest + 1

/-- The sizes of some lines, with their line breaks. -/
def totalSize (sizes : List Nat) : Nat := (sizes.map (· + 1)).sum

/-- The number of lines on a page that begins with lines of these sizes. -/
def pageLength (limit : Nat) (sizes : List Nat) : Nat :=
  if readMaxChars + 1 < totalSize (sizes.take limit) then fitting 0 (sizes.take limit)
  else (sizes.take limit).length

/-- Of the pages from one line on, one begins at another. -/
inductive PageStart (limit : Nat) (sizes : List Nat) : Nat → Nat → Prop
  | here (s : Nat) : PageStart limit sizes s s
  | next {s t : Nat} (hmore : s + pageLength limit (sizes.drop s) < sizes.length)
      (h : PageStart limit sizes (s + pageLength limit (sizes.drop s)) t) :
      PageStart limit sizes s t

theorem totalSize_cons (size : Nat) (rest : List Nat) :
    totalSize (size :: rest) = size + 1 + totalSize rest := by
  rw [totalSize, List.map_cons, List.sum_cons, ← totalSize]

theorem length_le_totalSize (sizes : List Nat) : sizes.length ≤ totalSize sizes := by
  induction sizes with
  | nil => exact le_refl 0
  | cons size rest ih =>
    rw [totalSize_cons, List.length_cons]
    omega

theorem trimLines_eq (chars : Nat) (lines : List Line) :
    trimLines chars lines = lines.take (fitting chars (lines.map lineSize)) := by
  induction lines generalizing chars with
  | nil => rfl
  | cons line rest ih =>
    rw [trimLines, List.map_cons, fitting]
    unfold lineSize
    split
    · rfl
    · rw [List.take_succ_cons, ih]
      rfl

theorem byteLen_join (lines : List Line) :
    byteLen (['\n'].intercalate (lines.map Line.numbered)) + 1 =
      max 1 (totalSize (lines.map lineSize)) := by
  induction lines with
  | nil => rfl
  | cons line rest ih =>
    rw [List.map_cons, List.map_cons, totalSize_cons]
    cases rest with
    | nil =>
      rw [List.map_nil, List.intercalate_singleton]
      show lineSize line + 1 = max 1 (lineSize line + 1 + 0)
      omega
    | cons line' rest =>
      have hpos : 1 ≤ totalSize ((line' :: rest).map lineSize) := by
        rw [List.map_cons, totalSize_cons]
        omega
      rw [List.map_cons, List.intercalate_cons_cons, ← List.map_cons (f := Line.numbered),
        byteLen_append, byteLen_append]
      show lineSize line + 1 + _ + 1 = _
      omega

theorem fitting_spec (chars : Nat) (sizes : List Nat) :
    fitting chars sizes ≤ sizes.length ∧
      chars + totalSize (sizes.take (fitting chars sizes)) ≤ max chars readMaxChars ∧
      (fitting chars sizes = sizes.length → chars + totalSize sizes ≤ max chars readMaxChars) := by
  induction sizes generalizing chars with
  | nil => exact ⟨le_refl 0, le_max_left _ _, fun _ => le_max_left _ _⟩
  | cons size rest ih =>
    rw [fitting]
    split
    · exact ⟨Nat.zero_le _, le_max_left _ _, fun h => by cases h⟩
    · next hfits =>
      obtain ⟨hle, hsum, hall⟩ := ih (chars + (size + 1))
      rw [List.take_succ_cons, totalSize_cons, totalSize_cons, List.length_cons]
      refine ⟨by omega, by omega, fun h => ?_⟩
      have := hall (by omega)
      omega

variable {size : Nat}

theorem fitting_pos {chars : Nat} {rest : List Nat} (h : chars + (size + 1) ≤ readMaxChars) :
    0 < fitting chars (size :: rest) := by
  rw [fitting, if_neg (by omega)]
  exact Nat.succ_pos _

theorem pageLength_le (limit : Nat) (sizes : List Nat) :
    pageLength limit sizes ≤ (sizes.take limit).length := by
  unfold pageLength
  split
  · exact (fitting_spec 0 _).1
  · exact le_refl _

/-- A line fits on its page: it is shorter than the limit, or it fills a page alone. -/
def LineFits (limit : Nat) (sizes : List Nat) (i : Nat) : Prop :=
  ∀ size, sizes[i]? = some size →
    size < readMaxChars ∨ (size = readMaxChars ∧ (limit = 1 ∨ i + 1 = sizes.length))

variable {sizes : List Nat} {i : Nat}

theorem size_lt_totalSize (h : sizes[i]? = some size) : size + sizes.length ≤ totalSize sizes := by
  induction sizes generalizing i with
  | nil => cases h
  | cons size' rest ih =>
    rw [totalSize_cons, List.length_cons]
    cases i with
    | zero =>
      obtain rfl : size' = size := Option.some.inj h
      have := length_le_totalSize rest
      omega
    | succ i =>
      have := ih (i := i) h
      omega

variable {s : Nat}

theorem pageLength_pos {limit : Nat} (hlimit : 0 < limit) (hs : s < sizes.length)
    (hfits : LineFits limit sizes s) : 0 < pageLength limit (sizes.drop s) := by
  obtain ⟨n, rfl⟩ : ∃ n, limit = n + 1 := ⟨limit - 1, by omega⟩
  have hdrop : sizes.drop s = sizes[s] :: sizes.drop (s + 1) := List.drop_eq_getElem_cons hs
  unfold pageLength
  rw [hdrop, List.take_succ_cons]
  split
  · next hlong =>
    rcases hfits sizes[s] (List.getElem?_eq_getElem hs) with hsize | ⟨hsize, hlast⟩
    · exact fitting_pos (by omega)
    · -- a line that fills the page is the only one of its page
      exfalso
      have hone : (sizes.drop (s + 1)).take n = [] := by
        rcases hlast with hlast | hlast
        · obtain rfl : n = 0 := by omega
          rfl
        · rw [hlast, List.drop_length, List.take_nil]
      rw [hone, totalSize_cons] at hlong
      have : totalSize [] = 0 := rfl
      omega
  · exact Nat.succ_pos _

theorem lineFits_of_lt {limit : Nat} (hsi : s ≤ i) (hi : i < s + pageLength limit (sizes.drop s)) :
    LineFits limit sizes i := by
  intro size hsize
  have hle := pageLength_le limit (sizes.drop s)
  have hpage : ((sizes.drop s).take limit)[i - s]? = some size := by
    rw [List.getElem?_take_of_lt (by rw [List.length_take] at hle; omega), List.getElem?_drop,
      Nat.add_sub_cancel' hsi, hsize]
  unfold pageLength at hi
  split at hi
  · next hlong =>
    left
    obtain ⟨-, hsum, -⟩ := fitting_spec 0 ((sizes.drop s).take limit)
    have hin : (((sizes.drop s).take limit).take
        (fitting 0 ((sizes.drop s).take limit)))[i - s]? = some size := by
      rw [List.getElem?_take_of_lt (by omega), hpage]
    have hlt := size_lt_totalSize hin
    have hlen := (List.getElem?_eq_some_iff.mp hin).1
    omega
  · next hshort =>
    have hlt := size_lt_totalSize hpage
    have hlen := (List.getElem?_eq_some_iff.mp hpage).1
    by_cases hone : ((sizes.drop s).take limit).length = 1
    · rcases Nat.lt_or_ge size readMaxChars with hsmall | hbig
      · exact Or.inl hsmall
      · refine Or.inr ⟨by omega, ?_⟩
        rw [List.length_take, List.length_drop] at hone
        have hilen := (List.getElem?_eq_some_iff.mp hsize).1
        omega
    · left
      omega

-- ---
-- One page
-- ---

def pageLimit (limit : Option Nat) : Nat := limit.getD readDefaultLimit

/-- The sizes of the lines of a text. -/
def lineSizes (text : List Char) : List Nat := (allLines text).map lineSize

theorem length_lineSizes (text : List Char) : (lineSizes text).length = (allLines text).length :=
  List.length_map _

variable {limit : Option Nat}

theorem readText_of_overflow {text : List Char} (hs : s < (allLines text).length)
    (hover : usizeSize ≤ s + pageLimit limit) : readText text (s + 1) limit = none := by
  unfold readText pageLimit at *
  dsimp only
  rw [if_neg (by omega), if_pos (by omega)]

theorem readText_page {text : List Char} (hs : s < (allLines text).length)
    (hfits : s + pageLimit limit < usizeSize) :
    ∃ note,
      readText text (s + 1) limit = some (.page (((allLines text).drop s).take
        (pageLength (pageLimit limit) ((lineSizes text).drop s))) note) ∧
      (ReadResult.page [] note).next =
        if s + pageLength (pageLimit limit) ((lineSizes text).drop s) < (allLines text).length then
          some (s + pageLength (pageLimit limit) ((lineSizes text).drop s) + 1)
        else none := by
  unfold readText pageLimit at *
  dsimp only
  rw [if_neg (by omega), if_neg (by omega), Nat.add_sub_cancel]
  generalize hn : limit.getD readDefaultLimit = n
  have hslice : slice (allLines text) s (min (s + n) (allLines text).length) =
      ((allLines text).drop s).take n := by
    rw [slice, List.drop_take]
    rcases le_total (s + n) (allLines text).length with h | h
    · rw [min_eq_left h, Nat.add_sub_cancel_left]
    · rw [min_eq_right h, List.take_of_length_le (by rw [List.length_drop]),
        List.take_of_length_le (by rw [List.length_drop]; omega)]
  have hsizes : (((allLines text).drop s).take n).map lineSize =
      ((lineSizes text).drop s).take n := by
    rw [lineSizes, List.map_take, List.map_drop]
  have hbytes := byteLen_join (((allLines text).drop s).take n)
  have hlength : (((lineSizes text).drop s).take n).length =
      min n ((allLines text).length - s) := by
    rw [List.length_take, List.length_drop, length_lineSizes]
  rw [hslice, pageLength]
  rw [hsizes] at hbytes
  by_cases hlong : readMaxChars + 1 < totalSize (((lineSizes text).drop s).take n)
  · have hmax : 1 ≤ readMaxChars := by decide
    obtain ⟨hle, hsum, hall⟩ := fitting_spec 0 (((lineSizes text).drop s).take n)
    have hlt : fitting 0 (((lineSizes text).drop s).take n) <
        (((lineSizes text).drop s).take n).length := by
      rcases Nat.lt_or_ge (fitting 0 (((lineSizes text).drop s).take n))
        (((lineSizes text).drop s).take n).length with h | h
      · exact h
      · have := hall (le_antisymm hle h)
        omega
    rw [if_pos (by omega), if_pos hlong, trimLines_eq, hsizes, List.take_take,
      min_eq_left (by rw [List.length_take] at hlt; omega)]
    refine ⟨_, rfl, ?_⟩
    rw [if_pos (by omega), List.length_take, List.length_drop]
    show some _ = _
    congr 2
    omega
  · rw [if_neg (by omega), if_neg hlong, hlength]
    have htake : ((allLines text).drop s).take (min n ((allLines text).length - s)) =
        ((allLines text).drop s).take n := by
      rw [← List.length_drop, List.take_eq_take_min, min_assoc, min_self, ← List.take_eq_take_min]
    rw [htake]
    by_cases hmore : min (s + n) (allLines text).length < (allLines text).length
    · rw [if_pos hmore, if_pos (by omega)]
      refine ⟨_, rfl, ?_⟩
      show some _ = some _
      congr 2
      omega
    · rw [if_neg hmore, if_neg (by omega)]
      exact ⟨_, rfl, rfl⟩

-- ---
-- All pages
-- ---

section Follow

variable {sha256 : List UInt8 → String} {lower : String → String} {target : Target} {file : File}
  {text : List Char} {limit : Option Nat}

/-- The name and the first bytes of a file do not mark it as a document or an image. -/
def TakenForText (lower : String → String) (target : Target) (raw : List UInt8) : Prop :=
  target.ext ∉ ["pdf", "docx", "xlsx", "pptx"] ∧ imageMime lower target raw = none

/-- The lines of a file, with line ends of both styles. An empty file has none. -/
def fileLines (text : List Char) : List Line :=
  if text = [] then [] else allLines (crlfToLf text)

theorem allLines_ne_nil (text : List Char) : allLines text ≠ [] := by
  intro h
  have hlength := congrArg List.length h
  rw [allLines, List.length_map, List.length_zipIdx] at hlength
  exact List.splitOn_ne_nil '\n' _ (List.length_eq_zero_iff.mp hlength)

theorem content_ne_nil (htext : encodeUtf8 text = file.content) (hne : text ≠ []) :
    file.content ≠ [] := by
  intro hempty
  have hlength := length_le_encodeUtf8 text
  rw [htext, hempty, List.length_nil] at hlength
  exact hne (List.length_eq_zero_iff.mp (Nat.le_zero.mp hlength))

variable {states states' : FileStates} {offset : Nat} {r : ReadResult} {recorded : Bool}

theorem readFile_look (htext : target.ext ∉ ["pdf", "docx", "xlsx", "pptx"])
    (hread : isUnchanged sha256 states target.canonical file (max offset 1) limit =
      (false, states'))
    (hcontent : readContent lower target file.content (max offset 1) limit = some (r, recorded)) :
    readFile sha256 lower target file states offset limit =
      some (r, if recorded then
          recordRead sha256 states' target.canonical file (max offset 1) limit
        else states') := by
  unfold readFile
  dsimp only
  rw [if_neg htext, hread]
  dsimp only
  rw [hcontent]

theorem readFile_unchanged (htext : target.ext ∉ ["pdf", "docx", "xlsx", "pptx"])
    (hread : isUnchanged sha256 states target.canonical file (max offset 1) limit =
      (true, states')) :
    readFile sha256 lower target file states offset limit = some (.unchanged, states') := by
  unfold readFile
  dsimp only
  rw [if_neg htext, hread]

variable {s : Nat}

/-- Reading on from line `s`. -/
theorem readFile_page (hkind : TakenForText lower target file.content)
    (htext : encodeUtf8 text = file.content) (hne : text ≠ [])
    (hs : s < (allLines (crlfToLf text)).length)
    (hread : isUnchanged sha256 states target.canonical file (s + 1) limit = (false, states'))
    (hfits : s + pageLimit limit < usizeSize) :
    ∃ note,
      readFile sha256 lower target file states (s + 1) limit =
        some (.page (((allLines (crlfToLf text)).drop s).take
          (pageLength (pageLimit limit) ((lineSizes (crlfToLf text)).drop s))) note,
          recordRead sha256 states' target.canonical file (s + 1) limit) ∧
      (ReadResult.page [] note).next =
        if s + pageLength (pageLimit limit) ((lineSizes (crlfToLf text)).drop s) <
            (allLines (crlfToLf text)).length then
          some (s + pageLength (pageLimit limit) ((lineSizes (crlfToLf text)).drop s) + 1)
        else none := by
  obtain ⟨note, hpage, hnext⟩ := readText_page hs hfits
  have hmax : max (s + 1) 1 = s + 1 := Nat.max_eq_left (Nat.succ_pos s)
  have hcontent : readContent lower target file.content (s + 1) limit =
      some (.page (((allLines (crlfToLf text)).drop s).take
        (pageLength (pageLimit limit) ((lineSizes (crlfToLf text)).drop s))) note, true) := by
    unfold readContent
    rw [if_neg (content_ne_nil htext hne), hkind.2, decodeStrict_eq_some_iff.mpr htext]
    dsimp only
    rw [hpage]
  refine ⟨note, ?_, hnext⟩
  have hlook := readFile_look hkind.1 (hmax.symm ▸ hread) (hmax.symm ▸ hcontent)
  rwa [hmax] at hlook

theorem readFile_overflow (hkind : TakenForText lower target file.content)
    (htext : encodeUtf8 text = file.content) (hne : text ≠ [])
    (hs : s < (allLines (crlfToLf text)).length)
    (hread : isUnchanged sha256 states target.canonical file (s + 1) limit = (false, states'))
    (hover : usizeSize ≤ s + pageLimit limit) :
    readFile sha256 lower target file states (s + 1) limit = none := by
  unfold readFile readContent
  dsimp only
  rw [if_neg hkind.1, Nat.max_eq_left (Nat.succ_pos s), hread]
  dsimp only
  rw [if_neg (content_ne_nil htext hne), hkind.2, decodeStrict_eq_some_iff.mpr htext]
  dsimp only
  rw [readText_of_overflow hs hover]

theorem isUnchanged_next (sha256 : List UInt8 → String) (target : Target) (file : File)
    (limit : Option Nat) (states : FileStates) {offset' : Nat} (hne : offset ≠ offset') :
    ∃ states', isUnchanged sha256 (recordRead sha256 states target.canonical file offset limit)
      target.canonical file offset' limit = (false, states') := by
  rcases isUnchanged_recordRead_of_ne sha256 states target.canonical file hne limit with
    h | hmtime
  · exact ⟨_, h⟩
  · exact ⟨_, isUnchanged_of_no_mtime sha256 _ _ hmtime _ _⟩

variable {n : Nat}

theorem follow_of_fits (hkind : TakenForText lower target file.content)
    (htext : encodeUtf8 text = file.content) (hne : text ≠ []) (hlimit : 0 < pageLimit limit)
    (hsizes : ∀ i, LineFits (pageLimit limit) (lineSizes (crlfToLf text)) i)
    (hn : (allLines (crlfToLf text)).length - s ≤ n) (hs : s < (allLines (crlfToLf text)).length)
    (hread : isUnchanged sha256 states target.canonical file (s + 1) limit = (false, states'))
    (hstarts : ∀ t, PageStart (pageLimit limit) (lineSizes (crlfToLf text)) s t →
      t + pageLimit limit < usizeSize) :
    follow sha256 lower target file limit n states (s + 1) =
      some ((allLines (crlfToLf text)).drop s) := by
  induction n generalizing s states states' with
  | zero => omega
  | succ n ih =>
    obtain ⟨note, hpage, hnext⟩ :=
      readFile_page hkind htext hne hs hread (hstarts s (.here s))
    have hpos : 0 < pageLength (pageLimit limit) ((lineSizes (crlfToLf text)).drop s) :=
      pageLength_pos hlimit (by rwa [length_lineSizes]) (hsizes s)
    rw [follow, hpage]
    dsimp only
    have hresult : ∀ lines, (ReadResult.page lines note).next = (ReadResult.page [] note).next :=
      fun _ => by cases note <;> rfl
    rw [hresult, hnext]
    by_cases hmore : s + pageLength (pageLimit limit) ((lineSizes (crlfToLf text)).drop s) <
        (allLines (crlfToLf text)).length
    · rw [if_pos hmore]
      dsimp only
      obtain ⟨states'', hread'⟩ := isUnchanged_next sha256 target file limit states'
        (by omega : s + 1 ≠
          s + pageLength (pageLimit limit) ((lineSizes (crlfToLf text)).drop s) + 1)
      rw [ih (by omega) hmore hread' fun t ht =>
        hstarts t (.next (by rwa [length_lineSizes]) ht)]
      show some (((allLines (crlfToLf text)).drop s).take _ ++ _) = _
      rw [← List.drop_drop, List.take_append_drop]
    · rw [if_neg hmore]
      show some (((allLines (crlfToLf text)).drop s).take _) = _
      rw [List.take_of_length_le (by rw [List.length_drop]; omega)]

theorem fits_of_follow (hkind : TakenForText lower target file.content)
    (htext : encodeUtf8 text = file.content) (hne : text ≠ [])
    (hs : s < (allLines (crlfToLf text)).length)
    (hread : isUnchanged sha256 states target.canonical file (s + 1) limit = (false, states'))
    (h : follow sha256 lower target file limit n states (s + 1) =
      some ((allLines (crlfToLf text)).drop s)) :
    (∀ i, s ≤ i → LineFits (pageLimit limit) (lineSizes (crlfToLf text)) i) ∧
      ∀ t, PageStart (pageLimit limit) (lineSizes (crlfToLf text)) s t →
        t + pageLimit limit < usizeSize := by
  -- on the number of reads
  induction n generalizing s states states' with
  | zero => cases h
  | succ n ih =>
    have hfits : s + pageLimit limit < usizeSize := by
      by_contra hover
      rw [follow, readFile_overflow hkind htext hne hs hread (not_lt.mp hover)] at h
      cases h
    obtain ⟨note, hpage, hnext⟩ := readFile_page hkind htext hne hs hread hfits
    have hresult : ∀ lines, (ReadResult.page lines note).next = (ReadResult.page [] note).next :=
      fun _ => by cases note <;> rfl
    rw [follow, hpage] at h
    dsimp only at h
    rw [hresult, hnext] at h
    -- the lines of this page fit
    have hcover : ∀ i, s ≤ i →
        i < s + pageLength (pageLimit limit) ((lineSizes (crlfToLf text)).drop s) →
          LineFits (pageLimit limit) (lineSizes (crlfToLf text)) i :=
      fun i hsi hi => lineFits_of_lt hsi hi
    by_cases hmore : s + pageLength (pageLimit limit) ((lineSizes (crlfToLf text)).drop s) <
        (allLines (crlfToLf text)).length
    · rw [if_pos hmore] at h
      dsimp only at h
      obtain ⟨rest, hrest, hlines⟩ := Option.map_eq_some_iff.mp h
      have hsplit : rest = (allLines (crlfToLf text)).drop
          (s + pageLength (pageLimit limit) ((lineSizes (crlfToLf text)).drop s)) := by
        rw [← List.drop_drop]
        refine List.append_cancel_left (hlines.trans ?_)
        exact (List.take_append_drop _ _).symm
      -- a page without a line is asked for again
      by_cases hzero : pageLength (pageLimit limit) ((lineSizes (crlfToLf text)).drop s) = 0
      · rw [hzero, Nat.add_zero] at hrest hsplit
        subst hsplit
        cases hmtime : file.mtime with
        | none =>
          exact ih hs (isUnchanged_of_no_mtime sha256 _ _ hmtime _ _) hrest
        | some mtime =>
          exfalso
          have hdedup := isUnchanged_recordRead_self sha256 states' target.canonical hmtime
            (s + 1) limit
          have hfull : (allLines (crlfToLf text)).drop s ≠ [] := by
            rw [Ne, List.drop_eq_nil_iff]
            omega
          cases n with
          | zero => cases hrest
          | succ n =>
            obtain ⟨answer, states'', hanswer⟩ : ∃ answer states'',
                isUnchanged sha256 (recordRead sha256 states' target.canonical file (s + 1) limit)
                  target.canonical file (s + 1) limit = (answer, states'') := ⟨_, _, rfl⟩
            rw [hanswer] at hdedup
            obtain rfl : answer = true := hdedup
            rw [follow, readFile, if_neg hkind.1, Nat.max_eq_left (Nat.succ_pos s), hanswer]
              at hrest
            exact hfull (Option.some.inj hrest).symm
      · obtain ⟨states'', hread'⟩ := isUnchanged_next sha256 target file limit states'
          (by omega : s + 1 ≠
            s + pageLength (pageLimit limit) ((lineSizes (crlfToLf text)).drop s) + 1)
        obtain ⟨hsizes, hstarts⟩ := ih hmore hread' (hsplit ▸ hrest)
        refine ⟨fun i hsi => ?_, fun t ht => ?_⟩
        · rcases Nat.lt_or_ge i
            (s + pageLength (pageLimit limit) ((lineSizes (crlfToLf text)).drop s)) with hi | hi
          · exact hcover i hsi hi
          · exact hsizes i hi
        · cases ht with
          | here => exact hfits
          | next _ ht => exact hstarts t ht
    · refine ⟨fun i hsi => ?_, fun t ht => ?_⟩
      · rcases Nat.lt_or_ge i
          (s + pageLength (pageLimit limit) ((lineSizes (crlfToLf text)).drop s)) with hi | hi
        · exact hcover i hsi hi
        · intro size hsize
          have hlen := (List.getElem?_eq_some_iff.mp hsize).1
          rw [length_lineSizes] at hlen
          omega
      · cases ht with
        | here => exact hfits
        | next hmore' _ => exact absurd (by rwa [length_lineSizes] at hmore') hmore

/-- What it takes for a file to be read to its end from the first line on. -/
structure Readable (sha256 : List UInt8 → String) (lower : String → String) (target : Target)
    (file : File) (text : List Char) (limit : Option Nat) (states : FileStates) : Prop where
  kind : TakenForText lower target file.content
  /-- The first read does not repeat the last one. -/
  first : (isUnchanged sha256 states target.canonical file 1 limit).1 = false
  sizes : ∀ i, LineFits (pageLimit limit) (lineSizes (crlfToLf text)) i
  starts : ∀ s, PageStart (pageLimit limit) (lineSizes (crlfToLf text)) 0 s →
    s + pageLimit limit < usizeSize

theorem follow_document (hdocument : target.ext ∈ ["pdf", "docx", "xlsx", "pptx"]) (n : Nat)
    (states : FileStates) (offset : Nat) :
    follow sha256 lower target file limit (n + 1) states offset = some [] := by
  rw [follow, readFile, if_pos hdocument]
  rfl

theorem follow_unchanged (n : Nat)
    (hunchanged : (isUnchanged sha256 states target.canonical file 1 limit).1 = true) :
    follow sha256 lower target file limit (n + 1) states 1 = some [] := by
  by_cases hdocument : target.ext ∈ ["pdf", "docx", "xlsx", "pptx"]
  · exact follow_document hdocument n states 1
  · obtain ⟨answer, states', hanswer⟩ : ∃ answer states',
        isUnchanged sha256 states target.canonical file 1 limit = (answer, states') := ⟨_, _, rfl⟩
    rw [hanswer] at hunchanged
    obtain rfl : answer = true := hunchanged
    rw [follow, readFile, if_neg hdocument, Nat.max_self, hanswer]
    rfl

-- an answer that names no offset ends the reading, whether the file is looked at or not
theorem follow_no_lines (n : Nat) (states : FileStates)
    (hcontent : readContent lower target file.content 1 limit = some (r, recorded))
    (hnext : r.next = none) (hlines : r.lines = []) :
    follow sha256 lower target file limit (n + 1) states 1 = some [] := by
  by_cases hdocument : target.ext ∈ ["pdf", "docx", "xlsx", "pptx"]
  · exact follow_document hdocument n states 1
  cases hanswer : isUnchanged sha256 states target.canonical file 1 limit with
  | mk answer states' =>
    cases answer with
    | true => exact follow_unchanged n (by rw [hanswer])
    | false =>
      rw [follow, readFile, if_neg hdocument, Nat.max_self, hanswer]
      dsimp only
      rw [hcontent]
      dsimp only
      rw [hnext, hlines]

theorem follow_emptyFile (hraw : file.content = []) (n : Nat) (states : FileStates) :
    follow sha256 lower target file limit (n + 1) states 1 = some [] := by
  have hcontent : readContent lower target file.content 1 limit = some (.emptyFile, false) := by
    rw [readContent, if_pos hraw]
  exact follow_no_lines n states hcontent rfl rfl

theorem follow_of_not_text (hkind : ¬TakenForText lower target file.content) (n : Nat)
    (states : FileStates) :
    follow sha256 lower target file limit (n + 1) states 1 = some [] := by
  by_cases hdocument : target.ext ∈ ["pdf", "docx", "xlsx", "pptx"]
  · exact follow_document hdocument n states 1
  by_cases hraw : file.content = []
  · exact follow_emptyFile hraw n states
  cases hmime : imageMime lower target file.content with
  | none => exact absurd ⟨hdocument, hmime⟩ hkind
  | some mime =>
    have hcontent : readContent lower target file.content 1 limit = some (.image mime, false) := by
      rw [readContent, if_neg hraw, hmime]
    exact follow_no_lines n states hcontent rfl rfl

theorem not_shown_of_empty (hne : text ≠ [])
    (hnone : ∀ n, follow sha256 lower target file limit (n + 1) states 1 = some []) :
    follow sha256 lower target file limit n states 1 ≠ some (fileLines text) := by
  intro h
  rw [fileLines, if_neg hne] at h
  cases n with
  | zero => cases h
  | succ n => exact allLines_ne_nil _ (Option.some.inj (h.symm.trans (hnone n)))

theorem readable_of_follow (htext : encodeUtf8 text = file.content) (hne : text ≠ [])
    (h : follow sha256 lower target file limit n states 1 = some (fileLines text)) :
    Readable sha256 lower target file text limit states := by
  have hkind : TakenForText lower target file.content := by
    by_contra hkind
    exact not_shown_of_empty hne (fun n => follow_of_not_text hkind n states) h
  cases hread : isUnchanged sha256 states target.canonical file 1 limit with
  | mk answer states' =>
    cases answer with
    | true =>
      exact absurd h (not_shown_of_empty hne fun n => follow_unchanged n (by rw [hread]))
    | false =>
      rw [fileLines, if_neg hne] at h
      have hpos := List.length_pos_iff.mpr (allLines_ne_nil (crlfToLf text))
      obtain ⟨hsizes, hstarts⟩ := fits_of_follow (s := 0) hkind htext hne hpos hread h
      exact ⟨hkind, by rw [hread], fun i => hsizes i (Nat.zero_le i), hstarts⟩

theorem follow_of_readable (htext : encodeUtf8 text = file.content) (hne : text ≠ [])
    (hlimit : limit ≠ some 0) (h : Readable sha256 lower target file text limit states) :
    ∃ n, follow sha256 lower target file limit n states 1 = some (fileLines text) := by
  obtain ⟨hkind, hfirst, hsizes, hstarts⟩ := h
  have hlimitPos : 0 < pageLimit limit := by
    cases limit with
    | none => decide
    | some l => exact Nat.pos_of_ne_zero fun h => hlimit (congrArg some h)
  have hpos := List.length_pos_iff.mpr (allLines_ne_nil (crlfToLf text))
  cases hread : isUnchanged sha256 states target.canonical file 1 limit with
  | mk answer states' =>
    rw [hread] at hfirst
    obtain rfl : answer = false := hfirst
    refine ⟨(allLines (crlfToLf text)).length, ?_⟩
    rw [fileLines, if_neg hne]
    exact follow_of_fits (s := 0) hkind htext hne hlimitPos hsizes (le_refl _) hpos hread hstarts

/-- Following the offsets shows all lines of a file exactly if it is readable. -/
theorem reads_all_iff (sha256 : List UInt8 → String) (lower : String → String) (target : Target)
    (file : File) (text : List Char) (htext : encodeUtf8 text = file.content)
    (limit : Option Nat) (hlimit : limit ≠ some 0) (states : FileStates) :
    (∃ n, follow sha256 lower target file limit n states 1 = some (fileLines text)) ↔
      text = [] ∨ Readable sha256 lower target file text limit states := by
  by_cases hne : text = []
  · subst hne
    refine iff_of_true ⟨1, ?_⟩ (Or.inl rfl)
    rw [fileLines, if_pos rfl]
    exact follow_emptyFile htext.symm 0 states
  · rw [or_iff_right hne]
    exact ⟨fun ⟨_, h⟩ => readable_of_follow htext hne h, follow_of_readable htext hne hlimit⟩

/-- A text of two lines, read line by line to its end. -/
theorem reads_all_two_lines :
    Readable (fun _ => "") id ⟨"notes.txt", "/w/notes.txt", "txt"⟩
      ⟨encodeUtf8 "one\ntwo".toList, some 1⟩ "one\ntwo".toList (some 1) ∅ := by
  have hreads := reads_all_iff (fun _ => "") id ⟨"notes.txt", "/w/notes.txt", "txt"⟩
    ⟨encodeUtf8 "one\ntwo".toList, some 1⟩ "one\ntwo".toList rfl (some 1) (by decide) ∅
  exact (hreads.mp ⟨2, by decide +kernel⟩).resolve_left (by decide)

/-- A text of one line that is as long as a page. -/
def longLine : List Char := List.replicate readMaxChars 'a'

theorem crlfToLf_replicate (n : Nat) : crlfToLf (List.replicate n 'a') = List.replicate n 'a' := by
  induction n with
  | zero => rfl
  | succ n ih =>
    cases n with
    | zero => rfl
    | succ n =>
      rw [List.replicate_succ, List.replicate_succ, crlfToLf, if_neg (by decide),
        ← List.replicate_succ, ih]

/-- With its number in front, the line does not fit on its page, and is never shown. -/
theorem long_line_not_shown :
    ¬∃ n, follow (fun _ => "") id ⟨"a.txt", "/w/a.txt", "txt"⟩
      ⟨encodeUtf8 longLine, some 1⟩ none n ∅ 1 = some (fileLines longLine) := by
  rintro ⟨n, h⟩
  have hne : longLine ≠ [] := fun h => by
    have hlength := List.length_replicate (n := readMaxChars) (a := 'a')
    rw [← longLine, h] at hlength
    exact absurd hlength (by decide)
  have hsizes := (readable_of_follow rfl hne h).sizes 0
  have hline : lineSizes (crlfToLf longLine) = [readMaxChars + 3] := by
    have hnewline : '\n' ∉ longLine := fun h =>
      absurd (List.eq_of_mem_replicate h) (by decide)
    have hbytes : ∀ n, byteLen (List.replicate n 'a') = n := by
      intro n
      induction n with
      | zero => rfl
      | succ n ih =>
        rw [List.replicate_succ, byteLen_cons, ih]
        exact Nat.add_comm 1 n
    rw [longLine, crlfToLf_replicate, ← longLine, lineSizes, allLines,
      List.splitOn_eq_singleton hnewline]
    show [byteLen (['1', '|', ' '] ++ longLine)] = _
    rw [byteLen_append, longLine, hbytes, Nat.add_comm]
    rfl
  rw [hline] at hsizes
  rcases hsizes (readMaxChars + 3) rfl with hlt | ⟨heq, -⟩ <;> omega

end Follow

end Files

end HiveClaw
