import HiveClaw.Lib.Lines
import HiveClaw.Lib.Occurrences
import HiveClaw.RustStd

/-!
# Finding the text to edit

The matchers of `crates/agent/src/tools/filesystem.rs`: the text itself, its
lines up to blanks at their ends, its lines up to the style of quotes as well,
and the text up to the style of quotes. Each gives spans in bytes of the
content; a slice that is not on character boundaries panics, which is `none`.

* `findExactMatches_eq`, `findQuoteMatches_eq` — the two search loops give the
  places of the text, and of the normalised text in the normalised content.
-/

namespace HiveClaw

namespace Files

open Lib

-- ---
-- Quotes and lines
-- ---

namespace QuoteTable

/-- A single quotation mark of either side. -/
def isCurlySingle (c : Char) : Bool := c = '\u2018' || c = '\u2019'

/-- A double quotation mark of either side. -/
def isCurlyDouble (c : Char) : Bool := c = '\u201c' || c = '\u201d'

def normalizeChar (c : Char) : Char :=
  if isCurlySingle c then '\'' else if isCurlyDouble c then '"' else c

-- `QuoteTable::normalize`
def normalize (s : List Char) : List Char := s.map normalizeChar

end QuoteTable

-- `str::trim`
def trimLine (line : List Char) : List Char := (RustStr.trim (String.ofList line)).toList

/-- `MatchSpan`; `stop` is the source's `end`. -/
structure MatchSpan where
  start : Nat
  stop : Nat
  text : List Char
  line : Nat

-- ---
-- The matchers
-- ---

/-- The loop of `find_exact_matches`. The first argument is more than the bytes still to search. -/
def exactLoop (content oldText : List Char) : Nat → Nat → Option (List MatchSpan)
  | 0, _ => none
  | fuel + 1, start => do
    let rest ← dropBytes content start
    match findBytes oldText rest with
    | none => some []
    | some idx => do
      let absolute := start + idx
      let stop := absolute + byteLen oldText
      let text ← sliceBytes content absolute stop
      let front ← takeBytes content absolute
      let more ← exactLoop content oldText fuel (max stop (absolute + 1))
      some (⟨absolute, stop, text, front.count '\n' + 1⟩ :: more)

-- `find_exact_matches`
def findExactMatches (content oldText : List Char) : Option (List MatchSpan) :=
  exactLoop content oldText (byteLen content + 1) 0

def lineKey (normalizeQuotes : Bool) (line : List Char) : List Char :=
  if normalizeQuotes then QuoteTable.normalize (trimLine line) else trimLine line

/-- `offsets[i]`: each line counts with a line break of one byte. -/
def lineOffset (contentLines : List (List Char)) (i : Nat) : Nat :=
  ((contentLines.take i).map fun line => byteLen line + 1).sum

def windowStop (contentLines : List (List Char)) (windowSize i : Nat) : Nat :=
  let stop := lineOffset contentLines (i + windowSize)
  if contentLines[i + windowSize - 1]?.any (fun line => line.getLast? = some '\n') ∨
      i + windowSize < contentLines.length then
    stop - 1
  else stop

/-- The span of a window of lines. -/
def windowSpan (content : List Char) (contentLines : List (List Char)) (windowSize i : Nat) :
    Option MatchSpan := do
  let start := lineOffset contentLines i
  let stop := windowStop contentLines windowSize i
  let text ← sliceBytes content start stop
  some ⟨start, stop, text, i + 1⟩

/-- The windows of the content whose lines compare equal to the old ones. -/
def matchedWindows (contentLines oldLines : List (List Char)) (normalizeQuotes : Bool) : List Nat :=
  if oldLines = [] then []
  else if contentLines.length < oldLines.length then []
  else
    (List.range (contentLines.length - oldLines.length + 1)).filter fun i =>
      (slice contentLines i (i + oldLines.length)).map (lineKey normalizeQuotes) = oldLines

/-- The lines of the old text, as they are compared. -/
def oldKeys (oldText : List Char) (normalizeQuotes : Bool) : List (List Char) :=
  (lines oldText).map (lineKey normalizeQuotes)

-- `find_trim_matches`
def findTrimMatches (content oldText : List Char) (normalizeQuotes : Bool) :
    Option (List MatchSpan) :=
  let oldLines := oldKeys oldText normalizeQuotes
  let contentLines := lines content
  (matchedWindows contentLines oldLines normalizeQuotes).mapM
    (windowSpan content contentLines oldLines.length)

/-- The loop of `find_quote_matches`. -/
def quoteLoop (content oldText : List Char) : Nat → Nat → Option (List MatchSpan)
  | 0, _ => none
  | fuel + 1, start => do
    let normOld := QuoteTable.normalize oldText
    let rest ← dropBytes (QuoteTable.normalize content) start
    match findBytes normOld rest with
    | none => some []
    | some idx => do
      let absolute := start + idx
      let stop := absolute + byteLen oldText
      let text ← sliceBytes content absolute (min stop (byteLen content))
      let front ← takeBytes content absolute
      let more ← quoteLoop content oldText fuel (absolute + max (byteLen normOld) 1)
      some (⟨absolute, stop, text, front.count '\n' + 1⟩ :: more)

-- `find_quote_matches`
def findQuoteMatches (content oldText : List Char) : Option (List MatchSpan) :=
  quoteLoop content oldText (byteLen (QuoteTable.normalize content) + 1) 0

-- `find_all_matches`
def findAllMatches (content oldText : List Char) : Option (List MatchSpan) := do
  let exact ← findExactMatches content oldText
  if exact ≠ [] then some exact
  else do
    let trimmed ← findTrimMatches content oldText false
    if trimmed ≠ [] then some trimmed
    else do
      let trimmed ← findTrimMatches content oldText true
      if trimmed ≠ [] then some trimmed else findQuoteMatches content oldText

-- ---
-- The search loops
-- ---

/-- The span of the old text at a character of the content. -/
def exactSpan (content oldText : List Char) (p : Nat) : MatchSpan :=
  ⟨byteLen (content.take p), byteLen (content.take p) + byteLen oldText, oldText,
    (content.take p).count '\n' + 1⟩

theorem byteLen_pos {text : List Char} (h : text ≠ []) : 0 < byteLen text := by
  obtain ⟨c, rest, rfl⟩ := List.exists_cons_of_ne_nil h
  have hpos : 0 < c.utf8Size := Char.utf8Size_pos c
  rw [byteLen_cons]
  omega

variable {oldText : List Char} {fuel : Nat}

theorem exactLoop_eq (hold : oldText ≠ []) (done rest : List Char) (hfuel : byteLen rest < fuel) :
    exactLoop (done ++ rest) oldText fuel (byteLen done) =
      some ((occurrencesFrom oldText 0 done.length rest).map (exactSpan (done ++ rest) oldText)) := by
  have hpos := byteLen_pos hold
  induction fuel generalizing done rest with
  | zero => omega
  | succ fuel ih =>
    have hdrop : dropBytes (done ++ rest) (byteLen done) = some rest :=
      dropBytes_eq_some_iff.mpr ⟨done, rfl, rfl⟩
    rw [exactLoop, hdrop, Option.bind_eq_bind, Option.bind_some]
    cases hfind : findBytes oldText rest with
    | none =>
      rw [occurrencesFrom_of_findBytes_none hfind]
      rfl
    | some idx =>
      obtain ⟨front, tail, rfl, rfl, hplaces⟩ :=
        occurrencesFrom_of_findBytes hold hfind done.length
      have hslice : sliceBytes (done ++ (front ++ (oldText ++ tail)))
          (byteLen done + byteLen front)
          (byteLen done + byteLen front + byteLen oldText) = some oldText :=
        sliceBytes_eq_some_iff.mpr ⟨done ++ front, tail, by simp, byteLen_append _ _,
          by rw [byteLen_append]⟩
      have htake : takeBytes (done ++ (front ++ (oldText ++ tail)))
          (byteLen done + byteLen front) = some (done ++ front) :=
        takeBytes_eq_some_iff.mpr ⟨⟨oldText ++ tail, by simp⟩, byteLen_append _ _⟩
      have hnext : max (byteLen done + byteLen front + byteLen oldText)
          (byteLen done + byteLen front + 1) = byteLen (done ++ front ++ oldText) := by
        rw [byteLen_append, byteLen_append]
        omega
      have hmore := ih (done ++ front ++ oldText) tail (by
        rw [byteLen_append, byteLen_append] at hfuel
        omega)
      have hwhole : done ++ front ++ oldText ++ tail = done ++ (front ++ (oldText ++ tail)) := by
        simp
      rw [hwhole] at hmore
      simp only [hslice, htake, hnext, hmore, Option.bind_eq_bind, Option.bind_some]
      rw [hplaces, List.map_cons, List.length_append, List.length_append]
      have hfront : (done ++ (front ++ (oldText ++ tail))).take (done.length + front.length) =
          done ++ front := by
        rw [← List.append_assoc, ← List.length_append, List.take_left]
      simp only [exactSpan, hfront, byteLen_append]

theorem findExactMatches_eq (content : List Char) (hold : oldText ≠ []) :
    findExactMatches content oldText =
      some ((occurrences oldText content).map (exactSpan content oldText)) :=
  exactLoop_eq hold [] content (Nat.lt_succ_self _)

/-- What `find_quote_matches` makes of a place in the normalised content. -/
def quoteSpan (content oldText : List Char) (p : Nat) : Option MatchSpan := do
  let absolute := byteLen (QuoteTable.normalize (content.take p))
  let stop := absolute + byteLen oldText
  let text ← sliceBytes content absolute (min stop (byteLen content))
  let front ← takeBytes content absolute
  some ⟨absolute, stop, text, front.count '\n' + 1⟩

theorem normalize_ne_nil (hold : oldText ≠ []) :
    QuoteTable.normalize oldText ≠ [] := fun h => hold (List.map_eq_nil_iff.mp h)

/-- The places of the old text, up to the style of quotes. -/
def quotePlaces (content oldText : List Char) : List Nat :=
  occurrences (QuoteTable.normalize oldText) (QuoteTable.normalize content)

theorem quoteLoop_eq {content : List Char} (hold : oldText ≠ []) (done rest : List Char)
    (hwhole : QuoteTable.normalize content = done ++ rest) (hfuel : byteLen rest < fuel) :
    quoteLoop content oldText fuel (byteLen done) =
      (occurrencesFrom (QuoteTable.normalize oldText) 0 done.length rest).mapM
        (quoteSpan content oldText) := by
  have hpos := byteLen_pos (normalize_ne_nil hold)
  induction fuel generalizing done rest with
  | zero => omega
  | succ fuel ih =>
    have hdrop : dropBytes (QuoteTable.normalize content) (byteLen done) = some rest :=
      dropBytes_eq_some_iff.mpr ⟨done, hwhole.symm, rfl⟩
    rw [quoteLoop, hdrop, Option.bind_eq_bind, Option.bind_some]
    cases hfind : findBytes (QuoteTable.normalize oldText) rest with
    | none =>
      rw [occurrencesFrom_of_findBytes_none hfind]
      rfl
    | some idx =>
      obtain ⟨front, tail, rfl, rfl, hplaces⟩ :=
        occurrencesFrom_of_findBytes (normalize_ne_nil hold) hfind done.length
      have hnext : byteLen done + byteLen front + max (byteLen (QuoteTable.normalize oldText)) 1 =
          byteLen (done ++ front ++ QuoteTable.normalize oldText) := by
        rw [byteLen_append, byteLen_append]
        omega
      have hmore := ih (done ++ front ++ QuoteTable.normalize oldText) tail
        (by simp [hwhole]) (by
          rw [byteLen_append, byteLen_append] at hfuel
          omega)
      have hplace : byteLen (QuoteTable.normalize (content.take (done.length + front.length))) =
          byteLen done + byteLen front := by
        rw [QuoteTable.normalize, List.map_take, ← QuoteTable.normalize, hwhole,
          ← List.append_assoc, ← List.length_append, List.take_left, byteLen_append]
      simp only [hnext, hmore]
      rw [hplaces, List.mapM_cons, quoteSpan, hplace, List.length_append, List.length_append]
      simp only [Option.bind_eq_bind, Option.pure_def, Option.bind_assoc, Option.bind_some]

/-- `find_quote_matches` takes the places in the normalised content, in bytes of that, for places
in the content. -/
theorem findQuoteMatches_eq (content : List Char) (hold : oldText ≠ []) :
    findQuoteMatches content oldText =
      (quotePlaces content oldText).mapM (quoteSpan content oldText) :=
  quoteLoop_eq hold [] _ rfl (Nat.lt_succ_self _)

end Files

end HiveClaw
