import HiveClaw.Files.EditFile

/-!
# What an edit keeps

An edit of a text that occurs once should write the bytes in front of it and
behind it as they were, and between them the lines of the new text.

* `edit_keeps_rest` — it does where the file has one style of line ends around
  the match, the new text does not end with a line end that is stripped, and
  does not vanish together with the line end behind it. For files without
  `\r\n` these are all the cases in which it does.
-/

namespace HiveClaw

namespace Files

open Lib FileStates

-- ---
-- Renditions
-- ---

/-- A line without some of the blanks at its end. -/
def Shortened (seg line : List Char) : Prop :=
  ∃ blanks, line = seg ++ blanks ∧ ∀ c ∈ blanks, RustStr.isWhitespace c = true

/-- The lines of a text with other line ends, but for blanks in front of these. -/
def Rendition (newline text r : List Char) : Prop :=
  ∃ segments, List.Forall₂ Shortened segments ((crlfToLf text).splitOn '\n') ∧
    r = newline.intercalate segments

theorem newline_notMem_of_shortened {segments : List (List Char)} {text : List Char}
    (h : List.Forall₂ Shortened segments (text.splitOn '\n')) : ∀ seg ∈ segments, '\n' ∉ seg := by
  have hlines : ∀ line ∈ text.splitOn '\n', '\n' ∉ line := fun _ =>
    newline_notMem_of_mem_splitOn
  generalize text.splitOn '\n' = all at h hlines
  induction h with
  | nil => exact fun seg hseg => absurd hseg List.not_mem_nil
  | @cons first line segments rest hfirst _ ih =>
    intro seg hseg
    rcases List.mem_cons.mp hseg with rfl | hseg
    · obtain ⟨blanks, rfl, -⟩ := hfirst
      exact fun hmem => hlines _ List.mem_cons_self (List.mem_append_left blanks hmem)
    · exact ih (fun l hl => hlines l (List.mem_cons_of_mem line hl)) seg hseg

theorem shortened_rdropWhile (line : List Char) :
    Shortened (line.rdropWhile RustStr.isWhitespace) line :=
  ⟨line.rtakeWhile RustStr.isWhitespace, List.rdropWhile_append_rtakeWhile.symm,
    fun _ hc => List.mem_rtakeWhile_imp hc⟩

theorem isWhitespace_cr : RustStr.isWhitespace '\r' = true := by decide

theorem rdropWhile_stripCr (line : List Char) :
    (stripCr line).rdropWhile RustStr.isWhitespace = line.rdropWhile RustStr.isWhitespace := by
  unfold stripCr
  split
  · next h =>
    obtain ⟨front, rfl⟩ := List.getLast?_eq_some_iff.mp h
    rw [List.dropLast_concat, List.rdropWhile_concat_pos _ _ _ isWhitespace_cr]
  · rfl

section New

variable {markdown : Bool} {newText : List Char}

/-- The lines of the new text, without the blanks that are stripped. -/
def newLines (markdown : Bool) (newText : List Char) : List (List Char) :=
  ((crlfToLf newText).splitOn '\n').map fun line =>
    if markdown then line else line.rdropWhile RustStr.isWhitespace

theorem shortened_newLines :
    List.Forall₂ Shortened (newLines markdown newText) ((crlfToLf newText).splitOn '\n') := by
  rw [newLines, List.forall₂_map_left_iff, List.forall₂_same]
  intro line _
  cases markdown with
  | true => exact ⟨[], (List.append_nil line).symm, fun _ h => absurd h List.not_mem_nil⟩
  | false => exact shortened_rdropWhile line

theorem normNew_eq_newLines (hnew : newText ≠ [])
    (h : markdown = true ∨ newText.getLast? ≠ some '\n') :
    normNew markdown newText = ['\n'].intercalate (newLines markdown newText) := by
  cases markdown with
  | true =>
    show crlfToLf newText = ['\n'].intercalate (((crlfToLf newText).splitOn '\n').map fun l => l)
    rw [List.map_id', List.intercalate_splitOn]
  | false =>
    have hlast : (crlfToLf newText).getLast? ≠ some '\n' := by
      rw [getLast?_crlfToLf]
      exact h.resolve_left Bool.false_ne_true
    obtain ⟨front, last, hsplit, hlines⟩ := lines_of_getLast?_ne (crlfToLf_ne_nil hnew) hlast
    show ['\n'].intercalate ((lines (crlfToLf newText)).map fun l => _) =
      ['\n'].intercalate (((crlfToLf newText).splitOn '\n').map fun l => _)
    rw [hlines, hsplit, List.map_append, List.map_append, List.map_map]
    congr 2
    exact List.map_congr_left fun line _ => rdropWhile_stripCr line

theorem count_normNew_stripped (h : newText.getLast? = some '\n') :
    (normNew false newText).count '\n' + 2 = ((crlfToLf newText).splitOn '\n').length := by
  obtain ⟨front, hfront⟩ := List.getLast?_eq_some_iff.mp ((getLast?_crlfToLf newText).trans h)
  have hsplit : (crlfToLf newText).splitOn '\n' = front.splitOn '\n' ++ [[]] := by
    rw [hfront]
    exact List.splitOn_append_cons_self front []
  have hstripped : normNew false newText = ['\n'].intercalate
      ((front.splitOn '\n').map fun line => line.rdropWhile RustStr.isWhitespace) := by
    show ['\n'].intercalate ((lines (crlfToLf newText)).map fun l => _) = _
    rw [hfront, lines_concat_newline, List.map_map]
    congr 1
    exact List.map_congr_left fun line _ => rdropWhile_stripCr line
  have hshort : List.Forall₂ Shortened
      ((front.splitOn '\n').map fun line => line.rdropWhile RustStr.isWhitespace)
      (front.splitOn '\n') := by
    rw [List.forall₂_map_left_iff, List.forall₂_same]
    exact fun line _ => shortened_rdropWhile line
  have hne : (front.splitOn '\n').map (fun line => line.rdropWhile RustStr.isWhitespace) ≠ [] :=
    fun hnil => List.splitOn_ne_nil '\n' front (List.map_eq_nil_iff.mp hnil)
  have hcount := count_intercalate hne (newline_notMem_of_shortened hshort)
  rw [hstripped, hsplit, List.length_append, List.length_singleton]
  rw [List.length_map] at hcount
  omega

end New

-- ---
-- The edit
-- ---

def newlineOf (raw : List UInt8) : List Char := if usesCrlf raw then ['\r', '\n'] else ['\n']

/-- At exactly one character the text goes on with `oldText`. -/
def OccursOnce (oldText text : List Char) : Prop := ∃! i, oldText <+: text.drop i

/-- A call of the tool for a file that exists. -/
structure EditCall where
  target : Target
  file : File
  clock : Option ℚ
  states : FileStates
  oldText : List Char
  newText : List Char
  replaceAll : Bool

namespace EditCall

variable (alphanumeric : Char → Bool) (sha256 : List UInt8 → String) (call : EditCall)

def run : Option (EditResult × Option File × FileStates) :=
  editFile alphanumeric sha256 call.target (some call.file) call.clock call.states call.oldText
    call.newText call.replaceAll

/-- A successful edit writes what is in front of the old text, the new text in the style of the
file, and what is behind the old text. -/
def KeepsRest (pre suf : List Char) : Prop :=
  ∀ warning edited states, call.run alphanumeric sha256 = some (.edited warning, edited, states) →
    ∃ r, Rendition (newlineOf call.file.content) call.newText r ∧
      edited.map File.content = some (encodeUtf8 (pre ++ r ++ suf))

def Refused (text : List Char) : Prop :=
  call.target.isNotebook = true ∨ editMaxFileSize < call.file.content.length ∨
    (call.replaceAll = false ∧
      1 < (occurrences (crlfToLf call.oldText) (crlfToLf text)).length)

/-- No line end is split by the match or changed around it, and none is lost in the new text or
behind the match. -/
structure Lossless (pre suf : List Char) : Prop where
  whole : Unsplit pre call.oldText ∧ Unsplit call.oldText suf
  alone : occurrences (crlfToLf call.oldText) (crlfToLf (pre ++ call.oldText ++ suf)) =
    [(crlfToLf pre).length]
  uniform : usesCrlf call.file.content = true → NoBareLf pre ∧ NoBareLf suf
  ends : call.target.isMarkdown = true ∨ call.newText.getLast? ≠ some '\n'
  stays : normNew call.target.isMarkdown call.newText = [] →
    call.oldText.getLast? ≠ some '\n' → (crlfToLf suf).head? ≠ some '\n'

end EditCall

theorem usesCrlf_of_infix {text : List Char} (h : ['\r', '\n'] <:+: text) :
    usesCrlf (encodeUtf8 text) = true := by
  obtain ⟨front, rest, rfl⟩ := h
  refine decide_eq_true ⟨encodeUtf8 front, encodeUtf8 rest, ?_⟩
  rw [encodeUtf8_append, encodeUtf8_append]
  rfl

theorem unsplit_of_lf {a b : List Char} (h : ¬['\r', '\n'] <:+: a ++ b) : Unsplit a b := by
  rintro ⟨hlast, hhead⟩
  obtain ⟨front, rfl⟩ := List.getLast?_eq_some_iff.mp hlast
  obtain ⟨rest, rfl⟩ := List.head?_eq_some_iff.mp hhead
  exact h ⟨front, rest, by simp⟩

variable {oldText : List Char}

theorem ne_nil_of_occursOnce {text : List Char} (h : OccursOnce oldText text) : oldText ≠ [] := by
  rintro rfl
  obtain ⟨i, -, hunique⟩ := h
  have h0 := hunique 0 (List.nil_prefix)
  have h1 := hunique 1 (List.nil_prefix)
  omega

theorem occurrences_of_occursOnce {pre suf : List Char}
    (h : OccursOnce oldText (pre ++ oldText ++ suf)) :
    occurrences oldText (pre ++ oldText ++ suf) = [pre.length] := by
  have hold := ne_nil_of_occursOnce h
  have hat : oldText <+: (pre ++ oldText ++ suf).drop pre.length := by
    rw [List.append_assoc, List.drop_left]
    exact List.prefix_append oldText suf
  have hplaces : ∀ p ∈ occurrences oldText (pre ++ oldText ++ suf), p = pre.length := fun p hp =>
    h.unique (mem_occurrences hold hp) hat
  obtain ⟨p, hp, -, -⟩ := exists_occurrence hold hat
  have hapart := @pairwise_occurrences _ _ oldText (pre ++ oldText ++ suf) hold
  cases hocc : occurrences oldText (pre ++ oldText ++ suf) with
  | nil =>
    rw [hocc] at hp
    cases hp
  | cons q rest =>
    rw [hocc] at hplaces hapart
    obtain rfl := hplaces q List.mem_cons_self
    cases rest with
    | nil => rfl
    | cons q' rest =>
      have hq' := hplaces q' (List.mem_cons_of_mem _ List.mem_cons_self)
      have hlt := (List.pairwise_cons.mp hapart).1 q' List.mem_cons_self
      have hlength := List.length_pos_iff.mpr hold
      omega

section Call

variable {alphanumeric : Char → Bool} {sha256 : List UInt8 → String} {call : EditCall}
  {pre suf : List Char}

theorem run_eq (hipynb : ¬call.target.isNotebook = true)
    (hsize : call.file.content.length ≤ editMaxFileSize) (hold : call.oldText ≠ [])
    {text : List Char} (htext : encodeUtf8 text = call.file.content) :
    call.run alphanumeric sha256 =
      (editText alphanumeric call.target.isMarkdown (usesCrlf call.file.content) text
        call.oldText call.newText call.replaceAll).map
          (finishEdit sha256 call.target call.file call.clock
            (call.states.checkRead sha256 call.target.canonical call.file).1
            (call.states.checkRead sha256 call.target.canonical call.file).2) := by
  have hdecode := decodeStrict_eq_some_iff.mpr htext
  unfold EditCall.run editFile
  rw [if_neg hipynb]
  dsimp only
  rw [if_neg (by omega), if_neg hold, hdecode]

theorem not_edited_of_refused (hold : call.oldText ≠ []) {text : List Char}
    (htext : encodeUtf8 text = call.file.content) (h : call.Refused text)
    (warning : Option String) (edited : Option File) (states : FileStates) :
    call.run alphanumeric sha256 ≠ some (.edited warning, edited, states) := by
  by_cases hipynb : call.target.isNotebook = true
  · unfold EditCall.run editFile
    rw [if_pos hipynb]
    exact fun heq => by cases heq
  by_cases hsize : editMaxFileSize < call.file.content.length
  · unfold EditCall.run editFile
    rw [if_neg hipynb]
    dsimp only
    rw [if_pos hsize]
    exact fun heq => by cases heq
  obtain ⟨hall, hmany⟩ := (h.resolve_left hipynb).resolve_left hsize
  have hspans : findAllMatches (crlfToLf text) (crlfToLf call.oldText) =
      some ((occurrences (crlfToLf call.oldText) (crlfToLf text)).map
        (exactSpan (crlfToLf text) (crlfToLf call.oldText))) := by
    unfold findAllMatches
    rw [findExactMatches_eq _ (crlfToLf_ne_nil hold), Option.bind_eq_bind, Option.bind_some,
      if_pos]
    exact fun hnil => by rw [List.map_eq_nil_iff.mp hnil] at hmany; cases hmany
  have hedit : ∃ count lines, editText alphanumeric call.target.isMarkdown
      (usesCrlf call.file.content) text call.oldText call.newText call.replaceAll =
        some (.ambiguous count lines) := by
    unfold editText
    dsimp only
    rw [hspans, Option.bind_eq_bind, Option.bind_some, if_neg, if_pos]
    · exact ⟨_, _, rfl⟩
    · rw [List.length_map]
      exact ⟨hmany, hall⟩
    · exact fun hnil => by rw [List.map_eq_nil_iff.mp hnil] at hmany; cases hmany
  obtain ⟨count, lines, hedit⟩ := hedit
  rw [run_eq hipynb (not_lt.mp hsize) hold htext, hedit]
  exact fun heq => by cases heq

theorem run_alone (hipynb : ¬call.target.isNotebook = true)
    (hsize : call.file.content.length ≤ editMaxFileSize) (hold : call.oldText ≠ [])
    (htext : encodeUtf8 (pre ++ call.oldText ++ suf) = call.file.content)
    (hwhole : Unsplit pre call.oldText ∧ Unsplit call.oldText suf)
    (halone : occurrences (crlfToLf call.oldText) (crlfToLf (pre ++ call.oldText ++ suf)) =
      [(crlfToLf pre).length]) :
    ∃ warning edited states,
      call.run alphanumeric sha256 = some (.edited warning, some edited, states) ∧
        edited.content =
          let new := normNew call.target.isMarkdown call.newText
          let patched := crlfToLf pre ++ new ++
            restBehind (crlfToLf call.oldText) new (crlfToLf suf)
          encodeUtf8 (if usesCrlf call.file.content then lfToCrlf patched else patched) := by
  have hsplit : crlfToLf (pre ++ call.oldText ++ suf) =
      crlfToLf pre ++ crlfToLf call.oldText ++ crlfToLf suf := by
    have hbehind : Unsplit (pre ++ call.oldText) suf := by
      intro hborder
      refine hwhole.2 ⟨?_, hborder.2⟩
      rw [← hborder.1, List.getLast?_append_of_ne_nil pre hold]
    rw [crlfToLf_append hbehind, crlfToLf_append hwhole.1]
  have hedit := @editText_alone alphanumeric call.target.isMarkdown (usesCrlf call.file.content)
    (pre ++ call.oldText ++ suf) call.oldText call.newText (crlfToLf pre) (crlfToLf suf)
    call.replaceAll hold hsplit halone
  rw [run_eq hipynb hsize hold htext, hedit]
  exact ⟨_, _, _, rfl, rfl⟩

theorem keeps_of_lossless (hold : call.oldText ≠ []) (hnew : call.newText ≠ [])
    (htext : encodeUtf8 (pre ++ call.oldText ++ suf) = call.file.content)
    (h : call.Lossless pre suf) : call.KeepsRest alphanumeric sha256 pre suf := by
  intro warning edited states hrun
  by_cases hrefused : call.target.isNotebook = true ∨
      editMaxFileSize < call.file.content.length
  · refine absurd hrun (not_edited_of_refused hold htext ?_ warning edited states)
    exact hrefused.imp_right Or.inl
  obtain ⟨hipynb, hsize⟩ := not_or.mp hrefused
  obtain ⟨warning', edited', states', hrun', hcontent⟩ := @run_alone alphanumeric sha256 call pre suf
    hipynb (not_lt.mp hsize) hold htext h.whole h.alone
  obtain ⟨-, rfl, -⟩ : _ ∧ edited = some edited' ∧ _ := by
    rw [hrun'] at hrun
    injection hrun with hrun
    injection hrun with hfirst hrun
    injection hrun with hedited hstates
    exact ⟨hfirst, hedited.symm, hstates⟩
  have hlines := normNew_eq_newLines hnew h.ends
  have hnone := newline_notMem_of_shortened
    (@shortened_newLines call.target.isMarkdown call.newText)
  have hbehind : restBehind (crlfToLf call.oldText)
      (normNew call.target.isMarkdown call.newText) (crlfToLf suf) = crlfToLf suf := by
    refine if_neg fun hall => ?_
    rw [getLast?_crlfToLf] at hall
    exact h.stays hall.1 hall.2.1 hall.2.2
  refine ⟨(newlineOf call.file.content).intercalate
    (newLines call.target.isMarkdown call.newText), ⟨_, shortened_newLines, rfl⟩, ?_⟩
  rw [Option.map_some, hcontent]
  dsimp only
  rw [hbehind, hlines]
  by_cases hcrlf : usesCrlf call.file.content = true
  · obtain ⟨hpre, hsuf⟩ := h.uniform hcrlf
    rw [if_pos hcrlf, newlineOf, if_pos hcrlf, lfToCrlf_append, lfToCrlf_append,
      lfToCrlf_crlfToLf hpre, lfToCrlf_crlfToLf hsuf, lfToCrlf_intercalate hnone]
  · have hnoCrlf : ¬['\r', '\n'] <:+: pre ++ call.oldText ++ suf := fun hinside =>
      hcrlf (htext ▸ usesCrlf_of_infix hinside)
    have hpre : crlfToLf pre = pre := crlfToLf_eq_self fun hinside =>
      hnoCrlf (hinside.trans ⟨[], call.oldText ++ suf, by simp⟩)
    have hsuf : crlfToLf suf = suf := crlfToLf_eq_self fun hinside =>
      hnoCrlf (hinside.trans ⟨pre ++ call.oldText, [], by simp⟩)
    rw [if_neg hcrlf, newlineOf, if_neg hcrlf, hpre, hsuf]

/-- Without line ends of two characters in the file, an edit that keeps the rest loses no line
end. -/
theorem lossless_of_keeps (hipynb : ¬call.target.isNotebook = true)
    (hsize : call.file.content.length ≤ editMaxFileSize)
    (htext : encodeUtf8 (pre ++ call.oldText ++ suf) = call.file.content)
    (honce : OccursOnce call.oldText (pre ++ call.oldText ++ suf))
    (hlf : usesCrlf call.file.content = false)
    (h : call.KeepsRest alphanumeric sha256 pre suf) : call.Lossless pre suf := by
  have hold := ne_nil_of_occursOnce honce
  have hnoCrlf : ¬['\r', '\n'] <:+: pre ++ call.oldText ++ suf := fun hinside => by
    rw [← htext, usesCrlf_of_infix hinside] at hlf
    cases hlf
  have hpart : ∀ part, part <:+: pre ++ call.oldText ++ suf → crlfToLf part = part :=
    fun part hinside => crlfToLf_eq_self fun hcrlf => hnoCrlf (hcrlf.trans hinside)
  have hpre := hpart pre ⟨[], call.oldText ++ suf, by simp⟩
  have holdText := hpart call.oldText ⟨pre, suf, by simp⟩
  have hsuf := hpart suf ⟨pre ++ call.oldText, [], by simp⟩
  have hwhole : Unsplit pre call.oldText ∧ Unsplit call.oldText suf :=
    ⟨unsplit_of_lf fun hinside => hnoCrlf (hinside.trans ⟨[], suf, by simp⟩),
      unsplit_of_lf fun hinside => hnoCrlf (hinside.trans ⟨pre, [], by simp⟩)⟩
  have halone : occurrences (crlfToLf call.oldText) (crlfToLf (pre ++ call.oldText ++ suf)) =
      [(crlfToLf pre).length] := by
    rw [holdText, hpre, hpart _ (List.infix_refl _)]
    exact occurrences_of_occursOnce honce
  obtain ⟨warning, edited, states, hrun, hcontent⟩ := @run_alone alphanumeric sha256 call pre suf
    hipynb hsize hold htext hwhole halone
  obtain ⟨r, ⟨segments, hshort, rfl⟩, hkept⟩ := h warning (some edited) states hrun
  rw [Option.map_some, hcontent] at hkept
  simp only [hlf, newlineOf, hpre, holdText, hsuf, Bool.false_eq_true, if_false,
    Option.some.injEq] at hkept
  have hwritten := decodeLossy_encode (pre ++ normNew call.target.isMarkdown call.newText ++
    restBehind call.oldText (normNew call.target.isMarkdown call.newText) suf)
  rw [hkept, decodeLossy_encode, List.append_assoc, List.append_assoc] at hwritten
  -- the lines on both sides are counted
  have hcounts := congrArg (List.count '\n') (List.append_cancel_left hwritten)
  rw [List.count_append, List.count_append] at hcounts
  have hnone := newline_notMem_of_shortened hshort
  have hne : segments ≠ [] := by
    rintro rfl
    exact List.splitOn_ne_nil '\n' _ (List.forall₂_nil_left_iff.mp hshort)
  have hsegments := count_intercalate hne hnone
  have hlength := hshort.length_eq
  have hrest : (restBehind call.oldText (normNew call.target.isMarkdown call.newText) suf).count
      '\n' ≤ suf.count '\n' := by
    unfold restBehind
    split
    · exact (List.tail_sublist suf).count_le '\n'
    · exact Nat.le_refl _
  have hends : call.target.isMarkdown = true ∨ call.newText.getLast? ≠ some '\n' := by
    by_contra hlost
    obtain ⟨hmarkdown, hlast⟩ := not_or.mp hlost
    have hstripped := count_normNew_stripped (not_not.mp hlast)
    rw [Bool.not_eq_true] at hmarkdown
    rw [hmarkdown] at hcounts hrest
    omega
  refine ⟨hwhole, halone, fun hcrlf => ?_, hends, fun hgone hlast hhead => ?_⟩
  · rw [hlf] at hcrlf
    cases hcrlf
  · rw [hsuf] at hhead
    obtain ⟨tail, hsufEq⟩ := List.head?_eq_some_iff.mp hhead
    rw [hgone, restBehind, if_pos ⟨rfl, hlast, hhead⟩, hsufEq] at hcounts
    simp at hcounts
    omega

end Call

/-- A successful edit of a text that occurs once keeps what is around it, where no line end is
lost; in a file without line ends of two characters, only there. -/
theorem edit_keeps_rest (alphanumeric : Char → Bool) (sha256 : List UInt8 → String)
    (call : EditCall) {pre suf : List Char}
    (htext : encodeUtf8 (pre ++ call.oldText ++ suf) = call.file.content)
    (honce : OccursOnce call.oldText (pre ++ call.oldText ++ suf)) (hnew : call.newText ≠ []) :
    (call.Refused (pre ++ call.oldText ++ suf) ∨ call.Lossless pre suf →
      call.KeepsRest alphanumeric sha256 pre suf) ∧
    (usesCrlf call.file.content = false → call.KeepsRest alphanumeric sha256 pre suf →
      call.Refused (pre ++ call.oldText ++ suf) ∨ call.Lossless pre suf) := by
  have hold := ne_nil_of_occursOnce honce
  refine ⟨fun h => ?_, fun hlf h => ?_⟩
  · rcases h with hrefused | hlossless
    · exact fun warning edited states hrun =>
        absurd hrun (not_edited_of_refused hold htext hrefused warning edited states)
    · exact keeps_of_lossless hold hnew htext hlossless
  · by_cases hrefused : call.target.isNotebook = true ∨
        editMaxFileSize < call.file.content.length
    · exact Or.inl (hrefused.imp_right Or.inl)
    · obtain ⟨hipynb, hsize⟩ := not_or.mp hrefused
      exact Or.inr (lossless_of_keeps hipynb (not_lt.mp hsize) htext honce hlf h)

def textCall (content oldText newText : String) : EditCall where
  target := ⟨"notes.txt", "/notes.txt", "txt"⟩
  file := ⟨encodeUtf8 content.toList, none⟩
  clock := none
  states := ∅
  oldText := oldText.toList
  newText := newText.toList
  replaceAll := false

theorem occursOnce_of_filter {oldText text : List Char} (hold : oldText ≠ []) {p : Nat}
    (h : (List.range text.length).filter (fun i => oldText <+: text.drop i) = [p]) :
    OccursOnce oldText text := by
  have hiff : ∀ i, oldText <+: text.drop i ↔ i = p := by
    intro i
    rw [← List.mem_singleton, ← h, List.mem_filter, List.mem_range, decide_eq_true_iff]
    refine ⟨fun hi => ⟨?_, hi⟩, And.right⟩
    by_contra hge
    rw [List.drop_eq_nil_of_le (not_lt.mp hge), List.prefix_nil] at hi
    exact hold hi
  exact ⟨p, (hiff p).mpr rfl, fun i hi => (hiff i).mp hi⟩

/-- The last line of a file is edited. -/
theorem edit_keeps_rest_word :
    (textCall "a\nb\n" "b" "c").KeepsRest (fun _ => false) (fun _ => "") "a\n".toList
      "\n".toList :=
  (edit_keeps_rest (fun _ => false) (fun _ => "") (textCall "a\nb\n" "b" "c")
    (show encodeUtf8 ("a\n".toList ++ "b".toList ++ "\n".toList) = _ by decide)
    (@occursOnce_of_filter "b".toList "a\nb\n".toList (by decide) 2 (by decide))
    (by decide)).1
    (Or.inr ⟨⟨(fun h => absurd h.1 (by decide)), fun h => absurd h.1 (by decide)⟩, by decide,
      fun h => absurd h (by decide), Or.inr (by decide), by decide⟩)

/-- A line in front of the match gets the line end of the line behind it; the line end of the new
text is lost. -/
theorem edit_changes_rest :
    (OccursOnce "b".toList "a\nb\r\n".toList ∧
      ¬(textCall "a\nb\r\n" "b" "c").KeepsRest (fun _ => false) (fun _ => "") "a\n".toList
        "\r\n".toList) ∧
    (OccursOnce "b".toList "a\nb".toList ∧
      ¬(textCall "a\nb" "b" "c\n").KeepsRest (fun _ => false) (fun _ => "") "a\n".toList
        []) := by
  have honce : OccursOnce "b".toList "a\nb\r\n".toList :=
    occursOnce_of_filter (by decide) (by decide : _ = [2])
  have honce' : OccursOnce "b".toList "a\nb".toList :=
    occursOnce_of_filter (by decide) (by decide : _ = [2])
  refine ⟨⟨honce, fun h => ?_⟩, honce', fun h => ?_⟩
  · obtain ⟨warning, edited, states, hrun, hcontent⟩ := @run_alone (fun _ => false) (fun _ => "")
      (textCall "a\nb\r\n" "b" "c") "a\n".toList "\r\n".toList (by decide) (by decide) (by decide)
      (by decide) ⟨(fun hborder => absurd hborder.1 (by decide)), fun hborder => absurd hborder.1 (by decide)⟩
      (by decide)
    obtain ⟨r, -, hkept⟩ := h warning (some edited) states hrun
    rw [Option.map_some, hcontent] at hkept
    have hwritten := congrArg (List.take 2) (Option.some.inj hkept)
    rw [List.append_assoc, encodeUtf8_append, List.take_left' (by decide)] at hwritten
    exact absurd hwritten (by decide)
  · have hlossless := lossless_of_keeps (by decide) (by decide) (by decide) honce' (by decide) h
    exact absurd hlossless.ends (by decide)

end Files

end HiveClaw
