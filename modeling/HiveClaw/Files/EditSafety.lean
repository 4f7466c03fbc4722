import HiveClaw.Files.EditFile
import HiveClaw.Files.QuoteMatches

/-!
# Edits that do not panic

The spans that `find_all_matches` gives should be parts of the content, in
ascending order and without overlaps, so that all of them can be replaced, each
once.

* `editSafe_iff` — they are, depending on the matcher that finds them: always
  for the text itself, unless a deleted match takes the line break that begins
  the next one; for lines, if the last line is not matched without a line break
  at the end of the content, and windows do not overlap; for the text up to
  quotes, if its places in the normalised text are such places in the content.
-/

namespace HiveClaw

namespace Files

open Lib QuoteTable

-- ---
-- Spans in general
-- ---

/-- The span is one of whole characters of the content, and has its text. -/
structure Right (content : List Char) (s : MatchSpan) : Prop where
  ordered : s.start ≤ s.stop
  inside : s.stop ≤ byteLen content
  starts : IsCharBoundary content s.start
  stops : IsCharBoundary content s.stop
  text : sliceBytes content s.start s.stop = some s.text

/-- The spans are right, in ascending order and disjoint, and no edit panics or writes twice. -/
def EditSafe (alphanumeric : Char → Bool) (content oldText : List Char) : Prop :=
  ∃ spans, findAllMatches content oldText = some spans ∧ (∀ s ∈ spans, Right content s) ∧
    (spans.Pairwise fun s t => s.start < t.start ∧ s.stop ≤ t.start) ∧
    ∀ newText, (∀ replaceAll : Bool, (patchAll alphanumeric content oldText newText
        (if replaceAll then spans else spans.take 1)).isSome = true) ∧
      spans.Pairwise fun s t => patchStop alphanumeric content oldText newText s ≤ t.start

/-- A match that ends here and is deleted takes the line break behind it. -/
def TakesBreak (content : List Char) (stop : Nat) : Prop :=
  (dropBytes content stop).bind List.head? = some '\n' ∧
    (takeBytes content stop).bind List.getLast? ≠ some '\n'

/-- Spans that can be replaced one after the other. -/
def Apart (content : List Char) (start stop start' : Nat) : Prop :=
  start < start' ∧ stop ≤ start' ∧ (stop = start' → ¬TakesBreak content stop)

variable {alphanumeric : Char → Bool} {content oldText : List Char}

variable {s : MatchSpan}

theorem right_of_slice (h : sliceBytes content s.start s.stop = some s.text) : Right content s := by
  obtain ⟨hle, hstart, hstop⟩ :=
    isSome_sliceBytes_iff.mp (Option.isSome_iff_exists.mpr ⟨s.text, h⟩)
  obtain ⟨front, rest, hcontent, -, hstopLen⟩ := sliceBytes_eq_some_iff.mp h
  refine ⟨hle, ?_, hstart, hstop, h⟩
  rw [← hcontent, byteLen_append, byteLen_append, hstopLen]
  omega

theorem sliceBytes_eq_of_front {front text rest : List Char} (h : front ++ text ++ rest = content) :
    dropBytes content (byteLen front + byteLen text) = some rest ∧
      takeBytes content (byteLen front + byteLen text) = some (front ++ text) :=
  ⟨dropBytes_eq_some_iff.mpr ⟨front ++ text, h, byteLen_append front text⟩,
    takeBytes_eq_some_iff.mpr ⟨⟨rest, h⟩, byteLen_append front text⟩⟩

theorem replacementFor_nil (m : MatchSpan) : replacementFor alphanumeric oldText [] m = [] := by
  have hquotes : preserveQuoteStyle alphanumeric oldText m.text [] = [] := by
    unfold preserveQuoteStyle
    split
    · rfl
    · simp
  rw [replacementFor, hquotes]
  unfold reindentLikeMatch
  dsimp only
  split
  · rfl
  split
  · rfl
  split
  · rfl
  split
  · rfl
  split
  · rfl
  split
  · rfl
  · rfl

variable (alphanumeric oldText) in
theorem patchStop_cases (hs : Right content s) (newText : List Char) :
    patchStop alphanumeric content oldText newText s = s.stop ∨
      (patchStop alphanumeric content oldText newText s = s.stop + 1 ∧
        (dropBytes content s.stop).bind List.head? = some '\n' ∧ s.text.getLast? ≠ some '\n') := by
  unfold patchStop
  split
  · next h =>
    obtain ⟨-, hlast, hbyte⟩ := h
    obtain ⟨front, rest, hcontent, hstart, hstop⟩ := sliceBytes_eq_some_iff.mp hs.text
    refine Or.inr ⟨rfl, ?_, hlast⟩
    rw [← hcontent, ← hstop, ← byteLen_append] at hbyte
    rw [← hstop, (sliceBytes_eq_of_front hcontent).1]
    exact (byte_eq_newline_iff (front ++ s.text) rest).mp hbyte
  · exact Or.inl rfl

theorem patchStop_of_takesBreak (hs : Right content s) (hpos : s.start < s.stop)
    (h : TakesBreak content s.stop) : patchStop alphanumeric content oldText [] s = s.stop + 1 := by
  obtain ⟨front, rest, hcontent, hstart, hstop⟩ := sliceBytes_eq_some_iff.mp hs.text
  obtain ⟨hdrop, htake⟩ := sliceBytes_eq_of_front hcontent
  obtain ⟨hhead, hlast⟩ := h
  rw [← hstop, hdrop] at hhead
  have htext : s.text ≠ [] := by
    intro hnil
    rw [hnil] at hstop
    have : byteLen ([] : List Char) = 0 := rfl
    omega
  rw [← hstop, htake, Option.bind_some, List.getLast?_append_of_ne_nil front htext] at hlast
  rw [patchStop, if_pos]
  refine ⟨replacementFor_nil s, hlast, ?_⟩
  rw [← hcontent, ← hstop, ← byteLen_append]
  exact (byte_eq_newline_iff (front ++ s.text) rest).mpr hhead

variable (alphanumeric oldText) in
theorem isSome_patched (hs : Right content s) (newText : List Char) :
    (sliceBytes content s.start (patchStop alphanumeric content oldText newText s)).isSome =
      true := by
  rcases patchStop_cases alphanumeric oldText hs newText with hstop | ⟨hstop, hhead, -⟩
  · rw [hstop, hs.text]
    rfl
  · obtain ⟨front, rest, hcontent, hstart, hend⟩ := sliceBytes_eq_some_iff.mp hs.text
    rw [← hend, (sliceBytes_eq_of_front hcontent).1] at hhead
    obtain ⟨tail, rfl⟩ := List.head?_eq_some_iff.mp hhead
    rw [hstop, Option.isSome_iff_exists]
    refine ⟨s.text ++ ['\n'], sliceBytes_eq_some_iff.mpr ⟨front, tail, ?_, hstart, ?_⟩⟩
    · rw [← hcontent]
      simp
    · rw [byteLen_append, ← hend]
      exact (Nat.add_assoc _ _ _).symm

variable {spans : List MatchSpan}

theorem safe_spans_iff (hright : ∀ s ∈ spans, Right content s) :
    ((spans.Pairwise fun s t => s.start < t.start ∧ s.stop ≤ t.start) ∧
      ∀ newText, (∀ replaceAll : Bool, (patchAll alphanumeric content oldText newText
          (if replaceAll then spans else spans.take 1)).isSome = true) ∧
        spans.Pairwise fun s t => patchStop alphanumeric content oldText newText s ≤ t.start) ↔
    spans.Pairwise fun s t => Apart content s.start s.stop t.start := by
  constructor
  · rintro ⟨hordered, hall⟩
    refine (hordered.and (hall []).2).imp_of_mem fun {s t} hs _ h => ?_
    refine ⟨h.1.1, h.1.2, fun htouch hbreak => ?_⟩
    have hstop := h.2
    have hstart := h.1.1
    rw [patchStop_of_takesBreak (hright s hs) (by omega) hbreak] at hstop
    omega
  · intro hapart
    have hstops : ∀ newText, spans.Pairwise fun s t =>
        patchStop alphanumeric content oldText newText s ≤ t.start := by
      intro newText
      refine hapart.imp_of_mem fun {s t} hs _ h => ?_
      obtain ⟨hstart, hle, hbreak⟩ := h
      rcases patchStop_cases alphanumeric oldText (hright s hs) newText with hstop | ⟨hstop, hhead, hlast⟩
      · rw [hstop]
        exact hle
      · have hne : s.stop ≠ t.start := by
          intro htouch
          obtain ⟨front, rest, hcontent, hfront, hend⟩ :=
            sliceBytes_eq_some_iff.mp (hright s hs).text
          refine hbreak htouch ⟨hhead, ?_⟩
          have htext : s.text ≠ [] := by
            intro hnil
            rw [hnil] at hend
            have : byteLen ([] : List Char) = 0 := rfl
            omega
          rw [← hend, (sliceBytes_eq_of_front hcontent).2, Option.bind_some,
            List.getLast?_append_of_ne_nil front htext]
          exact hlast
        omega
    refine ⟨hapart.imp fun h => ⟨h.1, h.2.1⟩, fun newText => ⟨fun replaceAll => ?_, hstops newText⟩⟩
    have hsub : (if replaceAll then spans else spans.take 1).Sublist spans := by
      split
      · exact List.Sublist.refl spans
      · exact List.take_sublist 1 spans
    obtain ⟨out, hout, -⟩ := exists_patchRanges (replacementFor alphanumeric oldText newText)
      (fun s hs => isSome_patched alphanumeric oldText (hright s (hsub.subset hs)) newText)
      ((hstops newText).sublist hsub)
    exact Option.isSome_iff_exists.mpr ⟨out, hout⟩

-- ---
-- Spans at places
-- ---

theorem eq_map_of_mapM {f : Nat → Option MatchSpan} {places : List Nat}
    (h : places.mapM f = some spans) : spans = places.map fun p => (f p).getD ⟨0, 0, [], 0⟩ := by
  have hpairs := forall₂_of_mapM h
  clear h
  induction hpairs with
  | nil => rfl
  | cons hp _ ih => rw [List.map_cons, hp, ← ih, Option.getD_some]

theorem safe_at_places {places : List Nat} {f : Nat → Option MatchSpan} {start stop : Nat → Nat}
    (hfind : findAllMatches content oldText = places.mapM f)
    (hright : ∀ p ∈ places, start p ≤ stop p → IsCharBoundary content (start p) →
      IsCharBoundary content (stop p) → ∃ s, f p = some s ∧ Right content s)
    (hends : ∀ p ∈ places, ∀ s, f p = some s → s.start = start p ∧ s.stop = stop p) :
    EditSafe alphanumeric content oldText ↔
      (∀ p ∈ places, start p ≤ stop p ∧ IsCharBoundary content (start p) ∧
        IsCharBoundary content (stop p)) ∧
      places.Pairwise fun p q => Apart content (start p) (stop p) (start q) := by
  constructor
  · rintro ⟨spans, hspans, hall, hpatches⟩
    have hapart := (safe_spans_iff hall).mp hpatches
    rw [hfind] at hspans
    have hmap := eq_map_of_mapM hspans
    have hpairs := forall₂_of_mapM hspans
    refine ⟨fun p hp => ?_, ?_⟩
    · obtain ⟨s, hs, hmem⟩ := exists_of_forall₂ hpairs hp
      obtain ⟨hstart, hstop⟩ := hends p hp s hs
      have hr := hall s hmem
      rw [← hstart, ← hstop]
      exact ⟨hr.ordered, hr.starts, hr.stops⟩
    · rw [hmap, List.pairwise_map] at hapart
      refine hapart.imp_of_mem fun {p q} hp hq h => ?_
      obtain ⟨s, hs, -⟩ := exists_of_forall₂ hpairs hp
      obtain ⟨t, ht, -⟩ := exists_of_forall₂ hpairs hq
      rw [hs, ht, Option.getD_some, Option.getD_some] at h
      rwa [← (hends p hp s hs).1, ← (hends p hp s hs).2, ← (hends q hq t ht).1]
  · rintro ⟨hcut, hapart⟩
    have hspan : ∀ p ∈ places, f p = some ((f p).getD ⟨0, 0, [], 0⟩) ∧
        Right content ((f p).getD ⟨0, 0, [], 0⟩) := by
      intro p hp
      obtain ⟨hle, hstart, hstop⟩ := hcut p hp
      obtain ⟨s, hs, hr⟩ := hright p hp hle hstart hstop
      rw [hs, Option.getD_some]
      exact ⟨rfl, hr⟩
    have hall : ∀ s ∈ places.map fun p => (f p).getD ⟨0, 0, [], 0⟩, Right content s := by
      intro s hs
      obtain ⟨p, hp, rfl⟩ := List.mem_map.mp hs
      exact (hspan p hp).2
    refine ⟨_, hfind.trans (mapM_eq_some_map fun p hp => (hspan p hp).1), hall,
      (safe_spans_iff hall).mpr ?_⟩
    rw [List.pairwise_map]
    refine hapart.imp_of_mem fun {p q} hp hq h => ?_
    obtain ⟨hps, hpt⟩ := hends p hp _ (hspan p hp).1
    obtain ⟨hqs, -⟩ := hends q hq _ (hspan q hq).1
    rwa [hps, hpt, hqs]

theorem pairwise_iff_of_sorted {R : Nat → Nat → Prop} {l : List Nat} (h : l.Pairwise (· < ·)) :
    l.Pairwise R ↔ ∀ i ∈ l, ∀ j ∈ l, i < j → R i j := by
  induction l with
  | nil => exact iff_of_true List.Pairwise.nil fun i hi => absurd hi List.not_mem_nil
  | cons a l ih =>
    obtain ⟨hfirst, hrest⟩ := List.pairwise_cons.mp h
    rw [List.pairwise_cons, ih hrest]
    constructor
    · rintro ⟨ha, hall⟩ i hi j hj hij
      rcases List.mem_cons.mp hi with rfl | hi'
      · rcases List.mem_cons.mp hj with rfl | hj'
        · omega
        · exact ha j hj'
      · rcases List.mem_cons.mp hj with rfl | hj'
        · have := hfirst i hi'
          omega
        · exact hall i hi' j hj' hij
    · intro hall
      exact ⟨fun j hj => hall a List.mem_cons_self j (List.mem_cons_of_mem a hj) (hfirst j hj),
        fun i hi j hj => hall i (List.mem_cons_of_mem a hi) j (List.mem_cons_of_mem a hj)⟩

-- ---
-- The text itself
-- ---

/-- If the text begins with a line break and does not end with one, no match follows directly
after another. -/
def ExactFit (content oldText : List Char) : Prop :=
  oldText.head? = some '\n' → oldText.getLast? ≠ some '\n' →
    ∀ p ∈ occurrences oldText content, p + oldText.length ∉ occurrences oldText content

theorem split_at_occurrence (hold : oldText ≠ []) {p : Nat} (hp : p ∈ occurrences oldText content) :
    ∃ rest, content = content.take p ++ oldText ++ rest ∧ (content.take p).length = p ∧
      content.drop (p + oldText.length) = rest := by
  obtain ⟨rest, hrest⟩ := mem_occurrences hold hp
  have hlength : p ≤ content.length := by
    by_contra hlt
    rw [List.drop_eq_nil_of_le (by omega)] at hrest
    exact hold (List.append_eq_nil_iff.mp hrest).1
  refine ⟨rest, ?_, by rw [List.length_take]; omega, ?_⟩
  · rw [List.append_assoc, hrest, List.take_append_drop]
  · rw [← List.drop_drop, ← hrest, List.drop_left]

theorem sorted_occurrences (hold : oldText ≠ []) :
    (occurrences oldText content).Pairwise (· < ·) := by
  have hpos := List.length_pos_iff.mpr hold
  exact (pairwise_occurrences hold).imp fun h => by omega

theorem exact_safe_iff (hold : oldText ≠ []) (hinside : oldText <:+: content) :
    EditSafe alphanumeric content oldText ↔ ExactFit content oldText := by
  have hne := (occurrences_ne_nil_iff hold).mpr hinside
  have hfind : findAllMatches content oldText =
      (occurrences oldText content).mapM fun p => some (exactSpan content oldText p) := by
    unfold findAllMatches
    rw [findExactMatches_eq content hold, Option.bind_eq_bind, Option.bind_some,
      if_pos (mt List.map_eq_nil_iff.mp hne)]
    exact (mapM_eq_some_map fun _ _ => rfl).symm
  -- what a place is, in bytes
  have hplace : ∀ p ∈ occurrences oldText content,
      sliceBytes content (byteLen (content.take p))
        (byteLen (content.take p) + byteLen oldText) = some oldText := by
    intro p hp
    obtain ⟨rest, hcontent, -, -⟩ := split_at_occurrence hold hp
    exact sliceBytes_eq_some_iff.mpr ⟨content.take p, rest, hcontent.symm, rfl, rfl⟩
  have hsafe := @safe_at_places alphanumeric content oldText _ _
    (fun p => byteLen (content.take p)) (fun p => byteLen (content.take p) + byteLen oldText) hfind
    (fun p hp _ _ _ => ⟨_, rfl, right_of_slice (hplace p hp)⟩)
    (fun p _ s hs => by rw [← Option.some.inj hs]; exact ⟨rfl, rfl⟩)
  rw [hsafe, and_iff_right fun p hp => isSome_sliceBytes_iff.mp
      (Option.isSome_iff_exists.mpr ⟨_, hplace p hp⟩),
    pairwise_iff_of_sorted (sorted_occurrences hold)]
  have hstops : ∀ p ∈ occurrences oldText content,
      byteLen (content.take p) + byteLen oldText =
        byteLen (content.take (p + oldText.length)) ∧ p + oldText.length ≤ content.length := by
    intro p hp
    obtain ⟨rest, hcontent, hlength, -⟩ := split_at_occurrence hold hp
    have htake : content.take (p + oldText.length) = content.take p ++ oldText := by
      obtain ⟨tail, htail⟩ := mem_occurrences hold hp
      rw [List.take_add, ← htail, List.take_left]
    refine ⟨by rw [htake, byteLen_append], ?_⟩
    have hall := congrArg List.length hcontent
    rw [List.length_append, List.length_append, hlength] at hall
    omega
  have hbreak : ∀ p ∈ occurrences oldText content, p + oldText.length ∈ occurrences oldText content →
      (TakesBreak content (byteLen (content.take p) + byteLen oldText) ↔
        oldText.head? = some '\n' ∧ oldText.getLast? ≠ some '\n') := by
    intro p hp hnext
    obtain ⟨rest, hcontent, -, hdrop⟩ := split_at_occurrence hold hp
    obtain ⟨hdropBytes, htakeBytes⟩ := sliceBytes_eq_of_front hcontent.symm
    have hhead : rest.head? = oldText.head? := by
      obtain ⟨tail, htail⟩ := mem_occurrences hold hnext
      rw [← hdrop, ← htail, List.head?_append_of_ne_nil _ hold]
    unfold TakesBreak
    rw [hdropBytes, htakeBytes, Option.bind_some, Option.bind_some, hhead,
      List.getLast?_append_of_ne_nil _ hold]
  constructor
  · intro hall hhead hlast p hp hnext
    have hpos := List.length_pos_iff.mpr hold
    exact (hall p hp _ hnext (by omega)).2.2 (hstops p hp).1
      ((hbreak p hp hnext).mpr ⟨hhead, hlast⟩)
  · intro hfit p hp q hq hpq
    have hgap : p + oldText.length ≤ q := by
      have hapart := (pairwise_iff_of_sorted (sorted_occurrences hold)).mp
        (@pairwise_occurrences _ _ oldText content hold)
      exact hapart p hp q hq hpq
    have hq' := (hstops q hq).2
    have hlt : byteLen (content.take p) < byteLen (content.take q) :=
      byteLen_take_lt hpq (by omega)
    rw [Apart, (hstops p hp).1]
    rcases Nat.lt_or_eq_of_le hgap with hgap | hgap
    · have hstrict : byteLen (content.take (p + oldText.length)) < byteLen (content.take q) :=
        byteLen_take_lt hgap (by omega)
      exact ⟨hlt, by omega, fun htouch => by omega⟩
    · subst hgap
      refine ⟨hlt, Nat.le_refl _, fun _ htakes => ?_⟩
      rw [← (hstops p hp).1] at htakes
      obtain ⟨hhead, hlast⟩ := (hbreak p hp hq).mp htakes
      exact hfit hhead hlast p hp hq

-- ---
-- Windows of lines
-- ---

/-- Windows of lines whose spans can be used. A content with line ends of two characters has its
lines elsewhere than their lengths tell. -/
structure WindowsFit (content : List Char) (size : Nat) (windows : List Nat) : Prop where
  final : ¬['\r', '\n'] <:+: content → (lines content).length - size ∈ windows →
    content.getLast? = some '\n'
  cut : ['\r', '\n'] <:+: content → ∀ i ∈ windows,
    IsCharBoundary content (lineOffset (lines content) i) ∧
      IsCharBoundary content (windowStop (lines content) size i)
  apart : ∀ i ∈ windows, ∀ j ∈ windows, i < j →
    i + size ≤ j ∨ (i + size = j + 1 ∧ (lines content)[j]? = some [])
  stays : ['\r', '\n'] <:+: content → ∀ i ∈ windows, ∀ j ∈ windows, i < j → i + size = j + 1 →
    ¬TakesBreak content (lineOffset (lines content) j)

theorem lineOffset_eq (contentLines : List (List Char)) (i : Nat) :
    lineOffset contentLines i = byteLen ((contentLines.take i).flatMap (· ++ ['\n'])) := by
  unfold lineOffset
  induction contentLines.take i with
  | nil => rfl
  | cons line rest ih =>
    rw [List.map_cons, List.sum_cons, ih, List.flatMap_cons, byteLen_append, byteLen_append]
    rfl

variable {contentLines : List (List Char)} {i : Nat}

theorem lineOffset_succ {line : List Char} (h : contentLines[i]? = some line) :
    lineOffset contentLines (i + 1) = lineOffset contentLines i + byteLen line + 1 := by
  unfold lineOffset
  rw [List.take_add_one, h]
  simp only [Option.toList_some, List.map_append, List.map_cons, List.map_nil, List.sum_append,
    List.sum_cons, List.sum_nil]
  omega

theorem lineOffset_add_le {contentLines : List (List Char)} {i j : Nat} (hij : i ≤ j)
    (hj : j ≤ contentLines.length) :
    lineOffset contentLines i + (j - i) ≤ lineOffset contentLines j := by
  induction j with
  | zero =>
    obtain rfl : i = 0 := by omega
    omega
  | succ j ih =>
    rcases Nat.lt_or_eq_of_le hij with hlt | rfl
    · have hline : contentLines[j]? = some contentLines[j] := List.getElem?_eq_getElem (by omega)
      rw [lineOffset_succ hline]
      have := ih (by omega) (by omega)
      omega
    · omega

theorem newline_notMem_lines {text line : List Char} (h : line ∈ lines text) : '\n' ∉ line := by
  rcases List.mem_append.mp h with hfront | hlast
  · obtain ⟨seg, hseg, rfl⟩ := List.mem_map.mp hfront
    have hnone := newline_notMem_of_mem_splitOn (List.mem_of_mem_dropLast hseg)
    unfold stripCr
    split
    · exact fun hmem => hnone (List.mem_of_mem_dropLast hmem)
    · exact hnone
  · refine newline_notMem_of_mem_splitOn (List.mem_of_getLast? ?_ : line ∈ text.splitOn '\n')
    exact Option.mem_toList.mp (List.mem_of_mem_filter hlast)

theorem windowStop_eq (size i : Nat) :
    windowStop (lines content) size i =
      if i + size < (lines content).length then lineOffset (lines content) (i + size) - 1
      else lineOffset (lines content) (i + size) := by
  have hnone : (lines content)[i + size - 1]?.any
      (fun line => line.getLast? = some '\n') = false := by
    cases hline : (lines content)[i + size - 1]? with
    | none => rfl
    | some line =>
      refine decide_eq_false fun hlast => newline_notMem_lines (List.mem_of_getElem? hline) ?_
      exact List.mem_of_getLast? hlast
  unfold windowStop
  dsimp only
  rw [hnone]
  simp only [Bool.false_eq_true, false_or]

variable {oldLines : List (List Char)} {normalizeQuotes : Bool}

theorem mem_matchedWindows (h : i ∈ matchedWindows contentLines oldLines normalizeQuotes) :
    0 < oldLines.length ∧ i + oldLines.length ≤ contentLines.length := by
  unfold matchedWindows at h
  split at h
  · cases h
  next hold =>
  split at h
  · cases h
  next hlength =>
  have hpos := List.length_pos_iff.mpr hold
  have hrange := List.mem_range.mp (List.mem_of_mem_filter h)
  omega

theorem sorted_matchedWindows :
    (matchedWindows contentLines oldLines normalizeQuotes).Pairwise (· < ·) := by
  unfold matchedWindows
  split
  · exact List.Pairwise.nil
  split
  · exact List.Pairwise.nil
  · exact List.pairwise_lt_range.sublist List.filter_sublist

section Windows

variable {size : Nat}

variable {i : Nat}

theorem windowStop_ge (hsize : 0 < size) (hi : i + size ≤ (lines content).length) :
    lineOffset (lines content) i ≤ windowStop (lines content) size i := by
  have hle := lineOffset_add_le (Nat.le_add_right i size) hi
  rw [windowStop_eq]
  split <;> omega

variable {j : Nat}

/-- A window of lines ends before a later one begins if it has none of its lines, or ends with
an empty line that is the first of it. -/
theorem windowStop_later (hsize : 0 < size) (hij : i < j) (hj : j + size ≤ (lines content).length) :
    (windowStop (lines content) size i ≤ lineOffset (lines content) j ↔
      i + size ≤ j ∨ (i + size = j + 1 ∧ (lines content)[j]? = some [])) ∧
    (windowStop (lines content) size i = lineOffset (lines content) j ↔
      i + size = j + 1 ∧ (lines content)[j]? = some []) := by
  have hline : (lines content)[j]? = some (lines content)[j] := List.getElem?_eq_getElem (by omega)
  have hnext := lineOffset_succ hline
  rw [windowStop_eq, if_pos (by omega)]
  rcases Nat.lt_trichotomy (i + size) (j + 1) with hlt | heq | hgt
  · have hle := @lineOffset_add_le (lines content) (i + size) j (by omega) (by omega)
    have hpos := @lineOffset_add_le (lines content) 0 (i + size) (by omega) (by omega)
    exact ⟨iff_of_true (by omega) (Or.inl (by omega)), iff_of_false (by omega) (by omega)⟩
  · rw [heq, hnext, hline, Option.some.injEq]
    have hempty : byteLen (lines content)[j] = 0 ↔ (lines content)[j] = [] := by
      refine ⟨fun h => ?_, fun h => by rw [h]; rfl⟩
      by_contra hne
      have := byteLen_pos hne
      omega
    rw [← hempty]
    omega
  · have hle := @lineOffset_add_le (lines content) (j + 1) (i + size) (by omega) (by omega)
    exact ⟨iff_of_false (by omega) (by omega), iff_of_false (by omega) (by omega)⟩

theorem front_of_lines (hlf : ¬['\r', '\n'] <:+: content) (hi : i < (lines content).length) :
    ((lines content).take i).flatMap (· ++ ['\n']) <+: content := by
  obtain ⟨front, last, hcontent, hlines, -⟩ := exists_lines hlf
  have hfront : i ≤ front.length := by
    rw [hlines, List.length_append] at hi
    split at hi
    · rw [List.length_nil] at hi
      omega
    · rw [List.length_singleton] at hi
      omega
  rw [hlines, List.take_append_of_le_length hfront]
  conv_rhs => rw [hcontent, ← List.take_append_drop i front, List.flatMap_append, List.append_assoc]
  exact List.prefix_append _ _

theorem window_boundaries (hlf : ¬['\r', '\n'] <:+: content) (hsize : 0 < size)
    (hi : i + size ≤ (lines content).length) :
    IsCharBoundary content (lineOffset (lines content) i) ∧
      (IsCharBoundary content (windowStop (lines content) size i) ↔
        (i + size = (lines content).length → content.getLast? = some '\n')) := by
  refine ⟨⟨_, front_of_lines hlf (by omega), (lineOffset_eq _ i).symm⟩, ?_⟩
  rw [windowStop_eq]
  split
  · next hlt =>
    refine iff_of_true ?_ (by omega)
    -- the line break behind the window is left out
    obtain ⟨k, hk⟩ : ∃ k, i + size = k + 1 := ⟨i + size - 1, by omega⟩
    have hline : (lines content)[k]? = some (lines content)[k] := List.getElem?_eq_getElem (by omega)
    obtain ⟨rest, hrest⟩ := front_of_lines hlf hlt
    rw [hk, List.take_add_one, hline, List.flatMap_append] at hrest
    refine ⟨((lines content).take k).flatMap (· ++ ['\n']) ++ (lines content)[k],
      ⟨'\n' :: rest, ?_⟩, ?_⟩
    · refine Eq.trans ?_ hrest
      simp
    · rw [hk, lineOffset_succ hline, lineOffset_eq, byteLen_append]
      omega
  · next hnot =>
    have hlast : i + size = (lines content).length := by omega
    obtain ⟨front, last, hcontent, hlines, hnone⟩ := exists_lines hlf
    have hall : lineOffset (lines content) (i + size) =
        byteLen ((lines content).flatMap (· ++ ['\n'])) := by
      rw [hlast, lineOffset_eq, List.take_length]
    rw [hall, hlines]
    by_cases hempty : last = []
    · rw [if_pos hempty, List.append_nil]
      rw [hempty, List.append_nil] at hcontent
      rw [← hcontent]
      refine iff_of_true ⟨content, List.prefix_refl content, rfl⟩ fun _ => ?_
      obtain ⟨init, line, hinit⟩ : ∃ init line, front = init ++ [line] := by
        refine ⟨_, _, (List.dropLast_append_getLast (fun hnil => ?_)).symm⟩
        rw [hlines, hnil, if_pos hempty] at hlast
        simp only [List.append_nil, List.length_nil] at hlast
        omega
      rw [hcontent, hinit, List.flatMap_append, List.flatMap_singleton, ← List.append_assoc,
        List.getLast?_concat]
    · rw [if_neg hempty, List.flatMap_append, List.flatMap_singleton, ← List.append_assoc,
        ← hcontent]
      refine iff_of_false ?_ fun h => ?_
      · rintro ⟨head, hhead, hlen⟩
        obtain ⟨tail, htail⟩ := hhead
        have hbytes := congrArg byteLen htail
        rw [byteLen_append] at hbytes hlen
        have : byteLen ['\n'] = 1 := rfl
        omega
      · have hend := h (by rw [hlast, hlines, if_neg hempty])
        rw [hcontent, List.getLast?_append_of_ne_nil _ hempty] at hend
        exact hnone (List.mem_of_getLast? hend)

theorem not_takesBreak_of_lf (hlf : ¬['\r', '\n'] <:+: content) (hpos : 0 < j)
    (hj : j < (lines content).length) : ¬TakesBreak content (lineOffset (lines content) j) := by
  rintro ⟨-, hlast⟩
  refine hlast ?_
  obtain ⟨k, rfl⟩ : ∃ k, j = k + 1 := ⟨j - 1, by omega⟩
  have hfront := front_of_lines hlf hj
  rw [lineOffset_eq, takeBytes_eq_some_iff.mpr ⟨hfront, rfl⟩, Option.bind_some]
  have hline : (lines content)[k]? = some (lines content)[k] := List.getElem?_eq_getElem (by omega)
  rw [List.take_add_one, hline, Option.toList_some, List.flatMap_append, List.flatMap_singleton,
    ← List.append_assoc, List.getLast?_concat]

theorem windowsFit_iff {windows : List Nat} (hsize : 0 < size)
    (hinside : ∀ i ∈ windows, i + size ≤ (lines content).length)
    (hsorted : windows.Pairwise (· < ·)) :
    ((∀ i ∈ windows, lineOffset (lines content) i ≤ windowStop (lines content) size i ∧
        IsCharBoundary content (lineOffset (lines content) i) ∧
        IsCharBoundary content (windowStop (lines content) size i)) ∧
      windows.Pairwise fun i j => Apart content (lineOffset (lines content) i)
        (windowStop (lines content) size i) (lineOffset (lines content) j)) ↔
      WindowsFit content size windows := by
  rw [pairwise_iff_of_sorted hsorted]
  constructor
  · rintro ⟨hcut, hapart⟩
    refine ⟨fun hlf hmem => ?_, fun _ i hi => (hcut i hi).2, fun i hi j hj hij => ?_,
      fun _ i hi j hj hij hnext => ?_⟩
    · have hin := hinside _ hmem
      exact (window_boundaries hlf hsize hin).2.mp (hcut _ hmem).2.2 (by omega)
    · exact (windowStop_later hsize hij (hinside j hj)).1.mp (hapart i hi j hj hij).2.1
    · obtain ⟨-, hle, hbreak⟩ := hapart i hi j hj hij
      have hlater := windowStop_later hsize hij (hinside j hj)
      have htouch := hlater.2.mpr ((hlater.1.mp hle).resolve_left (by omega))
      rw [← htouch]
      exact hbreak htouch
  · intro h
    refine ⟨fun i hi => ⟨windowStop_ge hsize (hinside i hi), ?_⟩, fun i hi j hj hij => ?_⟩
    · by_cases hcrlf : ['\r', '\n'] <:+: content
      · exact h.cut hcrlf i hi
      · obtain ⟨hstart, hstop⟩ := window_boundaries hcrlf hsize (hinside i hi)
        refine ⟨hstart, hstop.mpr fun hlast => h.final hcrlf ?_⟩
        have hi' : (lines content).length - size = i := by omega
        rwa [hi']
    · have hlater := windowStop_later hsize hij (hinside j hj)
      have hin := hinside j hj
      have hstarts := lineOffset_add_le (Nat.le_of_lt hij) (show j ≤ (lines content).length by omega)
      refine ⟨by omega, hlater.1.mpr (h.apart i hi j hj hij), fun htouch => ?_⟩
      rw [htouch]
      by_cases hcrlf : ['\r', '\n'] <:+: content
      · exact h.stays hcrlf i hi j hj hij (hlater.2.mp htouch).1
      · exact not_takesBreak_of_lf hcrlf (by omega) (by omega)

end Windows

theorem windows_safe_iff
    (hfind : findAllMatches content oldText = findTrimMatches content oldText normalizeQuotes)
    (hne : matchedWindows (lines content) (oldKeys oldText normalizeQuotes) normalizeQuotes ≠ []) :
    EditSafe alphanumeric content oldText ↔
      WindowsFit content (oldKeys oldText normalizeQuotes).length
        (matchedWindows (lines content) (oldKeys oldText normalizeQuotes) normalizeQuotes) := by
  obtain ⟨i, hi⟩ := List.exists_mem_of_ne_nil _ hne
  have hsize := (mem_matchedWindows hi).1
  have hsafe := @safe_at_places alphanumeric content oldText _ _
    (lineOffset (lines content))
    (windowStop (lines content) (oldKeys oldText normalizeQuotes).length) hfind
    (fun i hi hle hstart hstop => by
      obtain ⟨text, htext⟩ := Option.isSome_iff_exists.mp
        (isSome_sliceBytes_iff.mpr ⟨hle, hstart, hstop⟩)
      refine ⟨⟨_, _, text, i + 1⟩, ?_, right_of_slice htext⟩
      rw [windowSpan, htext]
      rfl)
    (fun i _ s hs => by
      obtain ⟨text, -, hs⟩ := Option.bind_eq_some_iff.mp hs
      rw [← Option.some.inj hs]
      exact ⟨rfl, rfl⟩)
  rw [hsafe]
  exact windowsFit_iff hsize (fun i hi => (mem_matchedWindows hi).2) sorted_matchedWindows

-- ---
-- The text up to quotes
-- ---

/-- The byte at which a place begins in the normalised content. -/
def quoteStart (content : List Char) (p : Nat) : Nat := byteLen (normalize (content.take p))

/-- Places in the normalised content that are places in the content, too, as far apart as the old
text is long. -/
structure QuotesFit (content oldText : List Char) : Prop where
  cut : ∀ p ∈ quotePlaces content oldText, IsCharBoundary content (quoteStart content p) ∧
    IsCharBoundary content (quoteStart content p + byteLen oldText)
  apart : (quotePlaces content oldText).Pairwise fun p q =>
    quoteStart content p + byteLen oldText ≤ quoteStart content q
  stays : ∀ p ∈ quotePlaces content oldText, ∀ q ∈ quotePlaces content oldText,
    quoteStart content p + byteLen oldText = quoteStart content q →
      ¬TakesBreak content (quoteStart content q)

theorem sorted_quotePlaces (hold : oldText ≠ []) :
    (quotePlaces content oldText).Pairwise (· < ·) :=
  sorted_occurrences (normalize_ne_nil hold)

theorem quotes_safe_iff (hold : oldText ≠ [])
    (hfind : findAllMatches content oldText = findQuoteMatches content oldText) :
    EditSafe alphanumeric content oldText ↔ QuotesFit content oldText := by
  have hpos := byteLen_pos hold
  rw [findQuoteMatches_eq content hold] at hfind
  have hsafe := @safe_at_places alphanumeric content oldText _ _ (quoteStart content)
    (fun p => quoteStart content p + byteLen oldText) hfind
    (fun p hp hle hstart hstop => by
      obtain ⟨text, htext⟩ := Option.isSome_iff_exists.mp
        (isSome_sliceBytes_iff.mpr ⟨hle, hstart, hstop⟩)
      obtain ⟨front, hfront, hlen⟩ := hstart
      have hinside : quoteStart content p + byteLen oldText ≤ byteLen content := by
        obtain ⟨head, ⟨tail, htail⟩, hhead⟩ := hstop
        have hbytes := congrArg byteLen htail
        rw [byteLen_append, hhead] at hbytes
        omega
      have htake : takeBytes content (quoteStart content p) = some front :=
        takeBytes_eq_some_iff.mpr ⟨hfront, hlen⟩
      refine ⟨⟨_, _, text, front.count '\n' + 1⟩, ?_, right_of_slice htext⟩
      unfold quoteSpan
      dsimp only
      rw [← quoteStart, min_eq_left hinside, htext, htake]
      rfl)
    (fun p _ s hs => by
      obtain ⟨text, -, hs⟩ := Option.bind_eq_some_iff.mp hs
      obtain ⟨front, -, hs⟩ := Option.bind_eq_some_iff.mp hs
      rw [← Option.some.inj hs]
      exact ⟨rfl, rfl⟩)
  rw [hsafe]
  constructor
  · rintro ⟨hcut, hapart⟩
    refine ⟨fun p hp => (hcut p hp).2, hapart.imp fun h => h.2.1, fun p hp q hq htouch => ?_⟩
    have hpq : p < q := by
      rcases Nat.lt_trichotomy p q with hlt | rfl | hgt
      · exact hlt
      · omega
      · have hlater := (pairwise_iff_of_sorted (sorted_quotePlaces hold)).mp hapart q hq p hp hgt
        have := hlater.1
        omega
    have hlater := (pairwise_iff_of_sorted (sorted_quotePlaces hold)).mp hapart p hp q hq hpq
    rw [← htouch]
    exact hlater.2.2 htouch
  · intro h
    refine ⟨fun p hp => ⟨by omega, h.cut p hp⟩, h.apart.imp_of_mem fun {p q} hp hq hle => ?_⟩
    exact ⟨by omega, hle, fun htouch => htouch ▸ h.stays p hp q hq htouch⟩

-- ---
-- All matchers
-- ---

/-- What the matcher that finds the old text needs. -/
def SafeMatches (content oldText : List Char) : Prop :=
  let windows := fun normalizeQuotes =>
    matchedWindows (lines content) (oldKeys oldText normalizeQuotes) normalizeQuotes
  if oldText <:+: content then ExactFit content oldText
  else if windows false ≠ [] then WindowsFit content (lines oldText).length (windows false)
  else if windows true ≠ [] then WindowsFit content (lines oldText).length (windows true)
  else QuotesFit content oldText

theorem length_oldKeys (oldText : List Char) (normalizeQuotes : Bool) :
    (oldKeys oldText normalizeQuotes).length = (lines oldText).length := List.length_map _

theorem findTrimMatches_of_nil
    (h : matchedWindows (lines content) (oldKeys oldText normalizeQuotes) normalizeQuotes = []) :
    findTrimMatches content oldText normalizeQuotes = some [] := by
  unfold findTrimMatches
  dsimp only
  rw [h]
  rfl

theorem findTrimMatches_ne_nil
    (h : matchedWindows (lines content) (oldKeys oldText normalizeQuotes) normalizeQuotes ≠ []) :
    findTrimMatches content oldText normalizeQuotes ≠ some [] := by
  intro hnil
  have hlength := (forall₂_of_mapM hnil).length_eq
  exact h (List.length_eq_zero_iff.mp hlength)

/-- Edits of a content are safe exactly if the matches that are found fit. -/
theorem editSafe_iff (alphanumeric : Char → Bool) (content : List Char) {oldText : List Char}
    (hold : oldText ≠ []) :
    EditSafe alphanumeric content oldText ↔ SafeMatches content oldText := by
  unfold SafeMatches
  dsimp only
  by_cases hinside : oldText <:+: content
  · rw [if_pos hinside]
    exact exact_safe_iff hold hinside
  have hexact : findExactMatches content oldText = some [] := by
    rw [findExactMatches_eq content hold,
      not_not.mp (mt (occurrences_ne_nil_iff hold).mp hinside)]
    rfl
  have hfind : findAllMatches content oldText =
      (findTrimMatches content oldText false).bind fun trimmed =>
        if trimmed ≠ [] then some trimmed
        else (findTrimMatches content oldText true).bind fun trimmed =>
          if trimmed ≠ [] then some trimmed else findQuoteMatches content oldText := by
    unfold findAllMatches
    rw [hexact]
    rfl
  have hfirst : ∀ (r : Option (List MatchSpan)) (next : Option (List MatchSpan)), r ≠ some [] →
      (r.bind fun trimmed => if trimmed ≠ [] then some trimmed else next) = r := by
    intro r next hr
    cases r with
    | none => rfl
    | some spans =>
      rw [Option.bind_some, if_pos]
      exact fun hnil => hr (by rw [hnil])
  have hnone : ¬([] : List MatchSpan) ≠ [] := not_not.mpr rfl
  rw [if_neg hinside]
  by_cases hplain : matchedWindows (lines content) (oldKeys oldText false) false ≠ []
  · rw [hfirst _ _ (findTrimMatches_ne_nil hplain)] at hfind
    rw [if_pos hplain, windows_safe_iff hfind hplain, length_oldKeys]
  rw [findTrimMatches_of_nil (not_not.mp hplain), Option.bind_some, if_neg hnone] at hfind
  rw [if_neg hplain]
  by_cases hquotes : matchedWindows (lines content) (oldKeys oldText true) true ≠ []
  · rw [hfirst _ _ (findTrimMatches_ne_nil hquotes)] at hfind
    rw [if_pos hquotes, windows_safe_iff hfind hquotes, length_oldKeys]
  rw [findTrimMatches_of_nil (not_not.mp hquotes), Option.bind_some, if_neg hnone] at hfind
  rw [if_neg hquotes]
  exact quotes_safe_iff hold hfind

/-- A word that occurs twice. -/
theorem editSafe_word : EditSafe (fun _ => false) "a b a".toList "a".toList := by
  refine (editSafe_iff (fun _ => false) "a b a".toList (by decide)).mpr ?_
  unfold SafeMatches
  dsimp only
  rw [if_pos ⟨[], " b a".toList, rfl⟩]
  exact fun hbreak => absurd hbreak (by decide)

/-- The only line of a content without a line break is matched up to blanks: the span ends one
byte behind the content. -/
theorem edit_panics_last_line : ¬EditSafe (fun _ => false) "  foo".toList "foo ".toList := by
  rw [editSafe_iff _ _ (by decide)]
  unfold SafeMatches
  dsimp only
  rw [if_neg (by decide), if_pos (by decide)]
  exact fun h => absurd (h.final (by decide) (by decide)) (by decide)

end Files

end HiveClaw
