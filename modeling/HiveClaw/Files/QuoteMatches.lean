import HiveClaw.Files.EditMatches
import Mathlib.Data.List.Forall2
import Mathlib.Data.List.Pairwise

/-!
# Matches up to the style of quotes

`find_quote_matches` searches the normalised text in the normalised content
and takes the bytes it finds there for bytes of the content, where a curly
quote has three and not one. It adds the length of the text as it was given.

* `quoteMatchesRight_iff` — its spans are right exactly if no curly quote
  stands before a match, and each match has as many of them as the text.
-/

namespace HiveClaw

namespace Files

open Lib QuoteTable

-- ---
-- Lengths
-- ---

/-- A quotation mark that is normalised. -/
def isCurly (c : Char) : Bool := isCurlySingle c || isCurlyDouble c

/-- The number of curly quotes in a text. -/
def curlyCount (text : List Char) : Nat := text.countP isCurly

theorem size_of_isCurly {c : Char} (h : isCurly c = true) : c.utf8Size = 3 := by
  simp only [isCurly, isCurlySingle, isCurlyDouble, Bool.or_eq_true, decide_eq_true_eq] at h
  rcases h with (rfl | rfl) | (rfl | rfl) <;> decide

theorem utf8Size_normalizeChar (c : Char) :
    c.utf8Size = (normalizeChar c).utf8Size + if isCurly c then 2 else 0 := by
  unfold normalizeChar
  by_cases hsingle : isCurlySingle c = true
  · have hcurly : isCurly c = true := by rw [isCurly, hsingle, Bool.true_or]
    rw [if_pos hsingle, if_pos hcurly, size_of_isCurly hcurly]
    decide
  · by_cases hdouble : isCurlyDouble c = true
    · have hcurly : isCurly c = true := by rw [isCurly, hdouble, Bool.or_true]
      rw [if_neg hsingle, if_pos hdouble, if_pos hcurly, size_of_isCurly hcurly]
      decide
    · have hplain : ¬isCurly c = true := by
        rw [isCurly, Bool.or_eq_true]
        exact not_or.mpr ⟨hsingle, hdouble⟩
      rw [if_neg hsingle, if_neg hdouble, if_neg hplain]
      rfl

theorem byteLen_eq_normalize (text : List Char) :
    byteLen text = byteLen (normalize text) + 2 * curlyCount text := by
  induction text with
  | nil => rfl
  | cons c rest ih =>
    have hsize := utf8Size_normalizeChar c
    have hcons : normalize (c :: rest) = normalizeChar c :: normalize rest := rfl
    have hcount : curlyCount (c :: rest) = curlyCount rest + if isCurly c then 1 else 0 :=
      List.countP_cons
    rw [hcons, byteLen_cons, byteLen_cons, ih, hcount]
    split at hsize
    · next hcurly =>
      rw [if_pos hcurly]
      omega
    · next hcurly =>
      rw [if_neg hcurly]
      omega

theorem length_normalize (text : List Char) : (normalize text).length = text.length :=
  List.length_map _

theorem byteLen_take_lt {text : List Char} {i j : Nat} (hij : i < j) (hj : j ≤ text.length) :
    byteLen (text.take i) < byteLen (text.take j) := by
  have hprefix : text.take i <+: text.take j := List.take_prefix_take_left hij.le
  by_contra hle
  have heq := eq_of_prefix_of_byteLen_le hprefix (not_lt.mp hle)
  have hlength := congrArg List.length heq
  rw [List.length_take, List.length_take] at hlength
  omega

variable {p : Nat}

/-- At a place of the old text, the content is split into what is in front of it, the match, and
the rest. -/
theorem split_at_place {content oldText : List Char}
    (h : normalize oldText <+: (normalize content).drop p) (hold : oldText ≠ []) :
    ∃ rest, content = content.take p ++ (content.drop p).take oldText.length ++ rest ∧
      normalize ((content.drop p).take oldText.length) = normalize oldText ∧
      p + oldText.length ≤ content.length ∧
      content.take (p + oldText.length) =
        content.take p ++ (content.drop p).take oldText.length := by
  have hmatch : normalize ((content.drop p).take oldText.length) = normalize oldText := by
    have htake := List.prefix_iff_eq_take.mp h
    rw [length_normalize] at htake
    rw [QuoteTable.normalize, List.map_take, List.map_drop, ← QuoteTable.normalize, ← htake]
  have hlength : p + oldText.length ≤ content.length := by
    have hle := h.length_le
    have hpos := List.length_pos_iff.mpr hold
    rw [List.length_drop, length_normalize, length_normalize] at hle
    omega
  refine ⟨content.drop (p + oldText.length), ?_, hmatch, hlength, List.take_add⟩
  rw [← List.take_add, List.take_append_drop]

-- ---
-- Spans
-- ---

variable {α β : Type}

theorem mapM_eq_some_map {f : α → Option β} {g : α → β} {l : List α}
    (h : ∀ a ∈ l, f a = some (g a)) : l.mapM f = some (l.map g) := by
  induction l with
  | nil => rfl
  | cons a rest ih =>
    rw [List.mapM_cons, h a List.mem_cons_self, ih fun a ha => h a (List.mem_cons_of_mem _ ha)]
    rfl

theorem forall₂_of_mapM {f : α → Option β} {l : List α} {ys : List β} (h : l.mapM f = some ys) :
    List.Forall₂ (fun a y => f a = some y) l ys := by
  induction l generalizing ys with
  | nil =>
    cases h
    exact .nil
  | cons a rest ih =>
    rw [List.mapM_cons] at h
    obtain ⟨y, hy, h⟩ := Option.bind_eq_some_iff.mp h
    obtain ⟨ys', hys, h⟩ := Option.bind_eq_some_iff.mp h
    cases h
    exact .cons hy (ih hys)

theorem exists_of_forall₂ {R : α → β → Prop} {l : List α} {ys : List β} (h : List.Forall₂ R l ys)
    {a : α} (ha : a ∈ l) : ∃ y, R a y ∧ y ∈ ys := by
  induction h with
  | nil => cases ha
  | cons hy _ ih =>
    rcases List.mem_cons.mp ha with rfl | ha
    · exact ⟨_, hy, List.mem_cons_self⟩
    · obtain ⟨y, hy, hmem⟩ := ih ha
      exact ⟨y, hy, List.mem_cons_of_mem _ hmem⟩

/-- Every span covers a text that is the old one up to the style of quotes, none overlaps another,
and there is one if there is such a text. -/
def QuoteMatchesRight (content oldText : List Char) : Prop :=
  ∃ spans, findQuoteMatches content oldText = some spans ∧
    (∀ s ∈ spans, ∃ text, sliceBytes content s.start s.stop = some text ∧
      normalize text = normalize oldText) ∧
    (spans.Pairwise fun s t => s.stop ≤ t.start) ∧
    (normalize oldText <:+: normalize content → spans ≠ [])

/-- In front of a match there is no curly quote, and in it there are as many as in the old
text. -/
def AlignedAt (content oldText : List Char) (p : Nat) : Prop :=
  curlyCount (content.take p) = 0 ∧
    curlyCount ((content.drop p).take oldText.length) = curlyCount oldText

/-- That at every place of the old text. -/
def QuotesAlign (content oldText : List Char) : Prop :=
  ∀ p ∈ quotePlaces content oldText, AlignedAt content oldText p

variable {content oldText : List Char}

theorem prefix_of_place (hold : oldText ≠ []) (hp : p ∈ quotePlaces content oldText) :
    normalize oldText <+: (normalize content).drop p :=
  mem_occurrences (normalize_ne_nil hold) hp

theorem AlignedAt.bytes (hold : oldText ≠ []) (h : AlignedAt content oldText p)
    (hp : p ∈ quotePlaces content oldText) :
    byteLen (normalize (content.take p)) = byteLen (content.take p) ∧
      byteLen (content.take (p + oldText.length)) = byteLen (content.take p) + byteLen oldText := by
  obtain ⟨rest, -, hmatch, -, htake⟩ := split_at_place (prefix_of_place hold hp) hold
  have hfront := byteLen_eq_normalize (content.take p)
  have hmiddle := byteLen_eq_normalize ((content.drop p).take oldText.length)
  have holdBytes := byteLen_eq_normalize oldText
  rw [h.1] at hfront
  rw [hmatch, h.2] at hmiddle
  rw [htake, byteLen_append]
  omega

theorem quoteSpan_of_aligned (hold : oldText ≠ []) (h : AlignedAt content oldText p)
    (hp : p ∈ quotePlaces content oldText) :
    quoteSpan content oldText p = some
      ⟨byteLen (content.take p), byteLen (content.take p) + byteLen oldText,
        (content.drop p).take oldText.length, (content.take p).count '\n' + 1⟩ ∧
      sliceBytes content (byteLen (content.take p))
        (byteLen (content.take p) + byteLen oldText) =
          some ((content.drop p).take oldText.length) := by
  obtain ⟨rest, hsplit, -, -, htake⟩ := split_at_place (prefix_of_place hold hp) hold
  obtain ⟨hstart, hstop⟩ := h.bytes hold hp
  have hslice : sliceBytes content (byteLen (content.take p))
      (byteLen (content.take p) + byteLen oldText) =
        some ((content.drop p).take oldText.length) := by
    refine sliceBytes_eq_some_iff.mpr ⟨content.take p, rest, hsplit.symm, rfl, ?_⟩
    rw [← hstop, htake, byteLen_append]
  refine ⟨?_, hslice⟩
  have hmin : min (byteLen (content.take p) + byteLen oldText) (byteLen content) =
      byteLen (content.take p) + byteLen oldText := by
    have hwhole := congrArg byteLen hsplit
    rw [byteLen_append, ← htake, hstop] at hwhole
    omega
  have hfront : takeBytes content (byteLen (content.take p)) = some (content.take p) :=
    takeBytes_eq_some_iff.mpr ⟨List.take_prefix p content, rfl⟩
  simp only [quoteSpan, hstart, hmin, hslice, hfront, Option.bind_eq_bind, Option.bind_some]

theorem right_of_align (hold : oldText ≠ []) (h : QuotesAlign content oldText) :
    QuoteMatchesRight content oldText := by
  have hspans : findQuoteMatches content oldText = some ((quotePlaces content oldText).map fun p =>
      ⟨byteLen (content.take p), byteLen (content.take p) + byteLen oldText,
        (content.drop p).take oldText.length, (content.take p).count '\n' + 1⟩) := by
    rw [findQuoteMatches_eq content hold]
    exact mapM_eq_some_map fun p hp => (quoteSpan_of_aligned hold (h p hp) hp).1
  refine ⟨_, hspans, fun s hs => ?_, ?_, fun hinside => ?_⟩
  · obtain ⟨p, hp, rfl⟩ := List.mem_map.mp hs
    obtain ⟨rest, -, hmatch, -, -⟩ := split_at_place (prefix_of_place hold hp) hold
    exact ⟨_, (quoteSpan_of_aligned hold (h p hp) hp).2, hmatch⟩
  · rw [List.pairwise_map]
    refine (pairwise_occurrences (normalize_ne_nil hold)).imp_of_mem fun hp _ hle => ?_
    rw [length_normalize] at hle
    show byteLen (content.take _) + byteLen oldText ≤ byteLen (content.take _)
    rw [← ((h _ hp).bytes hold hp).2]
    rcases Nat.lt_or_eq_of_le hle with hlt | heq
    · obtain ⟨rest, hrest⟩ := List.take_prefix_take_left (l := content) hle
      rw [← hrest, byteLen_append]
      omega
    · rw [heq]
  · rw [Ne, List.map_eq_nil_iff]
    exact (occurrences_ne_nil_iff (normalize_ne_nil hold)).mpr hinside

variable {spans : List MatchSpan}

theorem apart_of_pairwise {places : List Nat} {f : Nat → Option MatchSpan}
    (hplaces : places.Pairwise (· < ·))
    (hspans : List.Forall₂ (fun p s => f p = some s) places spans)
    (hapart : spans.Pairwise fun s t => s.stop ≤ t.start) {q : Nat} (hq : q ∈ places)
    (hp : p ∈ places) (hqp : q < p) {s t : MatchSpan} (hs : f q = some s) (ht : f p = some t) :
    s.stop ≤ t.start := by
  induction hspans with
  | nil => cases hq
  | @cons a y rest ys hay hrest ih =>
    obtain ⟨hsmall, hplaces'⟩ := List.pairwise_cons.mp hplaces
    obtain ⟨hfirst, hapart'⟩ := List.pairwise_cons.mp hapart
    rcases List.mem_cons.mp hq with hqa | hq
    · subst hqa
      rcases List.mem_cons.mp hp with rfl | hp
      · omega
      · obtain rfl : y = s := Option.some.inj (hay.symm.trans hs)
        obtain ⟨t', ht', hmem⟩ := exists_of_forall₂ hrest hp
        obtain rfl : t' = t := Option.some.inj (ht'.symm.trans ht)
        exact hfirst t' hmem
    · rcases List.mem_cons.mp hp with hpa | hp
      · have := hsmall q hq
        omega
      · exact ih hplaces' hapart' hq hp

theorem curlyCount_eq_zero_of_byteLen {text : List Char}
    (h : byteLen (normalize text) = byteLen text) : curlyCount text = 0 := by
  have := byteLen_eq_normalize text
  omega

theorem aligned_of_right (hold : oldText ≠ [])
    (hspans : findQuoteMatches content oldText = some spans)
    (hright : ∀ s ∈ spans, ∃ text, sliceBytes content s.start s.stop = some text ∧
      normalize text = normalize oldText) (hapart : spans.Pairwise fun s t => s.stop ≤ t.start)
    (hp : p ∈ quotePlaces content oldText)
    (hearlier : ∀ q ∈ quotePlaces content oldText, q < p → AlignedAt content oldText q) :
    AlignedAt content oldText p := by
  have hlength := List.length_pos_iff.mpr hold
  rw [findQuoteMatches_eq content hold] at hspans
  have hpairs := forall₂_of_mapM hspans
  obtain ⟨s, hs, hmem⟩ := exists_of_forall₂ hpairs hp
  obtain ⟨text, hslice, hnorm⟩ := hright s hmem
  obtain ⟨front, rest, hsplit, hfront, hstop⟩ := sliceBytes_eq_some_iff.mp hslice
  have hstart : s.start = byteLen (normalize (content.take p)) ∧
      s.stop = s.start + byteLen oldText := by
    obtain ⟨t, -, hs⟩ := Option.bind_eq_some_iff.mp hs
    obtain ⟨t', -, hs⟩ := Option.bind_eq_some_iff.mp hs
    rw [← Option.some.inj hs]
    exact ⟨rfl, rfl⟩
  have htext : text.length = oldText.length := by
    rw [← length_normalize text, hnorm, length_normalize]
  -- where the span begins, the old text is found as well
  have hfrontTake : content.take front.length = front := by
    rw [← hsplit, List.append_assoc, List.take_left]
  have hat : normalize oldText <+: (normalize content).drop front.length := by
    have hdrop : (normalize content).drop front.length = normalize text ++ normalize rest := by
      rw [← hsplit, List.append_assoc]
      show List.drop front.length ((front ++ (text ++ rest)).map normalizeChar) = _
      rw [← List.map_drop, List.drop_left, List.map_append]
      rfl
    rw [hdrop, hnorm]
    exact List.prefix_append _ _
  have hle : front.length ≤ p := by
    by_contra hlt
    have hflen : front.length ≤ content.length := by
      rw [← hsplit, List.append_assoc, List.length_append]
      omega
    have hbytes := byteLen_take_lt (not_le.mp hlt) hflen
    have hnormBytes := byteLen_eq_normalize (content.take p)
    rw [hfrontTake] at hbytes
    omega
  obtain ⟨q, hq, hqle, hqlt⟩ := exists_occurrence (normalize_ne_nil hold) hat
  rw [length_normalize] at hqlt
  have heq : front.length = p := by
    rcases Nat.lt_trichotomy q p with hlt | rfl | hgt
    · exfalso
      have haligned := hearlier q hq hlt
      have hplaces : (quotePlaces content oldText).Pairwise (· < ·) :=
        (pairwise_occurrences (normalize_ne_nil hold)).imp fun h => by
          rw [length_normalize] at h
          omega
      have hbefore := apart_of_pairwise hplaces hpairs hapart hq hp hlt
        (quoteSpan_of_aligned hold haligned hq).1 hs
      have hqlen := (split_at_place (prefix_of_place hold hq) hold).choose_spec.2.2.1
      have hstrict := byteLen_take_lt hqlt hqlen
      rw [hfrontTake, (haligned.bytes hold hq).2] at hstrict
      have : byteLen (content.take q) + byteLen oldText ≤ s.start := hbefore
      omega
    · omega
    · omega
  subst heq
  rw [hfrontTake] at hstart
  have hnone : curlyCount front = 0 :=
    curlyCount_eq_zero_of_byteLen (hstart.1.symm.trans hfront.symm)
  have hmiddle : (content.drop front.length).take oldText.length = text := by
    rw [← hsplit, List.append_assoc, List.drop_left, ← htext, List.take_left]
  refine ⟨by rw [hfrontTake, hnone], ?_⟩
  rw [hmiddle]
  have htextBytes := byteLen_eq_normalize text
  have holdBytes := byteLen_eq_normalize oldText
  rw [hnorm] at htextBytes
  omega

theorem align_of_right (hold : oldText ≠ []) (h : QuoteMatchesRight content oldText) :
    QuotesAlign content oldText := by
  obtain ⟨spans, hspans, hright, hapart, -⟩ := h
  intro p
  induction p using Nat.strong_induction_on with
  | _ p ih =>
    intro hp
    exact aligned_of_right hold hspans hright hapart hp fun q hq hlt => ih q hlt hq

/-- The spans are right exactly if the quotes align. -/
theorem quoteMatchesRight_iff (content : List Char) {oldText : List Char} (hold : oldText ≠ []) :
    QuoteMatchesRight content oldText ↔ QuotesAlign content oldText :=
  ⟨align_of_right hold, right_of_align hold⟩

/-- A text that differs in the direction of a quote. -/
theorem quoteMatchesRight_turned :
    QuoteMatchesRight "say \u201chi".toList "\u201dhi".toList := by
  refine (quoteMatchesRight_iff "say \u201chi".toList (by decide)).mpr ?_
  unfold QuotesAlign AlignedAt
  decide

/-- A straight quote is found for a curly one; the span ends inside the match. -/
theorem quoteMatches_wrong_straight :
    ¬QuoteMatchesRight "say \u201chi".toList "\"hi".toList := by
  intro h
  have haligned := align_of_right (by decide) h 4 (by decide)
  exact absurd haligned.2 (by decide)

end Files

end HiveClaw
