import Mathlib.Data.List.Infix
import Mathlib.Data.List.Basic

/-!
# Lines of a text

Texts with line ends of one or two characters, as lists of characters.

* `lines` — the lines of a text without their ends.
* `crlfToLf`, `lfToCrlf` — the two styles of line ends.
* `lfToCrlf_crlfToLf` — a text in one style survives the way to the other and back.
* `lfToCrlf_intercalate` — the style is that of the line ends alone.
-/

namespace Lib

/-- A line without the carriage return in front of its line feed. -/
def stripCr (line : List Char) : List Char :=
  if line.getLast? = some '\r' then line.dropLast else line

/-- The lines of a text. A line ends with `\n` or `\r\n`; the last one need not. -/
def lines (text : List Char) : List (List Char) :=
  (text.splitOn '\n').dropLast.map stripCr ++
    ((text.splitOn '\n').getLast?.toList.filter fun line => line ≠ [])

/-- `\r\n` becomes `\n`; a carriage return on its own stays. -/
def crlfToLf : List Char → List Char
  | [] => []
  | [c] => [c]
  | c :: d :: rest =>
    if c = '\r' ∧ d = '\n' then '\n' :: crlfToLf rest else c :: crlfToLf (d :: rest)

/-- `\n` becomes `\r\n`. -/
def lfToCrlf (text : List Char) : List Char :=
  text.flatMap fun c => if c = '\n' then ['\r', '\n'] else [c]

/-- Every line feed has a carriage return in front of it. -/
def NoBareLf (text : List Char) : Prop :=
  ∀ front rest, text = front ++ '\n' :: rest → front.getLast? = some '\r'

/-- No line end lies across the border of two texts. -/
def Unsplit (a b : List Char) : Prop := ¬(a.getLast? = some '\r' ∧ b.head? = some '\n')

theorem crlfToLf_append {a b : List Char} (h : Unsplit a b) :
    crlfToLf (a ++ b) = crlfToLf a ++ crlfToLf b := by
  induction a using crlfToLf.induct with
  | case1 => rfl
  | case2 c =>
    cases b with
    | nil => rfl
    | cons d b =>
      have hne : ¬(c = '\r' ∧ d = '\n') := fun hcd => h ⟨by rw [hcd.1]; rfl, by rw [hcd.2]; rfl⟩
      show crlfToLf (c :: d :: b) = [c] ++ crlfToLf (d :: b)
      rw [crlfToLf, if_neg hne, List.singleton_append]
  | case3 c d rest hcd ih =>
    have hrest : Unsplit rest b := by
      cases rest with
      | nil => exact fun hborder => absurd hborder.1 (by simp)
      | cons e rest => exact h
    show crlfToLf (c :: d :: (rest ++ b)) = crlfToLf (c :: d :: rest) ++ crlfToLf b
    rw [crlfToLf, if_pos hcd, ih hrest, crlfToLf, if_pos hcd, List.cons_append]
  | case4 c d rest hcd ih =>
    have hrest : Unsplit (d :: rest) b := h
    show crlfToLf (c :: d :: (rest ++ b)) = crlfToLf (c :: d :: rest) ++ crlfToLf b
    rw [crlfToLf, if_neg hcd, ← List.cons_append, ih hrest, crlfToLf, if_neg hcd,
      List.cons_append]

theorem lfToCrlf_append (a b : List Char) : lfToCrlf (a ++ b) = lfToCrlf a ++ lfToCrlf b :=
  List.flatMap_append

/-- A text without line ends of two characters is kept. -/
theorem crlfToLf_eq_self {text : List Char} (h : ¬['\r', '\n'] <:+: text) :
    crlfToLf text = text := by
  induction text using crlfToLf.induct with
  | case1 => rfl
  | case2 => rfl
  | case3 c d rest hcd =>
    obtain ⟨rfl, rfl⟩ := hcd
    exact absurd ⟨[], rest, rfl⟩ h
  | case4 c d rest hcd ih =>
    have hrest : ¬['\r', '\n'] <:+: d :: rest := fun hinside =>
      h (hinside.trans (List.suffix_cons c (d :: rest)).isInfix)
    rw [crlfToLf, if_neg hcd, ih hrest]

theorem NoBareLf.tail {c : Char} {text : List Char} (h : NoBareLf (c :: text))
    (hc : ¬(c = '\r' ∧ text.head? = some '\n')) : NoBareLf text := by
  intro front rest htext
  have hfront := h (c :: front) rest (by rw [htext, List.cons_append])
  cases front with
  | nil =>
    rw [List.nil_append] at htext
    exact absurd ⟨by simpa using hfront, by rw [htext]; rfl⟩ hc
  | cons d front => exact hfront

/-- A text whose lines all end with two characters survives the way to one and back. -/
theorem lfToCrlf_crlfToLf {text : List Char} (h : NoBareLf text) :
    lfToCrlf (crlfToLf text) = text := by
  induction text using crlfToLf.induct with
  | case1 => rfl
  | case2 c =>
    have hc : c ≠ '\n' := by
      rintro rfl
      exact absurd (h [] [] rfl) (by simp)
    show (if c = '\n' then ['\r', '\n'] else [c]) ++ [] = [c]
    rw [if_neg hc, List.append_nil]
  | case3 c d rest hcd ih =>
    obtain ⟨rfl, rfl⟩ := hcd
    have hrest : NoBareLf rest := by
      intro front tail htail
      have hfront := h ('\r' :: '\n' :: front) tail (by rw [htail]; rfl)
      cases front with
      | nil => exact absurd hfront (by decide)
      | cons e front => exact hfront
    rw [crlfToLf, if_pos ⟨rfl, rfl⟩]
    show ['\r', '\n'] ++ lfToCrlf (crlfToLf rest) = _
    rw [ih hrest]
    rfl
  | case4 c d rest hcd ih =>
    have hc : c ≠ '\n' := by
      rintro rfl
      exact absurd (h [] (d :: rest) rfl) (by simp)
    have hborder : ¬(c = '\r' ∧ (d :: rest).head? = some '\n') := fun hb =>
      hcd ⟨hb.1, Option.some.inj hb.2⟩
    rw [crlfToLf, if_neg hcd]
    show (if c = '\n' then ['\r', '\n'] else [c]) ++ lfToCrlf (crlfToLf (d :: rest)) = _
    rw [if_neg hc, ih (h.tail hborder), List.singleton_append]

theorem getLast?_crlfToLf (text : List Char) : (crlfToLf text).getLast? = text.getLast? := by
  induction text using crlfToLf.induct with
  | case1 => rfl
  | case2 => rfl
  | case3 c d rest hcd ih =>
    rw [crlfToLf, if_pos hcd, List.getLast?_cons, ih, List.getLast?_cons_cons, List.getLast?_cons,
      hcd.2]
  | case4 c d rest hcd ih =>
    rw [crlfToLf, if_neg hcd, List.getLast?_cons, ih, List.getLast?_cons_cons, List.getLast?_cons]
    rfl

theorem crlfToLf_ne_nil {text : List Char} (h : text ≠ []) : crlfToLf text ≠ [] := by
  intro hnil
  have hlast := getLast?_crlfToLf text
  rw [hnil] at hlast
  exact h (List.getLast?_eq_none_iff.mp hlast.symm)

/-- The parts between line feeds have none. -/
theorem newline_notMem_of_mem_splitOn {text line : List Char} (h : line ∈ text.splitOn '\n') :
    '\n' ∉ line := by
  induction text generalizing line with
  | nil =>
    rw [List.splitOn_nil, List.mem_singleton] at h
    rw [h]
    exact List.not_mem_nil
  | cons c text ih =>
    rw [List.splitOn_cons_eq_if_modifyHead] at h
    split at h
    · rcases List.mem_cons.mp h with rfl | h
      · exact List.not_mem_nil
      · exact ih h
    · next hc =>
      obtain ⟨first, rest, hsplit⟩ := List.exists_cons_of_ne_nil (List.splitOn_ne_nil '\n' text)
      rw [hsplit] at h ih
      rcases List.mem_cons.mp h with rfl | h
      · intro hmem
        rcases List.mem_cons.mp hmem with rfl | hmem
        · exact hc rfl
        · exact ih List.mem_cons_self hmem
      · exact ih (List.mem_cons_of_mem first h)

theorem lfToCrlf_eq_self {text : List Char} (h : '\n' ∉ text) : lfToCrlf text = text := by
  induction text with
  | nil => rfl
  | cons c text ih =>
    obtain ⟨hc, hrest⟩ := List.ne_and_not_mem_of_not_mem_cons h
    show (if c = '\n' then ['\r', '\n'] else [c]) ++ lfToCrlf text = c :: text
    rw [if_neg (Ne.symm hc), ih hrest, List.singleton_append]

variable {segments : List (List Char)}

/-- The style of line ends is that between the lines. -/
theorem lfToCrlf_intercalate (h : ∀ seg ∈ segments, '\n' ∉ seg) :
    lfToCrlf (['\n'].intercalate segments) = ['\r', '\n'].intercalate segments := by
  induction segments with
  | nil => rfl
  | cons seg segments ih =>
    have hseg := lfToCrlf_eq_self (h seg List.mem_cons_self)
    cases segments with
    | nil => rw [List.intercalate_singleton, List.intercalate_singleton, hseg]
    | cons seg' segments =>
      rw [List.intercalate_cons_cons, List.intercalate_cons_cons, lfToCrlf_append,
        lfToCrlf_append, hseg, ih fun s hs => h s (List.mem_cons_of_mem seg hs)]
      rfl

/-- There is one line feed less than there are lines. -/
theorem count_intercalate (hne : segments ≠ []) (h : ∀ seg ∈ segments, '\n' ∉ seg) :
    (['\n'].intercalate segments).count '\n' + 1 = segments.length := by
  induction segments with
  | nil => exact absurd rfl hne
  | cons seg segments ih =>
    have hseg := List.count_eq_zero.mpr (h seg List.mem_cons_self)
    cases segments with
    | nil => rw [List.intercalate_singleton, hseg, List.length_singleton]
    | cons seg' segments =>
      have hrest := ih (List.cons_ne_nil _ _) fun s hs => h s (List.mem_cons_of_mem seg hs)
      rw [List.intercalate_cons_cons, List.count_append, List.count_append, hseg,
        List.length_cons, List.count_singleton_self]
      omega

theorem intercalate_concat {sep : List Char} {front : List (List Char)} (hne : front ≠ [])
    (last : List Char) : sep.intercalate (front ++ [last]) = sep.intercalate front ++ sep ++ last := by
  induction front with
  | nil => exact absurd rfl hne
  | cons seg front ih =>
    cases front with
    | nil => rw [List.singleton_append, List.intercalate_cons_cons, List.intercalate_singleton,
        List.intercalate_singleton]
    | cons seg' front =>
      rw [List.cons_append, List.cons_append, List.intercalate_cons_cons, ← List.cons_append,
        ih (List.cons_ne_nil _ _), List.intercalate_cons_cons]
      simp only [List.append_assoc]

/-- The lines of a text that ends with a line end. -/
theorem lines_concat_newline (text : List Char) :
    lines (text ++ ['\n']) = (text.splitOn '\n').map stripCr := by
  have hsplit : (text ++ ['\n']).splitOn '\n' = text.splitOn '\n' ++ [[]] :=
    List.splitOn_append_cons_self text []
  rw [lines, hsplit, List.dropLast_concat, List.getLast?_concat]
  exact List.append_nil _

/-- The lines of a text that does not end with one. -/
theorem lines_of_getLast?_ne {text : List Char} (hne : text ≠ [])
    (hlast : text.getLast? ≠ some '\n') :
    ∃ front last, text.splitOn '\n' = front ++ [last] ∧ lines text = front.map stripCr ++ [last] := by
  obtain ⟨front, last, hsplit⟩ : ∃ front last, text.splitOn '\n' = front ++ [last] :=
    ⟨_, _, (List.dropLast_append_getLast (List.splitOn_ne_nil '\n' text)).symm⟩
  have hjoin : ['\n'].intercalate (front ++ [last]) = text := by
    rw [← hsplit, List.intercalate_splitOn]
  -- an empty last part stands behind a line end
  have hnonempty : last ≠ [] := by
    rintro rfl
    by_cases hfront : front = []
    · rw [hfront] at hjoin
      exact hne hjoin.symm
    · rw [intercalate_concat hfront, List.append_nil] at hjoin
      rw [← hjoin, List.getLast?_concat] at hlast
      exact hlast rfl
  refine ⟨front, last, hsplit, ?_⟩
  rw [lines, hsplit, List.dropLast_concat, List.getLast?_concat]
  show _ ++ List.filter _ [last] = _
  rw [List.filter_singleton, decide_eq_true hnonempty, cond_true]

theorem intercalate_eq_flatMap (front : List (List Char)) (last : List Char) :
    ['\n'].intercalate (front ++ [last]) = front.flatMap (· ++ ['\n']) ++ last := by
  induction front with
  | nil => exact List.intercalate_singleton
  | cons seg front ih =>
    rw [List.cons_append, List.intercalate_cons_of_ne_nil (by simp), ih, List.flatMap_cons]
    simp only [List.append_assoc]

/-- A text without line ends of two characters is its lines, with their ends but for the last. -/
theorem exists_lines {text : List Char} (h : ¬['\r', '\n'] <:+: text) :
    ∃ front last, text = front.flatMap (· ++ ['\n']) ++ last ∧
      lines text = front ++ (if last = [] then [] else [last]) ∧ '\n' ∉ last := by
  obtain ⟨front, last, hsplit⟩ : ∃ front last, text.splitOn '\n' = front ++ [last] :=
    ⟨_, _, (List.dropLast_append_getLast (List.splitOn_ne_nil '\n' text)).symm⟩
  have htext : text = front.flatMap (· ++ ['\n']) ++ last := by
    rw [← intercalate_eq_flatMap, ← hsplit, List.intercalate_splitOn]
  -- a carriage return at the end of a line would stand in front of a line feed
  have hstrip : front.map stripCr = front := by
    refine (List.map_congr_left fun line hline => ?_).trans (List.map_id front)
    refine if_neg fun hlast => h ?_
    obtain ⟨seg, rfl⟩ := List.getLast?_eq_some_iff.mp hlast
    have hinside : seg ++ ['\r'] ++ ['\n'] <:+: front.flatMap (· ++ ['\n']) :=
      List.infix_of_mem_flatten (List.mem_map_of_mem hline)
    rw [htext]
    exact (show ['\r', '\n'] <:+: seg ++ ['\r'] ++ ['\n'] from ⟨seg, [], by simp⟩).trans
      (hinside.trans (List.prefix_append _ last).isInfix)
  refine ⟨front, last, htext, ?_, newline_notMem_of_mem_splitOn
    (hsplit ▸ List.mem_append_right front List.mem_cons_self)⟩
  rw [lines, hsplit, List.dropLast_concat, List.getLast?_concat, hstrip]
  show _ ++ List.filter _ [last] = _
  rw [List.filter_singleton]
  by_cases hlast : last = []
  · rw [if_pos hlast, hlast]
    rfl
  · rw [if_neg hlast, decide_eq_true hlast, cond_true]

end Lib
