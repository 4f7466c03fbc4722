import HiveClaw.Lib.Lines

/-!
# Lines that are not blank

Some characters are blank. The lines of a text that are not blank, without
the blanks at their ends, do not depend on the blanks around the text.

* `inkLines_trimBlank` — trimming a text leaves them as they are.
* `inkLines_intercalate` — lines that are put together have the lines among them that are not blank.
-/

namespace Lib

variable (blank : Char → Bool)

/-- A text without the blanks at its ends. -/
def trimBlank (text : List Char) : List Char :=
  ((text.dropWhile blank).reverse.dropWhile blank).reverse

/-- The lines that are not blank, without the blanks at their ends. -/
def inkOf (ls : List (List Char)) : List (List Char) :=
  (ls.map (trimBlank blank)).filter fun line => line ≠ []

/-- Those of a text. -/
def inkLines (text : List Char) : List (List Char) := inkOf blank (text.splitOn '\n')

variable {blank}

theorem inkOf_append (ls ls' : List (List Char)) :
    inkOf blank (ls ++ ls') = inkOf blank ls ++ inkOf blank ls' := by
  rw [inkOf, List.map_append, List.filter_append, ← inkOf, ← inkOf]

variable {c : Char}

theorem trimBlank_cons (hc : blank c = true) (text : List Char) :
    trimBlank blank (c :: text) = trimBlank blank text := by
  rw [trimBlank, List.dropWhile_cons_of_pos hc, ← trimBlank]

theorem trimBlank_concat (hc : blank c = true) (text : List Char) :
    trimBlank blank (text ++ [c]) = trimBlank blank text := by
  rw [trimBlank, trimBlank, List.dropWhile_append]
  split
  case isTrue hempty =>
    rw [List.isEmpty_iff] at hempty
    rw [hempty, List.dropWhile_cons_of_pos hc, List.dropWhile_nil]
  case isFalse =>
    rw [List.reverse_append, List.reverse_singleton, List.singleton_append,
      List.dropWhile_cons_of_pos hc]

/-- Lines that differ only in the blanks at their ends. -/
theorem inkOf_congr {line line' : List Char} (h : trimBlank blank line = trimBlank blank line')
    (before after : List (List Char)) :
    inkOf blank (before ++ line :: after) = inkOf blank (before ++ line' :: after) := by
  rw [inkOf, inkOf, List.map_append, List.map_append, List.map_cons, List.map_cons, h]

/-- Lines that are put together have the lines among them that are not blank. -/
theorem inkLines_intercalate {ls : List (List Char)} (h : ∀ line ∈ ls, '\n' ∉ line) :
    inkLines blank (['\n'].intercalate ls) = inkOf blank ls := by
  by_cases hnil : ls = []
  · -- the text of no lines has one line, which is blank
    rw [hnil]
    rfl
  · rw [inkLines, List.splitOn_intercalate '\n' h hnil]

theorem inkLines_cons (hc : blank c = true) (text : List Char) :
    inkLines blank (c :: text) = inkLines blank text := by
  rw [inkLines, List.splitOn_cons_eq_if_modifyHead]
  obtain ⟨first, rest, hsplit⟩ := List.exists_cons_of_ne_nil (List.splitOn_ne_nil '\n' text)
  rw [inkLines, hsplit]
  split
  case isTrue => rfl
  case isFalse => exact inkOf_congr (trimBlank_cons hc first) [] rest

theorem inkLines_concat (hc : blank c = true) (text : List Char) :
    inkLines blank (text ++ [c]) = inkLines blank text := by
  by_cases hnewline : c = '\n'
  · rw [hnewline, inkLines, List.splitOn_append_cons_self text [], List.splitOn_nil, inkOf_append]
    exact List.append_nil _
  · obtain ⟨front, last, hsplit⟩ : ∃ front last, text.splitOn '\n' = front ++ [last] :=
      ⟨_, _, (List.dropLast_append_getLast (List.splitOn_ne_nil '\n' text)).symm⟩
    have hlines : ∀ line ∈ front ++ [last], '\n' ∉ line := fun line hline =>
      newline_notMem_of_mem_splitOn (hsplit ▸ hline)
    -- the character belongs to the last line
    have hjoin : text ++ [c] = ['\n'].intercalate (front ++ [last ++ [c]]) := by
      rw [intercalate_eq_flatMap, ← List.append_assoc, ← intercalate_eq_flatMap, ← hsplit,
        List.intercalate_splitOn]
    rw [hjoin, inkLines_intercalate, inkLines, hsplit]
    · exact inkOf_congr (trimBlank_concat hc last) front []
    · intro line hline
      rcases List.mem_append.mp hline with hfront | hlast
      · exact hlines line (List.mem_append_left _ hfront)
      · rw [List.mem_singleton.mp hlast]
        intro hmem
        rcases List.mem_append.mp hmem with hmem | hmem
        · exact hlines last (List.mem_append_right _ List.mem_cons_self) hmem
        · exact hnewline (List.mem_singleton.mp hmem).symm

/-- Trimming a text keeps its lines that are not blank. -/
theorem inkLines_trimBlank (text : List Char) :
    inkLines blank (trimBlank blank text) = inkLines blank text := by
  have hstart : ∀ text : List Char, inkLines blank (text.dropWhile blank) = inkLines blank text := by
    intro text
    induction text with
    | nil => rfl
    | cons c text ih =>
      cases hc : blank c with
      | true => rw [List.dropWhile_cons_of_pos hc, ih, inkLines_cons hc]
      | false => rw [List.dropWhile_cons_of_neg (by simp [hc])]
  have hend : ∀ text : List Char,
      inkLines blank (text.dropWhile blank).reverse = inkLines blank text.reverse := by
    intro text
    induction text with
    | nil => rfl
    | cons c text ih =>
      cases hc : blank c with
      | true => rw [List.dropWhile_cons_of_pos hc, ih, List.reverse_cons, inkLines_concat hc]
      | false => rw [List.dropWhile_cons_of_neg (by simp [hc])]
  rw [trimBlank, hend, List.reverse_reverse, hstart]

end Lib
