import HiveClaw.RustStd

/-!
# Texts up to white space

What of a text is not white space, and texts that occur in another one. Trimming takes neither away
(`inked_trim`, `OccurIn.trim`).
-/

namespace HiveClaw.Utils

/-- The characters of a text other than white space. -/
def inked (text : String) : List Char := text.toList.filter fun c => !RustStr.isWhitespace c

theorem inked_append (s t : String) : inked (s ++ t) = inked s ++ inked t := by
  unfold inked
  rw [String.toList_append, List.filter_append]

theorem filter_dropWhile {α : Type} (p : α → Bool) (xs : List α) :
    (xs.dropWhile p).filter (fun x => !p x) = xs.filter fun x => !p x := by
  induction xs with
  | nil => rfl
  | cons x xs ih =>
    cases hx : p x with
    | true => rw [List.dropWhile_cons_of_pos hx, ih, List.filter_cons_of_neg (by simp [hx])]
    | false => rw [List.dropWhile_cons_of_neg (by simp [hx])]

theorem inked_trim (text : String) : inked (RustStr.trim text) = inked text := by
  unfold inked RustStr.trim
  rw [String.toList_ofList, List.filter_reverse, filter_dropWhile, List.filter_reverse,
    List.reverse_reverse, filter_dropWhile]

/-! ## Texts in order -/

/-- The texts occur in the characters, in this order and without overlap. -/
def OccurIn : List String → List Char → Prop
  | [], _ => True
  | t :: texts, chars => ∃ front rest, chars = front ++ (t.toList ++ rest) ∧ OccurIn texts rest

/-- The text begins and ends with a character that is no white space. -/
structure Tight (t : String) : Prop where
  head : ∃ c rest, t.toList = c :: rest ∧ RustStr.isWhitespace c = false
  last : ∃ front c, t.toList = front ++ [c] ∧ RustStr.isWhitespace c = false

variable {chars : List Char}

theorem OccurIn.append_left {texts : List String} (h : OccurIn texts chars) (before : List Char) :
    OccurIn texts (before ++ chars) := by
  cases texts with
  | nil => trivial
  | cons t texts =>
    obtain ⟨front, rest, rfl, hrest⟩ := h
    exact ⟨before ++ front, rest, (List.append_assoc _ _ _).symm, hrest⟩

theorem OccurIn.append {texts texts' : List String} {chars' : List Char} (h : OccurIn texts chars)
    (h' : OccurIn texts' chars') : OccurIn (texts ++ texts') (chars ++ chars') := by
  induction texts generalizing chars with
  | nil => exact h'.append_left chars
  | cons t texts ih =>
    obtain ⟨front, rest, rfl, hrest⟩ := h
    refine ⟨front, rest ++ chars', ?_, ih hrest⟩
    rw [List.append_assoc, List.append_assoc]

def trimEndChars (chars : List Char) : List Char :=
  (chars.reverse.dropWhile RustStr.isWhitespace).reverse

theorem trimEndChars_append {front rest : List Char} {c : Char}
    (hc : RustStr.isWhitespace c = false) :
    trimEndChars (front ++ [c] ++ rest) = front ++ [c] ++ trimEndChars rest := by
  unfold trimEndChars
  rw [List.reverse_append, List.dropWhile_append]
  split
  · rename_i hempty
    rw [List.isEmpty_iff] at hempty
    rw [hempty, List.reverse_append, List.reverse_singleton, List.singleton_append,
      List.dropWhile_cons_of_neg (by simp [hc]), List.reverse_cons, List.reverse_reverse,
      List.reverse_nil, List.append_nil]
  · rw [List.reverse_append, List.reverse_reverse]

theorem OccurIn.trimEnd {texts : List String} (h : OccurIn texts chars)
    (htight : ∀ t ∈ texts, Tight t) : OccurIn texts (trimEndChars chars) := by
  induction texts generalizing chars with
  | nil => trivial
  | cons t texts ih =>
    obtain ⟨front, rest, rfl, hrest⟩ := h
    obtain ⟨before, c, hlast, hc⟩ := (htight t List.mem_cons_self).last
    refine ⟨front, trimEndChars rest, ?_, ih hrest fun t' ht' => htight t' (List.mem_cons_of_mem t ht')⟩
    have hends := @trimEndChars_append (front ++ before) rest c hc
    rw [hlast]
    simpa only [List.append_assoc] using hends

theorem OccurIn.trim {texts : List String} {text : String} (h : OccurIn texts text.toList)
    (htight : ∀ t ∈ texts, Tight t) : OccurIn texts (RustStr.trim text).toList := by
  have hstart : OccurIn texts (text.toList.dropWhile RustStr.isWhitespace) := by
    cases texts with
    | nil => trivial
    | cons t texts =>
      obtain ⟨front, rest, hsplit, hrest⟩ := h
      obtain ⟨c, others, hhead, hc⟩ := (htight t List.mem_cons_self).head
      refine ⟨front.dropWhile RustStr.isWhitespace, rest, ?_, hrest⟩
      have hkeep : (t.toList ++ rest).dropWhile RustStr.isWhitespace = t.toList ++ rest := by
        rw [hhead, List.cons_append, List.dropWhile_cons_of_neg (by simp [hc])]
      rw [hsplit, List.dropWhile_append]
      split
      · rename_i hempty
        rw [List.isEmpty_iff.mp hempty, hkeep, List.nil_append]
      · rfl
  unfold RustStr.trim
  rw [String.toList_ofList]
  exact hstart.trimEnd htight

theorem toList_trim (text : String) :
    (RustStr.trim text).toList = trimEndChars (text.toList.dropWhile RustStr.isWhitespace) :=
  String.toList_ofList

/-- The first character that `dropWhile` leaves. -/
theorem dropWhile_eq_nil_or (chars : List Char) :
    chars.dropWhile RustStr.isWhitespace = [] ∨ ∃ c rest,
      chars.dropWhile RustStr.isWhitespace = c :: rest ∧ RustStr.isWhitespace c = false := by
  have hhead := List.head?_dropWhile_not RustStr.isWhitespace chars
  cases hdrop : chars.dropWhile RustStr.isWhitespace with
  | nil => exact .inl rfl
  | cons c rest =>
    rw [hdrop] at hhead
    exact .inr ⟨c, rest, rfl, hhead⟩

/-- A trimmed text that is not empty. -/
theorem tight_trim {text : String} (h : RustStr.trim text ≠ "") : Tight (RustStr.trim text) := by
  have hne : (RustStr.trim text).toList ≠ [] := fun hnil => h (String.toList_eq_nil_iff.mp hnil)
  rw [toList_trim] at hne
  constructor
  · rcases dropWhile_eq_nil_or text.toList with hnil | ⟨c, rest, hdrop, hc⟩
    · rw [hnil] at hne
      exact absurd rfl hne
    · refine ⟨c, trimEndChars rest, ?_, hc⟩
      rw [toList_trim, hdrop]
      exact @trimEndChars_append [] rest c hc
  · rw [toList_trim]
    unfold trimEndChars at hne ⊢
    rcases dropWhile_eq_nil_or (text.toList.dropWhile RustStr.isWhitespace).reverse with
      hnil | ⟨c, rest, hdrop, hc⟩
    · rw [hnil] at hne
      exact absurd rfl hne
    · exact ⟨rest.reverse, c, by rw [hdrop, List.reverse_cons], hc⟩

theorem occurIn_trim (text : String) : OccurIn [RustStr.trim text] text.toList := by
  generalize hdrop : text.toList.dropWhile RustStr.isWhitespace = chars
  have htext : text.toList.takeWhile RustStr.isWhitespace ++ chars = text.toList := by
    rw [← hdrop]
    exact List.takeWhile_append_dropWhile
  have hchars : trimEndChars chars ++ (chars.reverse.takeWhile RustStr.isWhitespace).reverse =
      chars := by
    unfold trimEndChars
    rw [← List.reverse_append, List.takeWhile_append_dropWhile, List.reverse_reverse]
  refine ⟨text.toList.takeWhile RustStr.isWhitespace,
    (chars.reverse.takeWhile RustStr.isWhitespace).reverse, ?_, trivial⟩
  rw [toList_trim, hdrop, hchars, htext]

theorem OccurIn.inked_le {texts : List String} (h : OccurIn texts chars) :
    (texts.map fun t => (inked t).length).sum ≤
      (chars.filter fun c => !RustStr.isWhitespace c).length := by
  induction texts generalizing chars with
  | nil => exact Nat.zero_le _
  | cons t texts ih =>
    obtain ⟨front, rest, rfl, hrest⟩ := h
    have hle := ih hrest
    rw [List.map_cons, List.sum_cons, List.filter_append, List.filter_append, List.length_append,
      List.length_append]
    unfold inked at hle ⊢
    omega

end HiveClaw.Utils
