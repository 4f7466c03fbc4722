import HiveClaw.Lib.Occurrences
import HiveClaw.Lib.Utf8

/-!
# Replacing ranges of a text

Ranges are given in bytes of the text before any of them is replaced, in
ascending order, and replaced from the last to the first.

* `exists_patchRanges` — ranges of whole characters that do not overlap can all be replaced.
-/

namespace Lib

/-- `text.replace_range(a..b, r)`; `none` if the range is not one of whole characters. -/
def replaceRange (text : List Char) (a b : Nat) (r : List Char) : Option (List Char) := do
  let _ ← sliceBytes text a b
  let front ← takeBytes text a
  let rest ← dropBytes text b
  some (front ++ r ++ rest)

/-- A range is replaced if it is one of whole characters. -/
theorem replaceRange_eq_some_iff {text r out : List Char} {a b : Nat} :
    replaceRange text a b r = some out ↔
      ∃ front middle rest, front ++ middle ++ rest = text ∧ byteLen front = a ∧
        byteLen front + byteLen middle = b ∧ out = front ++ r ++ rest := by
  have hparts : ∀ front middle rest, front ++ middle ++ rest = text → byteLen front = a →
      byteLen front + byteLen middle = b →
        replaceRange text a b r = some (front ++ r ++ rest) := by
    rintro front middle rest rfl rfl rfl
    have hslice : sliceBytes (front ++ middle ++ rest) (byteLen front)
        (byteLen front + byteLen middle) = some middle :=
      sliceBytes_eq_some_iff.mpr ⟨front, rest, rfl, rfl, rfl⟩
    have htake : takeBytes (front ++ middle ++ rest) (byteLen front) = some front :=
      takeBytes_eq_some_iff.mpr ⟨⟨middle ++ rest, by rw [List.append_assoc]⟩, rfl⟩
    have hdrop : dropBytes (front ++ middle ++ rest) (byteLen front + byteLen middle) =
        some rest :=
      dropBytes_eq_some_iff.mpr ⟨front ++ middle, rfl, byteLen_append front middle⟩
    simp only [replaceRange, hslice, htake, hdrop, Option.bind_eq_bind, Option.bind_some]
  constructor
  · intro h
    obtain ⟨middle, hmiddle, -⟩ := Option.bind_eq_some_iff.mp h
    obtain ⟨front, rest, htext, ha, hb⟩ := sliceBytes_eq_some_iff.mp hmiddle
    rw [hparts front middle rest htext ha hb] at h
    exact ⟨front, middle, rest, htext, ha, hb, (Option.some.inj h).symm⟩
  · rintro ⟨front, middle, rest, htext, ha, hb, rfl⟩
    exact hparts front middle rest htext ha hb

section Ranges

variable {α : Type} (start stop : α → Nat) (replacement : α → List Char)

/-- Replaces the ranges from the last to the first. -/
def patchRanges (text : List Char) (ranges : List α) : Option (List Char) :=
  ranges.reverse.foldlM
    (fun out x => replaceRange out (start x) (stop x) (replacement x)) text

theorem patchRanges_cons (text : List Char) (x : α) (ranges : List α) :
    patchRanges start stop replacement text (x :: ranges) =
      (patchRanges start stop replacement text ranges).bind fun out =>
        replaceRange out (start x) (stop x) (replacement x) := by
  rw [patchRanges, List.reverse_cons, List.foldlM_append]
  refine Option.bind_congr fun out _ => ?_
  rw [List.foldlM_cons]
  exact Option.bind_fun_some _

variable {start stop replacement}

variable (replacement) in
/-- Ranges of whole characters that do not overlap can all be replaced, and what is in front of
the first of them stays. -/
theorem exists_patchRanges {text : List Char} {ranges : List α}
    (hwhole : ∀ x ∈ ranges, (sliceBytes text (start x) (stop x)).isSome = true)
    (hapart : ranges.Pairwise fun x y => stop x ≤ start y) :
    ∃ out, patchRanges start stop replacement text ranges = some out ∧
      ∀ front, front <+: text → (∀ x ∈ ranges, byteLen front ≤ start x) → front <+: out := by
  induction ranges with
  | nil => exact ⟨text, rfl, fun front hfront _ => hfront⟩
  | cons x ranges ih =>
    obtain ⟨hfirst, hapart⟩ := List.pairwise_cons.mp hapart
    obtain ⟨out, hout, hkeeps⟩ :=
      ih (fun y hy => hwhole y (List.mem_cons_of_mem x hy)) hapart
    obtain ⟨middle, hmiddle⟩ :=
      Option.isSome_iff_exists.mp (hwhole x List.mem_cons_self)
    obtain ⟨front, rest, htext, hstart, hstop⟩ := sliceBytes_eq_some_iff.mp hmiddle
    -- the ranges replaced so far lie behind this one
    obtain ⟨tail, htail⟩ : front ++ middle <+: out := by
      refine hkeeps (front ++ middle) ⟨rest, htext⟩ fun y hy => ?_
      rw [byteLen_append, hstop]
      exact hfirst y hy
    have hreplace : replaceRange out (start x) (stop x) (replacement x) =
        some (front ++ replacement x ++ tail) :=
      replaceRange_eq_some_iff.mpr ⟨front, middle, tail, htail, hstart, hstop, rfl⟩
    refine ⟨front ++ replacement x ++ tail, ?_, fun head hhead hbefore => ?_⟩
    · rw [patchRanges_cons, hout, Option.bind_some, hreplace]
    · have hlength := hbefore x List.mem_cons_self
      have hnested : head <+: front := by
        have hfront : front <+: text := ⟨middle ++ rest, by rw [← List.append_assoc, htext]⟩
        rcases List.prefix_or_prefix_of_prefix hhead hfront with h | h
        · exact h
        · rw [eq_of_prefix_of_byteLen_le h (by omega)]
      rw [List.append_assoc]
      exact hnested.trans (List.prefix_append front _)

variable (replacement) in
/-- A single range. -/
theorem patchRanges_singleton (front middle rest : List Char) {x : α}
    (hstart : start x = byteLen front) (hstop : stop x = byteLen front + byteLen middle) :
    patchRanges start stop replacement (front ++ middle ++ rest) [x] =
      some (front ++ replacement x ++ rest) := by
  rw [patchRanges_cons]
  show (some (front ++ middle ++ rest)).bind _ = _
  rw [Option.bind_some]
  exact replaceRange_eq_some_iff.mpr ⟨front, middle, rest, rfl, hstart.symm, hstop.symm, rfl⟩

end Ranges

-- ---
-- Line feeds among the bytes
-- ---

theorem length_encodeUtf8 (text : List Char) : (encodeUtf8 text).length = byteLen text := by
  induction text with
  | nil => rfl
  | cons c text ih =>
    show (String.utf8EncodeChar c ++ encodeUtf8 text).length = _
    rw [List.length_append, length_utf8EncodeChar, ih, byteLen_cons]

/-- The byte of a line feed begins no other character. -/
theorem head?_encode_eq_newline {c : Char} :
    (String.utf8EncodeChar c).head? = some 10 ↔ c = '\n' := by
  have hchar : c = '\n' ↔ c.val.toNat = 10 := by
    rw [Char.ext_iff, ← UInt32.toNat_inj]
    rfl
  have hbyte : ∀ n : Nat, UInt8.ofNat n = 10 ↔ n % 256 = 10 := by
    intro n
    rw [← UInt8.toNat_inj, UInt8.toNat_ofNat']
    rfl
  rw [hchar]
  fun_cases String.utf8EncodeChar c
  all_goals
    rw [List.head?_cons, Option.some.injEq, hbyte]
    omega

/-- The byte behind a front of the text is that of a line feed exactly if the character is one. -/
theorem byte_eq_newline_iff (front rest : List Char) :
    (encodeUtf8 (front ++ rest))[byteLen front]? = some 10 ↔ rest.head? = some '\n' := by
  rw [encodeUtf8_append, List.getElem?_append_right (by rw [length_encodeUtf8]),
    length_encodeUtf8, Nat.sub_self]
  cases rest with
  | nil => simp [encodeUtf8]
  | cons c rest =>
    have hpos : 0 < (String.utf8EncodeChar c).length := by
      rw [length_utf8EncodeChar]
      exact Char.utf8Size_pos c
    show (String.utf8EncodeChar c ++ encodeUtf8 rest)[0]? = some 10 ↔ _
    rw [List.getElem?_append_left hpos, ← List.head?_eq_getElem?, head?_encode_eq_newline,
      List.head?_cons, Option.some.injEq]

end Lib
