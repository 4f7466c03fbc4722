import Mathlib.Algebra.GroupWithZero.Nat
import Mathlib.Data.List.Infix

/-!
# Cutting a text at a byte

A text is a list of characters, each of one to four bytes. A cut is given by its position in
bytes and fails unless a character starts there or the text ends there.
-/

namespace Lib

/-- The length in bytes. -/
def byteLen (text : List Char) : Nat := (text.map Char.utf8Size).sum

theorem byteLen_cons (c : Char) (text : List Char) :
    byteLen (c :: text) = c.utf8Size + byteLen text := by
  rw [byteLen, List.map_cons, List.sum_cons, ← byteLen]

theorem byteLen_append (front rest : List Char) :
    byteLen (front ++ rest) = byteLen front + byteLen rest := by
  rw [byteLen, List.map_append, List.sum_append, ← byteLen, ← byteLen]

theorem utf8ByteSize_eq_byteLen (text : String) : text.utf8ByteSize = byteLen text.toList := by
  have hlist : ∀ chars : List Char, (String.ofList chars).utf8ByteSize = byteLen chars := by
    intro chars
    induction chars with
    | nil => rfl
    | cons c chars ih =>
      have hsplit : String.ofList (c :: chars) = String.singleton c ++ String.ofList chars := by
        apply String.toList_injective
        rw [String.toList_append, String.toList_ofList, String.toList_ofList,
          String.toList_singleton, List.singleton_append]
      rw [hsplit, String.utf8ByteSize_append, String.utf8ByteSize_singleton, ih, byteLen_cons]
  rw [← hlist, String.ofList_toList]

variable {front : List Char}

/-- A front as long as the text is the text. -/
theorem eq_of_prefix_of_byteLen_le {text : List Char} (h : front <+: text)
    (hlen : byteLen text ≤ byteLen front) : front = text := by
  obtain ⟨rest, rfl⟩ := h
  cases rest with
  | nil => rw [List.append_nil]
  | cons c rest =>
    have hpos : 0 < c.utf8Size := Char.utf8Size_pos c
    rw [byteLen_append, byteLen_cons] at hlen
    omega

/-- The characters in front of byte `n`, if it is a character boundary. -/
def takeBytes : List Char → Nat → Option (List Char)
  | _, 0 => some []
  | [], _ + 1 => none
  | c :: text, n + 1 =>
    if c.utf8Size ≤ n + 1 then (takeBytes text (n + 1 - c.utf8Size)).map (c :: ·) else none

/-- Byte `n` starts a character or ends the text. -/
def IsCharBoundary (text : List Char) (n : Nat) : Prop :=
  ∃ front, front <+: text ∧ byteLen front = n

variable {n : Nat}

/-- A cut gives the front of the text with that many bytes. -/
theorem takeBytes_eq_some_iff {text : List Char} :
    takeBytes text n = some front ↔ front <+: text ∧ byteLen front = n := by
  induction text generalizing front n with
  | nil =>
    rw [List.prefix_nil]
    cases n with
    | zero => exact ⟨fun h => ⟨(Option.some.inj h).symm, by rw [← Option.some.inj h]; rfl⟩,
        fun h => by rw [h.1]; rfl⟩
    | succ n =>
      refine ⟨nofun, ?_⟩
      rintro ⟨rfl, h⟩
      cases h
  | cons c text ih =>
    have hpos : 0 < c.utf8Size := Char.utf8Size_pos c
    cases n with
    | zero =>
      constructor
      · intro h
        rw [← Option.some.inj h]
        exact ⟨List.nil_prefix, rfl⟩
      · rintro ⟨-, hlen⟩
        cases front with
        | nil => rfl
        | cons d front =>
          have hd : 0 < d.utf8Size := Char.utf8Size_pos d
          rw [byteLen_cons] at hlen
          omega
    | succ n =>
      rw [takeBytes]
      split
      case isTrue hle =>
        rw [Option.map_eq_some_iff]
        constructor
        · rintro ⟨rest, hrest, rfl⟩
          obtain ⟨hfront, hlen⟩ := ih.mp hrest
          refine ⟨List.cons_prefix_cons.mpr ⟨rfl, hfront⟩, ?_⟩
          rw [byteLen_cons, hlen]
          omega
        · rintro ⟨hfront, hlen⟩
          cases front with
          | nil => cases hlen
          | cons d rest =>
            obtain ⟨rfl, hrest⟩ := List.cons_prefix_cons.mp hfront
            rw [byteLen_cons] at hlen
            exact ⟨rest, ih.mpr ⟨hrest, by omega⟩, rfl⟩
      case isFalse hle =>
        refine ⟨nofun, ?_⟩
        rintro ⟨hfront, hlen⟩
        cases front with
        | nil => cases hlen
        | cons d rest =>
          obtain ⟨rfl, -⟩ := List.cons_prefix_cons.mp hfront
          rw [byteLen_cons] at hlen
          omega

/-- A cut succeeds exactly at the character boundaries. -/
theorem isSome_takeBytes_iff {text : List Char} :
    (takeBytes text n).isSome = true ↔ IsCharBoundary text n := by
  rw [Option.isSome_iff_exists]
  exact exists_congr fun front => takeBytes_eq_some_iff

instance (text : List Char) (n : Nat) : Decidable (IsCharBoundary text n) :=
  decidable_of_iff _ isSome_takeBytes_iff

example : takeBytes "a工b".toList 4 = some ['a', '工'] := by decide

example : ¬ IsCharBoundary "a工b".toList 2 := by decide

/-- The characters from byte `n` on, if it is a character boundary. -/
def dropBytes (text : List Char) (n : Nat) : Option (List Char) :=
  (takeBytes text n).map fun front => text.drop front.length

/-- The other side of the cut is the rest of the text. -/
theorem dropBytes_eq_some_iff {text rest : List Char} :
    dropBytes text n = some rest ↔ ∃ front, front ++ rest = text ∧ byteLen front = n := by
  unfold dropBytes
  rw [Option.map_eq_some_iff]
  refine exists_congr fun front => ?_
  rw [takeBytes_eq_some_iff]
  constructor
  · rintro ⟨⟨⟨tail, rfl⟩, hlen⟩, hrest⟩
    rw [List.drop_left] at hrest
    rw [hrest]
    exact ⟨rfl, hlen⟩
  · rintro ⟨rfl, hlen⟩
    exact ⟨⟨List.prefix_append front rest, hlen⟩, List.drop_left⟩

/-- The byte at which a pattern is first found. -/
def findBytes (pattern : List Char) : List Char → Option Nat
  | [] => if pattern.isEmpty then some 0 else none
  | c :: text =>
    if pattern.isPrefixOf (c :: text) then some 0
    else (findBytes pattern text).map (c.utf8Size + ·)

/-- The position of a pattern is a character boundary. -/
theorem isCharBoundary_of_findBytes {pattern text : List Char}
    (h : findBytes pattern text = some n) : IsCharBoundary text n := by
  induction text generalizing n with
  | nil =>
    rw [findBytes] at h
    split at h
    · rw [← Option.some.inj h]
      exact ⟨[], List.nil_prefix, rfl⟩
    · cases h
  | cons c text ih =>
    rw [findBytes] at h
    split at h
    · rw [← Option.some.inj h]
      exact ⟨[], List.nil_prefix, rfl⟩
    · obtain ⟨k, hk, rfl⟩ := Option.map_eq_some_iff.mp h
      obtain ⟨front, hfront, hlen⟩ := ih hk
      refine ⟨c :: front, List.cons_prefix_cons.mpr ⟨rfl, hfront⟩, ?_⟩
      rw [byteLen_cons, hlen]

end Lib
