import Mathlib.Data.List.Basic

/-!
# Decoding UTF-8 with replacement

`decodeLossy` reads bytes as UTF-8. Where they are none, the longest part that
a character could begin with, or else one byte, becomes U+FFFD.

* `decodeLossy_encode` — the bytes of a text are read as the text.
-/

namespace Lib

/-- The bytes of a text. -/
def encodeUtf8 (text : List Char) : List UInt8 := text.flatMap String.utf8EncodeChar

-- a byte that continues a character
def isContinuation (b : UInt8) : Bool := 0x80 ≤ b && b ≤ 0xBF

/-- The second bytes that can follow the first byte of a character of three or four bytes. -/
def isSecond (first second : UInt8) : Bool :=
  if first = 0xE0 then 0xA0 ≤ second && second ≤ 0xBF
  else if first = 0xED then 0x80 ≤ second && second ≤ 0x9F
  else if first = 0xF0 then 0x90 ≤ second && second ≤ 0xBF
  else if first = 0xF4 then 0x80 ≤ second && second ≤ 0x8F
  else isContinuation second

/-- The number of bytes that are replaced together, where no character is. -/
def brokenLength : List UInt8 → Nat
  | first :: second :: third :: _ =>
    if 0xE0 ≤ first && first ≤ 0xF4 && isSecond first second then
      if 0xF0 ≤ first && isContinuation third then 3 else 2
    else 1
  | [first, second] => if 0xE0 ≤ first && first ≤ 0xF4 && isSecond first second then 2 else 1
  | _ => 1

-- the first argument is the number of bytes still to look at
def decodeFrom : Nat → List UInt8 → List Char
  | 0, _ => []
  | _, [] => []
  | n + 1, b :: rest =>
    match (b :: rest).toByteArray.utf8DecodeChar? 0 with
    | some c => c :: decodeFrom n ((b :: rest).drop c.utf8Size)
    | none => '\uFFFD' :: decodeFrom n ((b :: rest).drop (brokenLength (b :: rest)))

/-- The text of some bytes. -/
def decodeLossy (bytes : List UInt8) : List Char := decodeFrom bytes.length bytes

theorem length_utf8EncodeChar (c : Char) : (String.utf8EncodeChar c).length = c.utf8Size :=
  String.length_utf8EncodeChar c

theorem encodeUtf8_append (front rest : List Char) :
    encodeUtf8 (front ++ rest) = encodeUtf8 front ++ encodeUtf8 rest :=
  List.flatMap_append

theorem length_le_encodeUtf8 (text : List Char) : text.length ≤ (encodeUtf8 text).length := by
  induction text with
  | nil => exact Nat.le_refl 0
  | cons c text ih =>
    have hpos : 0 < c.utf8Size := Char.utf8Size_pos c
    show _ ≤ (String.utf8EncodeChar c ++ encodeUtf8 text).length
    rw [List.length_append, length_utf8EncodeChar, List.length_cons]
    omega

theorem decodeFrom_encode (text : List Char) (n : Nat) (hn : text.length ≤ n) :
    decodeFrom n (encodeUtf8 text) = text := by
  induction text generalizing n with
  | nil =>
    cases n with
    | zero => rfl
    | succ n => rfl
  | cons c text ih =>
    obtain ⟨n, rfl⟩ : ∃ k, n = k + 1 := ⟨n - 1, by rw [List.length_cons] at hn; omega⟩
    have hbytes : encodeUtf8 (c :: text) = String.utf8EncodeChar c ++ encodeUtf8 text := rfl
    obtain ⟨b, rest, hcons⟩ : ∃ b rest, encodeUtf8 (c :: text) = b :: rest := by
      cases henc : encodeUtf8 (c :: text) with
      | nil =>
        have hlen := length_le_encodeUtf8 (c :: text)
        rw [henc] at hlen
        cases hlen
      | cons b rest => exact ⟨b, rest, rfl⟩
    have hchar : (b :: rest).toByteArray.utf8DecodeChar? 0 = some c := by
      rw [← hcons, hbytes, List.toByteArray_append]
      exact ByteArray.utf8DecodeChar?_utf8EncodeChar_append
    rw [hcons, decodeFrom, hchar]
    dsimp only
    rw [← hcons, hbytes, ← length_utf8EncodeChar c, List.drop_left,
      ih n (by rw [List.length_cons] at hn; omega)]

/-- The bytes of a text are read as the text. -/
theorem decodeLossy_encode (text : List Char) : decodeLossy (encodeUtf8 text) = text :=
  decodeFrom_encode text _ (length_le_encodeUtf8 text)

/-- The text of some bytes that are UTF-8: nothing had to be replaced. -/
def decodeStrict (bytes : List UInt8) : Option (List Char) :=
  if encodeUtf8 (decodeLossy bytes) = bytes then some (decodeLossy bytes) else none

/-- Reading without replacement: only the bytes of a text are read. -/
theorem decodeStrict_eq_some_iff {bytes : List UInt8} {text : List Char} :
    decodeStrict bytes = some text ↔ encodeUtf8 text = bytes := by
  unfold decodeStrict
  constructor
  · intro h
    split at h
    · next hencode => rw [← Option.some.inj h, hencode]
    · cases h
  · rintro rfl
    rw [decodeLossy_encode, if_pos rfl]

end Lib
