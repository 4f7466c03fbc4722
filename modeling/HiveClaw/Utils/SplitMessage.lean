import HiveClaw.Lib.ByteSlice
import HiveClaw.RustStd
import Mathlib.Data.List.TakeWhile

/-!
# Messages in chunks

`split_message` of `crates/utils/src/helpers.rs`. Lengths are counted in characters and places in
bytes; a place that is no character boundary makes the slice panic, which here gives no result.

* `splitMessage_spec` — the loop ends without a panic, its chunks are not empty and not too long, and
  they are the content but for white space where it has been cut.
-/

namespace HiveClaw.Utils

open Lib RustStr

-- ---
-- Places in a text
-- ---

/-- `str::char_indices`, from byte `n` on. -/
def charIndices (n : Nat) : List Char → List (Nat × Char)
  | [] => []
  | c :: s => (n, c) :: charIndices (n + c.utf8Size) s

-- `nth_char_boundary`
def nthCharBoundary (s : List Char) (charCount : Nat) : Nat :=
  ((charIndices 0 s)[charCount]?.map Prod.fst).getD (byteLen s)

/-- `str::rfind` for a character. -/
def rfind (c : Char) (s : List Char) : Option Nat :=
  ((charIndices 0 s).reverse.find? fun q => q.2 = c).map Prod.fst

theorem getElem?_charIndices (n i : Nat) (s : List Char) :
    (charIndices n s)[i]? = s[i]?.map fun c => (n + byteLen (s.take i), c) := by
  induction s generalizing n i with
  | nil => rfl
  | cons c s ih =>
    cases i with
    | zero => rfl
    | succ i =>
      rw [charIndices, List.getElem?_cons_succ, List.getElem?_cons_succ, ih, List.take_succ_cons,
        byteLen_cons, Nat.add_assoc]

theorem nthCharBoundary_eq (s : List Char) (charCount : Nat) :
    nthCharBoundary s charCount = byteLen (s.take charCount) := by
  rw [nthCharBoundary, getElem?_charIndices]
  by_cases h : charCount < s.length
  · rw [List.getElem?_eq_getElem h]
    exact Nat.zero_add _
  · rw [List.getElem?_eq_none (by omega), List.take_of_length_le (by omega)]
    rfl

theorem split_of_rfind {c : Char} {s : List Char} {p : Nat} (h : rfind c s = some p) :
    ∃ front rest, s = front ++ rest ∧ byteLen front = p := by
  obtain ⟨q, hq, rfl⟩ := Option.map_eq_some_iff.mp h
  have hmem := List.mem_reverse.mp (List.mem_of_find?_eq_some hq)
  obtain ⟨i, hi⟩ := List.getElem?_of_mem hmem
  rw [getElem?_charIndices] at hi
  obtain ⟨d, -, rfl⟩ := Option.map_eq_some_iff.mp hi
  exact ⟨s.take i, s.drop i, (List.take_append_drop i s).symm, (Nat.zero_add _).symm⟩

-- ---
-- The loop
-- ---

/-- Where the text is cut: in front of the last line feed or else the last space among the first
characters, or behind these. -/
def cutPosition (head : List Char) (byteCut : Nat) : Nat :=
  (((rfind '\n' head).or (rfind ' ' head)).filter fun p => 0 < p).getD byteCut

-- `str::split_at`
def splitAt (s : List Char) (n : Nat) : Option (List Char × List Char) :=
  (takeBytes s n).bind fun front => (dropBytes s n).map fun rest => (front, rest)

/-- The loop, with fuel; no result when the fuel is used up or a slice panics. -/
def splitFrom (maxLen : Nat) : Nat → List Char → Option (List (List Char))
  | 0, _ => none
  | fuel + 1, remaining =>
    if remaining = [] then some []
    else if remaining.length ≤ maxLen then some [remaining]
    else
      let byteCut := nthCharBoundary remaining maxLen
      (takeBytes remaining byteCut).bind fun head =>
        (splitAt remaining (cutPosition head byteCut)).bind fun (chunk, rest) =>
          (splitFrom maxLen fuel (rest.dropWhile isWhitespace)).map (chunk :: ·)

-- `split_message`
def splitMessage (fuel : Nat) (content : String) (maxLen : Nat) : Option (List String) :=
  if content = "" then some []
  else if content.length ≤ maxLen then some [content]
  else (splitFrom maxLen fuel content.toList).map fun chunks => chunks.map String.ofList

-- ---
-- What is left of the content
-- ---

/-- The pieces are the text in its order, but for white space behind a piece. -/
inductive Pieces : List (List Char) → List Char → Prop
  | nil : Pieces [] []
  | cons {chunks : List (List Char)} {rest : List Char} (chunk gap : List Char) :
      (∀ c ∈ gap, isWhitespace c = true) → Pieces chunks rest →
      Pieces (chunk :: chunks) (chunk ++ (gap ++ rest))

theorem pieces_singleton (s : List Char) : Pieces [s] s := by
  have h := Pieces.cons s [] nofun .nil
  rwa [List.append_nil, List.append_nil] at h

theorem splitAt_append (front rest : List Char) :
    splitAt (front ++ rest) (byteLen front) = some (front, rest) := by
  have htake : takeBytes (front ++ rest) (byteLen front) = some front :=
    takeBytes_eq_some_iff.mpr ⟨List.prefix_append front rest, rfl⟩
  have hdrop : dropBytes (front ++ rest) (byteLen front) = some rest :=
    dropBytes_eq_some_iff.mpr ⟨front, rfl, rfl⟩
  rw [splitAt, htake, Option.bind_some, hdrop, Option.map_some]

variable {maxLen : Nat}

theorem exists_cut {remaining : List Char} (hmax : 0 < maxLen) (hlong : maxLen < remaining.length) :
    ∃ chunk rest, remaining = chunk ++ rest ∧ chunk ≠ [] ∧ chunk.length ≤ maxLen ∧
      cutPosition (remaining.take maxLen) (byteLen (remaining.take maxLen)) = byteLen chunk := by
  rw [cutPosition]
  cases hfound : ((rfind '\n' (remaining.take maxLen)).or (rfind ' ' (remaining.take maxLen))).filter
      fun p => 0 < p with
  | none =>
    refine ⟨remaining.take maxLen, remaining.drop maxLen, (List.take_append_drop _ _).symm, ?_, ?_,
      rfl⟩
    · intro hnil
      have hlength := congrArg List.length hnil
      rw [List.length_take, List.length_nil] at hlength
      omega
    · rw [List.length_take]
      omega
  | some p =>
    obtain ⟨hrfind, hpos⟩ := Option.filter_eq_some_iff.mp hfound
    obtain ⟨front, rest, hhead, hlen⟩ :
        ∃ front rest, remaining.take maxLen = front ++ rest ∧ byteLen front = p := by
      rcases Option.or_eq_some_iff.mp hrfind with h | ⟨-, h⟩
      · exact split_of_rfind h
      · exact split_of_rfind h
    refine ⟨front, rest ++ remaining.drop maxLen, ?_, ?_, ?_, hlen.symm⟩
    · rw [← List.append_assoc, ← hhead, List.take_append_drop]
    · rintro rfl
      rw [← hlen] at hpos
      cases of_decide_eq_true hpos
    · have hlength := congrArg List.length hhead
      rw [List.length_take, List.length_append] at hlength
      omega

theorem splitFrom_spec (hmax : 0 < maxLen) (remaining : List Char) :
    ∃ chunks, (∀ fuel, remaining.length < fuel → splitFrom maxLen fuel remaining = some chunks) ∧
      (∀ chunk ∈ chunks, chunk ≠ [] ∧ chunk.length ≤ maxLen) ∧ Pieces chunks remaining := by
  induction hn : remaining.length using Nat.strong_induction_on generalizing remaining with
  | _ n ih =>
    have hfuel : ∀ {fuel : Nat}, n < fuel → ∃ f, fuel = f + 1 := fun h =>
      Nat.exists_eq_succ_of_ne_zero (by omega)
    by_cases hnil : remaining = []
    · refine ⟨[], fun fuel hlt => ?_, nofun, hnil ▸ .nil⟩
      obtain ⟨fuel, rfl⟩ := hfuel hlt
      rw [splitFrom, if_pos hnil]
    by_cases hshort : remaining.length ≤ maxLen
    · refine ⟨[remaining], fun fuel hlt => ?_, ?_, pieces_singleton remaining⟩
      · obtain ⟨fuel, rfl⟩ := hfuel hlt
        rw [splitFrom, if_neg hnil, if_pos hshort]
      · intro chunk hchunk
        rw [List.mem_singleton.mp hchunk]
        exact ⟨hnil, hshort⟩
    · obtain ⟨chunk, rest, hsplit, hne, hle, hcut⟩ := exists_cut hmax (Nat.lt_of_not_le hshort)
      have hchunk : 0 < chunk.length := List.length_pos_iff.mpr hne
      have hrest : (rest.dropWhile isWhitespace).length ≤ rest.length :=
        (List.dropWhile_sublist _).length_le
      have hlength := congrArg List.length hsplit
      rw [List.length_append] at hlength
      -- what is left is shorter by the chunk
      obtain ⟨chunks, hrun, hchunks, hpieces⟩ :=
        ih (rest.dropWhile isWhitespace).length (by omega) (rest.dropWhile isWhitespace) rfl
      refine ⟨chunk :: chunks, fun fuel hlt => ?_, ?_, ?_⟩
      · obtain ⟨fuel, rfl⟩ := hfuel hlt
        have hhead : takeBytes remaining (byteLen (remaining.take maxLen)) =
            some (remaining.take maxLen) :=
          takeBytes_eq_some_iff.mpr ⟨List.take_prefix _ _, rfl⟩
        have hat : splitAt remaining (byteLen chunk) = some (chunk, rest) := by
          rw [hsplit]
          exact splitAt_append chunk rest
        rw [splitFrom, if_neg hnil, if_neg hshort]
        dsimp only
        rw [nthCharBoundary_eq, hhead, Option.bind_some, hcut, hat, Option.bind_some]
        dsimp only
        rw [hrun fuel (by omega), Option.map_some]
      · exact List.forall_mem_cons.mpr ⟨⟨hne, hle⟩, hchunks⟩
      · have hgap : ∀ c ∈ rest.takeWhile isWhitespace, isWhitespace c = true := fun c hc =>
          List.mem_takeWhile_imp hc
        have h := Pieces.cons chunk (rest.takeWhile isWhitespace) hgap hpieces
        rwa [List.takeWhile_append_dropWhile, ← hsplit] at h

/-- For a limit of at least one character `split_message` ends; its chunks are not empty and
within the limit, and they are the content with white space left out where it is cut. -/
theorem splitMessage_spec (content : String) {maxLen : Nat} (hmax : 1 ≤ maxLen) :
    ∃ chunks, (∀ fuel, content.length < fuel → splitMessage fuel content maxLen = some chunks) ∧
      (∀ chunk ∈ chunks, chunk ≠ "" ∧ chunk.length ≤ maxLen) ∧
      Pieces (chunks.map String.toList) content.toList := by
  by_cases hempty : content = ""
  · refine ⟨[], fun fuel _ => if_pos hempty, nofun, ?_⟩
    rw [hempty]
    exact .nil
  by_cases hshort : content.length ≤ maxLen
  · refine ⟨[content], fun fuel _ => ?_, ?_, pieces_singleton content.toList⟩
    · rw [splitMessage, if_neg hempty, if_pos hshort]
    · intro chunk hchunk
      rw [List.mem_singleton.mp hchunk]
      exact ⟨hempty, hshort⟩
  · obtain ⟨chunks, hrun, hchunks, hpieces⟩ := splitFrom_spec hmax content.toList
    rw [String.length_toList] at hrun
    refine ⟨chunks.map String.ofList, fun fuel hlt => ?_, ?_, ?_⟩
    · rw [splitMessage, if_neg hempty, if_neg hshort, hrun fuel hlt, Option.map_some]
    · intro chunk hchunk
      obtain ⟨chars, hchars, rfl⟩ := List.mem_map.mp hchunk
      obtain ⟨hne, hle⟩ := hchunks chars hchars
      refine ⟨fun h => hne (String.ofList_eq_empty_iff.mp h), ?_⟩
      rwa [← String.length_toList, String.toList_ofList]
    · have hback : String.toList ∘ String.ofList = id := funext fun chars => String.toList_ofList
      rw [List.map_map, hback, List.map_id]
      exact hpieces

/-- A line feed where the content is cut is left out. -/
theorem splitMessage_lines :
    splitMessage 9 "one\ntwo" 5 = some ["one", "two"] ∧
      ∃ chunks, (∀ fuel, "one\ntwo".length < fuel →
          splitMessage fuel "one\ntwo" 5 = some chunks) ∧
        (∀ chunk ∈ chunks, chunk ≠ "" ∧ chunk.length ≤ 5) ∧
        Pieces (chunks.map String.toList) "one\ntwo".toList :=
  ⟨by decide, splitMessage_spec "one\ntwo" (by decide)⟩

end HiveClaw.Utils
