import HiveClaw.Lib.ByteSlice

/-!
# The places where a pattern is found

A search from left to right that goes on behind each match. Places are given
as numbers of characters.

* `mem_occurrences`, `pairwise_occurrences`, `exists_occurrence` — what the
  places are: matches, one behind the other, and no match beside them.
-/

namespace Lib

section Occurrences

variable {α : Type} [DecidableEq α]

/-- The places of the matches in a text that begins at `pos` and whose first `skip` characters
belong to the match before. -/
def occurrencesFrom (pattern : List α) : Nat → Nat → List α → List Nat
  | _, _, [] => []
  | skip + 1, pos, _ :: text => occurrencesFrom pattern skip (pos + 1) text
  | 0, pos, c :: text =>
    if pattern.isPrefixOf (c :: text) then
      pos :: occurrencesFrom pattern (pattern.length - 1) (pos + 1) text
    else occurrencesFrom pattern 0 (pos + 1) text

/-- The places of the matches, for a pattern that is not empty. -/
def occurrences (pattern text : List α) : List Nat := occurrencesFrom pattern 0 0 text

theorem occurrencesFrom_skip (pattern : List α) (skip pos : Nat) (text : List α) :
    occurrencesFrom pattern skip pos text =
      occurrencesFrom pattern 0 (pos + skip) (text.drop skip) := by
  induction text generalizing skip pos with
  | nil =>
    rw [List.drop_nil]
    cases skip <;> rfl
  | cons c text ih =>
    cases skip with
    | zero => rfl
    | succ skip =>
      rw [occurrencesFrom, ih, List.drop_succ_cons]
      congr 1
      omega

variable {pattern : List α}

/-- A match at the start. -/
theorem occurrencesFrom_match (hpattern : pattern ≠ []) (pos : Nat) (rest : List α) :
    occurrencesFrom pattern 0 pos (pattern ++ rest) =
      pos :: occurrencesFrom pattern 0 (pos + pattern.length) rest := by
  obtain ⟨c, tail, rfl⟩ := List.exists_cons_of_ne_nil hpattern
  have hprefix : (c :: tail).isPrefixOf (c :: (tail ++ rest)) = true :=
    List.isPrefixOf_iff_prefix.mpr (List.prefix_append (c :: tail) rest)
  rw [List.cons_append, occurrencesFrom, if_pos hprefix, occurrencesFrom_skip, List.length_cons,
    Nat.add_sub_cancel, List.drop_left]
  congr 2
  omega

/-- Characters at which no match begins. -/
theorem occurrencesFrom_front {front text : List α}
    (h : ∀ i, i < front.length → ¬pattern <+: (front ++ text).drop i) (pos : Nat) :
    occurrencesFrom pattern 0 pos (front ++ text) =
      occurrencesFrom pattern 0 (pos + front.length) text := by
  induction front generalizing pos with
  | nil => rfl
  | cons c front ih =>
    have hfirst : ¬pattern.isPrefixOf (c :: (front ++ text)) = true := fun hprefix =>
      h 0 (Nat.succ_pos _) (List.isPrefixOf_iff_prefix.mp hprefix)
    rw [List.cons_append, occurrencesFrom, if_neg hfirst,
      ih (fun i hi => h (i + 1) (Nat.succ_lt_succ hi)), List.length_cons]
    congr 1
    omega

theorem occurrencesFrom_of_none {text : List α}
    (h : ∀ i, i < text.length → ¬pattern <+: text.drop i) (pos : Nat) :
    occurrencesFrom pattern 0 pos text = [] := by
  have hnone : ∀ i, i < text.length → ¬pattern <+: (text ++ []).drop i := by simpa using h
  have hfront := occurrencesFrom_front hnone pos
  rw [List.append_nil] at hfront
  rw [hfront]
  rfl

/-- What the places of a search are. -/
structure Found (pattern : List α) (skip pos : Nat) (text : List α) (places : List Nat) : Prop where
  matched : ∀ q ∈ places, pos + skip ≤ q ∧ pattern <+: text.drop (q - pos)
  apart : places.Pairwise fun p q => p + pattern.length ≤ q
  covered : ∀ i, skip ≤ i → pattern <+: text.drop i →
    ∃ q ∈ places, q ≤ pos + i ∧ pos + i < q + pattern.length

theorem occurrencesFrom_found (hpattern : pattern ≠ []) (skip pos : Nat) (text : List α) :
    Found pattern skip pos text (occurrencesFrom pattern skip pos text) := by
  have hlength : 0 < pattern.length := List.length_pos_iff.mpr hpattern
  induction text generalizing skip pos with
  | nil =>
    refine ⟨fun q hq => ?_, List.Pairwise.nil, fun i _ hprefix => ?_⟩
    · cases skip <;> cases hq
    · rw [List.drop_nil, List.prefix_nil] at hprefix
      exact absurd hprefix hpattern
  | cons c text ih =>
    -- a place behind the first character is one in the rest
    have hshift : ∀ q, pos + 1 ≤ q → (c :: text).drop (q - pos) = text.drop (q - (pos + 1)) := by
      intro q hq
      obtain ⟨k, hk⟩ : ∃ k, q - pos = k + 1 := ⟨q - pos - 1, by omega⟩
      rw [hk, List.drop_succ_cons]
      congr 1
      omega
    have hrest : ∀ skip', Found pattern skip' (pos + 1) text
        (occurrencesFrom pattern skip' (pos + 1) text) := fun skip' => ih skip' (pos + 1)
    cases skip with
    | succ skip =>
      obtain ⟨hmatched, hapart, hcovered⟩ := hrest skip
      refine ⟨fun q hq => ?_, hapart, fun i hi hprefix => ?_⟩
      · obtain ⟨hle, hprefix⟩ := hmatched q hq
        exact ⟨by omega, by rw [hshift q (by omega)]; exact hprefix⟩
      · obtain ⟨k, rfl⟩ : ∃ k, i = k + 1 := ⟨i - 1, by omega⟩
        obtain ⟨q, hq, hle, hlt⟩ := hcovered k (by omega) hprefix
        exact ⟨q, hq, by omega, by omega⟩
    | zero =>
      rw [occurrencesFrom]
      split
      · next hprefix =>
        obtain ⟨hmatched, hapart, hcovered⟩ := hrest (pattern.length - 1)
        refine ⟨fun q hq => ?_, ?_, fun i _ hat => ?_⟩
        · rcases List.mem_cons.mp hq with rfl | hq
          · refine ⟨by omega, ?_⟩
            rw [Nat.sub_self]
            exact List.isPrefixOf_iff_prefix.mp hprefix
          · obtain ⟨hle, hprefix'⟩ := hmatched q hq
            exact ⟨by omega, by rw [hshift q (by omega)]; exact hprefix'⟩
        · refine List.pairwise_cons.mpr ⟨fun q hq => ?_, hapart⟩
          have := (hmatched q hq).1
          omega
        · rcases Nat.lt_or_ge i pattern.length with hi | hi
          · exact ⟨pos, List.mem_cons_self, by omega, by omega⟩
          · obtain ⟨k, rfl⟩ : ∃ k, i = k + 1 := ⟨i - 1, by omega⟩
            obtain ⟨q, hq, hle, hlt⟩ := hcovered k (by omega) hat
            exact ⟨q, List.mem_cons_of_mem _ hq, by omega, by omega⟩
      · next hprefix =>
        obtain ⟨hmatched, hapart, hcovered⟩ := hrest 0
        refine ⟨fun q hq => ?_, hapart, fun i _ hat => ?_⟩
        · obtain ⟨hle, hprefix'⟩ := hmatched q hq
          exact ⟨by omega, by rw [hshift q (by omega)]; exact hprefix'⟩
        · cases i with
          | zero => exact absurd (List.isPrefixOf_iff_prefix.mpr hat) hprefix
          | succ k =>
            obtain ⟨q, hq, hle, hlt⟩ := hcovered k (Nat.zero_le _) hat
            exact ⟨q, hq, by omega, by omega⟩

variable {pattern text : List α}

theorem mem_occurrences (hpattern : pattern ≠ []) {p : Nat} (h : p ∈ occurrences pattern text) :
    pattern <+: text.drop p := by
  have hmatched := ((occurrencesFrom_found hpattern 0 0 text).matched p h).2
  rwa [Nat.sub_zero] at hmatched

theorem pairwise_occurrences (hpattern : pattern ≠ []) :
    (occurrences pattern text).Pairwise fun p q => p + pattern.length ≤ q :=
  (occurrencesFrom_found hpattern 0 0 text).apart

/-- A match that is not among the places begins inside one that is. -/
theorem exists_occurrence (hpattern : pattern ≠ []) {i : Nat} (h : pattern <+: text.drop i) :
    ∃ p ∈ occurrences pattern text, p ≤ i ∧ i < p + pattern.length := by
  obtain ⟨p, hp, hle, hlt⟩ := (occurrencesFrom_found hpattern 0 0 text).covered i (Nat.zero_le i) h
  exact ⟨p, hp, by omega, by omega⟩

theorem occurrences_ne_nil_iff (hpattern : pattern ≠ []) :
    occurrences pattern text ≠ [] ↔ pattern <:+: text := by
  constructor
  · intro h
    obtain ⟨p, rest, hplaces⟩ := List.exists_cons_of_ne_nil h
    have hp : p ∈ occurrences pattern text := hplaces ▸ List.mem_cons_self
    exact (mem_occurrences hpattern hp).isInfix.trans (List.drop_suffix p text).isInfix
  · rintro ⟨front, rest, rfl⟩
    have hat : pattern <+: (front ++ pattern ++ rest).drop front.length := by
      rw [List.append_assoc, List.drop_left]
      exact List.prefix_append pattern rest
    obtain ⟨p, hp, -, -⟩ := exists_occurrence hpattern hat
    exact List.ne_nil_of_mem hp

end Occurrences

-- ---
-- Searching by bytes
-- ---

/-- `text[a..b]` by bytes; `none` if one of the ends is no character boundary. -/
def sliceBytes (text : List Char) (a b : Nat) : Option (List Char) :=
  if a ≤ b then (dropBytes text a).bind fun rest => takeBytes rest (b - a) else none

variable {a b : Nat}

theorem sliceBytes_eq_some_iff {text middle : List Char} :
    sliceBytes text a b = some middle ↔
      ∃ front rest, front ++ middle ++ rest = text ∧ byteLen front = a ∧
        byteLen front + byteLen middle = b := by
  unfold sliceBytes
  constructor
  · intro h
    split at h
    · obtain ⟨tail, htail, hmiddle⟩ := Option.bind_eq_some_iff.mp h
      obtain ⟨front, rfl, rfl⟩ := dropBytes_eq_some_iff.mp htail
      obtain ⟨⟨rest, rfl⟩, hlength⟩ := takeBytes_eq_some_iff.mp hmiddle
      exact ⟨front, rest, by rw [List.append_assoc], rfl, by omega⟩
    · cases h
  · rintro ⟨front, rest, rfl, rfl, rfl⟩
    rw [if_pos (by omega)]
    have hdrop : dropBytes (front ++ middle ++ rest) (byteLen front) = some (middle ++ rest) :=
      dropBytes_eq_some_iff.mpr ⟨front, by rw [List.append_assoc], rfl⟩
    rw [hdrop, Option.bind_some]
    exact takeBytes_eq_some_iff.mpr ⟨List.prefix_append middle rest, by omega⟩

theorem isSome_sliceBytes_iff {text : List Char} :
    (sliceBytes text a b).isSome = true ↔
      a ≤ b ∧ IsCharBoundary text a ∧ IsCharBoundary text b := by
  rw [Option.isSome_iff_exists]
  constructor
  · rintro ⟨middle, h⟩
    obtain ⟨front, rest, rfl, rfl, rfl⟩ := sliceBytes_eq_some_iff.mp h
    refine ⟨by omega, ⟨front, ?_, rfl⟩, ⟨front ++ middle, List.prefix_append _ rest, ?_⟩⟩
    · rw [List.append_assoc]
      exact List.prefix_append front _
    · rw [byteLen_append]
  · rintro ⟨hle, ⟨front, hfront, rfl⟩, ⟨front', hfront', rfl⟩⟩
    -- the shorter front begins the longer one
    have hnested : front <+: front' := by
      rcases List.prefix_or_prefix_of_prefix hfront hfront' with h | h
      · exact h
      · rw [eq_of_prefix_of_byteLen_le h hle]
    obtain ⟨middle, rfl⟩ := hnested
    obtain ⟨rest, rfl⟩ := hfront'
    exact ⟨middle, sliceBytes_eq_some_iff.mpr ⟨front, rest, rfl, rfl, byteLen_append _ _ |>.symm⟩⟩

variable {pattern : List Char} {n : Nat}

/-- The first match, by bytes. -/
theorem findBytes_eq_some {text : List Char} (h : findBytes pattern text = some n) :
    ∃ front rest, text = front ++ (pattern ++ rest) ∧ byteLen front = n ∧
      ∀ i, i < front.length → ¬pattern <+: text.drop i := by
  induction text generalizing n with
  | nil =>
    rw [findBytes] at h
    split at h
    · next hempty =>
      rw [List.isEmpty_iff.mp hempty, ← Option.some.inj h]
      exact ⟨[], [], rfl, rfl, fun i hi => absurd hi (Nat.not_lt_zero i)⟩
    · cases h
  | cons c text ih =>
    rw [findBytes] at h
    split at h
    · next hprefix =>
      obtain ⟨rest, hrest⟩ := List.isPrefixOf_iff_prefix.mp hprefix
      rw [← Option.some.inj h]
      exact ⟨[], rest, hrest.symm, rfl, fun i hi => absurd hi (Nat.not_lt_zero i)⟩
    · next hprefix =>
      obtain ⟨k, hk, rfl⟩ := Option.map_eq_some_iff.mp h
      obtain ⟨front, rest, rfl, rfl, hnone⟩ := ih hk
      refine ⟨c :: front, rest, rfl, byteLen_cons c front, fun i hi => ?_⟩
      cases i with
      | zero => exact fun hat => hprefix (List.isPrefixOf_iff_prefix.mpr hat)
      | succ i => exact hnone i (Nat.lt_of_succ_lt_succ hi)

theorem findBytes_eq_none {text : List Char} (h : findBytes pattern text = none) (i : Nat)
    (hi : i < text.length) : ¬pattern <+: text.drop i := by
  induction text generalizing i with
  | nil => exact absurd hi (Nat.not_lt_zero i)
  | cons c text ih =>
    rw [findBytes] at h
    split at h
    · cases h
    · next hprefix =>
      cases i with
      | zero => exact fun hat => hprefix (List.isPrefixOf_iff_prefix.mpr hat)
      | succ i => exact ih (Option.map_eq_none_iff.mp h) i (Nat.lt_of_succ_lt_succ hi)

/-- A loop that searches the rest of a text for the next match finds them one by one. -/
theorem occurrencesFrom_of_findBytes {text : List Char} (hpattern : pattern ≠ [])
    (h : findBytes pattern text = some n) (pos : Nat) :
    ∃ front rest, text = front ++ (pattern ++ rest) ∧ byteLen front = n ∧
      occurrencesFrom pattern 0 pos text =
        (pos + front.length) ::
          occurrencesFrom pattern 0 (pos + front.length + pattern.length) rest := by
  obtain ⟨front, rest, rfl, hn, hnone⟩ := findBytes_eq_some h
  refine ⟨front, rest, rfl, hn, ?_⟩
  rw [occurrencesFrom_front hnone, occurrencesFrom_match hpattern]

theorem occurrencesFrom_of_findBytes_none {text : List Char} (h : findBytes pattern text = none)
    (pos : Nat) : occurrencesFrom pattern 0 pos text = [] :=
  occurrencesFrom_of_none (findBytes_eq_none h) pos

end Lib
