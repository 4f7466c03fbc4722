import HiveClaw.Lib.Scanner
import Mathlib.Algebra.GroupWithZero.Nat
import Mathlib.Data.List.AList
import Mathlib.Data.List.Infix
import Mathlib.Data.List.Sort

/-!
# The Rust standard library

Hash maps, and the few functions on `str` whose Unicode behaviour differs from
Lean's own.
-/

namespace HiveClaw

/-- `std::collections::HashMap`. The order in which a hash map is iterated is
arbitrary: see `hashOrder`. -/
abbrev HashMap (κ v : Type) := AList fun _ : κ => v

variable {v κ : Type}

theorem HashMap.lookup_insert_ite [DecidableEq κ] (m : HashMap κ v) (k k' : κ) (x : v) :
    (m.insert k x).lookup k' = if k' = k then some x else m.lookup k' := by
  split
  · rename_i h
    rw [h, AList.lookup_insert]
  · rename_i h
    exact AList.lookup_insert_ne h

-- `map.values().map(f).sum()`
def HashMap.total {κ v : Type} (f : v → Nat) (m : HashMap κ v) : Nat :=
  (m.entries.map fun e => f e.2).sum

theorem HashMap.total_eq [DecidableEq κ] (f : v → Nat) (m : HashMap κ v) :
    HashMap.total f m = (m.keys.map fun k => ((m.lookup k).map f).getD 0).sum := by
  unfold HashMap.total AList.keys List.keys
  rw [List.map_map]
  refine congrArg List.sum (List.map_congr_left fun e he => ?_)
  have hlookup : m.lookup e.1 = some e.2 := AList.mem_lookup_iff.mpr he
  simp [hlookup]

/-- Inserting replaces what the old value of the key counted for. -/
theorem HashMap.total_insert [DecidableEq κ] (f : v → Nat) (m : HashMap κ v) (k : κ) (x : v) :
    HashMap.total f (m.insert k x) + ((m.lookup k).map f).getD 0 = HashMap.total f m + f x := by
  unfold HashMap.total
  rw [AList.entries_insert]
  by_cases hk : k ∈ m
  · obtain ⟨y, l₁, l₂, -, hentries, herase⟩ := List.exists_of_kerase (AList.mem_keys.mp hk)
    have hlookup : m.lookup k = some y := by
      refine Option.mem_def.mp (AList.mem_lookup_iff.mpr ?_)
      rw [hentries]
      exact List.mem_append_right _ List.mem_cons_self
    rw [hlookup, herase, hentries]
    simp only [List.map_cons, List.map_append, List.sum_cons, List.sum_append, Option.map_some,
      Option.getD_some]
    omega
  · rw [AList.lookup_eq_none.mpr hk, List.kerase_of_notMem_keys (mt AList.mem_keys.mpr hk)]
    simp only [List.map_cons, List.sum_cons, Option.map_none, Option.getD_none]
    omega

/-- `iter.collect()`: of two entries with the same key the later one stays. -/
def HashMap.collect {κ v : Type} [DecidableEq κ] (entries : List (κ × v)) : HashMap κ v :=
  entries.foldl (fun m e => m.insert e.1 e.2) ∅

theorem HashMap.mem_of_lookup_collect [DecidableEq κ] {entries : List (κ × v)} {k : κ} {x : v}
    (h : (HashMap.collect entries).lookup k = some x) : (k, x) ∈ entries := by
  have hfold : ∀ (entries : List (κ × v)) (m : HashMap κ v),
      (entries.foldl (fun m e => m.insert e.1 e.2) m).lookup k = some x →
        (k, x) ∈ entries ∨ m.lookup k = some x := by
    intro entries
    induction entries with
    | nil => exact fun m hm => Or.inr hm
    | cons e rest ih =>
      intro m hm
      rcases ih _ hm with hin | hold
      · exact Or.inl (List.mem_cons_of_mem _ hin)
      · rw [HashMap.lookup_insert_ite] at hold
        split at hold
        · next hk =>
          obtain rfl := Option.some.inj hold
          exact Or.inl (hk ▸ List.mem_cons_self)
        · exact Or.inr hold
  rcases hfold entries ∅ h with hin | hempty
  · exact hin
  · simp at hempty

/-- With distinct keys `collect` finds every entry again. -/
theorem HashMap.lookup_collect [DecidableEq κ] {entries : List (κ × v)}
    (hnodup : (entries.map (·.1)).Nodup) (k : κ) (x : v) :
    (HashMap.collect entries).lookup k = some x ↔ (k, x) ∈ entries := by
  have hfold : ∀ (entries : List (κ × v)) (m : HashMap κ v), (entries.map (·.1)).Nodup →
      ((entries.foldl (fun m e => m.insert e.1 e.2) m).lookup k = some x ↔
        (k, x) ∈ entries ∨ (k ∉ entries.map (·.1) ∧ m.lookup k = some x)) := by
    intro entries
    induction entries with
    | nil => simp
    | cons e rest ih =>
      intro m hnodup
      obtain ⟨hnew, hrest⟩ := List.nodup_cons.mp hnodup
      rw [List.foldl_cons, ih _ hrest, HashMap.lookup_insert_ite]
      obtain ⟨k', x'⟩ := e
      by_cases hk : k = k'
      · subst hk
        have hnot : (k, x) ∉ rest := fun hmem => hnew (List.mem_map_of_mem (f := (·.1)) hmem)
        simp [hnot, eq_comm]
        exact fun hx _ hmem => hnew (List.mem_map_of_mem (f := (·.1)) hmem)
      · simp [hk]
  simpa [HashMap.collect] using hfold entries ∅ hnodup

/-- `std::collections::BTreeMap` over `String` keys: its entries in the order
of the keys, which is that of their code points. -/
abbrev BTreeMap (v : Type) := List (String × v)

-- `BTreeMap::insert`
def BTreeMap.insert {v : Type} (key : String) (value : v) : BTreeMap v → BTreeMap v
  | [] => [(key, value)]
  | (k, w) :: rest =>
    if key = k then (key, value) :: rest
    else if key < k then (key, value) :: (k, w) :: rest
    else (k, w) :: BTreeMap.insert key value rest

/-- The entries of a hash map or set in the order in which it happens to be
iterated. The order is arbitrary; `rank` gives each key its place. -/
def hashOrder {κ : Type} (rank : κ → Nat) (keys : List κ) : List κ :=
  keys.insertionSort fun a b => rank a ≤ rank b

/-- Whatever the hash order, it is a permutation of the keys. -/
theorem hashOrder_perm (rank : κ → Nat) (keys : List κ) : (hashOrder rank keys).Perm keys :=
  List.perm_insertionSort _ keys

variable {α : Type}

/-- A `for` loop with `?` succeeds exactly when every body does. -/
theorem forM_eq_ok {ε : Type} {f : α → Except ε Unit} {xs : List α} :
    xs.forM f = .ok () ↔ ∀ x ∈ xs, f x = .ok () := by
  induction xs with
  | nil => simp [List.forM, pure, Except.pure]
  | cons x rest ih =>
    rw [List.forall_mem_cons, ← ih]
    show (f x >>= fun _ => rest.forM f) = _ ↔ _
    cases f x with
    | error e => simp [bind, Except.bind]
    | ok u => simp [bind, Except.bind]

/-! ## Slices -/

-- `&l[a..b]`
def slice {α : Type} (l : List α) (a b : Nat) : List α := (l.take b).drop a

theorem getElem?_slice (l : List α) (a b i : Nat) :
    (slice l a b)[i]? = if a + i < b then l[a + i]? else none := by
  rw [slice, List.getElem?_drop, List.getElem?_take]

theorem length_slice (l : List α) {a b : Nat} (hb : b ≤ l.length) :
    (slice l a b).length = b - a := by
  rw [slice, List.length_drop, List.length_take, min_eq_left hb]

theorem slice_length (l : List α) (a : Nat) : slice l a l.length = l.drop a := by
  rw [slice, List.take_length]

theorem take_slice (l : List α) (a b c : Nat) :
    (slice l a b).take c = slice l a (min b (a + c)) := by
  rw [slice, slice, List.take_drop, List.take_take, min_comm]

theorem drop_slice (l : List α) (a b c : Nat) : (slice l a b).drop c = slice l (a + c) b := by
  rw [slice, slice, List.drop_drop]

variable {β : Type}

theorem map_slice (f : α → β) (l : List α) (a b : Nat) :
    (slice l a b).map f = slice (l.map f) a b := by
  rw [slice, slice, List.map_drop, List.map_take]

-- `iter().rposition(p)`
def rposition {α : Type} (p : α → Bool) (l : List α) : Option Nat :=
  (l.reverse.findIdx? p).map fun i => l.length - 1 - i

/-- `rposition` is the last place where the predicate holds. -/
theorem rposition_eq_some {p : α → Bool} {l : List α} {i : Nat} (h : rposition p l = some i) :
    i < l.length ∧ (∀ x ∈ l[i]?, p x = true) ∧ ∀ j x, i < j → l[j]? = some x → p x = false := by
  obtain ⟨k, hk, rfl⟩ := Option.map_eq_some_iff.mp h
  obtain ⟨hlt, hp, hnot⟩ := List.findIdx?_eq_some_iff_getElem.mp hk
  rw [List.length_reverse] at hlt
  rw [List.getElem_reverse] at hp
  refine ⟨by omega, fun x hx => ?_, fun j x hj hx => ?_⟩
  · obtain ⟨hlen, hget⟩ := List.getElem?_eq_some_iff.mp hx
    rw [← hget]
    exact hp
  · obtain ⟨hlen, hget⟩ := List.getElem?_eq_some_iff.mp hx
    have hbefore := hnot (l.length - 1 - j) (by omega)
    rw [List.getElem_reverse, Bool.not_eq_true] at hbefore
    have hidx : l.length - 1 - (l.length - 1 - j) = j := by omega
    simp only [hidx] at hbefore
    rw [← hget]
    exact hbefore

theorem rposition_map (f : α → β) (p : β → Bool) (l : List α) :
    rposition p (l.map f) = rposition (p ∘ f) l := by
  rw [rposition, rposition, ← List.map_reverse, List.findIdx?_map, List.length_map]

theorem rposition_eq_none {p : α → Bool} {l : List α} (h : rposition p l = none) :
    ∀ x ∈ l, p x = false := by
  intro x hx
  have hnone := List.findIdx?_eq_none_iff.mp (Option.map_eq_none_iff.mp h)
  exact hnone x (List.mem_reverse.mpr hx)

namespace RustStr

open Lib.Scanner (Scans strip)

/-- `char::is_whitespace`: the Unicode property `White_Space`. -/
def isWhitespace (c : Char) : Bool :=
  let n := c.toNat
  (0x09 ≤ n && n ≤ 0x0D) || n == 0x20 || n == 0x85 || n == 0xA0 || n == 0x1680 ||
    (0x2000 ≤ n && n ≤ 0x200A) || n == 0x2028 || n == 0x2029 || n == 0x202F ||
    n == 0x205F || n == 0x3000

-- `str::trim`
def trim (s : String) : String :=
  String.ofList
    (((s.toList.dropWhile isWhitespace).reverse.dropWhile isWhitespace).reverse)

-- `str::to_ascii_lowercase`
def toAsciiLowercase (s : String) : String := String.ofList (s.toList.map Char.toLower)

/-- `str::contains` for a string pattern. -/
def contains (text pattern : String) : Bool :=
  decide (pattern.toList <:+: text.toList)

-- `str::is_empty`
def isEmpty (s : String) : Bool := s = ""

-- the first argument is the number of characters still to look at
def replaceChars (pattern replacement : List Char) : Nat → List Char → List Char
  | 0, text => text
  | _, [] => []
  | n + 1, c :: rest =>
    if pattern.isPrefixOf (c :: rest) then
      replacement ++ replaceChars pattern replacement n ((c :: rest).drop pattern.length)
    else c :: replaceChars pattern replacement n rest

/-- `str::replace` for a pattern that is not empty. -/
def replace (text pattern replacement : String) : String :=
  String.ofList (replaceChars pattern.toList replacement.toList text.length text.toList)

-- more fuel than characters changes nothing
theorem replaceChars_fuel {pattern replacement : List Char} (hpattern : pattern ≠ []) {n : Nat}
    {text : List Char} (hn : text.length ≤ n) :
    replaceChars pattern replacement n text =
      replaceChars pattern replacement text.length text := by
  have hlen : 0 < pattern.length := List.length_pos_iff.mpr hpattern
  induction n using Nat.strong_induction_on generalizing text with
  | _ n ih =>
    cases text with
    | nil => cases n <;> rfl
    | cons c rest =>
      obtain ⟨n, rfl⟩ : ∃ k, n = k + 1 := ⟨n - 1, by simp at hn; omega⟩
      rw [List.length_cons] at hn ⊢
      have hdrop : ((c :: rest).drop pattern.length).length ≤ rest.length := by
        rw [List.length_drop, List.length_cons]
        omega
      rw [replaceChars, replaceChars, ih n (by omega) (by omega : rest.length ≤ n),
        ih n (by omega) (by omega)]
      split
      · rw [ih rest.length (by omega) hdrop]
      · rfl

/-- `str::replace` reads from left to right and never looks at what it has written. -/
theorem scans_replaceChars {pattern : List Char} (hpattern : pattern ≠ [])
    (replacement : List Char) :
    Scans (strip pattern) replacement
      (fun text => replaceChars pattern replacement text.length text) where
  nil := rfl
  skip c rest h := by
    have hprefix : ¬pattern.isPrefixOf (c :: rest) = true := by
      rwa [List.isPrefixOf_iff_prefix, ← Lib.Scanner.strip_eq_none_iff]
    simp only [List.length_cons, replaceChars]
    rw [if_neg hprefix]
  hit c rest t h := by
    unfold strip at h
    split at h
    · next hprefix =>
      cases h
      simp only [List.length_cons, replaceChars]
      rw [if_pos hprefix, replaceChars_fuel hpattern]
      have hlen : 0 < pattern.length := List.length_pos_iff.mpr hpattern
      rw [List.length_drop, List.length_cons]
      omega
    · cases h

example : replace "a{x}b{x}" "{x}" "{}" = "a{}b{}" := by decide

example : trim " \u3000工作\tflow\n" = "工作\tflow" := by decide

end RustStr

end HiveClaw
