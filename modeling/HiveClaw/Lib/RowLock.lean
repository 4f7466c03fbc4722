import Mathlib.Data.List.Basic

/-!
# Transactions with row locks

A store of committed data on which sessions keep transactions open: a session has
row locks, shared or exclusive, and writes that nobody else sees until it commits.
A lock is granted when no other session has one that it conflicts with, and is
held to the end of the transaction.

`locksOf` and `writesOf` say what one session has; every operation of a session
changes its own share only. `Compatible` is what granting keeps: a row locked
exclusively by one session is locked by no other.
-/

namespace Lib

/-- The two kinds of row locks. -/
inductive LockMode where
  | shared
  | exclusive
deriving DecidableEq, Repr

/-- Committed data `δ` under transactions that lock rows `κ` and write `ω`. -/
structure Locking (κ ω δ : Type) where
  data : δ
  locks : List (Nat × κ × LockMode) := []
  pending : List (Nat × ω) := []

namespace Locking

variable {κ ω δ : Type}

/-- The locks of session `n`. -/
def locksOf (db : Locking κ ω δ) (n : Nat) : List (κ × LockMode) :=
  (db.locks.filter fun l => l.1 = n).map Prod.snd

/-- The writes of session `n`, in their order. -/
def writesOf (db : Locking κ ω δ) (n : Nat) : List ω :=
  (db.pending.filter fun w => w.1 = n).map Prod.snd

/-- A lock of session `n` on row `k` does not have to wait. -/
def grants [DecidableEq κ] (db : Locking κ ω δ) (n : Nat) (k : κ) (mode : LockMode) : Bool :=
  db.locks.all fun l => l.1 = n || l.2.1 ≠ k || (mode = .shared && l.2.2 = .shared)

/-- Session `n` locks row `k`. -/
def lock (db : Locking κ ω δ) (n : Nat) (k : κ) (mode : LockMode) : Locking κ ω δ :=
  { db with locks := db.locks ++ [(n, k, mode)] }

/-- Session `n` writes. -/
def write (db : Locking κ ω δ) (n : Nat) (w : ω) : Locking κ ω δ :=
  { db with pending := db.pending ++ [(n, w)] }

/-- `ROLLBACK`: the locks and the writes of session `n` are gone. -/
def release (db : Locking κ ω δ) (n : Nat) : Locking κ ω δ :=
  { db with
    locks := db.locks.filter fun l => l.1 ≠ n
    pending := db.pending.filter fun w => w.1 ≠ n }

/-- `COMMIT`: the writes of session `n` are applied, its locks are gone. -/
def commit (apply : δ → ω → δ) (db : Locking κ ω δ) (n : Nat) : Locking κ ω δ :=
  { db.release n with data := (db.writesOf n).foldl apply db.data }

/-- A row with an exclusive lock has no lock of another session. -/
def Compatible (db : Locking κ ω δ) : Prop :=
  ∀ n m k, n ≠ m → (k, LockMode.exclusive) ∈ db.locksOf n → ∀ mode, (k, mode) ∉ db.locksOf m

variable {db : Locking κ ω δ} {n m : Nat} {k : κ} {mode : LockMode} {w : ω}

theorem mem_locksOf : (k, mode) ∈ db.locksOf n ↔ (n, k, mode) ∈ db.locks := by
  unfold locksOf
  constructor
  · intro h
    obtain ⟨⟨n', k', mode'⟩, hmem, heq⟩ := List.mem_map.mp h
    obtain ⟨hlock, hn⟩ := List.mem_filter.mp hmem
    obtain rfl := of_decide_eq_true hn
    cases heq
    exact hlock
  · intro h
    exact List.mem_map.mpr ⟨_, List.mem_filter.mpr ⟨h, decide_eq_true rfl⟩, rfl⟩

theorem mem_writesOf : w ∈ db.writesOf n ↔ (n, w) ∈ db.pending := by
  unfold writesOf
  constructor
  · intro h
    obtain ⟨⟨n', w'⟩, hmem, heq⟩ := List.mem_map.mp h
    obtain ⟨hwrite, hn⟩ := List.mem_filter.mp hmem
    obtain rfl := of_decide_eq_true hn
    cases heq
    exact hwrite
  · intro h
    exact List.mem_map.mpr ⟨_, List.mem_filter.mpr ⟨h, decide_eq_true rfl⟩, rfl⟩

/-! ## What an operation does to the sessions -/

@[simp] theorem locksOf_lock_self : (db.lock n k mode).locksOf n = db.locksOf n ++ [(k, mode)] := by
  simp [locksOf, lock, List.filter_append]

@[simp] theorem locksOf_lock_ne (h : m ≠ n) : (db.lock n k mode).locksOf m = db.locksOf m := by
  simp [locksOf, lock, List.filter_append, Ne.symm h]

@[simp] theorem writesOf_lock : (db.lock n k mode).writesOf m = db.writesOf m := rfl

@[simp] theorem locksOf_write : (db.write n w).locksOf m = db.locksOf m := rfl

@[simp] theorem writesOf_write_self : (db.write n w).writesOf n = db.writesOf n ++ [w] := by
  simp [writesOf, write, List.filter_append]

@[simp] theorem writesOf_write_ne (h : m ≠ n) : (db.write n w).writesOf m = db.writesOf m := by
  simp [writesOf, write, List.filter_append, Ne.symm h]

@[simp] theorem locksOf_release_self : (db.release n).locksOf n = [] := by
  simp [locksOf, release, List.filter_filter]

@[simp] theorem locksOf_release_ne (h : m ≠ n) : (db.release n).locksOf m = db.locksOf m := by
  simp only [locksOf, release, List.filter_filter]
  congr 1
  refine List.filter_congr fun l _ => ?_
  by_cases hl : l.1 = m
  · simp [hl, h]
  · simp [hl]

@[simp] theorem writesOf_release_self : (db.release n).writesOf n = [] := by
  simp [writesOf, release, List.filter_filter]

@[simp] theorem writesOf_release_ne (h : m ≠ n) : (db.release n).writesOf m = db.writesOf m := by
  simp only [writesOf, release, List.filter_filter]
  congr 1
  refine List.filter_congr fun l _ => ?_
  by_cases hl : l.1 = m
  · simp [hl, h]
  · simp [hl]

variable {apply : δ → ω → δ}

@[simp] theorem locksOf_commit : (db.commit apply n).locksOf m = (db.release n).locksOf m := rfl

@[simp] theorem writesOf_commit : (db.commit apply n).writesOf m = (db.release n).writesOf m := rfl

/-! ## Locks stay compatible -/

/-- A lock is granted if it is compatible with those of all others. -/
theorem grants_iff [DecidableEq κ] : db.grants n k mode = true ↔
    ∀ m, m ≠ n → ∀ mode', (k, mode') ∈ db.locksOf m → mode = .shared ∧ mode' = .shared := by
  simp only [grants, List.all_eq_true, Bool.or_eq_true, Bool.and_eq_true, decide_eq_true_eq]
  constructor
  · intro h m hne mode' hmem
    rcases h _ (mem_locksOf.mp hmem) with (hn | hk) | hshared
    · exact absurd hn hne
    · exact absurd rfl hk
    · exact hshared
  · rintro h ⟨m, k', mode'⟩ hmem
    by_cases hm : m = n
    · exact Or.inl (Or.inl hm)
    · by_cases hk : k' = k
      · subst hk
        exact Or.inr (h m hm mode' (mem_locksOf.mpr hmem))
      · exact Or.inl (Or.inr hk)

/-- Granting keeps the locks compatible. -/
theorem Compatible.lock [DecidableEq κ] (hdb : db.Compatible) (h : db.grants n k mode = true) :
    (db.lock n k mode).Compatible := by
  have hgrants := grants_iff.mp h
  intro m₁ m₂ k' hne hexclusive mode' hmem
  by_cases h₁ : m₁ = n
  · subst h₁
    rw [locksOf_lock_ne (Ne.symm hne)] at hmem
    rw [locksOf_lock_self] at hexclusive
    rcases List.mem_append.mp hexclusive with hold | hnew
    · exact hdb m₁ m₂ k' hne hold mode' hmem
    · cases List.mem_singleton.mp hnew
      cases (hgrants m₂ (Ne.symm hne) mode' hmem).1
  · rw [locksOf_lock_ne h₁] at hexclusive
    by_cases h₂ : m₂ = n
    · subst h₂
      rw [locksOf_lock_self] at hmem
      rcases List.mem_append.mp hmem with hold | hnew
      · exact hdb m₁ m₂ k' hne hexclusive mode' hold
      · cases List.mem_singleton.mp hnew
        cases (hgrants m₁ hne _ hexclusive).2
    · rw [locksOf_lock_ne h₂] at hmem
      exact hdb m₁ m₂ k' hne hexclusive mode' hmem

/-- Fewer locks are compatible too. -/
theorem Compatible.mono {db' : Locking κ ω δ} (hdb : db.Compatible)
    (h : ∀ m, db'.locksOf m ⊆ db.locksOf m) : db'.Compatible := by
  intro m₁ m₂ k hne hexclusive mode hmem
  exact hdb m₁ m₂ k hne (h m₁ hexclusive) mode (h m₂ hmem)

theorem locksOf_release_subset : (db.release n).locksOf m ⊆ db.locksOf m := by
  by_cases h : m = n
  · subst h
    simp
  · rw [locksOf_release_ne h]
    exact List.Subset.refl _

end Locking

end Lib
