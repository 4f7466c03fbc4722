/-!
# Counters that expire

A key of a store such as Redis that holds a number and may carry a time to
live. Every command is atomic; what two commands leave between them is where
the trouble with such counters lies.

`generation` counts how often the key has gone, by a `del` or because its time
was over. It is not part of the store: it tells the lives of one key apart.

A command may also fail. The client then does not know whether it was executed
(`Reply`).
-/

namespace Lib

/-- A key with a number; `ttl` is the time it has left in milliseconds. -/
structure Counter where
  value : Option Int := none
  ttl : Option Nat := none
  generation : Nat := 0
deriving DecidableEq, Repr

/-- What becomes of a command: it is executed and answered, it is executed and
the answer is lost, or it does not reach the store. -/
inductive Reply where
  | answered
  | lost
  | refused
deriving DecidableEq, Repr

/-- The command reached the store. -/
def Reply.executed : Reply → Bool
  | .answered | .lost => true
  | .refused => false

namespace Counter

/-- The number a client sees; a missing key counts as zero. -/
def count (c : Counter) : Int := c.value.getD 0

/-- `INCRBY key d`: a missing key is created without a time to live. -/
def add (c : Counter) (d : Int) : Counter := { c with value := some (c.count + d) }

/-- `PEXPIRE key ms`: no effect on a missing key. -/
def expire (c : Counter) (ms : Nat) : Counter :=
  if c.value.isSome then { c with ttl := some ms } else c

/-- The key is gone. -/
def drop (c : Counter) : Counter :=
  { value := none, ttl := none, generation := c.generation + 1 }

/-- `TTL key`, in whole seconds, rounded to the nearest: -2 without the key, -1
without a time to live. -/
def ttlSeconds (c : Counter) : Int :=
  match c.value, c.ttl with
  | none, _ => -2
  | some _, none => -1
  | some _, some ms => (ms + 500) / 1000

/-- If the key is there, it carries a time to live. -/
def Expires (c : Counter) : Prop := c.value.isSome = true → c.ttl.isSome = true

instance (c : Counter) : Decidable c.Expires :=
  inferInstanceAs (Decidable (c.value.isSome = true → c.ttl.isSome = true))

/-- `ms` milliseconds pass. -/
def elapse (ms : Nat) (c : Counter) : Counter :=
  match c.ttl with
  | none => c
  | some left => if left ≤ ms then c.drop else { c with ttl := some (left - ms) }

@[simp] theorem count_add (c : Counter) (d : Int) : (c.add d).count = c.count + d := rfl

@[simp] theorem value_add (c : Counter) (d : Int) : (c.add d).value = some (c.count + d) := rfl

@[simp] theorem ttl_add (c : Counter) (d : Int) : (c.add d).ttl = c.ttl := rfl

@[simp] theorem generation_add (c : Counter) (d : Int) :
    (c.add d).generation = c.generation := rfl

@[simp] theorem value_expire (c : Counter) (ms : Nat) : (c.expire ms).value = c.value := by
  unfold expire
  split <;> rfl

@[simp] theorem count_expire (c : Counter) (ms : Nat) : (c.expire ms).count = c.count := by
  rw [count, value_expire, count]

@[simp] theorem generation_expire (c : Counter) (ms : Nat) :
    (c.expire ms).generation = c.generation := by
  unfold expire
  split <;> rfl

theorem expires_expire (c : Counter) (ms : Nat) : (c.expire ms).Expires := by
  intro h
  rw [value_expire] at h
  simp [expire, h]

theorem expires_drop (c : Counter) : c.drop.Expires := nofun

/-- Time leaves the key as it is but for its time to live, or takes it away. -/
theorem elapse_cases (ms : Nat) (c : Counter) :
    ((elapse ms c).value = c.value ∧ (elapse ms c).generation = c.generation ∧
        (elapse ms c).ttl.isSome = c.ttl.isSome) ∨ elapse ms c = c.drop := by
  unfold elapse
  cases httl : c.ttl with
  | none => exact Or.inl ⟨rfl, rfl, by rw [httl]⟩
  | some left =>
    dsimp only
    split
    · exact Or.inr rfl
    · exact Or.inl ⟨rfl, rfl, rfl⟩

end Counter

end Lib
