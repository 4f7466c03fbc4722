import Mathlib.Data.List.Basic

/-!
# A channel that a task drains

An unbounded channel and the task that takes from it and passes on what it
takes. The task runs when the scheduler polls it, until it has to wait; a task
that is aborted ends at once if it waits, and else when it has to wait.

* `Channel.Conserves` — what was sent is what was passed on and what is left, in order.
-/

namespace Lib.Forwarder

variable {α : Type}

inductive Task where
  | waiting
  | polled
  | gone
deriving DecidableEq

/-- `sent` is all that was sent, `queue` what the task has not taken. -/
structure Channel (α : Type) where
  sent : List α := []
  queue : List α := []
  passed : List α := []
  task : Task := .waiting
  aborted : Bool := false

/-- What the scheduler and the task do: a poll begins, the task takes what comes next and passes it
on, and it has to wait. -/
inductive Event where
  | poll
  | take
  | yield

namespace Channel

def send (c : Channel α) (a : α) : Channel α :=
  { c with sent := c.sent ++ [a], queue := c.queue ++ [a] }

def abort (c : Channel α) : Channel α :=
  { c with aborted := true, task := if c.task = .waiting then .gone else c.task }

def step (c : Channel α) : Event → Channel α
  | .poll => if c.task = .waiting then { c with task := .polled } else c
  | .take =>
    match c.task, c.queue with
    | .polled, a :: rest => { c with queue := rest, passed := c.passed ++ [a] }
    | _, _ => c
  | .yield =>
    if c.task = .polled then { c with task := if c.aborted then .gone else .waiting } else c

/-- Everything that was sent was passed on, once and in order, or is left. -/
def Conserves (c : Channel α) : Prop := c.passed ++ c.queue = c.sent

variable {c : Channel α}

theorem Conserves.send (h : c.Conserves) (a : α) : (c.send a).Conserves := by
  show c.passed ++ (c.queue ++ [a]) = c.sent ++ [a]
  rw [← List.append_assoc, show c.passed ++ c.queue = c.sent from h]

theorem Conserves.abort (h : c.Conserves) : c.abort.Conserves := h

theorem Conserves.step (h : c.Conserves) (e : Event) : (c.step e).Conserves := by
  cases e with
  | poll =>
    unfold Channel.step
    dsimp only
    split
    · exact h
    · exact h
  | take =>
    unfold Channel.step
    dsimp only
    split
    · next a rest _ hqueue =>
      show c.passed ++ [a] ++ rest = c.sent
      rw [List.append_assoc, List.singleton_append, ← hqueue]
      exact h
    · exact h
  | yield =>
    unfold Channel.step
    dsimp only
    split
    · exact h
    · exact h

/-- The task sends nothing. -/
theorem sent_step (c : Channel α) (e : Event) : (c.step e).sent = c.sent := by
  cases e with
  | poll =>
    unfold step
    dsimp only
    split <;> rfl
  | take =>
    unfold step
    dsimp only
    split <;> rfl
  | yield =>
    unfold step
    dsimp only
    split <;> rfl

end Channel

end Lib.Forwarder
