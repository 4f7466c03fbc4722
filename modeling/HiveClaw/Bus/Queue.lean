import HiveClaw.Lib.Runs
import Mathlib.Algebra.GroupWithZero.Nat
import Mathlib.Data.List.Basic
import Mathlib.Tactic.Common

/-!
# The message bus

`Lane` and `MessageBus` of `crates/bus/src/queue.rs`: two queues, each with a
counter of the messages in it. A call is cut at its atomic statements, and any
number of calls are in progress at a time; `World` is a lane with them and with
what has happened on it.

* `SizeRight` — the counter has not gone below zero, and with no call in progress
  it is the number of messages sent and not consumed.
* `sizes_right` — both counters are right in every run in which no message is sent
  past `publish` and no message is counted off before any message is counted.
* `sizes_wrong` — otherwise they need not be.
-/

namespace HiveClaw.Bus

variable {α β : Type}

-- ---
-- A lane
-- ---

/-- `Lane`: the messages in the channel, whether the mutex of the receiver is held,
and the counter. -/
structure Lane (α : Type) where
  queue : List α := []
  locked : Bool := false
  pending : Nat := 0

/-- How many messages an unbounded channel can hold; one more aborts the process. -/
def maxMessages : Nat := 2 ^ 63 - 1

/-- A call in progress, by the statement it executes next. -/
inductive Call (α : Type) where
  /-- `publish`: `self.tx.send(item)`. -/
  | send (item : α)
  /-- `publish`: `self.pending.fetch_add(1)`. -/
  | count
  /-- `consume`: `self.rx.lock().await`. -/
  | lock
  /-- `consume`: `rx.recv().await`. -/
  | recv
  /-- `consume`: `self.pending.fetch_sub(1)`. -/
  | uncount (item : α)
deriving DecidableEq

/-- One statement of a call: the lane after it, and what is left of the call. None while
the call has to wait. The lane keeps a sender, so `recv` never finds the channel closed. -/
def Lane.execute (lane : Lane α) : Call α → Option (Lane α × Option (Call α))
  | .send item =>
    if lane.queue.length < maxMessages then
      some ({ lane with queue := lane.queue ++ [item] }, some .count)
    else none
  | .count => some ({ lane with pending := (lane.pending + 1) % 2 ^ 64 }, none)
  | .lock => if lane.locked then none else some ({ lane with locked := true }, some .recv)
  | .recv =>
    match lane.queue with
    | [] => none
    | item :: rest => some ({ lane with queue := rest }, some (.uncount item))
  | .uncount _ =>
    -- the guard of the mutex goes with the call
    some ({ lane with locked := false, pending := (lane.pending + (2 ^ 64 - 1)) % 2 ^ 64 }, none)

-- `size`
def Lane.size (lane : Lane α) : Nat := lane.pending

-- ---
-- Calls on a lane
-- ---

/-- A lane with the calls in progress, and the messages sent and consumed on it so far;
`wrapped` says whether the counter has gone below zero. -/
structure World (α : Type) where
  lane : Lane α := {}
  calls : List (Call α) := []
  sent : List α := []
  consumed : List α := []
  wrapped : Bool := false

inductive Act (α : Type) where
  /-- A call of `publish` begins. -/
  | publish (item : α)
  /-- A call of `consume` begins. -/
  | consume
  /-- The call at a position executes a statement. -/
  | advance (i : Nat)
  /-- The call at a position is dropped while it waits. -/
  | cancel (i : Nat)
  /-- A message is sent on a handle. -/
  | handle (item : α)

/-- The history after a statement that has been executed. -/
def World.record (w : World α) : Call α → World α
  | .send item => { w with sent := w.sent ++ [item] }
  | .uncount item =>
    { w with consumed := w.consumed ++ [item], wrapped := w.wrapped || w.lane.pending == 0 }
  | _ => w

/-- What is left of the calls when the one at a position has executed a statement. -/
def leave (calls : List (Call α)) (i : Nat) : Option (Call α) → List (Call α)
  | some call => calls.set i call
  | none => calls.eraseIdx i

def World.step (w : World α) : Act α → World α
  | .publish item => { w with calls := w.calls ++ [.send item] }
  | .consume => { w with calls := w.calls ++ [.lock] }
  | .advance i =>
    match w.calls[i]? with
    | none => w
    | some call =>
      match w.lane.execute call with
      | none => w
      | some (lane, rest) => { w.record call with lane, calls := leave w.calls i rest }
  | .cancel i =>
    match w.calls[i]? with
    | some .lock => { w with calls := w.calls.eraseIdx i }
    | some .recv => { w with lane.locked := false, calls := w.calls.eraseIdx i }
    | _ => w
  | .handle item =>
    if w.lane.queue.length < maxMessages then
      { w with lane.queue := w.lane.queue ++ [item], sent := w.sent ++ [item] }
    else w

structure World.SizeRight (w : World α) : Prop where
  not_wrapped : w.wrapped = false
  quiet : w.calls = [] → w.lane.size + w.consumed.length = w.sent.length

/-- `publish` has sent a message and not counted it. -/
def Call.isUncounted : Call α → Bool
  | .count => true
  | _ => false

/-- `consume` has a message and not counted it off. -/
def Call.isInHand : Call α → Bool
  | .uncount _ => true
  | _ => false

/-- `consume` holds the mutex. -/
def Call.holdsLock : Call α → Bool
  | .recv => true
  | .uncount _ => true
  | _ => false

/-- The messages that are sent and not counted. -/
def World.uncounted (w : World α) : Nat := w.calls.countP Call.isUncounted

/-- Nothing is sent on a handle, and a message is counted off only when it or one of those
in the channel has been counted. -/
def World.Safe (w : World α) : Act α → Prop
  | .handle _ => False
  | .advance i =>
    ∀ item, w.calls[i]? = some (.uncount item) → w.uncounted ≤ w.lane.queue.length
  | _ => True

-- ---
-- What the steps keep
-- ---

/-- The messages that calls have in hand. -/
def World.inHand (w : World α) : Nat := w.calls.countP Call.isInHand

/-- The counter and the messages it does not count yet are those in the channel and in
the hand of the one consumer that can hold the mutex. -/
structure World.Inv (w : World α) : Prop where
  not_wrapped : w.wrapped = false
  owner : w.calls.countP Call.holdsLock = w.lane.locked.toNat
  balance : w.lane.pending + w.uncounted = w.lane.queue.length + w.inHand
  history : w.sent.length = w.consumed.length + w.inHand + w.lane.queue.length
  room : w.lane.queue.length ≤ maxMessages

theorem inv_new : ({} : World α).Inv where
  not_wrapped := rfl
  owner := rfl
  balance := rfl
  history := rfl
  room := Nat.zero_le _

theorem exists_split {calls : List (Call α)} {i : Nat} {call : Call α}
    (h : calls[i]? = some call) :
    ∃ before after, calls = before ++ call :: after ∧ before.length = i := by
  obtain ⟨hi, rfl⟩ := List.getElem?_eq_some_iff.mp h
  refine ⟨calls.take i, calls.drop (i + 1), ?_, ?_⟩
  · rw [List.getElem_cons_drop, List.take_append_drop]
  · rw [List.length_take]
    omega

theorem leave_split (before after : List (Call α)) (call : Call α) (rest : Option (Call α)) :
    leave (before ++ call :: after) before.length rest = before ++ (rest.toList ++ after) := by
  cases rest with
  | none => simp [leave, List.eraseIdx_append_of_length_le]
  | some c => simp [leave]

section Steps

variable {w : World α} {before after : List (Call α)}

theorem World.Inv.inHand_le_one (hw : w.Inv) : w.inHand ≤ 1 := by
  have hle : w.inHand ≤ w.calls.countP Call.holdsLock := by
    refine List.countP_mono_left fun call _ hcall => ?_
    cases call with
    | uncount => rfl
    | _ => cases hcall
  have hlocked := Bool.toNat_le w.lane.locked
  rw [hw.owner] at hle
  omega

theorem inv_execute {call : Call α} {lane : Lane α} {rest : Option (Call α)} (hw : w.Inv)
    (hcalls : w.calls = before ++ call :: after)
    (hsafe : call.isInHand = true → w.uncounted ≤ w.lane.queue.length)
    (hexec : w.lane.execute call = some (lane, rest)) :
    ({ w.record call with lane, calls := before ++ (rest.toList ++ after) } : World α).Inv := by
  -- the bookkeeping, with the one call split off from the others
  have hone := hw.inHand_le_one
  obtain ⟨hwrapped, howner, hbalance, hhistory, hroom⟩ := id hw
  rw [World.uncounted, World.inHand, hcalls] at hbalance
  rw [World.inHand, hcalls] at hhistory hone
  rw [hcalls] at howner
  rw [World.uncounted, hcalls] at hsafe
  rw [maxMessages] at hroom
  simp only [List.countP_append, List.countP_cons] at howner hbalance hhistory hsafe hone
  -- each call moves at most one of the counters, so `omega` closes the sums
  cases call with
  | send item =>
    rw [Lane.execute, maxMessages] at hexec
    split at hexec
    case isFalse => cases hexec
    case isTrue hlt =>
      cases hexec
      simp only [Call.holdsLock, Call.isInHand, Call.isUncounted, Bool.false_eq_true, ↓reduceIte,
        Nat.add_zero] at howner hbalance hhistory
      refine ⟨hwrapped, ?_, ?_, ?_, ?_⟩ <;>
        simp only [World.record, World.uncounted, World.inHand, maxMessages, Option.toList_some,
          List.nil_append, List.cons_append, List.countP_append, List.countP_cons,
          List.length_append, List.length_singleton, Call.holdsLock, Call.isInHand,
          Call.isUncounted, Bool.false_eq_true, ↓reduceIte, Nat.add_zero] <;> omega
  | count =>
    cases hexec
    simp only [Call.holdsLock, Call.isInHand, Call.isUncounted, Bool.false_eq_true, ↓reduceIte,
      Nat.add_zero] at howner hbalance hhistory hone
    refine ⟨hwrapped, ?_, ?_, ?_, ?_⟩ <;>
      simp only [World.record, World.uncounted, World.inHand, maxMessages, Option.toList_none,
        List.nil_append, List.countP_append] <;> omega
  | lock =>
    rw [Lane.execute] at hexec
    split at hexec
    case isTrue => cases hexec
    case isFalse hfree =>
      cases hexec
      rw [Bool.not_eq_true] at hfree
      simp only [Call.holdsLock, Call.isInHand, Call.isUncounted, Bool.false_eq_true, ↓reduceIte,
        Nat.add_zero, hfree, Bool.toNat_false] at howner hbalance hhistory
      refine ⟨hwrapped, ?_, ?_, ?_, ?_⟩ <;>
        simp only [World.record, World.uncounted, World.inHand, maxMessages, Option.toList_some,
          List.nil_append, List.cons_append, List.countP_append, List.countP_cons, Call.holdsLock,
          Call.isInHand, Call.isUncounted, Bool.false_eq_true, ↓reduceIte, Nat.add_zero,
          Bool.toNat_true] <;> omega
  | recv =>
    rw [Lane.execute] at hexec
    cases hqueue : w.lane.queue with
    | nil =>
      rw [hqueue] at hexec
      cases hexec
    | cons item queue =>
      rw [hqueue] at hexec
      cases hexec
      rw [hqueue, List.length_cons] at hbalance hhistory hroom
      simp only [Call.holdsLock, Call.isInHand, Call.isUncounted, Bool.false_eq_true, ↓reduceIte,
        Nat.add_zero] at howner hbalance hhistory
      refine ⟨hwrapped, ?_, ?_, ?_, ?_⟩ <;>
        simp only [World.record, World.uncounted, World.inHand, maxMessages, Option.toList_some,
          List.nil_append, List.cons_append, List.countP_append, List.countP_cons, Call.holdsLock,
          Call.isInHand, Call.isUncounted, Bool.false_eq_true, ↓reduceIte, Nat.add_zero] <;> omega
  | uncount item =>
    cases hexec
    have hlocked := Bool.toNat_le w.lane.locked
    have hsafe := hsafe rfl
    simp only [Call.holdsLock, Call.isInHand, Call.isUncounted, Bool.false_eq_true, ↓reduceIte,
      Nat.add_zero] at howner hbalance hhistory hsafe hone
    have hpos : 0 < w.lane.pending := by omega
    have hne : (w.lane.pending == 0) = false := beq_false_of_ne (Nat.ne_of_gt hpos)
    refine ⟨by rw [World.record, hwrapped, hne]; rfl, ?_, ?_, ?_, ?_⟩ <;>
      simp only [World.record, World.uncounted, World.inHand, maxMessages, Option.toList_none,
        List.nil_append, List.countP_append, List.length_append, List.length_singleton,
        Bool.toNat_false] <;> omega

theorem inv_cancel {call : Call α} {locked : Bool} (hw : w.Inv)
    (hcalls : w.calls = before ++ call :: after)
    (hcall : call = .lock ∧ locked = w.lane.locked ∨ call = .recv ∧ locked = false) :
    ({ w with lane.locked := locked, calls := before ++ after } : World α).Inv := by
  obtain ⟨hwrapped, howner, hbalance, hhistory, hroom⟩ := hw
  rw [World.uncounted, World.inHand, hcalls] at hbalance
  rw [World.inHand, hcalls] at hhistory
  rw [hcalls] at howner
  simp only [List.countP_append, List.countP_cons] at howner hbalance hhistory
  have hlocked := Bool.toNat_le w.lane.locked
  obtain ⟨rfl, rfl⟩ | ⟨rfl, rfl⟩ := hcall <;>
  · simp only [Call.holdsLock, Call.isInHand, Call.isUncounted, Bool.false_eq_true, ↓reduceIte,
      Nat.add_zero] at howner hbalance hhistory
    refine ⟨hwrapped, ?_, ?_, ?_, hroom⟩ <;>
      simp only [World.uncounted, World.inHand, List.countP_append, Bool.toNat_false] <;> omega

theorem inv_step (hw : w.Inv) (a : Act α) (hsafe : w.Safe a) : (w.step a).Inv := by
  cases a with
  | publish item =>
    obtain ⟨hwrapped, howner, hbalance, hhistory, hroom⟩ := hw
    exact ⟨hwrapped, by simpa [World.step, Call.holdsLock] using howner,
      by simpa [World.step, World.uncounted, World.inHand, Call.isUncounted, Call.isInHand]
        using hbalance,
      by simpa [World.step, World.inHand, Call.isInHand] using hhistory, hroom⟩
  | consume =>
    obtain ⟨hwrapped, howner, hbalance, hhistory, hroom⟩ := hw
    exact ⟨hwrapped, by simpa [World.step, Call.holdsLock] using howner,
      by simpa [World.step, World.uncounted, World.inHand, Call.isUncounted, Call.isInHand]
        using hbalance,
      by simpa [World.step, World.inHand, Call.isInHand] using hhistory, hroom⟩
  | advance i =>
    rw [World.step]
    cases hi : w.calls[i]? with
    | none => exact hw
    | some call =>
      cases hexec : w.lane.execute call with
      | none => simpa only [hexec] using hw
      | some result =>
        obtain ⟨lane, rest⟩ := result
        obtain ⟨before, after, hcalls, rfl⟩ := exists_split hi
        have hinHand : call.isInHand = true → w.uncounted ≤ w.lane.queue.length := by
          intro hcall
          cases call with
          | uncount item => exact hsafe item hi
          | _ => cases hcall
        simp only [hexec]
        rw [hcalls, leave_split]
        exact inv_execute hw hcalls hinHand hexec
  | cancel i =>
    rw [World.step]
    split
    case h_1 hi =>
      obtain ⟨before, after, hcalls, rfl⟩ := exists_split hi
      rw [hcalls, List.eraseIdx_append_of_length_le (Nat.le_refl _), Nat.sub_self]
      exact inv_cancel hw hcalls (.inl ⟨rfl, rfl⟩)
    case h_2 hi =>
      obtain ⟨before, after, hcalls, rfl⟩ := exists_split hi
      rw [hcalls, List.eraseIdx_append_of_length_le (Nat.le_refl _), Nat.sub_self]
      exact inv_cancel hw hcalls (.inr ⟨rfl, rfl⟩)
    case h_3 => exact hw
  | handle item => exact absurd hsafe id

/-- A counter that counts all that is sent and not consumed is right when no call is in
progress. -/
theorem World.Inv.sizeRight (hw : w.Inv) : w.SizeRight := by
  refine ⟨hw.not_wrapped, fun hquiet => ?_⟩
  have hbalance := hw.balance
  have hhistory := hw.history
  rw [World.uncounted, World.inHand, hquiet, List.countP_nil, List.countP_nil] at hbalance
  rw [World.inHand, hquiet, List.countP_nil] at hhistory
  rw [Lane.size]
  omega

theorem safe_iff_not_wrapped (hw : w.Inv) (a : Act α) (ha : ∀ item, a ≠ .handle item) :
    w.Safe a ↔ (w.step a).wrapped = false := by
  constructor
  · intro hsafe
    exact (inv_step hw a hsafe).not_wrapped
  · intro hwrapped
    cases a with
    | advance i =>
      intro item hi
      have hpending : w.lane.pending ≠ 0 := by
        simpa [World.step, hi, Lane.execute, World.record, hw.not_wrapped] using hwrapped
      -- the call has its message in hand
      have hpos : 0 < w.inHand :=
        List.countP_pos_iff.mpr ⟨.uncount item, List.mem_of_getElem? hi, rfl⟩
      have hone := hw.inHand_le_one
      have hbalance := hw.balance
      omega
    | handle item => exact absurd rfl (ha item)
    | _ => trivial

end Steps

-- ---
-- The bus
-- ---

/-- `MessageBus`, for messages of two types, with the calls on it. -/
structure MessageBus (α β : Type) where
  inbound : World α := {}
  outbound : World β := {}

inductive BusAct (α β : Type) where
  | inbound (a : Act α)
  | outbound (a : Act β)

def MessageBus.step (b : MessageBus α β) : BusAct α β → MessageBus α β
  | .inbound a => { b with inbound := b.inbound.step a }
  | .outbound a => { b with outbound := b.outbound.step a }

-- `inbound_size`
def MessageBus.inboundSize (b : MessageBus α β) : Nat := b.inbound.lane.size

-- `outbound_size`
def MessageBus.outboundSize (b : MessageBus α β) : Nat := b.outbound.lane.size

/-- Both sizes are right: they have not gone below zero, and with no call in progress they
are the numbers of the messages sent and not consumed. -/
structure MessageBus.SizesRight (b : MessageBus α β) : Prop where
  not_wrapped : b.inbound.wrapped = false ∧ b.outbound.wrapped = false
  quiet : b.inbound.calls = [] → b.outbound.calls = [] →
    b.inboundSize + b.inbound.consumed.length = b.inbound.sent.length ∧
      b.outboundSize + b.outbound.consumed.length = b.outbound.sent.length

def MessageBus.Safe (b : MessageBus α β) : BusAct α β → Prop
  | .inbound a => b.inbound.Safe a
  | .outbound a => b.outbound.Safe a

/-- In every run whose steps are all safe, both sizes are right in every state reached. -/
theorem sizes_right {b : MessageBus α β}
    (h : Lib.Runs.Reach MessageBus.step MessageBus.Safe {} b) : b.SizesRight := by
  have hinv : b.inbound.Inv ∧ b.outbound.Inv := by
    refine h.inv (I := fun b => b.inbound.Inv ∧ b.outbound.Inv) ⟨inv_new, inv_new⟩ ?_
    rintro b (a | a) ⟨hin, hout⟩ hsafe
    · exact ⟨inv_step hin a hsafe, hout⟩
    · exact ⟨hin, inv_step hout a hsafe⟩
  have hin := hinv.1.sizeRight
  have hout := hinv.2.sizeRight
  exact ⟨⟨hin.not_wrapped, hout.not_wrapped⟩, fun hi ho => ⟨hin.quiet hi, hout.quiet ho⟩⟩

/-- A message is sent, counted, received and counted off. -/
def inTurn : List (BusAct String String) :=
  [.inbound (.publish "hi"), .inbound (.advance 0), .inbound (.advance 0), .inbound .consume,
    .inbound (.advance 0), .inbound (.advance 0), .inbound (.advance 0)]

/-- After a message that is consumed in its turn, the size is zero. -/
theorem sizes_right_inTurn :
    (Lib.Runs.run MessageBus.step {} inTurn).SizesRight ∧
      (Lib.Runs.run MessageBus.step {} inTurn).inbound.consumed = ["hi"] ∧
      (Lib.Runs.run MessageBus.step {} inTurn).inboundSize = 0 := by
  have hsafe : Lib.Runs.Meets MessageBus.step MessageBus.Safe {} inTurn := by
    refine ⟨trivial, nofun, nofun, trivial, nofun, nofun, fun _ _ => ?_, trivial⟩
    decide
  exact ⟨sizes_right (Lib.Runs.reach_run hsafe), by decide, by decide⟩

/-- A message is received and counted off before its publisher has counted it. -/
def overtaken : List (BusAct String String) :=
  [.inbound (.publish "hi"), .inbound .consume, .inbound (.advance 0), .inbound (.advance 1),
    .inbound (.advance 1), .inbound (.advance 1)]

/-- A message is sent on a handle. -/
def pastPublish : List (BusAct String String) := [.outbound (.handle "pong")]

/-- The sizes are not right in every run: the counter goes below zero when the consumer is
faster than the publisher, and it leaves out what is sent on a handle. -/
theorem sizes_wrong :
    (¬ ∀ acts : List (BusAct String String),
        (Lib.Runs.run MessageBus.step {} acts).SizesRight) ∧
      (Lib.Runs.run MessageBus.step {} overtaken).inboundSize = 2 ^ 64 - 1 ∧
      (Lib.Runs.run MessageBus.step {} pastPublish).outboundSize = 0 ∧
      (Lib.Runs.run MessageBus.step {} pastPublish).outbound.sent = ["pong"] := by
  refine ⟨fun h => ?_, by decide, by decide, by decide⟩
  have hwrapped := (h overtaken).not_wrapped.1
  exact absurd hwrapped (by decide)

end HiveClaw.Bus
