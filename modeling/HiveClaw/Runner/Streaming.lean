import HiveClaw.Lib.Forwarder
import HiveClaw.Utils.ThinkStream

/-!
# Streaming model requests

The streaming branch of `request_model` in `crates/agent/src/runner.rs`, for a hook that wants
streaming. While the provider is at work, each delta goes into a channel, and new thinking text
into another; a task for each channel passes what it takes to the hook. When the provider call
returns, both tasks are aborted.

The tasks are polled by the scheduler in any order and as often as it likes, so that the request
returns with the deltas that happen to have been taken (`seen_append_left`), and for every sequence
of deltas there is a schedule in which these are none (`passesAll_iff`).
-/

namespace HiveClaw.Runner

open Lib.Runs Lib.Forwarder Utils

/-! ## The request -/

inductive Phase where
  | streaming
  | answered
  | returned
  | panicked
deriving DecidableEq

/-- A request: the accumulators and the extractor, the channels of the two tasks, and, once it has
returned, what `hook.on_stream` had been given and what was left in the channel. -/
structure StreamRequest where
  stream : ThinkStream := {}
  deltas : Channel String := {}
  reasoning : Channel String := {}
  phase : Phase := .streaming
  seen : List String := []
  left : List String := []

/-- The provider delivers a delta or returns its response, a task runs, the request returns. -/
inductive RequestEvent where
  | deliver (delta : String)
  | forward (e : Event)
  | reason (e : Event)
  | answer
  | ret

namespace StreamRequest

/-- The callback `on_content_delta`. -/
def deliver (r : StreamRequest) (delta : String) : StreamRequest :=
  match onContentDelta (some r.stream) delta with
  | none => { r with phase := .panicked }
  | some stream =>
    { r with
      stream := stream
      reasoning := (stream.pieces.drop r.stream.pieces.length).foldl Channel.send r.reasoning
      deltas := r.deltas.send delta }

/-- What happens next; an event out of its time does nothing. -/
def step (r : StreamRequest) : RequestEvent → StreamRequest
  | .deliver delta => if r.phase = .streaming then r.deliver delta else r
  | .forward e => { r with deltas := r.deltas.step e }
  | .reason e => { r with reasoning := r.reasoning.step e }
  | .answer =>
    if r.phase = .streaming then
      { r with phase := .answered, deltas := r.deltas.abort, reasoning := r.reasoning.abort }
    else r
  | .ret =>
    if r.phase = .answered then
      { r with phase := .returned, seen := r.deltas.passed, left := r.deltas.queue }
    else r

def Reached (r : StreamRequest) : Prop := Reach step (fun _ _ => True) {} r

/-- Under every schedule, a request that is given these deltas has passed all of them on when it
returns, in order and once. -/
def PassesAll (deltas : List String) : Prop :=
  ∀ r, Reached r → r.phase = .returned → r.deltas.sent = deltas → r.seen = deltas

/-! ## What is kept -/

/-- Nothing is lost in the channel; what has been delivered was handled without a panic; at the
return, what was not seen was left. -/
structure Inv (r : StreamRequest) : Prop where
  conserves : r.deltas.Conserves
  stream : r.deltas.sent.foldl onContentDelta (some {}) = some r.stream
  split : r.phase = .returned → r.seen ++ r.left = r.deltas.sent

theorem inv_start : Inv {} := ⟨rfl, rfl, fun h => by cases h⟩

theorem Inv.step {r : StreamRequest} (h : Inv r) (e : RequestEvent) : Inv (r.step e) := by
  cases e with
  | deliver delta =>
    show Inv (if r.phase = .streaming then r.deliver delta else r)
    split
    · next hphase =>
      unfold deliver
      split
      · exact ⟨h.conserves, h.stream, fun hret => by cases hret⟩
      · next stream hstream =>
        refine ⟨h.conserves.send delta, ?_, fun hret => ?_⟩
        · show (r.deltas.sent ++ [delta]).foldl onContentDelta (some {}) = some stream
          rw [List.foldl_append, h.stream]
          exact hstream
        · rw [show r.phase = .returned from hret] at hphase
          cases hphase
    · exact h
  | forward e =>
    have hsent := r.deltas.sent_step e
    refine ⟨h.conserves.step e, ?_, fun hret => ?_⟩
    · rw [show (r.step (.forward e)).deltas.sent = _ from hsent]
      exact h.stream
    · rw [show (r.step (.forward e)).deltas.sent = _ from hsent]
      exact h.split hret
  | reason e => exact ⟨h.conserves, h.stream, h.split⟩
  | answer =>
    show Inv (if r.phase = .streaming then _ else r)
    split
    · exact ⟨h.conserves.abort, h.stream, fun hret => by cases hret⟩
    · exact h
  | ret =>
    show Inv (if r.phase = .answered then _ else r)
    split
    · exact ⟨h.conserves, h.stream, fun _ => h.conserves⟩
    · exact h

theorem inv_of_reached {r : StreamRequest} (h : Reached r) : Inv r :=
  Reach.inv h inv_start fun _ e hr _ => hr.step e

/-! ## A schedule that starves the task -/

variable {deltas : List String} {stream : ThinkStream}

theorem reached_deliver (h : deltas.foldl onContentDelta (some {}) = some stream) :
    ∃ r, Reached r ∧ r.phase = .streaming ∧ r.deltas.sent = deltas ∧ r.deltas.passed = [] := by
  induction deltas using List.reverseRecOn generalizing stream with
  | nil => exact ⟨{}, Reach.init, rfl, rfl, rfl⟩
  | append_singleton deltas delta ih =>
    rw [List.foldl_append] at h
    cases hbefore : deltas.foldl onContentDelta (some {}) with
    | none =>
      rw [hbefore] at h
      cases h
    | some before =>
      obtain ⟨r, hr, hphase, hsent, hpassed⟩ := ih hbefore
      have hstream : before = r.stream := by
        have hinv := (inv_of_reached hr).stream
        rw [hsent, hbefore] at hinv
        exact Option.some.inj hinv
      have hfed : onContentDelta (some r.stream) delta = some stream := by
        rw [hbefore, hstream] at h
        exact h
      have hstep : r.step (.deliver delta) =
          { r with
            stream := stream
            reasoning := (stream.pieces.drop r.stream.pieces.length).foldl Channel.send r.reasoning
            deltas := r.deltas.send delta } := by
        show (if r.phase = .streaming then r.deliver delta else r) = _
        rw [if_pos hphase, deliver, hfed]
      refine ⟨r.step (.deliver delta), hr.step trivial, ?_, ?_, ?_⟩
      · rw [hstep]
        exact hphase
      · rw [hstep]
        exact congrArg (· ++ [delta]) hsent
      · rw [hstep]
        exact hpassed

theorem starved (h : deltas.foldl onContentDelta (some {}) = some stream) :
    ∃ r, Reached r ∧ r.phase = .returned ∧ r.deltas.sent = deltas ∧ r.seen = [] := by
  obtain ⟨r, hr, hphase, hsent, hpassed⟩ := reached_deliver h
  have hanswer : r.step .answer =
      { r with phase := .answered, deltas := r.deltas.abort, reasoning := r.reasoning.abort } :=
    if_pos hphase
  have hret : (r.step .answer).step .ret =
      { r with
        phase := .returned, deltas := r.deltas.abort, reasoning := r.reasoning.abort
        seen := r.deltas.passed, left := r.deltas.queue } := by
    rw [hanswer]
    rfl
  refine ⟨(r.step .answer).step .ret, (hr.step trivial).step trivial, ?_, ?_, ?_⟩
  · rw [hret]
  · rw [hret]
    exact hsent
  · rw [hret]
    exact hpassed

end StreamRequest

/-- **Deltas of a streaming request.** When a request returns, the deltas it has passed on are all
that were delivered exactly if none is left in the channel. Under every schedule that is so only
for a provider that delivers none, or whose deltas make the callback panic. -/
theorem passesAll_iff (deltas : List String) :
    (∀ r : StreamRequest, r.Reached → r.phase = .returned →
      (r.seen = r.deltas.sent ↔ r.left = [])) ∧
    (StreamRequest.PassesAll deltas ↔
      deltas = [] ∨ deltas.foldl onContentDelta (some {}) = none) := by
  refine ⟨fun r hr hphase => ?_, fun hall => ?_, fun h r hr hphase hsent => ?_⟩
  · have hsplit := (StreamRequest.inv_of_reached hr).split hphase
    constructor
    · intro hseen
      rw [hseen] at hsplit
      exact List.append_right_eq_self.mp hsplit
    · intro hleft
      rw [hleft, List.append_nil] at hsplit
      exact hsplit
  · by_cases hfed : deltas.foldl onContentDelta (some {}) = none
    · exact Or.inr hfed
    · obtain ⟨stream, hstream⟩ := Option.ne_none_iff_exists'.mp hfed
      obtain ⟨r, hr, hphase, hsent, hseen⟩ := StreamRequest.starved hstream
      exact Or.inl ((hall r hr hphase hsent).symm.trans hseen)
  · have hinv := StreamRequest.inv_of_reached hr
    rcases h with rfl | hpanic
    · have hsplit := hinv.split hphase
      rw [hsent] at hsplit
      exact (List.append_eq_nil_iff.mp hsplit).1
    · have hstream := hinv.stream
      rw [hsent, hpanic] at hstream
      cases hstream

/-- The task is not polled between the delta and the end of the provider call. -/
theorem not_passesAll_hi : ¬StreamRequest.PassesAll ["Hi"] := by
  intro hall
  have hfed : ["Hi"].foldl onContentDelta (some {}) = some { buffer := "Hi" } := by decide +kernel
  obtain ⟨r, hr, hphase, hsent, hseen⟩ := StreamRequest.starved hfed
  have hsame := (hall r hr hphase hsent).symm.trans hseen
  cases hsame

end HiveClaw.Runner
