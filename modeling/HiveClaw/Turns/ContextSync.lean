import HiveClaw.Lib.Runs
import HiveClaw.Runtime.EndHooks
import HiveClaw.Runtime.Payload
import HiveClaw.Runtime.Replies
import HiveClaw.Turns.Inbound

/-!
# The AgentContext of the agent loop

An agent loop may have an `AgentContext`. During a turn the hook
`AgentContextSyncHook` of `crates/agent/src/context/hook.rs` writes what the
runner did to it, and after the run `process_inbound` of
`crates/agent/src/loop_.rs` closes the context and then stores the final
content as its payload.

All turns of a loop share the context and may run at the same time. Each write
takes the locks of the context for itself, so a turn is the list of its writes
here, and the turns interleave between them.

* `Lane.reach_payload` — no turn ever stores a payload.
* `finalContent_carried_iff` — when the final content of a turn, and of a
  session of the web runtime, is the payload of its context.
-/

namespace HiveClaw.Turns

open Lib Context Providers
open HiveClaw.Runtime (Carries)

-- ---
-- The hook
-- ---

/-- What the runner hands to `after_iteration`, as far as the hook reads it. -/
structure IterationEnd where
  iteration : Nat
  toolCalls : List ToolCallRequest := []
  toolResults : List Json := []
  stopReason : Option String := none
  error : Option String := none

/-- A write to the context by a turn. -/
inductive ContextWrite where
  | activate
  | toolResult (toolName : String) (result : Json) (iteration : Nat)
  | toolCall (toolName : String) (arguments result : Json)
  | iterationComplete (iteration : Nat) (isFinal : Bool)
  | close (target : LifecycleState)
  | respond (content : String)

/-- `after_tool_execution`, for a tool call with a result. -/
def afterToolExecution (tc : ToolCallRequest) (result : Json) (iteration : Nat) :
    List ContextWrite :=
  [.toolResult tc.name result iteration, .toolCall tc.name (.obj tc.arguments) result]

/-- `after_iteration` of the hook. -/
def afterIteration (e : IterationEnd) : List ContextWrite :=
  let isFinal := e.stopReason.isSome || e.error.isSome
  (e.toolCalls.flatMap fun tc =>
    match e.toolResults.find? fun r => r.getStr "tool_call_id" = some tc.id with
    | some result => afterToolExecution tc result e.iteration
    | none => []) ++
  .iterationComplete e.iteration isFinal :: if isFinal then [.close .completed] else []

def ContextWrite.apply (lower : String → String) (now : Int) (ctx : AgentContext) :
    ContextWrite → Except ContextError AgentContext
  | .activate => ctx.setLifecycleState .active
  | .toolResult toolName result iteration =>
    ctx.setRecord lower now .toolResults toolName result toolName iteration
  | .toolCall toolName arguments result =>
    ctx.recordToolCall toolName arguments (some result) .success now (some now)
  | .iterationComplete iteration isFinal =>
    ctx.setRecord lower now .stateChanges "iteration_complete"
      (.obj [("iteration", .num (.int iteration)), ("is_final", .bool isFinal)])
      "AgentContextSyncHook" iteration
  | .close target => ctx.setLifecycleState target
  | .respond content => ctx.setResponsePayload (.new content)

/-- The context after a write; an error is logged or thrown away. -/
def ContextWrite.effect (lower : String → String) (now : Int) (ctx : AgentContext)
    (w : ContextWrite) : AgentContext := ctx.ignoring (w.apply lower now ctx)

-- ---
-- Turns
-- ---

/-- The final content that a turn returns. -/
def Outcome.finalContent : Outcome → Option String
  | .shortCircuit reply => some reply
  | .ran result => result.finalContent

/-- The state in which a turn closes the context. -/
def finalState (result : Runner.AgentRunResult) : LifecycleState :=
  if result.stopReason = "tool_error" ∨ result.error.isSome then .terminated else .completed

/-- The writes of `process_inbound`; the pre-filter for commands is in front of all of them. -/
def turnWrites (iterations : List IterationEnd) : Outcome → List ContextWrite
  | .shortCircuit _ => []
  | .ran result =>
    .activate :: iterations.flatMap afterIteration ++
      .close (finalState result) :: (result.finalContent.map .respond).toList

/-- A turn with the writes that it has not made yet. -/
structure SyncTurn where
  iterations : List IterationEnd
  outcome : Outcome
  done : List ContextWrite
  left : List ContextWrite

/-- A turn of the loop, before its first write. -/
def SyncTurn.start (iterations : List IterationEnd) (outcome : Outcome) : SyncTurn :=
  { iterations := iterations, outcome := outcome, done := []
    left := turnWrites iterations outcome }

/-- The turns of a loop and their context. -/
structure SyncLane where
  ctx : AgentContext
  turns : List SyncTurn := []

/-- A turn starts, or the next write of a turn is made. -/
inductive SyncAct where
  | start (iterations : List IterationEnd) (outcome : Outcome)
  | write (turn : Nat) (now : Int)

namespace SyncLane

/-- One step of a lane; a turn that has made all its writes does nothing. -/
def step (lower : String → String) (lane : SyncLane) : SyncAct → SyncLane
  | .start iterations outcome =>
    { lane with turns := lane.turns ++ [.start iterations outcome] }
  | .write turn now =>
    match lane.turns[turn]? with
    | none => lane
    | some t =>
      match t.left with
      | [] => lane
      | w :: rest =>
        { ctx := w.effect lower now lane.ctx
          turns := lane.turns.set turn { t with done := t.done ++ [w], left := rest } }

/-- Any number of turns, their writes in any order. -/
def run (lower : String → String) (ctx : AgentContext) (acts : List SyncAct) : SyncLane :=
  Lib.Runs.run (step lower) { ctx := ctx } acts

end SyncLane

-- ---
-- The writes of a turn
-- ---

/-- A state in which nothing can be written any more. -/
def Shut (ctx : AgentContext) : Prop :=
  ctx.lifecycleState = .completed ∨ ctx.lifecycleState = .terminated

/-- Neither payload nor lifecycle is touched. -/
def ContextWrite.IsRecord : ContextWrite → Prop
  | .toolResult .. | .toolCall .. | .iterationComplete .. => True
  | _ => False

theorem finalState_shuts (result : Runner.AgentRunResult) :
    finalState result = .completed ∨ finalState result = .terminated := by
  unfold finalState
  split
  · exact Or.inr rfl
  · exact Or.inl rfl

variable {w : ContextWrite}

theorem isRecord_or_close_of_mem_afterIteration {e : IterationEnd} (h : w ∈ afterIteration e) :
    w.IsRecord ∨ w = .close .completed := by
  simp only [afterIteration, List.mem_append, List.mem_flatMap, List.mem_cons] at h
  rcases h with ⟨tc, -, h⟩ | rfl | h
  · split at h
    · simp only [afterToolExecution, List.mem_cons, List.not_mem_nil, or_false] at h
      rcases h with rfl | rfl <;> exact Or.inl trivial
    · cases h
  · exact Or.inl trivial
  · split at h
    · exact Or.inr (List.mem_singleton.mp h)
    · cases h

variable {iterations : List IterationEnd}

theorem turnWrites_tail {outcome : Outcome} (h : w ∈ (turnWrites iterations outcome).tail) :
    w.IsRecord ∨ w = .close .completed ∨ w = .close .terminated ∨
      ∃ content, w = .respond content := by
  cases outcome with
  | shortCircuit reply => cases h
  | ran result =>
    simp only [turnWrites, List.cons_append, List.tail_cons, List.mem_append, List.mem_flatMap,
      List.mem_cons, Option.mem_toList, Option.map_eq_some_iff] at h
    rcases h with ⟨e, -, h⟩ | rfl | ⟨content, -, rfl⟩
    · rcases isRecord_or_close_of_mem_afterIteration h with h | h
      · exact Or.inl h
      · exact Or.inr (Or.inl h)
    · rcases finalState_shuts result with h | h <;> simp [h]
    · exact Or.inr (Or.inr (Or.inr ⟨content, rfl⟩))

theorem turnWrites_head {outcome : Outcome} {rest : List ContextWrite}
    (h : turnWrites iterations outcome = w :: rest) : w = .activate := by
  cases outcome with
  | shortCircuit reply => cases h
  | ran result =>
    cases h
    rfl

theorem closed_before_respond {outcome : Outcome} {before after : List ContextWrite}
    {content : String} (h : before ++ .respond content :: after = turnWrites iterations outcome) :
    ∃ target, .close target ∈ before := by
  cases outcome with
  | shortCircuit reply => simp [turnWrites] at h
  | ran result =>
    have hsplit : turnWrites iterations (.ran result) =
        (.activate :: iterations.flatMap afterIteration ++ [.close (finalState result)]) ++
          (result.finalContent.map ContextWrite.respond).toList := by
      simp [turnWrites]
    have hnot : ContextWrite.respond content ∉
        .activate :: iterations.flatMap afterIteration ++ [.close (finalState result)] := by
      simp only [List.cons_append, List.mem_cons, List.mem_append, List.mem_flatMap, not_or,
        not_exists, not_and, List.not_mem_nil, not_false_eq_true, and_true]
      refine ⟨nofun, fun e _ hmem => ?_, nofun⟩
      rcases isRecord_or_close_of_mem_afterIteration hmem with h | h
      · exact h
      · cases h
    rw [hsplit] at h
    rcases List.append_eq_append_iff.mp h with ⟨middle, hpre, hpost⟩ | ⟨middle, hpre, hpost⟩
    · cases middle with
      | nil =>
        rw [List.append_nil] at hpre
        exact ⟨finalState result, by simp [← hpre]⟩
      | cons w rest =>
        -- the payload would be one of the writes before the closing one
        rw [List.cons_append] at hpost
        rw [(List.cons.inj hpost).1, hpre] at hnot
        exact absurd (by simp) hnot
    · exact ⟨finalState result, by simp [hpre]⟩

-- ---
-- What a write does
-- ---

section Writes

variable {lower : String → String} {now : Int} {ctx : AgentContext}

theorem effect_record {w : ContextWrite} (hw : w.IsRecord) :
    (w.effect lower now ctx).responsePayload = ctx.responsePayload ∧
      (w.effect lower now ctx).lifecycleState = ctx.lifecycleState := by
  refine Runtime.ignoring_induction (P := fun c => c.responsePayload = ctx.responsePayload ∧
    c.lifecycleState = ctx.lifecycleState) ⟨rfl, rfl⟩ fun c h => ?_
  cases w with
  | toolResult toolName result iteration =>
    exact ⟨Runtime.setRecord_payload h, (Runtime.setRecord_kept h).lifecycle⟩
  | toolCall toolName arguments result =>
    exact ⟨Runtime.guarded_payload h rfl, (Runtime.guarded_kept h ⟨rfl, rfl, rfl⟩).lifecycle⟩
  | iterationComplete iteration isFinal =>
    exact ⟨Runtime.setRecord_payload h, (Runtime.setRecord_kept h).lifecycle⟩
  | activate => exact hw.elim
  | close target => exact hw.elim
  | respond content => exact hw.elim

theorem effect_close_payload (target : LifecycleState) :
    ((ContextWrite.close target).effect lower now ctx).responsePayload = ctx.responsePayload :=
  Runtime.ignoring_induction (P := fun c => c.responsePayload = ctx.responsePayload) rfl
    fun _ h => Runtime.setLifecycleState_payload h

theorem effect_activate_payload :
    (ContextWrite.activate.effect lower now ctx).responsePayload = ctx.responsePayload :=
  Runtime.ignoring_induction (P := fun c => c.responsePayload = ctx.responsePayload) rfl
    fun _ h => Runtime.setLifecycleState_payload h

theorem effect_activate_lifecycle :
    (ContextWrite.activate.effect lower now ctx).lifecycleState =
      if ctx.lifecycleState = .merging then .active else ctx.lifecycleState := by
  simp only [ContextWrite.effect, ContextWrite.apply, AgentContext.setLifecycleState]
  cases hstate : ctx.lifecycleState <;>
    simp [LifecycleState.isValidTransition, AgentContext.ignoring, hstate]

theorem effect_close_shuts {target : LifecycleState}
    (htarget : target = .completed ∨ target = .terminated) (hctx : ctx.lifecycleState ≠ .merging) :
    Shut ((ContextWrite.close target).effect lower now ctx) := by
  simp only [Shut, ContextWrite.effect, ContextWrite.apply, AgentContext.setLifecycleState]
  cases hstate : ctx.lifecycleState with
  | merging => exact absurd hstate hctx
  | active => rcases htarget with rfl | rfl <;> simp [LifecycleState.isValidTransition,
      AgentContext.ignoring]
  | completed => simp [LifecycleState.isValidTransition, AgentContext.ignoring, hstate]
  | terminated => simp [LifecycleState.isValidTransition, AgentContext.ignoring, hstate]

theorem effect_respond_shut {content : String} (hctx : Shut ctx) :
    (ContextWrite.respond content).effect lower now ctx = ctx := by
  have hwrite : ctx.checkWriteAllowed ≠ .ok () := by
    rw [Ne, Runtime.checkWriteAllowed_eq_ok_iff]
    rcases hctx with h | h <;> simp [h]
  cases hcheck : ctx.checkWriteAllowed with
  | ok u => exact absurd hcheck hwrite
  | error e =>
    simp [ContextWrite.effect, ContextWrite.apply, AgentContext.setResponsePayload, hcheck,
      AgentContext.ignoring, bind, Except.bind]

end Writes

-- ---
-- Lanes
-- ---

namespace SyncLane

variable {lower : String → String} {ctx : AgentContext} {lane : SyncLane} {acts : List SyncAct}

/-- What holds of every lane that started with the context `ctx`. -/
structure Inv (ctx : AgentContext) (lane : SyncLane) : Prop where
  payload : lane.ctx.responsePayload = ctx.responsePayload
  split : ∀ t ∈ lane.turns, t.done ++ t.left = turnWrites t.iterations t.outcome
  opened : ∀ t ∈ lane.turns, t.done ≠ [] → lane.ctx.lifecycleState ≠ .merging
  closed : ∀ t ∈ lane.turns, ∀ target, .close target ∈ t.done → Shut lane.ctx

theorem Inv.init (ctx : AgentContext) : Inv ctx { ctx := ctx } where
  payload := rfl
  split := nofun
  opened := nofun
  closed := nofun

theorem Inv.start (h : Inv ctx lane) (iterations : List IterationEnd) (outcome : Outcome) :
    Inv ctx { lane with turns := lane.turns ++ [.start iterations outcome] } where
  payload := h.payload
  split t ht := by
    rcases List.mem_append.mp ht with ht | ht
    · exact h.split t ht
    · rw [List.mem_singleton.mp ht]
      rfl
  opened t ht hdone := by
    rcases List.mem_append.mp ht with ht | ht
    · exact h.opened t ht hdone
    · rw [List.mem_singleton.mp ht] at hdone
      exact absurd rfl hdone
  closed t ht target hclose := by
    rcases List.mem_append.mp ht with ht | ht
    · exact h.closed t ht target hclose
    · rw [List.mem_singleton.mp ht] at hclose
      cases hclose

/-- What the next write of a turn does to the context of its lane. -/
structure Advances (ctx ctx' : AgentContext) (w : ContextWrite) : Prop where
  payload : ctx'.responsePayload = ctx.responsePayload
  opened : ctx'.lifecycleState ≠ .merging
  closed : Shut ctx ∨ (∃ target, w = .close target) → Shut ctx'

theorem Inv.advances (h : Inv ctx lane) {t : SyncTurn} (ht : t ∈ lane.turns) {w : ContextWrite}
    {rest : List ContextWrite} (hleft : t.left = w :: rest) (now : Int) :
    Advances lane.ctx (w.effect lower now lane.ctx) w := by
  have hsplit := h.split t ht
  rw [hleft] at hsplit
  cases hdone : t.done with
  | nil =>
    rw [hdone, List.nil_append] at hsplit
    obtain rfl := turnWrites_head hsplit.symm
    refine ⟨effect_activate_payload, ?_, ?_⟩
    · rw [effect_activate_lifecycle]
      split
      · nofun
      · assumption
    · rintro (hshut | ⟨target, h⟩)
      · unfold Shut
        rw [effect_activate_lifecycle, if_neg]
        · exact hshut
        · rcases hshut with h | h <;> simp [h]
      · cases h
  | cons first made =>
    have hopened : lane.ctx.lifecycleState ≠ .merging := h.opened t ht (by simp [hdone])
    have htail : w ∈ (turnWrites t.iterations t.outcome).tail := by
      rw [← hsplit, hdone]
      simp
    have hclose : ∀ {target}, target = .completed ∨ target = .terminated →
        Advances lane.ctx ((ContextWrite.close target).effect lower now lane.ctx)
          (.close target) := by
      intro target htarget
      have hshut : Shut ((ContextWrite.close target).effect lower now lane.ctx) :=
        effect_close_shuts htarget hopened
      refine ⟨effect_close_payload target, ?_, fun _ => hshut⟩
      rcases hshut with h | h <;> simp [h]
    rcases turnWrites_tail htail with hrecord | rfl | rfl | ⟨content, rfl⟩
    · obtain ⟨hpayload, hlife⟩ : (w.effect lower now lane.ctx).responsePayload =
          lane.ctx.responsePayload ∧
          (w.effect lower now lane.ctx).lifecycleState = lane.ctx.lifecycleState :=
        effect_record hrecord
      refine ⟨hpayload, by rwa [hlife], ?_⟩
      rintro (hshut | ⟨target, rfl⟩)
      · unfold Shut
        rwa [hlife]
      · exact hrecord.elim
    · exact hclose (Or.inl rfl)
    · exact hclose (Or.inr rfl)
    · -- the context has been shut by the turn itself
      obtain ⟨target, hmem⟩ := closed_before_respond hsplit
      have hshut := h.closed t ht target hmem
      rw [show (ContextWrite.respond content).effect lower now lane.ctx = lane.ctx from
        effect_respond_shut hshut]
      exact ⟨rfl, hopened, fun _ => hshut⟩

theorem Inv.step (h : Inv ctx lane) (a : SyncAct) : Inv ctx (lane.step lower a) := by
  cases a with
  | start iterations outcome => exact h.start iterations outcome
  | write turn now =>
    simp only [SyncLane.step]
    split
    · exact h
    next t ht =>
    split
    · exact h
    next w rest hleft =>
    have hmem : t ∈ lane.turns := List.mem_of_getElem? ht
    have hadv : Advances lane.ctx (w.effect lower now lane.ctx) w := h.advances hmem hleft now
    refine ⟨hadv.payload.trans h.payload, ?_, fun _ _ _ => hadv.opened, ?_⟩
    · intro t' ht'
      rcases List.mem_or_eq_of_mem_set ht' with ht' | rfl
      · exact h.split t' ht'
      · rw [← h.split t hmem, hleft]
        simp
    · intro t' ht' target hclose
      rcases List.mem_or_eq_of_mem_set ht' with ht' | rfl
      · exact hadv.closed (Or.inl (h.closed t' ht' target hclose))
      · rcases List.mem_append.mp hclose with hclose | hclose
        · exact hadv.closed (Or.inl (h.closed t hmem target hclose))
        · exact hadv.closed (Or.inr ⟨target, (List.mem_singleton.mp hclose).symm⟩)

theorem run_payload (lower : String → String) (ctx : AgentContext) (acts : List SyncAct) :
    (run lower ctx acts).ctx.responsePayload = ctx.responsePayload := by
  have hinv : Inv ctx (run lower ctx acts) :=
    Runs.run_inv (I := Inv ctx) (fun _ a h => h.step a) (Inv.init ctx) acts
  exact hinv.payload

end SyncLane

-- ---
-- Final content
-- ---

/-- The final content of a turn is in the context at its end only where it was there before the
first turn; the final content of a session is unless the exit closes the context first. -/
theorem finalContent_carried_iff (lower : String → String) (env : Runtime.Env) :
    (∀ (ctx : AgentContext) (acts : List SyncAct),
      ∀ t ∈ (SyncLane.run lower ctx acts).turns, t.left = [] →
        ∀ text, t.outcome.finalContent = some text →
          (Carries (SyncLane.run lower ctx acts).ctx text ↔ Carries ctx text)) ∧
      ∀ (s : Runtime.Session) (now : DateTime) (r : Runtime.SessionEnd) (w' : Runtime.World),
        (Runtime.runSession env s).Runs (Runtime.initialWorld env s now) r w' →
        ∀ e text, r.ending = some e → e.content = some text →
          (Carries w'.ctx text ↔ ¬e.exit.ClosesFirst) := by
  constructor
  · intro ctx acts t _ _ text _
    unfold Carries
    rw [SyncLane.run_payload]
  · intro s now r w' h e text hending hcontent
    exact Runtime.carries_iff_open h hending hcontent

/-- The writes of a turn that answers at once. -/
def answerAtOnce : List SyncAct :=
  [.start [] (.ran { finalContent := some "Hi!", stopReason := "completed" }),
    .write 0 0, .write 0 0, .write 0 0]

/-- The context of a session at its start. -/
def newContext : AgentContext := Runtime.initialContext Runtime.Env.plain Runtime.greeting 0

/-- The answer of a turn is not in a new context; that of a session which ends with it is. -/
theorem finalContent_carried_answer :
    ¬Carries (SyncLane.run id newContext answerAtOnce).ctx "Hi!" ∧
      Carries (Runtime.steadyRun Runtime.Env.plain Runtime.cardHook).2.ctx "hello" := by
  have hiff := finalContent_carried_iff id Runtime.Env.plain
  have hnew : ¬Carries newContext "Hi!" := nofun
  refine ⟨fun h => hnew ?_, ?_⟩
  · exact (hiff.1 newContext answerAtOnce _ (List.mem_singleton.mpr rfl) rfl "Hi!" rfl).mp h
  · have hcontent : (Runtime.steadyRun Runtime.Env.plain Runtime.cardHook).1.ending.bind
        Runtime.Ending.content = some "hello" := by
      decide +kernel
    have hexit : (Runtime.steadyRun Runtime.Env.plain Runtime.cardHook).1.ending.map
        Runtime.Ending.exit = some .answered := by
      decide +kernel
    obtain ⟨e, hending, htext⟩ := Option.bind_eq_some_iff.mp hcontent
    rw [hending, Option.map_some, Option.some_inj] at hexit
    refine (hiff.2 _ _ _ _ (Runtime.runs_sessionRun _ _ _ _) e "hello" hending htext).mpr ?_
    rw [hexit]
    decide

/-- A turn answers, and a session ends at the hop limit: neither answer is in its context. -/
theorem finalContent_not_carried :
    (∃ t ∈ (SyncLane.run id newContext answerAtOnce).turns, t.left = [] ∧
      t.outcome.finalContent = some "Hi!" ∧
      ¬Carries (SyncLane.run id newContext answerAtOnce).ctx "Hi!") ∧
      ((Runtime.steadyRun Runtime.Env.plain (Runtime.lastWords "Hi!")).1.ending.bind
          Runtime.Ending.content = some "Hi!" ∧
        ¬Carries (Runtime.steadyRun Runtime.Env.plain (Runtime.lastWords "Hi!")).2.ctx "Hi!") := by
  refine ⟨⟨_, List.mem_singleton.mpr rfl, rfl, rfl, nofun⟩, by decide +kernel, ?_⟩
  have hnone : (Runtime.steadyRun Runtime.Env.plain
      (Runtime.lastWords "Hi!")).2.ctx.responsePayload.isNone = true := by
    decide +kernel
  rintro (h : _ = some _)
  rw [h] at hnone
  cases hnone

end HiveClaw.Turns
