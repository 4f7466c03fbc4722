import HiveClaw.Runtime.Calls
import HiveClaw.Runtime.Orchestrator

/-!
# What a hop can come to

The course of a session is marked by its turns: an agent is fetched and loaded,
the model calls tools, the session is routed, an error is sent, the message is
stored, the stream ends. `runHop_turns` says once what the turns and the result
of a hop can be, `runHops_loop` what those of the whole loop can be; everything
about a session is derived from them.

* `Course` — the turns that lead from one state to another, with nothing but
  `Quiet` events between them.
* `HopTurns`, `LoopTurns` — the ways a hop, and the loop, can go.
-/

namespace HiveClaw.Runtime

open Lib Context
open Lib.Prog (Steps RunsE)

-- ---
-- Turns
-- ---

/-- The events that mark the course of a session. -/
def Event.isTurn : Event → Bool
  | .fetchContent _ | .loaded _ _ | .toolCalls _ _ _ | .saved _ _ => true
  | .sse (.routed _ _) | .sse (.error _ _) | .sse (.done _ _) | .sse (.extensions _) => true
  | _ => false

/-- The other events of the loop; `Q` says which requests it sends to the
model. -/
inductive Quiet (Q : List Json → Prop) : Event → Prop
  | token (text : String) : Quiet Q (.sse (.token text))
  | toolCall (id name : String) (args : JsonMap) : Quiet Q (.sse (.toolCall id name args))
  | toolResult (id : String) (result : Json) : Quiet Q (.sse (.toolResult id result))
  | hooks {point : String} (h : point ≠ "after_agent_end") : Quiet Q (.hooks point)
  | modelRequest {req : List Json} (h : Q req) : Quiet Q (.modelRequest req)
  | inner {lc : LifecycleState} {e : Event} (h : Inner lc e) : Quiet Q e

variable {e : Event}

theorem Inner.not_turn {lc : LifecycleState} (h : Inner lc e) : e.isTurn = false := by
  cases h <;> rfl

theorem Quiet.not_turn {Q : List Json → Prop} {e : Event} (h : Quiet Q e) :
    e.isTurn = false := by
  cases h with
  | inner h => exact h.not_turn
  | _ => rfl

theorem Quiet.mono {Q Q' : List Json → Prop} (hreq : ∀ m, Q m → Q' m) (h : Quiet Q e) : Quiet Q' e := by
  cases h with
  | token text => exact .token text
  | toolCall id name args => exact .toolCall id name args
  | toolResult id result => exact .toolResult id result
  | hooks h => exact .hooks h
  | modelRequest h => exact .modelRequest (hreq _ h)
  | inner h => exact .inner h

def Event.isEndHooks : Event → Bool
  | .hooks point => point = "after_agent_end"
  | _ => false

theorem isEndHooks_iff : e.isEndHooks = true ↔ e = .hooks "after_agent_end" := by
  cases e <;> simp [Event.isEndHooks]

/-- The turns `ts` lead from `w` to `w'`. -/
def Course (Q : List Json → Prop) (w : World) (ts : List Event) (w' : World) : Prop :=
  ∃ es, After w es w' ∧ es.filter Event.isTurn = ts ∧ ∀ e ∈ es, e.isTurn = true ∨ Quiet Q e

section Course

variable {Q : List Json → Prop} {w w₁ w₂ : World} {ts ts' : List Event}

theorem Course.refl (w : World) : Course Q w [] w := ⟨[], .refl w, rfl, by simp⟩

theorem Course.trans (h : Course Q w ts w₁) (h' : Course Q w₁ ts' w₂) :
    Course Q w (ts ++ ts') w₂ := by
  obtain ⟨es, ha, ht, he⟩ := h
  obtain ⟨es', ha', ht', he'⟩ := h'
  refine ⟨es ++ es', ha.trans ha', ?_, ?_⟩
  · rw [List.filter_append, ht, ht']
  · intro e hmem
    exact (List.mem_append.mp hmem).elim (he e) (he' e)

theorem Course.mono {Q' : List Json → Prop} (hreq : ∀ m, Q m → Q' m)
    (h : Course Q w ts w₁) : Course Q' w ts w₁ := by
  obtain ⟨es, ha, ht, he⟩ := h
  exact ⟨es, ha, ht, fun e hmem => (he e hmem).imp_right (Quiet.mono hreq)⟩

variable {e : Event}

theorem Course.turn (w : World) (ht : e.isTurn = true) : Course Q w [e] (w.log e) := by
  refine ⟨[e], .log w ?_, by simp [ht], by simp [ht]⟩
  cases e <;> first | rfl | exact absurd ht (by simp [Event.isTurn])

theorem Course.quiet (w : World) (hu : e.isUpdate = false) (hq : Quiet Q e) :
    Course Q w [] (w.log e) :=
  ⟨[e], .log w hu, by simp [hq.not_turn], by simp [hq]⟩

theorem Course.of_frame (h : Frame w w₁) : Course Q w [] w₁ := by
  obtain ⟨es, ha, -, he⟩ := h
  refine ⟨es, ha, ?_, fun e hmem => Or.inr (.inner (he e hmem))⟩
  rw [List.filter_eq_nil_iff]
  intro e hmem
  simp [(he e hmem).not_turn]

theorem Course.silent (h : After w [] w₁) : Course Q w [] w₁ := ⟨[], h, rfl, by simp⟩

theorem Course.not_endHooks (h : Course Q w ts w₁) (hw : .hooks "after_agent_end" ∉ w.trace) :
    .hooks "after_agent_end" ∉ w₁.trace := by
  obtain ⟨es, hafter, -, hes⟩ := h
  rw [hafter.trace]
  intro hmem
  rcases List.mem_append.mp hmem with hmem | hmem
  · exact hw hmem
  rcases hes _ hmem with ht | hq
  · cases ht
  · cases hq with
    | hooks hpoint => exact hpoint rfl
    | inner hinner => cases hinner

end Course

-- ---
-- Statements
-- ---

section Statements

variable {α β : Type} {w w' w'' : World} {Q : List Json → Prop}

theorem hop_bind_iff {p : Rt α} {f : α → Hop β} {r : Except HopEnd β} :
    RunsE (Hop.lift p >>= f) w r w'' ↔ ∃ a w', p.Runs w a w' ∧ RunsE (f a) w' r w'' :=
  Prog.runsE_lift_bind_iff

variable {a : α}

theorem runs_sync {f : Moment → World → α × World} (h : (Rt.sync f).Runs w a w') :
    ∃ m, a = (f m w).1 ∧ w' = (f m w).2 :=
  Prog.runs_modify_iff.mp h

theorem runs_look {f : Moment → α} (h : (Rt.look f).Runs w a w') : (∃ m, a = f m) ∧ w' = w := by
  obtain ⟨m, ha, hw⟩ := runs_sync h
  exact ⟨⟨m, ha⟩, hw⟩

variable {u : Unit}

theorem runs_emit {e : Event} (h : (Rt.emit e).Runs w u w') : w' = w.log e := by
  obtain ⟨m, -, hw⟩ := runs_sync h
  exact hw

theorem runs_getCtx {c : AgentContext} (h : Rt.getCtx.Runs w c w') : c = w.ctx ∧ w' = w := by
  obtain ⟨m, hc, hw⟩ := runs_sync h
  exact ⟨hc, hw⟩

variable {op : DateTime → AgentContext → Except ContextError AgentContext}

theorem runs_tryCtx (h : (Rt.tryCtx op).Runs w u w') :
    ∃ now, w' = { w with ctx := w.ctx.ignoring (op now w.ctx) } := by
  obtain ⟨m, -, hw⟩ := runs_sync h
  exact ⟨m.now, hw⟩

/-- An operation whose error is thrown away and that keeps what counts. -/
theorem silent_tryCtx (h : (Rt.tryCtx op).Runs w u w')
    (hop : ∀ now c c', op now c = .ok c' → Kept c c') : After w [] w' := by
  obtain ⟨now, rfl⟩ := runs_tryCtx h
  exact ignoring_induction (P := fun c => After w [] { w with ctx := c }) (.refl w)
    fun c' hc => .kept w (hop now _ c' hc)

/-- The end of an execution; a context that is closed already stays as it is. -/
theorem silent_close {target : LifecycleState} (ht : target = .completed ∨ target = .terminated)
    (h : (Rt.tryCtx fun _ c => c.setLifecycleState target).Runs w u w') :
    After w [] w' ∧ w'.ctx.lifecycleState ≠ .active := by
  obtain ⟨now, rfl⟩ := runs_tryCtx h
  unfold AgentContext.setLifecycleState
  split
  · refine ⟨.silent w rfl rfl ?_, ?_⟩
    · intro hm
      rcases ht with rfl | rfl <;> exact absurd hm (by simp [AgentContext.ignoring])
    · rcases ht with rfl | rfl <;> simp [AgentContext.ignoring]
  · next hno =>
    refine ⟨.refl w, ?_⟩
    intro hactive
    have hstate : w.ctx.lifecycleState = .active := hactive
    rcases ht with rfl | rfl <;> exact hno (by rw [hstate]; rfl)

theorem silent_setResponsePayload {payload : ResponsePayload}
    (h : (Rt.tryCtx fun _ c => c.setResponsePayload payload).Runs w u w') : After w [] w' :=
  silent_tryCtx h fun _ _ _ hc => guarded_kept hc ⟨rfl, rfl, rfl⟩

variable {hop : Nat}

theorem silent_recordChange {env : Env} {key : String} {value : Json}
    (h : (recordChange env hop key value).Runs w u w') : After w [] w' :=
  silent_tryCtx h fun _ _ _ => setRecord_kept

theorem silent_recordTool {env : Env} {tc : ToolCallRequest} {payload : Json}
    (h : (recordTool env hop tc payload).Runs w u w') : After w [] w' := by
  obtain ⟨_, w₁, h₁, h₂⟩ := Prog.runs_bind_iff.mp h
  exact (silent_tryCtx h₁ fun _ _ _ hc => guarded_kept hc ⟨rfl, rfl, rfl⟩).trans
    (silent_tryCtx h₂ fun _ _ _ => setRecord_kept)

/-- The turn of an accepted route. -/
def routedEvent (target : Int × String) : Event := .sse (.routed target.1 target.2)

theorem course_recordRoute {env : Env} {fromAgent : Int} {target : Int × String}
    (h : (recordRoute env hop fromAgent target.1 target.2).Runs w u w') :
    Course Q w [routedEvent target] w' := by
  obtain ⟨_, w₁, h₁, h⟩ := Prog.runs_bind_iff.mp h
  obtain ⟨_, w₂, h₂, h₃⟩ := Prog.runs_bind_iff.mp h
  have hrouted : Course Q w [routedEvent target] w₁ := runs_emit h₁ ▸ .turn w rfl
  have hrecorded : After w₁ [] w' :=
    (silent_tryCtx h₂ fun _ _ _ hc => guarded_kept hc ⟨rfl, rfl, rfl⟩).trans (silent_recordChange h₃)
  simpa using hrouted.trans (.silent hrecorded)

theorem course_error {code : Nat} {text : String} (h : (Rt.emitError code text).Runs w u w') :
    Course Q w [.sse (.error code text)] w' :=
  runs_emit h ▸ .turn w rfl

end Statements

-- ---
-- Hooks and the agent
-- ---

theorem steps_fetchContent {R : World → World → Prop} (hR : Permits R) (agentId : Int) :
    Steps R (fetchContent agentId) := by
  have hdb : Steps R (fetchContentFromDb agentId) := by
    refine (steps_query hR _).bind fun row => ?_
    match row with
    | .error e => exact .done _
    | .ok none => exact .done _
    | .ok (some a) =>
      refine (steps_queryOrEmpty hR _).bind fun skills => ?_
      refine (steps_queryOrEmpty hR _).bind fun tools => ?_
      refine (steps_queryOrEmpty hR _).bind fun permissions => ?_
      refine (steps_queryOrEmpty hR _).bind fun children => ?_
      exact (steps_queryOrEmpty hR _).bind fun hooks => .done _
  refine (steps_query hR _).bind fun cached => ?_
  split
  · exact .done _
  · exact hdb

variable {w w' : World}

theorem runHooks_after {env : Env} {hooks : List (String × List AgentHook)} {point : String}
    {ctx : HookContext} {r : Except String Unit} (h : (runHooks env hooks point ctx).Runs w r w') :
    Frame (w.log (.hooks point)) w' := by
  obtain ⟨_, w₁, h₁, h₂⟩ := Prog.runs_bind_iff.mp h
  rw [runs_emit h₁] at h₂
  refine frame_of_steps ?_ h₂
  split
  · exact .done _
  · exact steps_runHookList permits_frame env ctx _

section Hop

variable {env : Env} {s : Session} {l : Locals} {content : AgentContent} {hop : Nat}
  {w w' : World} {Q : List Json → Prop}

variable {point : String}

theorem course_agentHooks (hpoint : point ≠ "after_agent_end") {r : Except String Unit}
    (h : (agentHooks env s content point).Runs w r w') : Course Q w [] w' :=
  (Course.quiet w rfl (.hooks hpoint)).trans (.of_frame (runHooks_after h))

variable {α : Type}

theorem guardHooks_bind (hpoint : point ≠ "after_agent_end") {f : Unit → Hop α}
    {r : Except HopEnd α} (h : RunsE (guardHooks env s content l point >>= f) w r w') :
    (∃ text, r = .error (noReply s l .hookBlocked) ∧
        Course Q w [.sse (.error 6005 text)] w') ∨
      ∃ w₁, Course Q w [] w₁ ∧ RunsE (f ()) w₁ r w' := by
  have hguard : ∀ {q : Except HopEnd Unit} {w₁ : World},
      RunsE (guardHooks env s content l point) w q w₁ →
      (q = .ok () ∧ Course Q w [] w₁) ∨
        ∃ text, q = .error (noReply s l .hookBlocked) ∧
          Course Q w [.sse (.error 6005 text)] w₁ := by
    intro q w₁ hq
    obtain ⟨res, w₂, h₁, hq⟩ := hop_bind_iff.mp hq
    have hhooks := course_agentHooks (Q := Q) hpoint h₁
    cases res with
    | ok u =>
      obtain ⟨rfl, rfl⟩ := Prog.runsE_pure_iff.mp hq
      exact Or.inl ⟨rfl, hhooks⟩
    | error e =>
      obtain ⟨_, w₃, h₂, hq⟩ := hop_bind_iff.mp hq
      obtain ⟨rfl, rfl⟩ := Prog.runsE_throw_iff.mp hq
      exact Or.inr ⟨e, rfl, hhooks.trans (course_error h₂)⟩
  rcases Prog.runsE_bind_iff.mp h with ⟨e, h₁, rfl⟩ | ⟨_, w₁, h₁, hf⟩
  · rcases hguard h₁ with ⟨hq, -⟩ | ⟨text, hq, hc⟩
    · cases hq
    · cases hq
      exact Or.inl ⟨text, rfl, hc⟩
  · rcases hguard h₁ with ⟨-, hc⟩ | ⟨text, hq, -⟩
    · exact Or.inr ⟨w₁, hc, hf⟩
    · cases hq

theorem loadAgent_cases {r : Except HopEnd AgentContent} (h : RunsE (loadAgent s l) w r w') :
    (r = .error .cancelled ∧ w' = w) ∨
      (∃ text, r = .error (noReply s l .contentFailed) ∧
        Course Q w [.fetchContent l.currentAgentId, .sse (.error 5000 text)] w') ∨
      ∃ content, r = .ok content ∧
        Course Q w [.fetchContent l.currentAgentId, .loaded l.currentAgentId content] w' := by
  obtain ⟨cancelled, w₁, h₁, hrest⟩ := hop_bind_iff.mp h
  obtain ⟨-, rfl⟩ := runs_look h₁
  clear h
  split at hrest
  · obtain ⟨rfl, rfl⟩ := Prog.runsE_throw_iff.mp hrest
    exact Or.inl ⟨rfl, rfl⟩
  obtain ⟨_, w₂, h₂, h⟩ := hop_bind_iff.mp hrest
  obtain ⟨res, w₃, h₃, h⟩ := hop_bind_iff.mp h
  have hfetch : Course Q w₁ [.fetchContent l.currentAgentId] w₃ :=
    (runs_emit h₂ ▸ Course.turn w₁ rfl : Course Q w₁ [.fetchContent l.currentAgentId] w₂).trans
      (.of_frame (frame_of_steps (steps_fetchContent permits_frame _) h₃))
  cases res with
  | ok content =>
    obtain ⟨_, w₄, h₄, h⟩ := hop_bind_iff.mp h
    obtain ⟨rfl, rfl⟩ := Prog.runsE_pure_iff.mp h
    refine Or.inr (Or.inr ⟨content, rfl, hfetch.trans ?_⟩)
    exact runs_emit h₄ ▸ Course.turn w₃ rfl
  | error e =>
    obtain ⟨_, w₄, h₄, h⟩ := hop_bind_iff.mp h
    obtain ⟨rfl, rfl⟩ := Prog.runsE_throw_iff.mp h
    exact Or.inr (Or.inl ⟨_, rfl, hfetch.trans (course_error h₄)⟩)

theorem buildProvider_bind {f : String → Hop α} {r : Except HopEnd α}
    (h : RunsE (buildProvider s l >>= f) w r w') :
    (∃ text, r = .error (noReply s l .presetError) ∧
        Course Q w [.sse (.error 5007 text)] w') ∨
      ∃ model, RunsE (f model) w r w' := by
  rcases Prog.runsE_bind_iff.mp h with ⟨e, h₁, rfl⟩ | ⟨model, w₁, h₁, hf⟩
  · obtain ⟨p, w₂, h₂, h₁⟩ := hop_bind_iff.mp h₁
    obtain ⟨-, rfl⟩ := runs_look h₂
    cases p with
    | ok model =>
      obtain ⟨hr, -⟩ := Prog.runsE_pure_iff.mp h₁
      cases hr
    | error text =>
      obtain ⟨_, w₃, h₃, h₁⟩ := hop_bind_iff.mp h₁
      obtain ⟨hr, rfl⟩ := Prog.runsE_throw_iff.mp h₁
      cases hr
      exact Or.inl ⟨_, rfl, course_error h₃⟩
  · obtain ⟨p, w₂, h₂, h₁⟩ := hop_bind_iff.mp h₁
    obtain ⟨-, rfl⟩ := runs_look h₂
    cases p with
    | ok model' =>
      obtain ⟨-, rfl⟩ := Prog.runsE_pure_iff.mp h₁
      exact Or.inr ⟨model, hf⟩
    | error text =>
      obtain ⟨_, w₃, -, h₁⟩ := hop_bind_iff.mp h₁
      obtain ⟨hr, -⟩ := Prog.runsE_throw_iff.mp h₁
      cases hr

theorem course_tokens {texts : List String} {u : Unit}
    (h : (Rt.forEach texts fun text => Rt.sse (.token text)).Runs w u w') :
    Course Q w [] w' := by
  induction texts generalizing w with
  | nil =>
    obtain ⟨-, rfl⟩ := Prog.runs_done_iff.mp h
    exact .refl _
  | cons text rest ih =>
    obtain ⟨_, w₁, h₁, h₂⟩ := Prog.runs_bind_iff.mp h
    have htoken : Course Q w [] w₁ := runs_emit h₁ ▸ .quiet w rfl (.token text)
    exact htoken.trans (ih h₂)

theorem course_chatStream {messages : List Json} {resp : LLMResponse} (hreq : Q messages)
    (h : (chatStream messages).Runs w resp w') : Course Q w [] w' := by
  obtain ⟨_, w₁, h₁, h⟩ := Prog.runs_bind_iff.mp h
  obtain ⟨answer, w₂, h₂, h⟩ := Prog.runs_bind_iff.mp h
  obtain ⟨_, w₃, h₃, h⟩ := Prog.runs_bind_iff.mp h
  obtain ⟨-, rfl⟩ := Prog.runs_done_iff.mp h
  have hsent : Course Q w [] w₁ := runs_emit h₁ ▸ .quiet w rfl (.modelRequest hreq)
  exact (hsent.trans (.of_frame (frame_of_steps (steps_ask permits_frame _) h₂))).trans (course_tokens h₃)

def HopRequest (l : Locals) (req : List Json) : Prop :=
  ∃ prompt, req = message "system" prompt :: l.messages

/-- The exits before the model has answered. -/
def Exit.NoAnswer (exit : Exit) : Prop :=
  exit = .hookBlocked ∨ exit = .presetError ∨ exit = .modelError

theorem askModel_cases {r : Except HopEnd LLMResponse}
    (h : RunsE (askModel env s content l) w r w') :
    (∃ resp, r = .ok resp ∧ Course (HopRequest l) w [] w') ∨
      ∃ exit code text, exit.NoAnswer ∧ r = .error (noReply s l exit) ∧
        Course (HopRequest l) w [.sse (.error code text)] w' := by
  rcases guardHooks_bind (Q := HopRequest l) (by decide) h with ⟨text, hr, hc⟩ | ⟨w₁, hc₁, h⟩
  · exact Or.inr ⟨_, _, text, Or.inl rfl, hr, hc⟩
  rcases buildProvider_bind (Q := HopRequest l) h with ⟨text, hr, hc⟩ | ⟨model, h⟩
  · exact Or.inr ⟨_, _, text, Or.inr (Or.inl rfl), hr, hc₁.trans hc⟩
  rcases guardHooks_bind (Q := HopRequest l) (by decide) h with ⟨text, hr, hc⟩ | ⟨w₃, hc₃, h⟩
  · exact Or.inr ⟨_, _, text, Or.inl rfl, hr, hc₁.trans hc⟩
  obtain ⟨resp, w₄, h₄, h⟩ := hop_bind_iff.mp h
  have hasked : Course (HopRequest l) w [] w₄ :=
    (hc₁.trans hc₃).trans (course_chatStream ⟨_, rfl⟩ h₄)
  split at h
  · obtain ⟨_, w₅, h₅, h⟩ := hop_bind_iff.mp h
    obtain ⟨_, w₆, h₆, h⟩ := hop_bind_iff.mp h
    obtain ⟨_, w₇, h₇, h⟩ := hop_bind_iff.mp h
    obtain ⟨rfl, rfl⟩ := Prog.runsE_throw_iff.mp h
    have hended : Course (HopRequest l) w₅ [] w' :=
      (course_agentHooks (by decide) h₆).trans (.silent (silent_close (Or.inr rfl) h₇).1)
    refine Or.inr ⟨_, errorCode resp, errorText resp, Or.inr (Or.inr rfl), rfl, ?_⟩
    simpa using (hasked.trans (course_error h₅)).trans hended
  · obtain ⟨_, w₅, h₅, h⟩ := hop_bind_iff.mp h
    obtain ⟨rfl, rfl⟩ := Prog.runsE_pure_iff.mp h
    exact Or.inl ⟨resp, rfl, hasked.trans (course_agentHooks (by decide) h₅)⟩

-- ---
-- Tool calls
-- ---

/-- The routes that the tool calls of a response come to, one after the other. -/
def acceptedRoutes (content : AgentContent) :
    List Int → List ToolCallRequest → List (Int × String)
  | _, [] => []
  | visited, tc :: rest =>
    match callRoute content visited tc with
    | some target => target :: acceptedRoutes content (visited ++ [target.1]) rest
    | none => acceptedRoutes content visited rest

-- the state of the tool loop after a route
def ToolState.route (st : ToolState) : Option (Int × String) → ToolState
  | some target => { st with routedTo := some target.1, visited := st.visited ++ [target.1] }
  | none => st

variable {a : Int} {text : String}

theorem guardTool_bind {f : Unit → Hop α} {r : Except HopEnd α}
    (h : RunsE (guardTool env s content a >>= f) w r w') :
    (∃ msg, r = .error (toolEnd content a .toolBlocked blockedText) ∧
        Course Q w [.sse (.error 6005 msg)] w' ∧ w'.ctx.lifecycleState ≠ .active) ∨
      ∃ w₁, Course Q w [] w₁ ∧ RunsE (f ()) w₁ r w' := by
  have hguard : ∀ {q : Except HopEnd Unit} {w₁ : World},
      RunsE (guardTool env s content a) w q w₁ →
      (q = .ok () ∧ Course Q w [] w₁) ∨
        ∃ msg, q = .error (toolEnd content a .toolBlocked blockedText) ∧
          Course Q w [.sse (.error 6005 msg)] w₁ ∧ w₁.ctx.lifecycleState ≠ .active := by
    intro q w₁ hq
    obtain ⟨res, w₂, h₁, hq⟩ := hop_bind_iff.mp hq
    have hhooks := course_agentHooks (Q := Q) (by decide) h₁
    cases res with
    | ok u =>
      obtain ⟨rfl, rfl⟩ := Prog.runsE_pure_iff.mp hq
      exact Or.inl ⟨rfl, hhooks⟩
    | error e =>
      obtain ⟨_, w₃, h₂, hq⟩ := hop_bind_iff.mp hq
      obtain ⟨_, w₄, h₃, hq⟩ := hop_bind_iff.mp hq
      obtain ⟨_, w₅, h₄, hq⟩ := hop_bind_iff.mp hq
      obtain ⟨rfl, rfl⟩ := Prog.runsE_throw_iff.mp hq
      obtain ⟨hclose, hstate⟩ := silent_close (Or.inr rfl) h₄
      have hsilent : Course Q w₃ [] w₁ := .silent ((silent_setResponsePayload h₃).trans hclose)
      exact Or.inr ⟨e, rfl, (hhooks.trans (course_error h₂)).trans hsilent, hstate⟩
  rcases Prog.runsE_bind_iff.mp h with ⟨e, h₁, rfl⟩ | ⟨_, w₁, h₁, hf⟩
  · rcases hguard h₁ with ⟨hq, -⟩ | ⟨msg, hq, hc, hstate⟩
    · cases hq
    · cases hq
      exact Or.inl ⟨msg, rfl, hc, hstate⟩
  · rcases hguard h₁ with ⟨-, hc⟩ | ⟨msg, hq, -⟩
    · exact Or.inr ⟨w₁, hc, hf⟩
    · cases hq

variable {st : ToolState} {r : Except HopEnd ToolState}

/-- A route that is accepted; the loop that the source guards against does not
come up, for `handle_route_tool` has refused it. -/
theorem takeRoute_cases {outcome : ToolOutcome}
    (hnew : ∀ target, outcome.target = some target → target.1 ∉ st.visited)
    (h : RunsE (takeRoute env content a hop text st outcome) w r w') :
    r = .ok (st.route outcome.target) ∧
      Course Q w (outcome.target.toList.map routedEvent) w' := by
  unfold takeRoute at h
  cases hroute : outcome.routeTo with
  | none =>
    rw [hroute] at h
    obtain ⟨rfl, rfl⟩ := Prog.runsE_pure_iff.mp h
    have htarget : outcome.target = none := by rw [ToolOutcome.target, hroute, Option.map_none]
    rw [htarget]
    exact ⟨rfl, .refl _⟩
  | some next =>
    have htarget : outcome.target = some (next, outcome.routeIdentifier.getD "") := by
      rw [ToolOutcome.target, hroute, Option.map_some]
    have hfresh : next ∉ st.visited := hnew _ htarget
    simp only [hroute, if_neg hfresh] at h
    obtain ⟨_, w₁, h₁, h⟩ := hop_bind_iff.mp h
    obtain ⟨rfl, rfl⟩ := Prog.runsE_pure_iff.mp h
    have hcourse : Course Q w [routedEvent (next, outcome.routeIdentifier.getD "")] w' :=
      course_recordRoute h₁
    rw [htarget]
    exact ⟨rfl, hcourse⟩

theorem runTool_cases {tc : ToolCallRequest}
    (h : RunsE (runTool env s content a hop text st tc) w r w') :
    (∃ msg, r = .error (toolEnd content a .toolBlocked blockedText) ∧
        Course Q w [.sse (.error 6005 msg)] w' ∧ w'.ctx.lifecycleState ≠ .active) ∨
      ∃ payload, r = .ok (ToolState.route
          { st with messages := st.messages ++ [toolMessage env tc payload] }
          (callRoute content st.visited tc)) ∧
        Course Q w ((callRoute content st.visited tc).toList.map routedEvent) w' := by
  rcases guardTool_bind (Q := Q) h with ⟨msg, hr, hc, hstate⟩ | ⟨w₁, hc₁, h⟩
  · exact Or.inl ⟨msg, hr, hc, hstate⟩
  obtain ⟨_, w₂, h₂, h⟩ := hop_bind_iff.mp h
  obtain ⟨outcome, w₃, h₃, h⟩ := hop_bind_iff.mp h
  obtain ⟨_, w₄, h₄, h⟩ := hop_bind_iff.mp h
  obtain ⟨_, w₅, h₅, h⟩ := hop_bind_iff.mp h
  obtain ⟨_, w₆, h₆, h⟩ := hop_bind_iff.mp h
  have hcall : Course Q w₁ [] w₂ := runs_emit h₂ ▸ .quiet w₁ rfl (.toolCall _ _ _)
  have hhandled : Course Q w₂ [] w₃ :=
    .of_frame (frame_of_steps (steps_handleToolCall permits_frame env content st.visited tc) h₃)
  have hresult : Course Q w₃ [] w₄ := runs_emit h₄ ▸ .quiet w₃ rfl (.toolResult _ _)
  have hbefore : Course Q w [] w₆ :=
    ((((hc₁.trans hcall).trans hhandled).trans hresult).trans
      (course_agentHooks (by decide) h₅)).trans (.silent (silent_recordTool h₆))
  have htarget := handleToolCall_route h₃
  obtain ⟨hr, hc⟩ := takeRoute_cases (Q := Q) (by
    intro target ht
    exact (callRoute_eq_some (htarget ▸ ht)).2) h
  rw [htarget] at hr hc
  exact Or.inr ⟨outcome.payload, hr, hbefore.trans hc⟩

/-- The whole loop over the tool calls: one message for each call, in order,
and one event for each accepted route; or a hook ends the session on the way. -/
theorem runTools_cases {calls : List ToolCallRequest}
    (h : RunsE (runTools env s content a hop text calls st) w r w') :
    (∃ routes msg, routes <+: acceptedRoutes content st.visited calls ∧
        r = .error (toolEnd content a .toolBlocked blockedText) ∧
        Course Q w (routes.map routedEvent ++ [.sse (.error 6005 msg)]) w' ∧
        w'.ctx.lifecycleState ≠ .active) ∨
      ∃ payloads : List Json, payloads.length = calls.length ∧
        r = .ok
          { messages := st.messages ++ List.zipWith (toolMessage env) calls payloads
            visited := st.visited ++ (acceptedRoutes content st.visited calls).map Prod.fst
            routedTo := ((acceptedRoutes content st.visited calls).getLast?.map Prod.fst).or
              st.routedTo } ∧
        Course Q w ((acceptedRoutes content st.visited calls).map routedEvent) w' := by
  induction calls generalizing st w with
  | nil =>
    obtain ⟨rfl, rfl⟩ := Prog.runsE_pure_iff.mp h
    exact Or.inr ⟨[], rfl, by simp [acceptedRoutes], .refl _⟩
  | cons tc rest ih =>
    rcases Prog.runsE_bind_iff.mp h with ⟨e, h₁, rfl⟩ | ⟨st₁, w₁, h₁, hrest⟩
    · rcases runTool_cases (Q := Q) h₁ with ⟨msg, hr, hc, hstate⟩ | ⟨payload, hr, -⟩
      · cases hr
        exact Or.inl ⟨[], msg, List.nil_prefix, rfl, hc, hstate⟩
      · cases hr
    · rcases runTool_cases (Q := Q) h₁ with ⟨msg, hr, -⟩ | ⟨payload, hr, hc₁⟩
      · cases hr
      cases hr
      cases hroute : callRoute content st.visited tc with
      | none =>
        rw [hroute] at hrest hc₁
        have hroutes : acceptedRoutes content st.visited (tc :: rest) =
            acceptedRoutes content st.visited rest := by
          rw [acceptedRoutes, hroute]
        rw [hroutes]
        rcases ih hrest with ⟨routes, msg, hp, hr, hc, hstate⟩ | ⟨payloads, hlen, hr, hc⟩
        · exact Or.inl ⟨routes, msg, hp, hr, hc₁.trans hc, hstate⟩
        · refine Or.inr ⟨payload :: payloads, by simp [hlen], ?_, hc₁.trans hc⟩
          rw [hr]
          simp [ToolState.route]
      | some target =>
        rw [hroute] at hrest hc₁
        have hroutes : acceptedRoutes content st.visited (tc :: rest) =
            target :: acceptedRoutes content (st.visited ++ [target.1]) rest := by
          rw [acceptedRoutes, hroute]
        rw [hroutes]
        rcases ih hrest with ⟨routes, msg, hp, hr, hc, hstate⟩ | ⟨payloads, hlen, hr, hc⟩
        · refine Or.inl ⟨target :: routes, msg, ?_, hr, hc₁.trans hc, hstate⟩
          exact List.cons_prefix_cons.mpr ⟨rfl, hp⟩
        · refine Or.inr ⟨payload :: payloads, by simp [hlen], ?_, hc₁.trans hc⟩
          rw [hr]
          simp [ToolState.route, List.getLast?_cons]

-- ---
-- Hops
-- ---

theorem afterTools_cases {r : Except HopEnd Locals}
    (h : RunsE (afterTools env content l hop text st) w r w') :
    (w'.ctx.getMetadata "agent_loop_break" = some "true" ∧
        r = .error (reply content l .loopBreak (loopReply w'.ctx)) ∧ Course Q w [] w') ∨
      (∃ next, st.routedTo = some next ∧ r = .ok (nextLocals content l st) ∧
        Course Q w [] w') ∨
      (st.routedTo = none ∧ hop + 1 = env.maxHops ∧
        r = .error (reply content l .hopLimit text) ∧
        ∃ msg, Course Q w [.sse (.error 5006 msg)] w') ∨
      (st.routedTo = none ∧ hop + 1 ≠ env.maxHops ∧ r = .ok (nextLocals content l st) ∧
        Course Q w [] w') := by
  obtain ⟨ctx, w₁, h₁, hrest⟩ := hop_bind_iff.mp h
  obtain ⟨rfl, rfl⟩ := runs_getCtx h₁
  clear h
  split at hrest
  · next hbreak =>
    obtain ⟨_, w₂, h₂, hrest⟩ := hop_bind_iff.mp hrest
    obtain ⟨_, w₃, h₃, hrest⟩ := hop_bind_iff.mp hrest
    obtain ⟨rfl, rfl⟩ := Prog.runsE_throw_iff.mp hrest
    have hsilent : After w₁ [] w' :=
      (silent_recordChange h₂).trans (silent_close (Or.inl rfl) h₃).1
    have hkey : ∀ key, w'.ctx.getMetadata key = w₁.ctx.getMetadata key := hsilent.metadata
    refine Or.inl ⟨?_, ?_, .silent hsilent⟩
    · rw [hkey, hbreak]
    · unfold loopReply
      rw [hkey]
  cases hrouted : st.routedTo with
  | some next =>
    simp only [hrouted] at hrest
    obtain ⟨_, w₂, h₂, hrest⟩ := hop_bind_iff.mp hrest
    obtain ⟨rfl, rfl⟩ := Prog.runsE_pure_iff.mp hrest
    exact Or.inr (Or.inl ⟨next, rfl, rfl, .silent (silent_recordChange h₂)⟩)
  | none =>
    simp only [hrouted] at hrest
    split at hrest
    · next hlimit =>
      obtain ⟨_, w₂, h₂, hrest⟩ := hop_bind_iff.mp hrest
      obtain ⟨_, w₃, h₃, hrest⟩ := hop_bind_iff.mp hrest
      obtain ⟨rfl, rfl⟩ := Prog.runsE_throw_iff.mp hrest
      have hcourse := (course_error (Q := Q) h₂).trans
        (.silent (silent_close (Or.inr rfl) h₃).1)
      exact Or.inr (Or.inr (Or.inl ⟨rfl, hlimit, rfl, _, hcourse⟩))
    · next hlimit =>
      obtain ⟨rfl, rfl⟩ := Prog.runsE_pure_iff.mp hrest
      exact Or.inr (Or.inr (Or.inr ⟨rfl, hlimit, rfl, .refl _⟩))

end Hop

/-- The variables after a hop whose response had tool calls. -/
def Locals.next (env : Env) (content : AgentContent) (l : Locals) (resp : LLMResponse)
    (payloads : List Json) : Locals :=
  let routes := acceptedRoutes content l.visited resp.toolCalls
  { currentAgentId := (routes.getLast?.map Prod.fst).getD l.currentAgentId
    visited := l.visited ++ routes.map Prod.fst
    messages := l.messages ++ [assistantMessage env resp] ++
      List.zipWith (toolMessage env) resp.toolCalls payloads
    lastHooks := some content.hooks, lastIdentifier := some content.identifier }

/-- The turns of a hop up to the answer of the model. -/
def answerTurns (l : Locals) (content : AgentContent) : List Event :=
  [.fetchContent l.currentAgentId, .loaded l.currentAgentId content]

/-- The turns of a hop up to the end of its tool calls, if `routes` of them were
accepted. -/
def toolTurns (l : Locals) (content : AgentContent) (resp : LLMResponse)
    (routes : List (Int × String)) : List Event :=
  answerTurns l content ++ .toolCalls content l.visited resp :: routes.map routedEvent

/-- What a hop can come to: its turns, its result and the state it leaves. -/
inductive HopTurns (env : Env) (s : Session) (hop : Nat) (l : Locals) :
    List Event → Except HopEnd Locals → World → Prop
  | cancelled {w' : World} : HopTurns env s hop l [] (.error .cancelled) w'
  | contentFailed {w' : World} (msg : String) :
      HopTurns env s hop l [.fetchContent l.currentAgentId, .sse (.error 5000 msg)]
        (.error (noReply s l .contentFailed)) w'
  | noAnswer {w' : World} {exit : Exit} (content : AgentContent) (code : Nat) (msg : String)
      (hexit : exit.NoAnswer) :
      HopTurns env s hop l (answerTurns l content ++ [.sse (.error code msg)])
        (.error (noReply s (l.remember content) exit)) w'
  | answered {w' : World} (content : AgentContent) (text : String) :
      HopTurns env s hop l (answerTurns l content)
        (.error (reply content l .answered (filterOutput env text))) w'
  | toolBlocked {w' : World} (content : AgentContent) (resp : LLMResponse)
      {routes : List (Int × String)} (msg : String)
      (hroutes : routes <+: acceptedRoutes content l.visited resp.toolCalls)
      (hstate : w'.ctx.lifecycleState ≠ .active) :
      HopTurns env s hop l (toolTurns l content resp routes ++ [.sse (.error 6005 msg)])
        (.error (toolEnd content l.currentAgentId .toolBlocked blockedText)) w'
  | loopBreak {w' : World} (content : AgentContent) (resp : LLMResponse)
      (hbreak : w'.ctx.getMetadata "agent_loop_break" = some "true") :
      HopTurns env s hop l
        (toolTurns l content resp (acceptedRoutes content l.visited resp.toolCalls))
        (.error (reply content l .loopBreak (loopReply w'.ctx))) w'
  | hopLimit {w' : World} (content : AgentContent) (resp : LLMResponse) (msg : String)
      (hroutes : acceptedRoutes content l.visited resp.toolCalls = [])
      (hlimit : hop + 1 = env.maxHops) :
      HopTurns env s hop l (toolTurns l content resp [] ++ [.sse (.error 5006 msg)])
        (.error (reply content l .hopLimit (resp.content.getD ""))) w'
  | next {w' : World} (content : AgentContent) (resp : LLMResponse) {payloads : List Json}
      (hcalls : resp.toolCalls ≠ []) (hlen : payloads.length = resp.toolCalls.length)
      (hgoes : acceptedRoutes content l.visited resp.toolCalls ≠ [] ∨ hop + 1 ≠ env.maxHops) :
      HopTurns env s hop l
        (toolTurns l content resp (acceptedRoutes content l.visited resp.toolCalls))
        (.ok (l.next env content resp payloads)) w'

/-- One hop. -/
theorem runHop_turns {env : Env} {s : Session} {hop : Nat} {l : Locals} {r : Except HopEnd Locals}
    (h : RunsE (runHop env s hop l) w r w') :
    ∃ ts, Course (HopRequest l) w ts w' ∧ HopTurns env s hop l ts r w' := by
  -- the agent
  rcases Prog.runsE_bind_iff.mp h with ⟨e, h₁, rfl⟩ | ⟨content, w₁, h₁, h⟩
  · rcases loadAgent_cases (Q := HopRequest l) h₁ with
      ⟨hr, rfl⟩ | ⟨msg, hr, hc⟩ | ⟨content, hr, -⟩
    · cases hr
      exact ⟨[], .refl _, .cancelled⟩
    · cases hr
      exact ⟨_, hc, .contentFailed msg⟩
    · cases hr
  rcases loadAgent_cases (Q := HopRequest l) h₁ with ⟨hr, -⟩ | ⟨msg, hr, -⟩ | ⟨c, hr, hloaded⟩
  · cases hr
  · cases hr
  cases hr
  -- the answer of the model
  rcases Prog.runsE_bind_iff.mp h with ⟨e, h₂, rfl⟩ | ⟨resp, w₂, h₂, h⟩
  · rcases askModel_cases h₂ with ⟨resp, hr, -⟩ | ⟨exit, code, msg, hexit, hr, hc⟩
    · cases hr
    · cases hr
      exact ⟨_, hloaded.trans hc, .noAnswer content code msg hexit⟩
  rcases askModel_cases h₂ with ⟨resp', hr, hasked⟩ | ⟨exit, code, msg, -, hr, -⟩
  swap
  · cases hr
  cases hr
  have hanswer : Course (HopRequest l) w (answerTurns l content) w₂ := hloaded.trans hasked
  dsimp only at h
  split at h
  · obtain ⟨rfl, rfl⟩ := Prog.runsE_throw_iff.mp h
    exact ⟨_, hanswer, .answered content _⟩
  next hexec =>
  -- from here on the answer has tool calls
  have hcalls : resp.toolCalls ≠ [] := by
    intro hnil
    simp [LLMResponse.shouldExecuteTools, hnil] at hexec
  obtain ⟨_, w₃, h₃, h⟩ := hop_bind_iff.mp h
  have hcalled : Course (HopRequest l) w (toolTurns l content resp []) w₃ :=
    hanswer.trans (runs_emit h₃ ▸ .turn w₂ rfl)
  rcases Prog.runsE_bind_iff.mp h with ⟨e, h₄, rfl⟩ | ⟨st, w₄, h₄, h⟩
  · rcases runTools_cases (Q := HopRequest l) h₄ with
      ⟨routes, msg, hp, hr, hc, hstate⟩ | ⟨payloads, -, hr, -⟩
    · cases hr
      refine ⟨_, ?_, .toolBlocked content resp msg hp hstate⟩
      simpa [toolTurns] using hcalled.trans hc
    · cases hr
  rcases runTools_cases (Q := HopRequest l) h₄ with
    ⟨routes, msg, -, hr, -⟩ | ⟨payloads, hlen, hr, hc⟩
  · cases hr
  cases hr
  have htools : Course (HopRequest l) w
      (toolTurns l content resp (acceptedRoutes content l.visited resp.toolCalls)) w₄ := by
    simpa [toolTurns] using hcalled.trans hc
  -- how the hop goes on
  rcases afterTools_cases (Q := HopRequest l) h with
    ⟨hbreak, rfl, hc'⟩ | ⟨next, hnext, rfl, hc'⟩ | ⟨hnone, hlimit, rfl, msg, hc'⟩ |
      ⟨hnone, hlimit, rfl, hc'⟩
  · exact ⟨_, by simpa using htools.trans hc', .loopBreak content resp hbreak⟩
  · refine ⟨_, by simpa using htools.trans hc', ?_⟩
    have hroutes : acceptedRoutes content l.visited resp.toolCalls ≠ [] := by
      intro hnil
      simp [hnil] at hnext
    have hnext := @HopTurns.next env s hop l w' content resp payloads hcalls hlen (Or.inl hroutes)
    simpa [Locals.next, nextLocals] using hnext
  · have hroutes : acceptedRoutes content l.visited resp.toolCalls = [] := by
      simpa using hnone
    refine ⟨_, htools.trans hc', ?_⟩
    rw [hroutes]
    exact .hopLimit content resp msg hroutes hlimit
  · refine ⟨_, by simpa using htools.trans hc', ?_⟩
    have hnext := @HopTurns.next env s hop l w' content resp payloads hcalls hlen (Or.inr hlimit)
    simpa [Locals.next, nextLocals] using hnext

end HiveClaw.Runtime
