import HiveClaw.Runtime.Session

/-!
# The payload of a session's context

Where a session ends, its reply goes into the `response_payload` of the
context, and the context is closed. A closed context refuses a payload, and
the refusal is thrown away; so it matters which of the two is done first.

* `Pays` — what a piece of the loop does to payload and lifecycle, by the way
  in which it ends.
* `carries_iff_open` — the reply of a session is in its context unless a tool
  broke the loop or the hops ran out.
-/

namespace HiveClaw.Runtime

open Lib Context
open Lib.Prog (Steps RunsE)

/-- The payload of a context is this text. -/
def Carries (ctx : AgentContext) (text : String) : Prop :=
  ctx.responsePayload = some (.new text)

-- ---
-- What leaves payload and lifecycle alone
-- ---

/-- Payload and lifecycle are as before. -/
structure Calm (w w' : World) : Prop where
  payload : w'.ctx.responsePayload = w.ctx.responsePayload
  lifecycle : w'.ctx.lifecycleState = w.ctx.lifecycleState

theorem Calm.refl (w : World) : Calm w w := ⟨rfl, rfl⟩

theorem Calm.trans {w w₁ w₂ : World} (h : Calm w w₁) (h' : Calm w₁ w₂) : Calm w w₂ :=
  ⟨h'.payload.trans h.payload, h'.lifecycle.trans h.lifecycle⟩

variable {lower : String → String} {c c' : AgentContext}

theorem setRecord_payload {now : Int} {category : Category} {key : String} {value : Json}
    {source : String} {iteration : Nat}
    (h : c.setRecord lower now category key value source iteration = .ok c') :
    c'.responsePayload = c.responsePayload := by
  simp only [AgentContext.setRecord, bind, Except.bind, pure, Except.pure] at h
  split at h
  · cases h
  split at h
  · cases h
  split at h
  · cases h
  · cases h
    rfl

-- an operation that only asks whether the context is open
theorem guarded_payload {d : AgentContext}
    (h : (do c.checkWriteAllowed; pure d : Except ContextError AgentContext) = .ok c')
    (hd : d.responsePayload = c.responsePayload) : c'.responsePayload = c.responsePayload := by
  simp only [bind, Except.bind, pure, Except.pure] at h
  split at h
  · cases h
  · cases h
    exact hd

theorem setLifecycleState_payload {target : LifecycleState}
    (h : c.setLifecycleState target = .ok c') : c'.responsePayload = c.responsePayload := by
  unfold AgentContext.setLifecycleState at h
  split at h
  · cases h
    rfl
  · cases h

variable {now : DateTime}

theorem ContextEntry.apply_payload {entry : ContextEntry} (h : entry.apply lower now c = .ok c') :
    c'.responsePayload = c.responsePayload := by
  cases entry with
  | record category key value source iteration => exact setRecord_payload h
  | extension id content => exact guarded_payload h rfl
  | metadata key value =>
    cases h
    rfl

theorem permits_calm : Permits Calm where
  refl := .refl
  log w _ _ _ := ⟨rfl, rfl⟩
  update env now entry w := by
    refine ⟨?_, update_lifecycle env now entry w⟩
    exact ignoring_induction (P := fun c => c.responsePayload = w.ctx.responsePayload) rfl
      fun c' h => ContextEntry.apply_payload h

variable {w w' : World}

theorem calm_of_steps {α : Type} {p : Rt α} (hp : Steps Calm p) {a : α} (h : p.Runs w a w') :
    Calm w w' :=
  hp.runs Calm.refl (fun _ _ _ h₁ h₂ => h₁.trans h₂) h

-- every event leaves the context alone
theorem calm_emit (e : Event) : Steps Calm (Rt.emit e) :=
  Prog.steps_modify fun _ _ => ⟨rfl, rfl⟩

theorem calm_tryCtx {op : DateTime → AgentContext → Except ContextError AgentContext}
    (hop : ∀ now c c', op now c = .ok c' →
      c'.responsePayload = c.responsePayload ∧ c'.lifecycleState = c.lifecycleState) :
    Steps Calm (Rt.tryCtx op) :=
  Prog.steps_modify fun m w =>
    ignoring_induction (P := fun c => Calm w { w with ctx := c }) (.refl w)
      fun c' h => ⟨(hop m.now w.ctx c' h).1, (hop m.now w.ctx c' h).2⟩

theorem calm_recordChange (env : Env) (hop : Nat) (key : String) (value : Json) :
    Steps Calm (recordChange env hop key value) :=
  calm_tryCtx fun _ _ _ h => ⟨setRecord_payload h, (setRecord_kept h).lifecycle⟩

theorem calm_recordTool (env : Env) (hop : Nat) (tc : ToolCallRequest) (payload : Json) :
    Steps Calm (recordTool env hop tc payload) := by
  have hcall : Steps Calm (Rt.tryCtx fun now ctx =>
      ctx.recordToolCall tc.name (.obj tc.arguments) (some payload)
        (if (payload.get "error").isSome then .failure else .success) now (some now)) :=
    calm_tryCtx fun _ _ _ h => ⟨guarded_payload h rfl, (guarded_kept h ⟨rfl, rfl, rfl⟩).lifecycle⟩
  exact hcall.bind fun _ =>
    calm_tryCtx fun _ _ _ h => ⟨setRecord_payload h, (setRecord_kept h).lifecycle⟩

theorem calm_recordRoute (env : Env) (hop : Nat) (fromAgent toAgent : Int) (identifier : String) :
    Steps Calm (recordRoute env hop fromAgent toAgent identifier) := by
  refine (calm_emit _).bind fun _ => ?_
  have hdelegation : Steps Calm (Rt.tryCtx fun now ctx => ctx.recordDelegation (toString toAgent) ""
      (.obj [("from_agent", .num (.int fromAgent)), ("via", .str "route_to_subagent")]) none true
      now none) :=
    calm_tryCtx fun _ _ _ h => ⟨guarded_payload h rfl, (guarded_kept h ⟨rfl, rfl, rfl⟩).lifecycle⟩
  exact hdelegation.bind fun _ => calm_recordChange env hop _ _

theorem calm_runHooks (env : Env) (hooks : List (String × List AgentHook)) (point : String)
    (ctx : HookContext) : Steps Calm (runHooks env hooks point ctx) := by
  refine (calm_emit _).bind fun _ => ?_
  split
  · exact .done _
  · exact steps_runHookList permits_calm env ctx _

theorem calm_chatStream (messages : List Json) : Steps Calm (chatStream messages) := by
  refine (calm_emit _).bind fun _ => ?_
  refine (steps_ask permits_calm _).bind fun answer => ?_
  exact (steps_forEach fun _ => calm_emit _).bind fun _ => .done _

-- ---
-- Pieces of the loop
-- ---

/-- The exits that close the context before the reply is handed over. -/
def Exit.ClosesFirst (exit : Exit) : Prop := exit = .loopBreak ∨ exit = .hopLimit

instance (exit : Exit) : Decidable exit.ClosesFirst := by
  unfold Exit.ClosesFirst
  infer_instance

/-- What a piece of the loop that starts in `w` has done to payload and lifecycle when it ends
with `r` in `w'`. -/
inductive Pays {α : Type} (w : World) : Except HopEnd α → World → Prop
  | ok {a : α} {w' : World} (h : Calm w w') : Pays w (.ok a) w'
  | cancelled {w' : World} : Pays w (.error .cancelled) w'
  | silent {e : Ending} {w' : World} (h : e.content = none) : Pays w (.error (.leave e)) w'
  | answered {e : Ending} {w' : World} (hexit : ¬e.exit.ClosesFirst) (h : Calm w w') :
      Pays w (.error (.leave e)) w'
  | closed {e : Ending} {w' : World} (hexit : e.exit.ClosesFirst)
      (hpayload : w'.ctx.responsePayload = w.ctx.responsePayload)
      (hclosed : w.ctx.lifecycleState = .active → w'.ctx.checkWriteAllowed ≠ .ok ()) :
      Pays w (.error (.leave e)) w'
  | finished {e : Ending} {text : String} {w' : World} (hexit : ¬e.exit.ClosesFirst)
      (hcontent : e.content = some text)
      (hcarries : w.ctx.lifecycleState = .active → Carries w'.ctx text) :
      Pays w (.error (.finish e)) w'

/-- The same of every run of the piece. -/
def PaysOf {α : Type} (m : Hop α) : Prop := ∀ w w' r, RunsE m w r w' → Pays w r w'

section Pieces

variable {α β : Type}

-- what came before has changed neither
variable {w w' : World}

theorem Pays.after_calm {w₁ : World} {r : Except HopEnd α} (hcalm : Calm w w₁) (h : Pays w₁ r w') :
    Pays w r w' := by
  cases h with
  | ok h => exact .ok (hcalm.trans h)
  | cancelled => exact .cancelled
  | silent h => exact .silent h
  | answered hexit h => exact .answered hexit (hcalm.trans h)
  | closed hexit hpayload hclosed =>
    exact .closed hexit (hpayload.trans hcalm.payload)
      fun hactive => hclosed (hcalm.lifecycle.trans hactive)
  | finished hexit hcontent hcarries =>
    exact .finished hexit hcontent fun hactive => hcarries (hcalm.lifecycle.trans hactive)

theorem Pays.cast {e : HopEnd} (h : Pays w (.error e : Except HopEnd α) w') :
    Pays w (.error e : Except HopEnd β) w' := by
  cases h with
  | cancelled => exact .cancelled
  | silent h => exact .silent h
  | answered hexit h => exact .answered hexit h
  | closed hexit hpayload hclosed => exact .closed hexit hpayload hclosed
  | finished hexit hcontent hcarries => exact .finished hexit hcontent hcarries

theorem PaysOf.bind {m : Hop α} {f : α → Hop β} (hm : PaysOf m) (hf : ∀ a, PaysOf (f a)) :
    PaysOf (m >>= f) := by
  intro w w' r h
  rcases Prog.runsE_bind_iff.mp h with ⟨e, h₁, rfl⟩ | ⟨a, w₁, h₁, h₂⟩
  · exact (hm _ _ _ h₁).cast
  · cases hm _ _ _ h₁ with
    | ok hcalm => exact (hf a _ _ _ h₂).after_calm hcalm

theorem paysOf_pure (a : α) : PaysOf (pure a : Hop α) := by
  intro w w' r h
  obtain ⟨rfl, rfl⟩ := Prog.runsE_pure_iff.mp h
  exact .ok (.refl _)

theorem paysOf_lift {p : Rt α} (hp : Steps Calm p) : PaysOf (Hop.lift p) := by
  intro w w' r h
  obtain ⟨a, hrun, rfl⟩ := Prog.runsE_lift_iff.mp h
  exact .ok (calm_of_steps hp hrun)

theorem paysOf_cancelled : PaysOf (throw .cancelled : Hop α) := by
  intro w w' r h
  obtain ⟨rfl, rfl⟩ := Prog.runsE_throw_iff.mp h
  exact .cancelled

-- an end without a reply, whatever is done to the context on the way
theorem paysOf_lift_noReply (p : Rt β) (s : Session) (l : Locals) (exit : Exit) :
    PaysOf (do
      let _ ← Hop.lift p
      throw (noReply s l exit) : Hop α) := by
  intro w w' r h
  obtain ⟨_, w₁, -, h⟩ := Prog.runsE_lift_bind_iff.mp h
  obtain ⟨rfl, rfl⟩ := Prog.runsE_throw_iff.mp h
  exact .silent rfl

variable {exit : Exit}

theorem paysOf_reply (content : AgentContent) (l : Locals) (hexit : ¬exit.ClosesFirst)
    (text : String) : PaysOf (throw (reply content l exit text) : Hop α) := by
  intro w w' r h
  obtain ⟨rfl, rfl⟩ := Prog.runsE_throw_iff.mp h
  exact .answered hexit (.refl _)

/-- The context is closed, then the reply is handed over. -/
theorem paysOf_close_reply (content : AgentContent) (l : Locals) (hexit : exit.ClosesFirst)
    {target : LifecycleState} (htarget : target = .completed ∨ target = .terminated)
    (text : String) :
    PaysOf (do
      let _ ← Hop.lift (Rt.tryCtx fun _ ctx => ctx.setLifecycleState target)
      throw (reply content l exit text) : Hop α) := by
  intro w w' r h
  obtain ⟨_, w₁, h₁, h⟩ := Prog.runsE_lift_bind_iff.mp h
  obtain ⟨rfl, rfl⟩ := Prog.runsE_throw_iff.mp h
  obtain ⟨now, rfl⟩ := runs_tryCtx h₁
  refine .closed hexit ?_ fun hactive => ?_
  · exact ignoring_induction (P := fun c => c.responsePayload = w.ctx.responsePayload) rfl
      fun c' hc => setLifecycleState_payload hc
  · have hvalid : w.ctx.lifecycleState.isValidTransition target = true := by
      rw [hactive]
      rcases htarget with rfl | rfl <;> rfl
    rw [Ne, checkWriteAllowed_eq_ok_iff]
    unfold AgentContext.setLifecycleState
    rw [if_pos hvalid]
    rcases htarget with rfl | rfl <;> simp [AgentContext.ignoring]

/-- The reply goes into the context, which is closed then. -/
theorem paysOf_toolEnd (content : AgentContent) (a : Int) (hexit : ¬exit.ClosesFirst)
    (text : String) :
    PaysOf (do
      let _ ← Hop.lift (Rt.tryCtx fun _ ctx => ctx.setResponsePayload (.new text))
      let _ ← Hop.lift (Rt.tryCtx fun _ ctx => ctx.setLifecycleState .terminated)
      throw (toolEnd content a exit text) : Hop α) := by
  intro w w' r h
  obtain ⟨_, w₁, h₁, h⟩ := Prog.runsE_lift_bind_iff.mp h
  obtain ⟨_, w₂, h₂, h⟩ := Prog.runsE_lift_bind_iff.mp h
  obtain ⟨rfl, rfl⟩ := Prog.runsE_throw_iff.mp h
  obtain ⟨now, rfl⟩ := runs_tryCtx h₁
  obtain ⟨now', rfl⟩ := runs_tryCtx h₂
  refine .finished hexit rfl fun hactive => ?_
  have hopen : w.ctx.checkWriteAllowed = .ok () :=
    (checkWriteAllowed_eq_ok_iff _).mpr (Or.inl hactive)
  simp [AgentContext.setResponsePayload, AgentContext.setLifecycleState, hopen, hactive,
    LifecycleState.isValidTransition, AgentContext.ignoring, Carries, bind, Except.bind, pure,
    Except.pure]

end Pieces

-- ---
-- Hops
-- ---

section Hop

variable {env : Env} {s : Session} {content : AgentContent} {l : Locals}

theorem pays_guardHooks (point : String) : PaysOf (guardHooks env s content l point) := by
  refine (paysOf_lift (calm_runHooks env _ _ _)).bind fun r => ?_
  cases r with
  | ok u => exact paysOf_pure ()
  | error e => exact paysOf_lift_noReply _ s l _

theorem pays_loadAgent : PaysOf (loadAgent s l) := by
  refine (paysOf_lift (steps_look permits_calm _)).bind fun cancelled => ?_
  split
  · exact paysOf_cancelled
  refine (paysOf_lift (calm_emit _)).bind fun _ => ?_
  refine (paysOf_lift (steps_fetchContent permits_calm _)).bind fun r => ?_
  cases r with
  | ok content => exact (paysOf_lift (calm_emit _)).bind fun _ => paysOf_pure content
  | error e => exact paysOf_lift_noReply _ s l _

theorem pays_askModel : PaysOf (askModel env s content l) := by
  refine (pays_guardHooks _).bind fun _ => ?_
  have hprovider : PaysOf (buildProvider s l) := by
    refine (paysOf_lift (steps_look permits_calm _)).bind fun p => ?_
    cases p with
    | ok model => exact paysOf_pure model
    | error e => exact paysOf_lift_noReply _ s l _
  refine hprovider.bind fun _ => (pays_guardHooks _).bind fun _ => ?_
  refine (paysOf_lift (calm_chatStream _)).bind fun resp => ?_
  split
  · refine (paysOf_lift (calm_emit _)).bind fun _ => ?_
    refine (paysOf_lift (calm_runHooks env _ _ _)).bind fun _ => ?_
    exact paysOf_lift_noReply _ s l _
  · exact (paysOf_lift (calm_runHooks env _ _ _)).bind fun _ => paysOf_pure resp

theorem pays_runTool (a : Int) (hop : Nat) (text : String) (st : ToolState)
    (tc : ToolCallRequest) : PaysOf (runTool env s content a hop text st tc) := by
  have hguard : PaysOf (guardTool env s content a) := by
    refine (paysOf_lift (calm_runHooks env _ _ _)).bind fun r => ?_
    cases r with
    | ok u => exact paysOf_pure ()
    | error e =>
      exact (paysOf_lift (calm_emit _)).bind fun _ => paysOf_toolEnd content a (by decide) _
  have htake : ∀ st outcome, PaysOf (takeRoute env content a hop text st outcome) := by
    intro st outcome
    unfold takeRoute
    split
    · exact paysOf_pure st
    split
    · exact (paysOf_lift (calm_emit _)).bind fun _ => paysOf_toolEnd content a (by decide) _
    · exact (paysOf_lift (calm_recordRoute env hop _ _ _)).bind fun _ => paysOf_pure _
  refine hguard.bind fun _ => ?_
  refine (paysOf_lift (calm_emit _)).bind fun _ => ?_
  refine (paysOf_lift (steps_handleToolCall permits_calm env content st.visited tc)).bind
    fun outcome => ?_
  refine (paysOf_lift (calm_emit _)).bind fun _ => ?_
  refine (paysOf_lift (calm_runHooks env _ _ _)).bind fun _ => ?_
  exact (paysOf_lift (calm_recordTool env hop tc _)).bind fun _ => htake _ outcome

theorem pays_runTools (a : Int) (hop : Nat) (text : String) (calls : List ToolCallRequest)
    (st : ToolState) : PaysOf (runTools env s content a hop text calls st) := by
  induction calls generalizing st with
  | nil => exact paysOf_pure st
  | cons tc rest ih => exact (pays_runTool a hop text st tc).bind fun st => ih st

theorem pays_afterTools (hop : Nat) (text : String) (st : ToolState) :
    PaysOf (afterTools env content l hop text st) := by
  refine (paysOf_lift (steps_sync_read permits_calm fun _ w => w.ctx)).bind fun ctx => ?_
  split
  · exact (paysOf_lift (calm_recordChange env hop _ _)).bind fun _ =>
      paysOf_close_reply content l (Or.inl rfl) (Or.inl rfl) _
  split
  · exact (paysOf_lift (calm_recordChange env hop _ _)).bind fun _ => paysOf_pure _
  split
  · exact (paysOf_lift (calm_emit _)).bind fun _ =>
      paysOf_close_reply content l (Or.inr rfl) (Or.inr rfl) _
  · exact paysOf_pure _

theorem pays_runHop (hop : Nat) : PaysOf (runHop env s hop l) := by
  refine pays_loadAgent.bind fun content => pays_askModel.bind fun resp => ?_
  dsimp only
  split
  · exact paysOf_reply content l (by decide) _
  refine (paysOf_lift (calm_emit _)).bind fun _ => ?_
  exact (pays_runTools _ hop _ _ _).bind fun st => pays_afterTools hop _ st

/-- The whole loop. -/
theorem pays_runHops (n hop : Nat) (l : Locals) {w w' : World} {e : HopEnd}
    (h : (runHops env s n hop l).Runs w e w') :
    Pays w (.error e : Except HopEnd Locals) w' := by
  induction n generalizing hop l w with
  | zero =>
    obtain ⟨rfl, rfl⟩ := Prog.runs_done_iff.mp h
    exact .silent rfl
  | succ n ih =>
    obtain ⟨r, w₁, h₁, h₂⟩ := Prog.runs_bind_iff.mp h
    have hpays := pays_runHop hop _ _ _ h₁
    cases r with
    | error e' =>
      obtain ⟨rfl, rfl⟩ := Prog.runs_done_iff.mp h₂
      exact hpays
    | ok l' =>
      cases hpays with
      | ok hcalm => exact (ih _ l' h₂).after_calm hcalm

end Hop

-- ---
-- Sessions
-- ---

theorem calm_finalize (env : Env) (s : Session) (e : Ending) : Steps Calm (finalize env s e) := by
  have hhooks : Steps Calm (endHooks env s e) := by
    unfold endHooks
    split
    · exact (calm_runHooks env _ _ _).bind fun _ => .done _
    · exact .done _
  have happend : ∀ text exts, Steps Calm (appendAssistantMessage text exts) := by
    intro text exts
    refine Steps.bind (Prog.steps_modify fun m w => ?_) fun inserted => ?_
    · split
      · exact .refl w
      · exact ⟨rfl, rfl⟩
    · split
      · exact (steps_query permits_calm _).bind fun row => .done _
      · exact .done _
  refine (steps_look permits_calm _).bind fun elapsed => hhooks.bind fun _ => ?_
  refine (steps_sync_read permits_calm fun m w =>
    (w.ctx, collectedExtensions m.rank w.ctx)).bind fun collected => ?_
  refine Steps.bind ?_ fun saved => (calm_emit _).bind fun _ => ?_
  · unfold storeMessage
    split
    · exact .done _
    · exact happend _ _
  · split
    · exact .done _
    · exact (calm_emit _).bind fun _ => .done _

theorem closeContext_payload {text : String} {u : Unit}
    (h : (closeContext (some text)).Runs w u w') :
    (w.ctx.checkWriteAllowed = .ok () → Carries w'.ctx text) ∧
      (w.ctx.checkWriteAllowed ≠ .ok () →
        w'.ctx.responsePayload = w.ctx.responsePayload) := by
  obtain ⟨_, w₁, h₁, h₂⟩ := Prog.runs_bind_iff.mp h
  obtain ⟨now, rfl⟩ := runs_tryCtx h₁
  obtain ⟨now', rfl⟩ := runs_tryCtx h₂
  have hkeeps : ∀ c : AgentContext,
      (c.ignoring (c.setLifecycleState .completed)).responsePayload = c.responsePayload :=
    fun c => ignoring_induction (P := fun c' => c'.responsePayload = c.responsePayload) rfl
      fun c' hc => setLifecycleState_payload hc
  unfold Carries
  rw [hkeeps]
  constructor
  · intro hopen
    simp [AgentContext.setResponsePayload, hopen, AgentContext.ignoring, bind, Except.bind, pure,
      Except.pure]
  · intro hshut
    cases hwrite : w.ctx.checkWriteAllowed with
    | ok u => exact absurd hwrite hshut
    | error e =>
      simp [AgentContext.setResponsePayload, hwrite, AgentContext.ignoring, bind, Except.bind]

/-- The reply of a session is in its context at the end unless the exit closes the context
first. -/
theorem carries_iff_open {env : Env} {s : Session} {r : SessionEnd}
    (h : (runSession env s).Runs (initialWorld env s now) r w') {e : Ending} {text : String}
    (hending : r.ending = some e) (hcontent : e.content = some text) :
    Carries w'.ctx text ↔ ¬e.exit.ClosesFirst := by
  obtain ⟨_, w₀, h₀, h⟩ := Prog.runs_bind_iff.mp h
  obtain ⟨he, w₁, h₁, h⟩ := Prog.runs_bind_iff.mp h
  obtain ⟨now', rfl⟩ := runs_tryCtx h₀
  have hpays := pays_runHops _ _ _ h₁
  cases he with
  | cancelled =>
    obtain ⟨rfl, -⟩ := Prog.runs_done_iff.mp h
    cases hending
  | leave e' =>
    obtain ⟨_, w₂, h₂, h⟩ := Prog.runs_bind_iff.mp h
    obtain ⟨saved, w₃, h₃, h⟩ := Prog.runs_bind_iff.mp h
    obtain ⟨rfl, rfl⟩ := Prog.runs_done_iff.mp h
    cases hending
    rw [hcontent] at h₂
    obtain ⟨htakes, hrefuses⟩ := closeContext_payload h₂
    have hfinal : w'.ctx.responsePayload = w₂.ctx.responsePayload :=
      (calm_of_steps (calm_finalize env s e) h₃).payload
    unfold Carries at htakes ⊢
    rw [hfinal]
    cases hpays with
    | silent hnone =>
      rw [hcontent] at hnone
      cases hnone
    | answered hexit hcalm =>
      refine ⟨fun _ => hexit, fun _ => htakes ?_⟩
      exact (checkWriteAllowed_eq_ok_iff _).mpr (Or.inl hcalm.lifecycle)
    | closed hexit hpayload hclosed =>
      rw [hrefuses (hclosed rfl), hpayload]
      exact ⟨nofun, fun hnot => absurd hexit hnot⟩
  | finish e' =>
    obtain ⟨saved, w₃, h₃, h⟩ := Prog.runs_bind_iff.mp h
    obtain ⟨rfl, rfl⟩ := Prog.runs_done_iff.mp h
    cases hending
    have hfinal : w'.ctx.responsePayload = w₁.ctx.responsePayload :=
      (calm_of_steps (calm_finalize env s e) h₃).payload
    cases hpays with
    | finished hexit hcontent' hcarries =>
      rw [hcontent] at hcontent'
      cases hcontent'
      unfold Carries at hcarries ⊢
      rw [hfinal]
      exact ⟨fun _ => hexit, fun _ => hcarries rfl⟩

end HiveClaw.Runtime
