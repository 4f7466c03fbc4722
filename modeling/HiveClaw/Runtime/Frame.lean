import HiveClaw.Runtime.Tools

/-!
# What tools, hooks and workflows do to a session

The code that a session calls on the way (a hook, a tool, a workflow) may talk
to the model, execute functions and update the context; it never speaks to the
client, it never stores a message, and it leaves the lifecycle of the context
as it is. `Frame` says this of the state before and after such a piece of code.

* `After` — the trace tells what became of the metadata and of the extensions.
* `Execution.Authorized` — the check that was made before a function is
  executed, by the way in which the runtime came to it.
-/

namespace HiveClaw.Runtime

open Lib Context
open Lib.Prog (Steps)

-- ---
-- Contexts
-- ---

/-- What most operations on a context keep. -/
structure Kept (c c' : AgentContext) : Prop where
  metadata : c'.metadata = c.metadata
  extensions : c'.extensions = c.extensions
  lifecycle : c'.lifecycleState = c.lifecycleState

variable {c : AgentContext}

/-- What holds of a context before an operation and after it where it succeeds holds also where
its error is dropped. -/
theorem ignoring_induction {P : AgentContext → Prop} {r : Except ContextError AgentContext}
    (hc : P c) (hr : ∀ c', r = .ok c' → P c') : P (c.ignoring r) := by
  cases r with
  | error e => exact hc
  | ok c' => exact hr c' rfl

variable {lower : String → String} {c' : AgentContext}

/-- A record changes neither the metadata nor the extensions nor the lifecycle. -/
theorem setRecord_kept {now : Int} {category : Category} {key : String} {value : Json}
    {source : String} {iteration : Nat}
    (h : c.setRecord lower now category key value source iteration = .ok c') : Kept c c' := by
  simp only [AgentContext.setRecord, bind, Except.bind, pure, Except.pure] at h
  split at h
  · exact absurd h (by simp)
  split at h
  · exact absurd h (by simp)
  split at h
  · exact absurd h (by simp)
  · cases h
    exact ⟨rfl, rfl, rfl⟩

-- an operation that only asks whether the context is open
theorem guarded_kept {d : AgentContext}
    (h : (do c.checkWriteAllowed; pure d : Except ContextError AgentContext) = .ok c')
    (hd : Kept c d) : Kept c c' := by
  simp only [bind, Except.bind, pure, Except.pure] at h
  split at h
  · exact absurd h (by simp)
  · cases h
    exact hd

theorem checkWriteAllowed_eq_ok_iff (c : AgentContext) :
    c.checkWriteAllowed = .ok () ↔ c.lifecycleState = .active ∨ c.lifecycleState = .merging := by
  unfold AgentContext.checkWriteAllowed
  cases c.lifecycleState <;> simp

/-- An extension is taken exactly in a context that may be written. -/
theorem addExtension_eq_ok_iff {id : String} {content : ExtensionContent} :
    c.addExtension id content = .ok c' ↔
      c.checkWriteAllowed = .ok () ∧ c' = { c with extensions := c.extensions.insert id content } := by
  simp only [AgentContext.addExtension, bind, Except.bind, pure, Except.pure]
  cases c.checkWriteAllowed with
  | error e => simp
  | ok u => simp [eq_comm]

-- ---
-- Events
-- ---

def Event.isUpdate : Event → Bool
  | .contextUpdate _ _ _ => true
  | _ => false

/-- The value of a key of the metadata after an event. -/
def metadataAfter (key : String) (value : Option String) : Event → Option String
  | .contextUpdate _ _ (.metadata k v) => if k = key then some v else value
  | _ => value

/-- The value that the last update in a trace gave to a key. -/
def lastMetadata (key : String) (trace : List Event) : Option String :=
  trace.foldl (metadataAfter key) none

/-- The context takes an extension. -/
def AddsExtension : Event → Prop
  | .contextUpdate ctx _ (.extension _ _) => ctx.checkWriteAllowed = .ok ()
  | _ => False

/-- `w'` is `w` after the events `es`. -/
structure After (w : World) (es : List Event) (w' : World) : Prop where
  trace : w'.trace = w.trace ++ es
  metadata : ∀ key,
    w'.ctx.getMetadata key = es.foldl (metadataAfter key) (w.ctx.getMetadata key)
  extensions : w'.ctx.extensions.keys = [] ↔
    w.ctx.extensions.keys = [] ∧ ∀ e ∈ es, ¬AddsExtension e
  merging : w'.ctx.lifecycleState = .merging → w.ctx.lifecycleState = .merging

theorem After.refl (w : World) : After w [] w where
  trace := by simp
  metadata _ := rfl
  extensions := by simp
  merging h := h

variable {w : World}

/-- The events of two pieces of code are those of the first, then those of the second. -/
theorem After.trans {w₁ w₂ : World} {es es' : List Event} (h : After w es w₁)
    (h' : After w₁ es' w₂) : After w (es ++ es') w₂ where
  trace := by rw [h'.trace, h.trace, List.append_assoc]
  metadata key := by rw [h'.metadata key, h.metadata key, List.foldl_append]
  extensions := by
    rw [h'.extensions, h.extensions]
    simp only [List.mem_append]
    constructor
    · rintro ⟨⟨hk, he⟩, he'⟩
      exact ⟨hk, fun e hmem => hmem.elim (he e) (he' e)⟩
    · rintro ⟨hk, hall⟩
      exact ⟨⟨hk, fun e he => hall e (Or.inl he)⟩, fun e he => hall e (Or.inr he)⟩
  merging h₂ := h.merging (h'.merging h₂)

/-- An event that is no update leaves the context alone. -/
theorem After.log (w : World) {e : Event} (he : e.isUpdate = false) : After w [e] (w.log e) where
  trace := rfl
  metadata key := by
    cases e <;> first | rfl | exact absurd he (by simp [Event.isUpdate])
  extensions := by
    have hadd : ¬AddsExtension e := by
      cases e <;> first | exact id | exact absurd he (by simp [Event.isUpdate])
    simp [hadd]
  merging h := h

theorem After.silent (w : World) (hm : c.metadata = w.ctx.metadata)
    (he : c.extensions = w.ctx.extensions)
    (hl : c.lifecycleState = .merging → w.ctx.lifecycleState = .merging) :
    After w [] { w with ctx := c } where
  trace := by simp
  metadata key := by
    show c.metadata.lookup key = w.ctx.metadata.lookup key
    rw [hm]
  extensions := by simp [he]
  merging := hl

theorem After.kept (w : World) (h : Kept w.ctx c) : After w [] { w with ctx := c } :=
  .silent w h.metadata h.extensions fun hm => h.lifecycle ▸ hm

theorem ContextEntry.apply_lifecycle {now : DateTime} {entry : ContextEntry}
    (h : entry.apply lower now c = .ok c') : c'.lifecycleState = c.lifecycleState := by
  cases entry with
  | record category key value source iteration => exact (setRecord_kept h).lifecycle
  | extension id content =>
    obtain ⟨-, rfl⟩ := addExtension_eq_ok_iff.mp h
    rfl
  | metadata key value =>
    cases h
    rfl

-- the state after an entry has been applied or refused
def World.update (env : Env) (now : DateTime) (entry : ContextEntry) (w : World) : World :=
  { w.log (.contextUpdate w.ctx now entry) with
    ctx := w.ctx.ignoring (entry.apply env.lower now w.ctx) }

theorem update_lifecycle (env : Env) (now : DateTime) (entry : ContextEntry) (w : World) :
    (w.update env now entry).ctx.lifecycleState = w.ctx.lifecycleState := by
  show (w.ctx.ignoring _).lifecycleState = _
  exact ignoring_induction (P := fun c => c.lifecycleState = w.ctx.lifecycleState) rfl
    fun c' h => ContextEntry.apply_lifecycle h

/-- The metadata after an update are what the event says of them. -/
theorem update_getMetadata (env : Env) (now : DateTime) (entry : ContextEntry) (w : World)
    (key : String) :
    (w.update env now entry).ctx.getMetadata key =
      metadataAfter key (w.ctx.getMetadata key) (.contextUpdate w.ctx now entry) := by
  show (w.ctx.ignoring _).getMetadata key = _
  cases entry with
  | record category k value source iteration =>
    refine ignoring_induction (P := fun c => c.getMetadata key = w.ctx.getMetadata key) rfl ?_
    intro c' h
    show c'.metadata.lookup key = w.ctx.metadata.lookup key
    rw [(setRecord_kept h).metadata]
  | extension id content =>
    refine ignoring_induction (P := fun c => c.getMetadata key = w.ctx.getMetadata key) rfl ?_
    intro c' h
    obtain ⟨-, rfl⟩ := addExtension_eq_ok_iff.mp h
    rfl
  | metadata k value =>
    show (w.ctx.metadata.insert k value).lookup key = _
    simp only [metadataAfter]
    split
    · next hk =>
      subst hk
      exact AList.lookup_insert _
    · next hk => exact AList.lookup_insert_ne (Ne.symm hk)

/-- No extension comes without an event that adds it. -/
theorem update_extensions (env : Env) (now : DateTime) (entry : ContextEntry) (w : World) :
    (w.update env now entry).ctx.extensions.keys = [] ↔
      w.ctx.extensions.keys = [] ∧ ¬AddsExtension (.contextUpdate w.ctx now entry) := by
  show (w.ctx.ignoring _).extensions.keys = [] ↔ _
  cases entry with
  | record category k value source iteration =>
    have hkeep : (w.ctx.ignoring ((ContextEntry.record category k value source iteration).apply
        env.lower now w.ctx)).extensions = w.ctx.extensions :=
      ignoring_induction (P := fun c => c.extensions = w.ctx.extensions) rfl
        fun c' h => (setRecord_kept h).extensions
    simp [hkeep, AddsExtension]
  | extension id content =>
    by_cases hw : w.ctx.checkWriteAllowed = .ok ()
    · have happly : (ContextEntry.extension id content).apply env.lower now w.ctx =
          .ok { w.ctx with extensions := w.ctx.extensions.insert id content } :=
        addExtension_eq_ok_iff.mpr ⟨hw, rfl⟩
      simp [happly, AgentContext.ignoring, AddsExtension, hw]
    · have hkeep : w.ctx.ignoring ((ContextEntry.extension id content).apply env.lower now w.ctx) =
          w.ctx :=
        ignoring_induction (P := fun c => c = w.ctx) rfl
          fun c' h => absurd (addExtension_eq_ok_iff.mp h).1 hw
      simp [hkeep, AddsExtension, hw]
  | metadata k value => simp [ContextEntry.apply, AgentContext.setMetadata, AgentContext.ignoring,
      AddsExtension]

theorem After.update (env : Env) (now : DateTime) (entry : ContextEntry) (w : World) :
    After w [.contextUpdate w.ctx now entry] (w.update env now entry) where
  trace := rfl
  metadata key := update_getMetadata env now entry w key
  extensions := by simpa using update_extensions env now entry w
  merging h := update_lifecycle env now entry w ▸ h

-- ---
-- Frames
-- ---

/-- The check before a function is executed: a tool needs the capabilities of
its own list, `invoke_function` those of the function, and a hook none. -/
def Execution.Authorized (x : Execution) : Prop :=
  match x.via with
  | .tool t => missingCapabilities t.requiredCapabilities x.permissions = []
  | .invokeFunction => ∀ f, x.function = some f →
    missingCapabilities (capabilityList f.requiredCapabilities) x.permissions = []
  | .hook _ => True

/-- The events of the code that a session calls, in a context whose lifecycle is
in the state `lc`. -/
inductive Inner (lc : LifecycleState) : Event → Prop
  | modelRequest (prompt : String) :
      Inner lc (.modelRequest [.obj [("role", .str "system"), ("content", .str prompt)]])
  | executed {x : Execution} (h : x.Authorized) : Inner lc (.executed x)
  | contextUpdate {ctx : AgentContext} (now : DateTime) (entry : ContextEntry)
      (h : ctx.lifecycleState = lc) : Inner lc (.contextUpdate ctx now entry)
  | webhook (url : String) (payload : Json) : Inner lc (.webhook url payload)

/-- What such code does to the state. -/
def Frame (w w' : World) : Prop :=
  ∃ es, After w es w' ∧ w'.ctx.lifecycleState = w.ctx.lifecycleState ∧
    ∀ e ∈ es, Inner w.ctx.lifecycleState e

theorem Frame.refl (w : World) : Frame w w := ⟨[], .refl w, rfl, by simp⟩

/-- A frame after a frame is a frame: the lifecycle is the same in between. -/
theorem Frame.trans {w w₁ w₂ : World} (h : Frame w w₁) (h' : Frame w₁ w₂) : Frame w w₂ := by
  obtain ⟨es, ha, hl, he⟩ := h
  obtain ⟨es', ha', hl', he'⟩ := h'
  refine ⟨es ++ es', ha.trans ha', hl'.trans hl, ?_⟩
  intro e hmem
  rcases List.mem_append.mp hmem with hmem | hmem
  · exact he e hmem
  · exact hl ▸ he' e hmem

/-- Code whose statements keep to the frame keeps to it over every run. -/
theorem frame_of_steps {α : Type} {p : Rt α} (hp : Steps Frame p) {w' : World} {a : α}
    (h : p.Runs w a w') : Frame w w' :=
  hp.runs Frame.refl (fun _ _ _ h₁ h₂ => h₁.trans h₂) h

/-- A relation that all statements of such code keep to: reading, leaving one of its events,
and applying an update. -/
structure Permits (R : World → World → Prop) : Prop where
  refl : ∀ w, R w w
  log : ∀ w {e : Event}, e.isUpdate = false → (∀ lc, Inner lc e) → R w (w.log e)
  update : ∀ env now entry w, R w (w.update env now entry)

/-- The frame permits every statement that tools, hooks and workflows are made of. -/
theorem permits_frame : Permits Frame where
  refl := .refl
  log w _ hu he := ⟨[_], .log w hu, rfl, by simpa using he _⟩
  update env now entry w :=
    ⟨[.contextUpdate w.ctx now entry], .update env now entry w, update_lifecycle env now entry w,
      by simpa using Inner.contextUpdate now entry rfl⟩

section Statements

variable {α : Type} {R : World → World → Prop} (hR : Permits R)

include hR

theorem steps_sync_read (f : Moment → World → α) : Steps R (Rt.sync fun m w => (f m w, w)) :=
  Prog.steps_modify fun _ w => hR.refl w

theorem steps_look (f : Moment → α) : Steps R (Rt.look f) := steps_sync_read hR fun m _ => f m

theorem steps_ask (f : Moment → α) : Steps R (Rt.ask f) :=
  Prog.steps_modify fun _ w => hR.refl w

theorem steps_query (f : Moment → α) : Steps R (Rt.query f) := steps_ask hR _

theorem steps_queryOrEmpty (f : Moment → List α) : Steps R (queryOrEmpty f) := by
  refine (steps_query hR f).bind fun rows => ?_
  cases rows with
  | ok rows => exact .done _
  | error e => exact .done _

theorem steps_injectSnapshot (input : Json) : Steps R (injectSnapshot input) :=
  steps_sync_read hR fun m w => injectAgentContextSnapshot m.rank w.ctx input

theorem steps_emit {e : Event} (hu : e.isUpdate = false) (he : ∀ lc, Inner lc e) :
    Steps R (Rt.emit e) :=
  Prog.steps_modify fun _ w => hR.log w hu he

omit hR in
theorem steps_forEach {β : Type} {xs : List β} {body : β → Rt Unit}
    (hbody : ∀ x, Steps R (body x)) : Steps R (Rt.forEach xs body) := by
  induction xs with
  | nil => exact .done _
  | cons x rest ih => exact (hbody x).bind fun _ => ih

/-- A timer cuts a piece of code off between two statements, so what each statement keeps to
still holds. -/
theorem steps_timeout {p : Rt α} (hp : Steps R p) : Steps R (Rt.timeout p) :=
  (steps_look hR Moment.timer).bind fun t => hp.timeout _ t

/-- Each entry under `_agent_context_updates` is one update. -/
theorem steps_applyAgentContextUpdates (env : Env) (output : Json) :
    Steps R (applyAgentContextUpdates env output) :=
  steps_forEach fun entry => Prog.steps_modify fun m w => hR.update env m.now entry w

variable {x : Execution}

theorem steps_callHandler (hx : x.Authorized) : Steps R (callHandler x) :=
  (steps_emit hR rfl fun _ => .executed hx).bind fun _ => steps_look hR _

theorem steps_invoke (hx : x.Authorized) : Steps R (invoke x) :=
  (steps_emit hR rfl fun _ => .executed hx).bind fun _ => steps_ask hR _

end Statements

end HiveClaw.Runtime
