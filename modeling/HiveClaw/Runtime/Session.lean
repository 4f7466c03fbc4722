import HiveClaw.Runtime.Hops

/-!
# What a session can come to

The loop of hops, the hooks at its end, and the message that is stored.
-/

namespace HiveClaw.Runtime

open Lib Context
open Lib.Prog (Steps RunsE)

-- ---
-- The loop
-- ---

/-- The messages of a hop: those of the request, and for each hop before it the
message of the model and one message for each of its tool calls. -/
inductive Grown (env : Env) (start : List Json) : List Json → Prop
  | start : Grown env start start
  | round {msgs : List Json} (resp : LLMResponse) {payloads : List Json}
      (h : Grown env start msgs) (hcalls : resp.toolCalls ≠ [])
      (hlen : payloads.length = resp.toolCalls.length) :
      Grown env start (msgs ++ [assistantMessage env resp] ++
        List.zipWith (toolMessage env) resp.toolCalls payloads)

def LoopRequest (env : Env) (start req : List Json) : Prop :=
  ∃ prompt msgs, Grown env start msgs ∧ req = message "system" prompt :: msgs

inductive LoopTurns (env : Env) (s : Session) :
    Nat → Nat → Locals → List Event → HopEnd → World → Prop
  | exhausted {hop : Nat} {l : Locals} {w' : World} :
      LoopTurns env s 0 hop l [] (noReply s l .exhausted) w'
  | stop {n hop : Nat} {l : Locals} {ts : List Event} {e : HopEnd} {w' : World}
      (h : HopTurns env s hop l ts (.error e) w') : LoopTurns env s (n + 1) hop l ts e w'
  | step {n hop : Nat} {l l' : Locals} {ts ts' : List Event} {e : HopEnd} {w₁ w' : World}
      (h : HopTurns env s hop l ts (.ok l') w₁)
      (hrest : LoopTurns env s n (hop + 1) l' ts' e w') :
      LoopTurns env s (n + 1) hop l (ts ++ ts') e w'

variable {s : Session} {hop n : Nat} {l : Locals} {w w' : World}

/-- The turns of the loop, hop by hop. -/
theorem runHops_turns {env : Env} {start : List Json} {e : HopEnd}
    (hl : Grown env start l.messages) (h : (runHops env s n hop l).Runs w e w') :
    ∃ ts, Course (LoopRequest env start) w ts w' ∧ LoopTurns env s n hop l ts e w' := by
  induction n generalizing hop l w with
  | zero =>
    obtain ⟨rfl, rfl⟩ := Prog.runs_done_iff.mp h
    exact ⟨[], .refl _, .exhausted⟩
  | succ n ih =>
    obtain ⟨r, w₁, h₁, hrest⟩ := Prog.runs_bind_iff.mp h
    obtain ⟨ts, hcourse, hturns⟩ := runHop_turns h₁
    have hcourse : Course (LoopRequest env start) w ts w₁ :=
      hcourse.mono fun req ⟨prompt, hreq⟩ => ⟨prompt, l.messages, hl, hreq⟩
    cases r with
    | error e' =>
      obtain ⟨rfl, rfl⟩ := Prog.runs_done_iff.mp hrest
      exact ⟨ts, hcourse, .stop hturns⟩
    | ok l' =>
      have hl' : Grown env start l'.messages := by
        cases hturns with
        | next content resp hcalls hlen hgoes => exact .round resp hl hcalls hlen
      obtain ⟨ts', hcourse', hturns'⟩ := ih hl' hrest
      exact ⟨ts ++ ts', hcourse.trans hcourse', .step hturns hturns'⟩

-- ---
-- The end
-- ---

theorem collectedExtensions_eq_nil_iff (rank : String → Nat) (ctx : AgentContext) :
    collectedExtensions rank ctx = [] ↔ ctx.extensions.keys = [] := by
  unfold collectedExtensions extensionsInOrder
  rw [List.map_eq_nil_iff, List.filterMap_eq_nil_iff]
  have hmem : ∀ id, id ∈ hashOrder rank ctx.extensions.keys ↔ id ∈ ctx.extensions.keys :=
    fun id => (hashOrder_perm rank _).mem_iff
  constructor
  · intro hall
    by_contra hne
    obtain ⟨id, hid⟩ := List.exists_mem_of_ne_nil _ hne
    have hnone := hall id ((hmem id).mpr hid)
    exact AList.lookup_eq_none.mp hnone hid
  · intro hnil id hid
    rw [hmem, hnil] at hid
    cases hid

/-- The events at the end: the stored message, `done`, and the extensions. -/
def endEvents (e : Ending) (stored : Bool) (text : String) (exts : List Json) (elapsed : Int) :
    List Event :=
  (if stored then [.saved text (extensionsField exts)] else []) ++
    .sse (.done elapsed (finalAgentId e)) ::
      (if exts = [] then [] else [.sse (.extensions (.arr exts))])

variable {e : Ending} {exts : List Json} {elapsed : Int} {ev : Event}

theorem endEvents_isTurn {stored : Bool} {text : String}
    (hev : ev ∈ endEvents e stored text exts elapsed) : ev.isTurn = true := by
  unfold endEvents at hev
  split at hev <;> split at hev <;> simp at hev
  · rcases hev with rfl | rfl <;> rfl
  · rcases hev with rfl | rfl | rfl <;> rfl
  · subst hev
    rfl
  · rcases hev with rfl | rfl <;> rfl

/-- What `finalize_with_variant` does with the end `e` of the loop. The context
of `w'` is the one whose extensions were collected. -/
inductive Finalized (e : Ending) (w : World) (saved : Option (String × Option Json))
    (w' : World) : Prop
  | mk {hooked : List Event} {exts : List Json} {stored : Bool} {elapsed : Int}
      (hhooked : (e.hooks = none ∨ e.identifier = none) ∧ hooked = [] ∨
        ∃ es, hooked = .hooks "after_agent_end" :: es ∧ ∀ e ∈ es, Inner w.ctx.lifecycleState e)
      (hafter : After w (hooked ++
        endEvents e stored ((finalText w'.ctx e.content exts).getD "") exts elapsed) w')
      (hexts : exts = [] ↔ w'.ctx.extensions.keys = [])
      (hstored : stored = true → ¬(finalText w'.ctx e.content exts = some "" ∧ exts = []))
      (hsaved : ∀ row, saved = some row → stored = true ∧
        row = ((finalText w'.ctx e.content exts).getD "", extensionsField exts))

variable {u : Unit}

theorem endHooks_after {env : Env} (h : (endHooks env s e).Runs w u w') :
    ∃ hooked, After w hooked w' ∧
      ((e.hooks = none ∨ e.identifier = none) ∧ hooked = [] ∨
        ∃ es, hooked = .hooks "after_agent_end" :: es ∧
          ∀ e ∈ es, Inner w.ctx.lifecycleState e) := by
  unfold endHooks at h
  split at h
  · obtain ⟨r, w₁, h₁, h⟩ := Prog.runs_bind_iff.mp h
    obtain ⟨-, rfl⟩ := Prog.runs_done_iff.mp h
    obtain ⟨es, hafter, -, hinner⟩ := runHooks_after h₁
    exact ⟨_, (After.log w rfl).trans hafter, Or.inr ⟨es, rfl, hinner⟩⟩
  · next hnone =>
    obtain ⟨-, rfl⟩ := Prog.runs_done_iff.mp h
    refine ⟨[], .refl _, Or.inl ⟨?_, rfl⟩⟩
    cases hh : e.hooks with
    | none => exact Or.inl rfl
    | some hooks =>
      cases hi : e.identifier with
      | none => exact Or.inr rfl
      | some identifier => exact absurd hi (hnone hooks identifier hh)

variable {saved : Option (String × Option Json)}

theorem appendAssistantMessage_cases {text : String} {exts : Option Json}
    (h : (appendAssistantMessage text exts).Runs w saved w') :
    (saved = none ∧ w' = w) ∨
      (w' = w.log (.saved text exts) ∧ ∀ row, saved = some row → row = (text, exts)) := by
  obtain ⟨inserted, w₁, h₁, hrest⟩ := Prog.runs_bind_iff.mp h
  obtain ⟨m, hi, hw⟩ := Prog.runs_modify_iff.mp h₁
  cases hdb : m.dbError with
  | some err =>
    simp only [hdb] at hi hw
    subst hi
    subst hw
    obtain ⟨rfl, rfl⟩ := Prog.runs_done_iff.mp hrest
    exact Or.inl ⟨rfl, rfl⟩
  | none =>
    simp only [hdb] at hi hw
    subst hi
    obtain ⟨row, w₂, h₂, hrow⟩ := Prog.runs_bind_iff.mp hrest
    obtain ⟨rfl, rfl⟩ := Prog.runs_done_iff.mp hrow
    obtain ⟨m', rfl, rfl⟩ := Prog.runs_modify_iff.mp h₂
    refine Or.inr ⟨hw, ?_⟩
    intro row' hrow'
    cases hdb' : m'.dbError with
    | some err => simp [hdb', Except.toOption] at hrow'
    | none => simpa [hdb', Except.toOption, eq_comm] using hrow'

theorem storeReply_cases {ctx : AgentContext}
    (h : (storeReply elapsed e ctx exts).Runs w saved w') :
    ∃ stored,
      After w (endEvents e stored ((finalText ctx e.content exts).getD "") exts elapsed) w' ∧
      w'.ctx = w.ctx ∧
      (stored = true → ¬(finalText ctx e.content exts = some "" ∧ exts = [])) ∧
      ∀ row, saved = some row → stored = true ∧
        row = ((finalText ctx e.content exts).getD "", extensionsField exts) := by
  obtain ⟨row, w₁, h₁, hrest⟩ := Prog.runs_bind_iff.mp h
  obtain ⟨_, w₂, h₂, hrest⟩ := Prog.runs_bind_iff.mp hrest
  -- the row is stored or not, then the stream ends
  have hstored : ∃ stored : Bool,
      After w (if stored then
        [.saved ((finalText ctx e.content exts).getD "") (extensionsField exts)] else []) w₁ ∧
      w₁.ctx = w.ctx ∧
      (stored = true → ¬(finalText ctx e.content exts = some "" ∧ exts = [])) ∧
      ∀ r, row = some r → stored = true ∧
        r = ((finalText ctx e.content exts).getD "", extensionsField exts) := by
    unfold storeMessage at h₁
    split at h₁
    · obtain ⟨rfl, rfl⟩ := Prog.runs_done_iff.mp h₁
      exact ⟨false, .refl _, rfl, by simp, by simp⟩
    · next hkeep =>
      rcases appendAssistantMessage_cases h₁ with ⟨rfl, rfl⟩ | ⟨rfl, hrow⟩
      · exact ⟨false, .refl _, rfl, by simp, by simp⟩
      · exact ⟨true, .log w rfl, rfl, fun _ => hkeep, fun r hr => ⟨rfl, hrow r hr⟩⟩
  obtain ⟨stored, hafter, hctx, hne, hrow⟩ := hstored
  have hdone := hafter.trans (runs_emit h₂ ▸ After.log w₁ rfl)
  have hctx₂ : w₂.ctx = w.ctx := by rw [runs_emit h₂, World.log_ctx, hctx]
  split at hrest
  · next hnil =>
    obtain ⟨rfl, rfl⟩ := Prog.runs_done_iff.mp hrest
    refine ⟨stored, ?_, hctx₂, hne, hrow⟩
    simpa [endEvents, hnil] using hdone
  · next hnil =>
    obtain ⟨_, w₃, h₃, hrest⟩ := Prog.runs_bind_iff.mp hrest
    obtain ⟨rfl, rfl⟩ := Prog.runs_done_iff.mp hrest
    have hsent := hdone.trans (runs_emit h₃ ▸ After.log w₂ rfl)
    refine ⟨stored, ?_, ?_, hne, hrow⟩
    · simpa [endEvents, hnil] using hsent
    · rw [runs_emit h₃, World.log_ctx, hctx₂]

/-- What `finalize_with_variant` stores and sends. -/
theorem finalize_finalized {env : Env} (h : (finalize env s e).Runs w saved w') :
    Finalized e w saved w' := by
  obtain ⟨elapsed, w₁, h₁, hrest⟩ := Prog.runs_bind_iff.mp h
  obtain ⟨-, rfl⟩ := runs_look h₁
  obtain ⟨_, w₂, h₂, hrest⟩ := Prog.runs_bind_iff.mp hrest
  obtain ⟨collected, w₃, h₃, hrest⟩ := Prog.runs_bind_iff.mp hrest
  obtain ⟨m, rfl, rfl⟩ := runs_sync h₃
  obtain ⟨hooked, hafter, hhooked⟩ := endHooks_after h₂
  obtain ⟨stored, hstore, hctx, hne, hrow⟩ := storeReply_cases hrest
  rw [← hctx] at hstore hne hrow
  refine .mk hhooked (hafter.trans hstore) ?_ hne hrow
  exact collectedExtensions_eq_nil_iff m.rank w'.ctx

theorem closeContext_after {content : Option String} (h : (closeContext content).Runs w u w') :
    After w [] w' ∧ w'.ctx.lifecycleState ≠ .active := by
  cases content with
  | some text =>
    obtain ⟨_, w₁, h₁, h₂⟩ := Prog.runs_bind_iff.mp h
    obtain ⟨hafter, hstate⟩ := silent_close (Or.inl rfl) h₂
    exact ⟨(silent_setResponsePayload h₁).trans hafter, hstate⟩
  | none => exact silent_close (Or.inr rfl) h

-- ---
-- Sessions
-- ---

-- a session that ends in the middle of its tool calls has closed its context
theorem LoopTurns.finish_closed {env : Env} {ts : List Event}
    (h : LoopTurns env s n hop l ts (.finish e) w') : w'.ctx.lifecycleState ≠ .active := by
  generalize hhe : HopEnd.finish e = he at h
  induction h with
  | exhausted => cases hhe
  | stop hturns =>
    subst hhe
    cases hturns with
    | toolBlocked content resp msg hroutes hstate => exact hstate
  | step _ _ ih => exact ih hhe

/-- What a session can come to: `ts` are the turns of its loop, `w₁` the state
after it and `w₂` the state in which `finalize_with_variant` begins. -/
inductive SessionCourse (env : Env) (s : Session) (w : World) (r : SessionEnd) (w' : World) : Prop
  | cancelled {ts : List Event}
      (hloop : LoopTurns env s env.maxHops 0 (initialLocals env s) ts .cancelled w')
      (hcourse : Course (LoopRequest env (buildChatMessages env s.history s.userContent)) w ts w')
      (hr : r = ⟨none, none⟩)
  | ended {ts : List Event} {he : HopEnd} {e : Ending} {w₁ w₂ : World}
      (hloop : LoopTurns env s env.maxHops 0 (initialLocals env s) ts he w₁)
      (hend : he = .leave e ∨ he = .finish e)
      (hcourse : Course (LoopRequest env (buildChatMessages env s.history s.userContent)) w ts w₁)
      (hclose : After w₁ [] w₂)
      (hstate : w₂.ctx.lifecycleState ≠ .active)
      (hr : r.ending = some e) (hfinal : Finalized e w₂ r.saved w')

variable {r : SessionEnd}

/-- A session is the loop over the hops and then the end. -/
theorem runSession_course {env : Env} (h : (runSession env s).Runs w r w') :
    ∃ w₀, After w [] w₀ ∧ SessionCourse env s w₀ r w' := by
  obtain ⟨_, w₀, h₀, hrest⟩ := Prog.runs_bind_iff.mp h
  obtain ⟨he, w₁, h₁, hrest⟩ := Prog.runs_bind_iff.mp hrest
  have hstart : After w [] w₀ := silent_tryCtx h₀ fun _ _ _ hc => by
    cases hc
    exact ⟨rfl, rfl, rfl⟩
  obtain ⟨ts, hcourse, hloop⟩ := runHops_turns Grown.start h₁
  refine ⟨w₀, hstart, ?_⟩
  cases he with
  | cancelled =>
    obtain ⟨rfl, rfl⟩ := Prog.runs_done_iff.mp hrest
    exact .cancelled hloop hcourse rfl
  | leave e =>
    obtain ⟨_, w₂, h₂, hrest⟩ := Prog.runs_bind_iff.mp hrest
    obtain ⟨saved, w₃, h₃, hrest⟩ := Prog.runs_bind_iff.mp hrest
    obtain ⟨rfl, rfl⟩ := Prog.runs_done_iff.mp hrest
    obtain ⟨hclose, hstate⟩ := closeContext_after h₂
    exact .ended hloop (Or.inl rfl) hcourse hclose hstate rfl (finalize_finalized h₃)
  | finish e =>
    obtain ⟨saved, w₃, h₃, hrest⟩ := Prog.runs_bind_iff.mp hrest
    obtain ⟨rfl, rfl⟩ := Prog.runs_done_iff.mp hrest
    exact .ended hloop (Or.inr rfl) hcourse (.refl _) hloop.finish_closed rfl
      (finalize_finalized h₃)

/-- The first messages of a session. -/
abbrev Session.start (env : Env) (s : Session) : List Json :=
  buildChatMessages env s.history s.userContent

/-- A session from its start to its end; statement `k` of it meets `outside k`. -/
@[irreducible] def sessionRun (env : Env) (s : Session) (now : DateTime) (outside : Nat → Moment) :
    SessionEnd × World :=
  (runSession env s).exec outside (initialWorld env s now)

theorem runs_sessionRun (env : Env) (s : Session) (now : DateTime) (outside : Nat → Moment) :
    (runSession env s).Runs (initialWorld env s now) (sessionRun env s now outside).1
      (sessionRun env s now outside).2 := by
  unfold sessionRun
  exact Prog.runs_exec _ outside _

variable {now : DateTime}

theorem session_after {env : Env} (h : (runSession env s).Runs (initialWorld env s now) r w') :
    After (initialWorld env s now) w'.trace w' := by
  obtain ⟨w₀, hstart, hsession⟩ := runSession_course h
  have hall : ∃ es, After (initialWorld env s now) es w' := by
    cases hsession with
    | cancelled _ hcourse _ =>
      obtain ⟨es, hloop, -, -⟩ := hcourse
      exact ⟨_, hstart.trans hloop⟩
    | ended _ _ hcourse hclose _ _ hfinal =>
      obtain ⟨es, hloop, -, -⟩ := hcourse
      obtain ⟨-, hend, -, -, -⟩ := hfinal
      exact ⟨_, ((hstart.trans hloop).trans hclose).trans hend⟩
  obtain ⟨es, hafter⟩ := hall
  have htrace : w'.trace = es := hafter.trace
  rwa [htrace]

theorem Finalized.event (h : Finalized e w saved w') (hev : ev ∈ w'.trace) :
    ev ∈ w.trace ∨ ev.isTurn = true ∨ ev = .hooks "after_agent_end" ∨
      Inner w.ctx.lifecycleState ev := by
  obtain ⟨hhooked, hafter, -, -, -⟩ := h
  rw [hafter.trace] at hev
  rcases List.mem_append.mp hev with hev | hev
  · exact Or.inl hev
  rcases List.mem_append.mp hev with hev | hev
  · rcases hhooked with ⟨-, rfl⟩ | ⟨es, rfl, hinner⟩
    · cases hev
    · rcases List.mem_cons.mp hev with rfl | hev
      · exact Or.inr (Or.inr (Or.inl rfl))
      · exact Or.inr (Or.inr (Or.inr (hinner ev hev)))
  · exact Or.inr (Or.inl (endEvents_isTurn hev))

theorem session_event {env : Env} (h : (runSession env s).Runs (initialWorld env s now) r w')
    (hev : ev ∈ w'.trace) :
    ev.isTurn = true ∨ Quiet (LoopRequest env (s.start env)) ev ∨
      ev = .hooks "after_agent_end" := by
  obtain ⟨w₀, hstart, hsession⟩ := runSession_course h
  have hempty : w₀.trace = [] := hstart.trace
  have hloop : ∀ {ts : List Event} {w₁ : World},
      Course (LoopRequest env (s.start env)) w₀ ts w₁ → ∀ e ∈ w₁.trace,
        e.isTurn = true ∨ Quiet (LoopRequest env (s.start env)) e := by
    rintro ts w₁ ⟨es, hafter, -, hes⟩ e he
    rw [hafter.trace, hempty, List.nil_append] at he
    exact hes e he
  cases hsession with
  | cancelled _ hcourse _ =>
    rcases hloop hcourse ev hev with ht | hq
    · exact Or.inl ht
    · exact Or.inr (Or.inl hq)
  | ended _ _ hcourse hclose _ _ hfinal =>
    rcases hfinal.event hev with hold | ht | hend | hinner
    · rw [hclose.trace, List.append_nil] at hold
      rcases hloop hcourse ev hold with ht | hq
      · exact Or.inl ht
      · exact Or.inr (Or.inl hq)
    · exact Or.inl ht
    · exact Or.inr (Or.inr hend)
    · exact Or.inr (Or.inl (.inner hinner))

-- ---
-- Rows of a small workspace
-- ---

def agentRow (id : Int) (identifier : String) (parent : Option Int) : Agent :=
  { id := id, identifier := identifier, name := identifier, description := none
    systemPrompt := "", parentAgentId := parent, depth := if parent = none then 0 else 1
    modelPreset := none, createdAt := 0, updatedAt := 0 }

-- a hook of agent 1 that calls a function
def hookRow (point : String) (functionId : Int) : AgentHook :=
  { id := 1, agentId := 1, name := "hook", description := none, triggerPoint := point
    actionType := "call_function", actionParams := .obj [("function_id", .num (.int functionId))]
    enabled := true, sortOrder := 0, blockingMode := false, timeoutMs := 3000
    createdAt := 0, updatedAt := 0 }

-- a session with agent 1
def greeting : Session :=
  { sessionId := 1, startingAgentId := 1, actorId := 1, history := [], userContent := "hi" }

/-- A session with agent 1 outside which everything stays as in `m`. -/
abbrev steadyRun (env : Env) (m : Moment) : SessionEnd × World :=
  sessionRun env greeting 0 fun _ => m

-- the model routes to the child of agent 1
def routeOnce : Moment :=
  { Moment.of { agents := [agentRow 1 "main" none, agentRow 2 "child" (some 1)] } with
    response := { toolCalls := [{ id := "call-1", name := "route_to_subagent"
                                  arguments := [("agent_identifier", .str "child")] }] } }

end HiveClaw.Runtime
