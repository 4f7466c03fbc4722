import HiveClaw.Runtime.Session

/-!
# How sessions end

What the loop hands over when it ends (`LoopEnd`), and what the trace of the
whole session looks like then (`Ended`).
-/

namespace HiveClaw.Runtime

open Lib Context

-- ---
-- The end of the loop
-- ---

/-- An error was sent to the client. -/
def HasError (es : List Event) : Prop := ∃ code msg, .sse (.error code msg) ∈ es

-- the response of an event that begins its tool calls
def Event.response? : Event → Option LLMResponse
  | .toolCalls _ _ resp => some resp
  | _ => none

/-- The last response whose tool calls were executed. -/
def lastResponse (es : List Event) : Option LLMResponse :=
  (es.filterMap Event.response?).getLast?

/-- The exits that send an error and hand over no text. -/
def Exit.LacksText (exit : Exit) : Prop := exit = .contentFailed ∨ exit.NoAnswer

/-- What the loop with the turns `ts` hands over. -/
inductive LoopEnd (env : Env) (ts : List Event) (w' : World) : Ending → Prop
  | exhausted {agentId : Int} {hooks : Option (List (String × List AgentHook))}
      {identifier : Option String} (h : ¬HasError ts) :
      LoopEnd env ts w' ⟨.exhausted, none, agentId, hooks, identifier⟩
  | lacksText {exit : Exit} {agentId : Int} {hooks : Option (List (String × List AgentHook))}
      {identifier : Option String} (hexit : exit.LacksText) (h : HasError ts) :
      LoopEnd env ts w' ⟨exit, none, agentId, hooks, identifier⟩
  | answered {agentId : Int} {hooks : Option (List (String × List AgentHook))}
      {identifier : Option String} (text : String) :
      LoopEnd env ts w' ⟨.answered, some (filterOutput env text), agentId, hooks, identifier⟩
  | toolBlocked {agentId : Int} {hooks : Option (List (String × List AgentHook))}
      {identifier : Option String} (h : HasError ts) :
      LoopEnd env ts w' ⟨.toolBlocked, some blockedText, agentId, hooks, identifier⟩
  | loopBreak {agentId : Int} (hooks : List (String × List AgentHook)) (identifier : String) :
      LoopEnd env ts w'
        ⟨.loopBreak, some (loopReply w'.ctx), agentId, some hooks, some identifier⟩
  | hopLimit {agentId : Int} {hooks : Option (List (String × List AgentHook))}
      {identifier : Option String} {resp : LLMResponse} (h : HasError ts)
      (hresp : lastResponse ts = some resp) :
      LoopEnd env ts w' ⟨.hopLimit, some (resp.content.getD ""), agentId, hooks, identifier⟩

variable {ts ts' : List Event}

theorem hasError_append_right (h : HasError ts') : HasError (ts ++ ts') := by
  obtain ⟨code, msg, hmem⟩ := h
  exact ⟨code, msg, List.mem_append_right _ hmem⟩

theorem hasError_append_error (ts : List Event) (code : Nat) (msg : String) :
    HasError (ts ++ [.sse (.error code msg)]) :=
  hasError_append_right ⟨code, msg, List.mem_singleton_self _⟩

theorem lastResponse_append_of_some {resp : LLMResponse} (h : lastResponse ts' = some resp) :
    lastResponse (ts ++ ts') = some resp := by
  unfold lastResponse at h ⊢
  rw [List.filterMap_append, List.getLast?_append, h]
  rfl

-- hops that go on send no error
variable {w' : World} {e : Ending}

theorem LoopEnd.prepend {env : Env} (hts : ¬HasError ts) (h : LoopEnd env ts' w' e) :
    LoopEnd env (ts ++ ts') w' e := by
  cases h with
  | exhausted h =>
    refine .exhausted ?_
    rintro ⟨code, msg, hmem⟩
    rcases List.mem_append.mp hmem with hmem | hmem
    · exact hts ⟨code, msg, hmem⟩
    · exact h ⟨code, msg, hmem⟩
  | lacksText hexit h => exact .lacksText hexit (hasError_append_right h)
  | answered text => exact .answered text
  | toolBlocked h => exact .toolBlocked (hasError_append_right h)
  | loopBreak hooks identifier => exact .loopBreak hooks identifier
  | hopLimit h hresp =>
    exact .hopLimit (hasError_append_right h) (lastResponse_append_of_some hresp)

theorem not_hasError_toolTurns (l : Locals) (content : AgentContent) (resp : LLMResponse)
    (routes : List (Int × String)) : ¬HasError (toolTurns l content resp routes) := by
  rintro ⟨code, msg, hmem⟩
  simp [toolTurns, answerTurns, routedEvent] at hmem

theorem lastResponse_toolTurns (l : Locals) (content : AgentContent) (resp : LLMResponse)
    (rest : List Event) (hrest : rest.filterMap Event.response? = []) :
    lastResponse (toolTurns l content resp [] ++ rest) = some resp := by
  unfold lastResponse
  rw [List.filterMap_append, hrest]
  rfl

variable {s : Session} {hop : Nat} {l : Locals} {he : HopEnd}

theorem HopTurns.ends {env : Env} (h : HopTurns env s hop l ts (.error he) w')
    (hend : he = .leave e ∨ he = .finish e) : LoopEnd env ts w' e := by
  cases h with
  | cancelled => rcases hend with hcontra | hcontra <;> cases hcontra
  | contentFailed msg =>
    rcases hend with heq | hcontra
    · cases heq
      exact .lacksText (Or.inl rfl) (hasError_append_error [_] 5000 msg)
    · cases hcontra
  | noAnswer content code msg hexit =>
    rcases hend with heq | hcontra
    · cases heq
      exact .lacksText (Or.inr hexit) (hasError_append_error _ code msg)
    · cases hcontra
  | answered content text =>
    rcases hend with heq | hcontra
    · cases heq
      exact .answered text
    · cases hcontra
  | toolBlocked content resp msg hroutes hstate =>
    rcases hend with hcontra | heq
    · cases hcontra
    · cases heq
      exact .toolBlocked (hasError_append_error _ 6005 msg)
  | loopBreak content resp hbreak =>
    rcases hend with heq | hcontra
    · cases heq
      exact .loopBreak content.hooks content.identifier
    · cases hcontra
  | hopLimit content resp msg hroutes hlimit =>
    rcases hend with heq | hcontra
    · cases heq
      exact .hopLimit (hasError_append_error _ 5006 msg)
        (lastResponse_toolTurns l content resp _ rfl)
    · cases hcontra

/-- The exits of the loop, with their texts and errors. -/
theorem LoopTurns.ends {env : Env} {s : Session} {n hop : Nat} {l : Locals} {ts : List Event}
    {he : HopEnd} {e : Ending} {w' : World} (h : LoopTurns env s n hop l ts he w')
    (hend : he = .leave e ∨ he = .finish e) : LoopEnd env ts w' e := by
  induction h with
  | exhausted =>
    rcases hend with heq | hcontra
    · cases heq
      refine .exhausted ?_
      rintro ⟨code, msg, hmem⟩
      cases hmem
    · cases hcontra
  | stop hturns => exact hturns.ends hend
  | step hturns _ ih =>
    cases hturns with
    | next content resp hcalls hlen hgoes =>
      exact (ih hend).prepend (not_hasError_toolTurns _ _ _ _)

theorem LoopTurns.not_saved {env : Env} {n : Nat} (h : LoopTurns env s n hop l ts he w')
    (text : String) (exts : Option Json) : .saved text exts ∉ ts := by
  have htools : ∀ (l : Locals) (content : AgentContent) (resp : LLMResponse)
      (routes : List (Int × String)), .saved text exts ∉ toolTurns l content resp routes := by
    intro l content resp routes
    simp [toolTurns, answerTurns, routedEvent]
  induction h with
  | exhausted => simp
  | stop hturns =>
    cases hturns with
    | cancelled => simp
    | contentFailed msg => simp
    | noAnswer content code msg hexit => simp [answerTurns]
    | answered content text => simp [answerTurns]
    | toolBlocked content resp msg hroutes hstate => simp [htools]
    | loopBreak content resp hbreak => exact htools _ _ _ _
    | hopLimit content resp msg hroutes hlimit => simp [htools]
  | step hturns _ ih =>
    cases hturns with
    | next content resp hcalls hlen hgoes => simp [htools, ih]

-- ---
-- The end of a session
-- ---

/-- A session whose loop ended with `e`: the events of the loop, those of the
last hooks, and the end. -/
inductive Ended (env : Env) (e : Ending) (saved : Option (String × Option Json)) (w' : World) :
    Prop
  | mk {loop hooked : List Event} {w₁ : World} {exts : List Json} {stored : Bool} {elapsed : Int}
      (hend : LoopEnd env (loop.filter Event.isTurn) w₁ e)
      (hloop : .hooks "after_agent_end" ∉ loop)
      (hnotSaved : ∀ text exts, .saved text exts ∉ loop)
      (hmeta : ∀ key, w₁.ctx.getMetadata key = lastMetadata key loop)
      (hhooked : (e.hooks = none ∨ e.identifier = none) ∧ hooked = [] ∨
        ∃ es, hooked = .hooks "after_agent_end" :: es ∧ ∃ lc, ∀ ev ∈ es, Inner lc ev)
      (htrace : w'.trace = loop ++ (hooked ++
        endEvents e stored ((finalText w'.ctx e.content exts).getD "") exts elapsed))
      (hmeta' : ∀ key, w'.ctx.getMetadata key = lastMetadata key w'.trace)
      (hexts : exts = [] ↔ ∀ ev ∈ w'.trace, ¬AddsExtension ev)
      (hstored : stored = true → ¬(finalText w'.ctx e.content exts = some "" ∧ exts = []))
      (hsaved : ∀ row, saved = some row → stored = true ∧
        row = ((finalText w'.ctx e.content exts).getD "", extensionsField exts))

/-- The trace: that of the loop, then the last hooks, then the message and the stream's end. -/
theorem session_ended {env : Env} {now : DateTime} {r : SessionEnd}
    (h : (runSession env s).Runs (initialWorld env s now) r w') (hr : r.ending = some e) :
    Ended env e r.saved w' := by
  have hwhole := session_after h
  obtain ⟨w₀, hstart, hsession⟩ := runSession_course h
  cases hsession with
  | cancelled _ _ hcancel =>
    rw [hcancel] at hr
    cases hr
  | @ended ts he e' w₁ w₂ hloop hend hcourse hclose hstate he' hfinal =>
    rw [hr] at he'
    cases he'
    have hnotEnd : .hooks "after_agent_end" ∉ w₁.trace := by
      refine hcourse.not_endHooks ?_
      rw [hstart.trace]
      simp [initialWorld]
    obtain ⟨loop, hafter, rfl, -⟩ := hcourse
    obtain ⟨hhooked, hfin, hexts, hstored, hsaved⟩ := hfinal
    have hw₁ : After (initialWorld env s now) loop w₁ := hstart.trans hafter
    have hloopTrace : w₁.trace = loop := hw₁.trace
    have htrace := hfin.trace
    rw [hclose.trace, List.append_nil, hloopTrace] at htrace
    rw [hloopTrace] at hnotEnd
    refine .mk (hloop.ends hend) hnotEnd ?_ hw₁.metadata ?_ htrace hwhole.metadata ?_ hstored
      hsaved
    · intro text exts hmem
      exact hloop.not_saved text exts (List.mem_filter.mpr ⟨hmem, rfl⟩)
    · rcases hhooked with hnone | ⟨es, heq, hinner⟩
      · exact Or.inl hnone
      · exact Or.inr ⟨es, heq, _, hinner⟩
    · rw [hexts, hwhole.extensions]
      exact ⟨fun hall => hall.2, fun hall => ⟨rfl, hall⟩⟩

theorem saved_mem_endEvents_iff {e : Ending} {stored : Bool} {text text' : String}
    {exts : List Json} {elapsed : Int} {x : Option Json} :
    .saved text' x ∈ endEvents e stored text exts elapsed ↔
      stored = true ∧ text' = text ∧ x = extensionsField exts := by
  unfold endEvents
  by_cases hnil : exts = [] <;> cases stored <;> simp [hnil]

theorem not_hasError_endEvents (e : Ending) (stored : Bool) (text : String) (exts : List Json)
    (elapsed : Int) : ¬HasError (endEvents e stored text exts elapsed) := by
  rintro ⟨code, msg, hmem⟩
  unfold endEvents at hmem
  by_cases hnil : exts = [] <;> cases stored <;> simp [hnil] at hmem

variable {lc : LifecycleState}

theorem Inner.not_error {code : Nat} {msg : String} : ¬Inner lc (.sse (.error code msg)) := nofun

theorem Inner.not_saved {text : String} {x : Option Json} : ¬Inner lc (.saved text x) := nofun

-- the hooks at the end send no error and store no message
variable {hooked : List Event}

theorem hooked_inner (h : (e.hooks = none ∨ e.identifier = none) ∧ hooked = [] ∨
      ∃ es, hooked = .hooks "after_agent_end" :: es ∧ ∃ lc, ∀ ev ∈ es, Inner lc ev) {ev : Event}
    (hev : ev ∈ hooked) : ev = .hooks "after_agent_end" ∨ ∃ lc, Inner lc ev := by
  rcases h with ⟨-, rfl⟩ | ⟨es, rfl, lc, hinner⟩
  · cases hev
  · rcases List.mem_cons.mp hev with rfl | hev
    · exact Or.inl rfl
    · exact Or.inr ⟨lc, hinner ev hev⟩

-- what is stored is what the end of the session stores
theorem saved_mem_iff {loop : List Event} (hnotSaved : ∀ text exts, .saved text exts ∉ loop)
    (hhooked : (e.hooks = none ∨ e.identifier = none) ∧ hooked = [] ∨
      ∃ es, hooked = .hooks "after_agent_end" :: es ∧ ∃ lc, ∀ ev ∈ es, Inner lc ev)
    (stored : Bool) (text : String) (exts : List Json) (elapsed : Int) (text' : String)
    (x : Option Json) :
    .saved text' x ∈ loop ++ (hooked ++ endEvents e stored text exts elapsed) ↔
      stored = true ∧ text' = text ∧ x = extensionsField exts := by
  rw [← @saved_mem_endEvents_iff e stored text text' exts elapsed x]
  constructor
  · intro hmem
    rcases List.mem_append.mp hmem with hmem | hmem
    · exact absurd hmem (hnotSaved text' x)
    rcases List.mem_append.mp hmem with hmem | hmem
    · rcases hooked_inner hhooked hmem with hcontra | ⟨lc, hinner⟩
      · cases hcontra
      · exact absurd hinner Inner.not_saved
    · exact hmem
  · intro hmem
    exact List.mem_append_right _ (List.mem_append_right _ hmem)

/-- The text that a tool or a hook has set for the reply, if it is not empty. -/
def replyOverride (trace : List Event) : Option String :=
  (lastMetadata "response_content" trace).filter fun rc => rc ≠ ""

theorem finalText_eq {ctx : AgentContext} {trace : List Event}
    (hmeta : ∀ key, ctx.getMetadata key = lastMetadata key trace) (content : Option String)
    (exts : List Json) :
    finalText ctx content exts =
      (replyOverride trace).or (rewriteContentForEmptyExtensions content exts) := by
  unfold finalText replyOverride
  rw [hmeta]
  cases (lastMetadata "response_content" trace).filter fun rc => rc ≠ "" <;> rfl

end HiveClaw.Runtime
