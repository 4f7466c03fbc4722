import HiveClaw.Runtime.Endings

/-!
# The filter and the stored reply

`filter_output` sees the final answer of the model. The other texts that can
become the reply pass it by: the `response_content` of the metadata, the reply of
a tool that ends the loop, and the text of the model at the hop limit.

* `replies_safe` — what a session stores is a fixed text or passes the filter, if
  the text that it takes over past the filter does.
-/

namespace HiveClaw.Runtime

open Lib Context

-- the events before the hooks of `after_agent_end`
def beforeEnd (trace : List Event) : List Event := trace.takeWhile fun e => !e.isEndHooks

-- the texts that the program itself puts in the place of a reply
def fixedTexts : List String := [safetyText, blockedText, noDurationCardText, noDiskText]

/-- A fixed text, or one that the filter lets pass. -/
def SafeText (env : Env) (text : String) : Prop := text ∈ fixedTexts ∨ env.check text = none

instance (env : Env) : DecidablePred (SafeText env) := fun text =>
  inferInstanceAs (Decidable (text ∈ fixedTexts ∨ env.check text = none))

/-- The message that a session stores, and the one it returns, are safe. -/
def RepliesSafe (env : Env) (r : SessionEnd) (trace : List Event) : Prop :=
  (∀ text exts, .saved text exts ∈ trace → SafeText env text) ∧
    ∀ row, r.saved = some row → SafeText env row.1

/-- The text that a session takes over past the filter: the `response_content`
that a tool or a hook has set; else, where a tool has ended the loop, its reply;
else, at the hop limit, the text of the last response. A cancelled session takes
over nothing. -/
def takenOver (r : SessionEnd) (trace : List Event) : Option String :=
  r.ending.bind fun e =>
    (replyOverride trace).or <|
      match e.exit with
      | .loopBreak =>
        some (RustStr.trim ((lastMetadata "agent_loop_reply" (beforeEnd trace)).getD ""))
      | .hopLimit => (lastResponse trace).map fun resp => resp.content.getD ""
      | _ => none

theorem safeText_empty (env : Env) : SafeText env "" := Or.inr rfl

theorem safeText_filterOutput (env : Env) (text : String) : SafeText env (filterOutput env text) := by
  unfold filterOutput
  split
  · exact Or.inl (by simp [fixedTexts])
  · next hcheck => exact Or.inr hcheck

theorem safeText_emptyCardText (env : Env) {ext : Json} {text : String}
    (h : emptyCardText ext = some text) : SafeText env text := by
  refine Or.inl ?_
  unfold emptyCardText at h
  dsimp only at h
  split at h
  · cases h
  split at h
  · cases h
    simp [fixedTexts]
  split at h
  · cases h
    simp [fixedTexts]
  · cases h

theorem lastResponse_filter (es : List Event) :
    lastResponse (es.filter Event.isTurn) = lastResponse es := by
  unfold lastResponse
  rw [List.filterMap_filter]
  congr 2
  funext e
  cases e <;> first | rfl | exact ite_self none

theorem response?_eq_none_of_inner {lc : LifecycleState} {ev : Event} (h : Inner lc ev) :
    ev.response? = none := by
  cases h <;> rfl

theorem response?_endEvents (e : Ending) (stored : Bool) (text : String) (exts : List Json)
    (elapsed : Int) : (endEvents e stored text exts elapsed).filterMap Event.response? = [] := by
  unfold endEvents
  by_cases hnil : exts = [] <;> cases stored <;> simp [hnil, Event.response?]

variable {rest : List Event}

theorem beforeEnd_append {loop : List Event} (h : .hooks "after_agent_end" ∉ loop) :
    beforeEnd (loop ++ .hooks "after_agent_end" :: rest) = loop := by
  have hall : ∀ ev ∈ loop, (!ev.isEndHooks) = true := by
    intro ev hev
    cases hend : ev.isEndHooks with
    | false => rfl
    | true => exact absurd (isEndHooks_iff.mp hend ▸ hev) h
  unfold beforeEnd
  rw [List.takeWhile_append_of_pos hall]
  simp [Event.isEndHooks]

theorem lastResponse_append {loop : List Event} (h : rest.filterMap Event.response? = []) :
    lastResponse (loop ++ rest) = lastResponse loop := by
  unfold lastResponse
  rw [List.filterMap_append, h, List.append_nil]

variable {w' : World} {e : Ending}

/-- The text that the end of the loop hands over is safe, or it is taken over
past the filter. -/
theorem LoopEnd.safe_or {env : Env} {ts : List Event} (h : LoopEnd env ts w' e) :
    SafeText env (e.content.getD "") ∨
      (e.exit = .loopBreak ∧ e.content = some (loopReply w'.ctx) ∧ e.hooks ≠ none ∧
        e.identifier ≠ none) ∨
      (e.exit = .hopLimit ∧ e.content = (lastResponse ts).map fun resp => resp.content.getD "") := by
  cases h with
  | exhausted _ => exact Or.inl (safeText_empty env)
  | lacksText _ _ => exact Or.inl (safeText_empty env)
  | answered text => exact Or.inl (safeText_filterOutput env text)
  | toolBlocked _ => exact Or.inl (Or.inl (by simp [fixedTexts]))
  | loopBreak hooks identifier => exact Or.inr (Or.inl ⟨rfl, rfl, nofun, nofun⟩)
  | hopLimit _ hresp => exact Or.inr (Or.inr ⟨rfl, by rw [hresp]; rfl⟩)

-- at the end of a session, the loop's own reply is the one before the last hooks
variable {hooked : List Event}

theorem Ended.loopReply_eq {loop : List Event} {w₁ : World}
    (hloop : .hooks "after_agent_end" ∉ loop)
    (hmeta : ∀ key, w₁.ctx.getMetadata key = lastMetadata key loop)
    (hhooked : (e.hooks = none ∨ e.identifier = none) ∧ hooked = [] ∨
      ∃ es, hooked = .hooks "after_agent_end" :: es ∧ ∃ lc, ∀ ev ∈ es, Inner lc ev)
    (hhooks : e.hooks ≠ none) (hident : e.identifier ≠ none) :
    loopReply w₁.ctx = RustStr.trim
      ((lastMetadata "agent_loop_reply" (beforeEnd (loop ++ (hooked ++ rest)))).getD "") := by
  rcases hhooked with ⟨hnone, -⟩ | ⟨es, rfl, -⟩
  · rcases hnone with h | h
    · exact absurd h hhooks
    · exact absurd h hident
  · rw [List.cons_append, beforeEnd_append hloop, loopReply, hmeta]

theorem Ended.lastResponse_eq {loop : List Event} {stored : Bool} {text : String}
    {exts : List Json} {elapsed : Int}
    (hhooked : (e.hooks = none ∨ e.identifier = none) ∧ hooked = [] ∨
      ∃ es, hooked = .hooks "after_agent_end" :: es ∧ ∃ lc, ∀ ev ∈ es, Inner lc ev) :
    lastResponse (loop ++ (hooked ++ endEvents e stored text exts elapsed)) =
      lastResponse loop := by
  refine lastResponse_append ?_
  rw [List.filterMap_append, response?_endEvents, List.append_nil, List.filterMap_eq_nil_iff]
  intro ev hev
  rcases hooked_inner hhooked hev with rfl | ⟨lc, hinner⟩
  · rfl
  · exact response?_eq_none_of_inner hinner

variable {r : SessionEnd}

theorem Ended.safe {env : Env} (h : Ended env e r.saved w') (hr : r.ending = some e)
    (htaken : ∀ text ∈ takenOver r w'.trace, SafeText env text) : RepliesSafe env r w'.trace := by
  obtain ⟨hend, hloop, hnotSaved, hmeta₁, hhooked, htrace, hmeta, -, -, hsaved⟩ := h
  rename_i loop hooked w₁ exts stored elapsed
  have htext : SafeText env ((finalText w'.ctx e.content exts).getD "") := by
    rw [finalText_eq hmeta]
    unfold takenOver at htaken
    rw [hr, Option.bind_some] at htaken
    cases hover : replyOverride w'.trace with
    | some rc =>
      rw [hover] at htaken
      exact htaken rc rfl
    | none =>
      rw [hover, Option.none_or] at htaken
      rw [Option.none_or, rewriteContentForEmptyExtensions]
      cases hcard : exts.findSome? emptyCardText with
      | some t =>
        obtain ⟨ext, -, hext⟩ := List.exists_of_findSome?_eq_some hcard
        exact safeText_emptyCardText env hext
      | none =>
        rw [Option.none_or]
        rcases hend.safe_or with hsafe | ⟨hexit, hcontent, hhooks, hident⟩ | ⟨hexit, hcontent⟩
        · exact hsafe
        · rw [hexit, htrace] at htaken
          rw [hcontent, Ended.loopReply_eq hloop hmeta₁ hhooked hhooks hident]
          exact htaken _ rfl
        · rw [hexit, htrace, Ended.lastResponse_eq hhooked, ← lastResponse_filter,
            ← hcontent] at htaken
          cases hc : e.content with
          | none => exact safeText_empty env
          | some text => exact htaken text hc
  constructor
  · intro text x hmem
    rw [htrace, saved_mem_iff hnotSaved hhooked] at hmem
    rw [hmem.2.1]
    exact htext
  · intro row hrow
    rw [(hsaved row hrow).2]
    exact htext

-- a session that was cancelled stores nothing
theorem session_cancelled {env : Env} {s : Session} {now : DateTime}
    (h : (runSession env s).Runs (initialWorld env s now) r w') (hr : r.ending = none) :
    r.saved = none ∧ ∀ text exts, .saved text exts ∉ w'.trace := by
  obtain ⟨w₀, hstart, hsession⟩ := runSession_course h
  cases hsession with
  | cancelled hloop hcourse hcancel =>
    obtain ⟨es, hafter, rfl, -⟩ := hcourse
    refine ⟨by rw [hcancel], ?_⟩
    intro text exts hmem
    have htrace : w'.trace = es := (hstart.trans hafter).trace
    rw [htrace] at hmem
    exact hloop.not_saved text exts (List.mem_filter.mpr ⟨hmem, rfl⟩)
  | ended _ _ _ _ _ he _ =>
    rw [hr] at he
    cases he

/-- In every session that takes over no sensitive text past the filter, the
message that it stores and returns is safe. -/
theorem replies_safe (env : Env) (s : Session) (now : DateTime) (outside : Nat → Moment)
    (htaken : ∀ text ∈ takenOver (sessionRun env s now outside).1
        (sessionRun env s now outside).2.trace, SafeText env text) :
    RepliesSafe env (sessionRun env s now outside).1
      (sessionRun env s now outside).2.trace := by
  have hrun := runs_sessionRun env s now outside
  cases hr : (sessionRun env s now outside).1.ending with
  | some e => exact (session_ended hrun hr).safe hr htaken
  | none =>
    obtain ⟨hsaved, hnot⟩ := session_cancelled hrun hr
    refine ⟨fun text exts hmem => absurd hmem (hnot text exts), ?_⟩
    intro row hrow
    rw [hsaved] at hrow
    cases hrow

-- a filter with the word `bad`, for texts in lower case
def strictEnv : Env :=
  { Env.plain with
    maxHops := 1
    sensitiveFilter := { patterns := [.exact 1 "bad"]
                         ac := some fun text => RustStr.contains text "bad" } }

-- the model calls an unknown tool, with a text beside the call
def lastWords (text : String) : Moment :=
  { Moment.of { agents := [agentRow 1 "main" none] } with
    response := { content := some text
                  toolCalls := [{ id := "call-1", name := "unknown", arguments := [] }] } }

theorem replies_safe_lastWords :
    takenOver (steadyRun strictEnv (lastWords "good")).1
        (steadyRun strictEnv (lastWords "good")).2.trace = some "good" ∧
      RepliesSafe strictEnv (steadyRun strictEnv (lastWords "good")).1
        (steadyRun strictEnv (lastWords "good")).2.trace :=
  ⟨by decide +kernel,
    replies_safe strictEnv greeting 0 (fun _ => lastWords "good") (by decide +kernel)⟩

/-- At the hop limit the text of the model is stored as it is. -/
theorem not_safe_lastWords :
    ¬RepliesSafe strictEnv (steadyRun strictEnv (lastWords "bad")).1
      (steadyRun strictEnv (lastWords "bad")).2.trace := by
  have hsaved : ((steadyRun strictEnv (lastWords "bad")).1.saved.map Prod.fst) = some "bad" := by
    decide +kernel
  have hbad : ¬SafeText strictEnv "bad" := by decide +kernel
  intro h
  obtain ⟨row, hrow, htext⟩ := Option.map_eq_some_iff.mp hsaved
  exact hbad (htext ▸ h.2 row hrow)

end HiveClaw.Runtime
