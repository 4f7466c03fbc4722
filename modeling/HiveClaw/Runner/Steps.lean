import HiveClaw.Runner.Run

/-!
# What the steps of a run can do

The part of the state that results are made of (`Core`), and the transitions of
`AgentRunner::run` on it: draining injections (`Drain`), a batch of tools (`ToolRun`), the
exits of `handle_final_content` (`FinalExit`) and one iteration (`Turn`). Every run of the
loop is a run of these transitions (`loop_rule`), so what they keep, all runs keep.
-/

namespace HiveClaw.Runner

open Providers

variable {ω : Type} (env : Env ω) (spec : AgentRunSpec)

/-- The messages, the tools and the log of a run. -/
structure Core where
  messages : List Json
  toolsUsed : List String
  toolEvents : List ToolEvent
  log : List RunEvent

def RunState.core (s : RunState ω) : Core := ⟨s.messages, s.toolsUsed, s.toolEvents, s.log⟩

/-! ## Transitions -/

/-- `try_drain_injections`: nothing, or user messages at the end. -/
inductive Drain (env : Env ω) (site : DrainSite) (iteration : Nat) (assistant : Option Json)
    (c : Core) : Bool → Core → Prop
  | nothing : Drain env site iteration assistant c false c
  | injected (injected : List Json) (nonempty : injected ≠ [])
    (users : ∀ m ∈ injected, role m = some "user") :
    Drain env site iteration assistant c true { c with
      messages := injected.foldl (appendInjected env) (c.messages ++ assistant.toList)
      log := c.log ++ [.drained site iteration injected] }

theorem drain_tryDrainInjections (site : DrainSite) (iteration : Nat) (assistant : Option Json)
    (s : RunState ω) :
    Drain env site iteration assistant s.core
      (tryDrainInjections env site iteration assistant s).1
      (tryDrainInjections env site iteration assistant s).2.core := by
  unfold tryDrainInjections
  split
  · exact .nothing
  · dsimp only
    split
    case isTrue => exact .nothing
    case isFalse hsome =>
      refine .injected _ (fun h => hsome (List.isEmpty_iff.mpr h)) ?_
      intro m hm
      unfold drainInjections at hm
      split at hm
      · exact absurd hm List.not_mem_nil
      · obtain ⟨item, -, hitem⟩ := List.mem_filterMap.mp (List.mem_of_mem_take hm)
        unfold injectionOf at hitem
        split at hitem
        case isTrue hrole => exact Option.some.inj hitem ▸ hrole.1
        case isFalse =>
          obtain ⟨text, -, rfl⟩ := Option.map_eq_some_iff.mp hitem
          rfl

/-- An assistant message without tool calls. -/
def PlainAnswer (m : Json) : Prop :=
  ∃ content reasoning thinking, m = buildAssistantMessage content [] reasoning thinking

/-- The exits of `handle_final_content`. -/
inductive FinalExit (env : Env ω) (iteration : Nat) (c : Core) : Core → Prop
  | injected (assistant : Option Json) {c' : Core} (plain : ∀ m ∈ assistant, PlainAnswer m)
    (drain : Drain env .beforeFinalAnswer iteration assistant c true c') :
    FinalExit env iteration c c'
  | modelError {c' : Core} (d : Bool)
    (drain : Drain env .afterModelError iteration none
      { c with messages := appendModelErrorPlaceholder c.messages } d c') :
    FinalExit env iteration c c'
  | emptyAnswer {c' : Core} (d : Bool)
    (drain : Drain env .afterEmptyAnswer iteration none
      { c with messages := appendFinalMessage c.messages emptyFinalResponseMessage } d c') :
    FinalExit env iteration c c'
  | answer (m : Json) (plain : PlainAnswer m) :
    FinalExit env iteration c { c with messages := c.messages ++ [m] }

variable {c : Core}

theorem finalExit_handleFinalContent (iteration : Nat) (clean : Option String)
    (response : LLMResponse) (s : RunState ω) (hc : s.core = c) :
    FinalExit env iteration c
      (handleFinalContent env spec iteration clean response s).2.core := by
  subst hc
  unfold handleFinalContent
  dsimp only
  generalize hassistant : (if ¬ response.finishReason = "error" ∧ ¬ isBlankText clean then
      some (buildAssistantMessage clean [] response.reasoningContent response.thinkingBlocks)
    else none) = assistant
  have hplain : ∀ m ∈ assistant, PlainAnswer m := by
    intro m hm
    rw [← hassistant] at hm
    split at hm
    · exact ⟨_, _, _, (Option.some.inj hm).symm⟩
    · exact absurd hm (Option.not_mem_none m)
  have hdrain := drain_tryDrainInjections env .beforeFinalAnswer iteration assistant s
  generalize tryDrainInjections env .beforeFinalAnswer iteration assistant s = out at hdrain ⊢
  obtain ⟨drained, s'⟩ := out
  dsimp only at hdrain ⊢
  cases drained with
  | true => exact .injected assistant hplain hdrain
  | false =>
    have hsame : s'.core = s.core := by
      generalize s'.core = c' at hdrain
      cases hdrain
      rfl
    rw [← hsame, if_neg Bool.false_ne_true]
    split
    · exact .modelError _ (drain_tryDrainInjections env .afterModelError iteration none
        { s' with messages := appendModelErrorPlaceholder s'.messages })
    · split
      · exact .emptyAnswer _ (drain_tryDrainInjections env .afterEmptyAnswer iteration none
          { s' with messages := appendFinalMessage s'.messages emptyFinalResponseMessage })
      · exact .answer _ ⟨_, _, _, rfl⟩

theorem handleFinalContent_result (iteration : Nat) (clean : Option String)
    (response : LLMResponse) (s : RunState ω) :
    let out := handleFinalContent env spec iteration clean response s
    out.1.messages = out.2.messages ∧ out.1.toolsUsed = [] ∧ out.1.toolEvents = [] := by
  unfold handleFinalContent
  dsimp only
  generalize tryDrainInjections env .beforeFinalAnswer iteration _ s = d
  split
  · exact ⟨rfl, rfl, rfl⟩
  · split
    · exact ⟨rfl, rfl, rfl⟩
    · split <;> exact ⟨rfl, rfl, rfl⟩

/-- The tool messages that answer the first calls, one for each outcome. -/
inductive Answers : List ToolCallRequest → List ToolOutcome → List Json → Prop
  | nil (calls : List ToolCallRequest) : Answers calls [] []
  | extra (outcomes : List ToolOutcome) : Answers [] outcomes []
  | cons (tc : ToolCallRequest) {calls : List ToolCallRequest} (outcome : ToolOutcome)
    {outcomes : List ToolOutcome} (content : Json) {results : List Json}
    (rest : Answers calls outcomes results) :
    Answers (tc :: calls) (outcome :: outcomes)
      (toolMessage (.str tc.id) tc.name content :: results)

theorem answers_toolMessages (calls : List ToolCallRequest) (outcomes : List ToolOutcome) (w : ω) :
    Answers calls outcomes (toolMessages env calls outcomes w).1 := by
  induction calls generalizing outcomes w with
  | nil => exact .extra outcomes
  | cons tc calls ih =>
    cases outcomes with
    | nil => exact .nil _
    | cons outcome outcomes => exact .cons tc outcome _ (ih outcomes _)

inductive ToolRun (env : Env ω) (spec : AgentRunSpec) (c : Core) : Option String → Core → Prop
  | run (response : LLMResponse) (counts : Counts) (w : ω) (results : List Json)
    (calls : response.shouldExecuteTools = true)
    (answers : Answers response.toolCalls (executeTools env spec response.toolCalls counts w).1
      results) :
    ToolRun env spec c (fatalOf (executeTools env spec response.toolCalls counts w).1) { c with
      messages := c.messages ++ buildAssistantMessage response.content
        (response.toolCalls.map (toOpenaiToolCall env)) response.reasoningContent
        response.thinkingBlocks :: results
      toolsUsed := c.toolsUsed ++ response.toolCalls.map ToolCallRequest.name
      toolEvents := c.toolEvents ++
        (executeTools env spec response.toolCalls counts w).1.map ToolOutcome.event
      log := c.log ++ [.executed response.toolCalls
        (executeTools env spec response.toolCalls counts w).1] }

theorem toolRun_runTools (response : LLMResponse) (s : RunState ω)
    (h : response.shouldExecuteTools = true) :
    ToolRun env spec s.core (runTools env spec response s).1
      (runTools env spec response s).2.core :=
  .run response s.counts s.world _ h (answers_toolMessages env _ _ _)

inductive Target where
  | again (c : Core)
  | leave (c : Core)
  | done (c : Core)

/-- The state of a run after its request to the model. -/
def Core.requested (c : Core) (messages : List Json) : Core :=
  { c with log := c.log ++ [.request messages] }

/-- One iteration; `w` is the state of the environment in which the messages are prepared. -/
inductive Turn (env : Env ω) (spec : AgentRunSpec) (iteration : Nat) (c : Core) : Target → Prop
  | fatalAgain (w : ω) (err : String) {c₁ c₂ : Core}
    (tools : ToolRun env spec (c.requested (govern env spec w c.messages).1) (some err) c₁)
    (drain : Drain env .afterFatalToolError iteration none
      { c₁ with messages := appendFinalMessage c₁.messages ("Error: " ++ err) } true c₂) :
    Turn env spec iteration c (.again c₂)
  | fatalLeave (w : ω) (err : String) {c₁ c₂ : Core}
    (tools : ToolRun env spec (c.requested (govern env spec w c.messages).1) (some err) c₁)
    (drain : Drain env .afterFatalToolError iteration none
      { c₁ with messages := appendFinalMessage c₁.messages ("Error: " ++ err) } false c₂) :
    Turn env spec iteration c (.leave c₂)
  | tools (w : ω) {c₁ c₂ : Core} (d : Bool)
    (tools : ToolRun env spec (c.requested (govern env spec w c.messages).1) none c₁)
    (drain : Drain env .afterTools iteration none c₁ d c₂) :
    Turn env spec iteration c (.again c₂)
  | emptyRetry (w : ω) :
    Turn env spec iteration c (.again (c.requested (govern env spec w c.messages).1))
  | lengthRecovery (w : ω) (m : Json) (plain : PlainAnswer m) :
    Turn env spec iteration c (.again { c.requested (govern env spec w c.messages).1 with
      messages := c.messages ++ [m, lengthRecoveryMessage] })
  | finalContent (w : ω) {c' : Core}
    (exit : FinalExit env iteration (c.requested (govern env spec w c.messages).1) c') :
    Turn env spec iteration c (.done c')
  | finalization (w : ω) {c' : Core}
    (exit : FinalExit env iteration { c with log := c.log ++
      [.request (govern env spec w c.messages).1,
        .finalizationRetry (c.messages ++ [finalizationRetryMessage])] } c') :
    Turn env spec iteration c (.done c')

/-- Where an iteration of the code leads. -/
def Next.target : Next ω → Target
  | .again s => .again s.core
  | .leave s => .leave s.core
  | .done _ s => .done s.core

theorem core_requestTurn (s : RunState ω) :
    (requestTurn env spec s).2.core =
      s.core.requested (govern env spec s.world s.messages).1 := rfl

variable {w : ω}

theorem turn_toolTurn (iteration : Nat) (response : LLMResponse) (s : RunState ω)
    (hs : s.core = c.requested (govern env spec w c.messages).1)
    (h : response.shouldExecuteTools = true) :
    Turn env spec iteration c (toolTurn env spec iteration response s).target := by
  have htools := toolRun_runTools env spec response s h
  rw [hs] at htools
  unfold toolTurn
  generalize runTools env spec response s = out at htools ⊢
  obtain ⟨fatal, s₁⟩ := out
  cases fatal with
  | some err =>
    have hdrain := drain_tryDrainInjections env .afterFatalToolError iteration none
      { s₁ with
        error := some ("Error: " ++ err)
        finalContent := some ("Error: " ++ err)
        stopReason := "tool_error"
        messages := appendFinalMessage s₁.messages ("Error: " ++ err) }
    dsimp only
    split
    case isTrue hd =>
      rw [hd] at hdrain
      exact .fatalAgain w err htools hdrain
    case isFalse hd =>
      rw [Bool.eq_false_iff.mpr hd] at hdrain
      exact .fatalLeave w err htools hdrain
  | none =>
    have hdrain := drain_tryDrainInjections env .afterTools iteration none
      { s₁ with emptyRetries := 0, lengthRecoveries := 0 }
    exact .tools w _ htools hdrain

theorem turn_finalizationTurn (iteration : Nat) (s : RunState ω)
    (hs : s.core = c.requested (govern env spec w c.messages).1) :
    Turn env spec iteration c (finalizationTurn env spec iteration s).target := by
  obtain ⟨hmessages, hused, hevents, hlog⟩ := Core.mk.inj hs
  have hcore : ({ c with log := c.log ++ [.request (govern env spec w c.messages).1,
      .finalizationRetry (c.messages ++ [finalizationRetryMessage])] } : Core) =
      ⟨s.messages, s.toolsUsed, s.toolEvents,
        s.log ++ [.finalizationRetry (s.messages ++ [finalizationRetryMessage])]⟩ := by
    rw [hmessages, hused, hevents, hlog, List.append_assoc]
    rfl
  dsimp only [finalizationTurn, Next.target]
  refine .finalization w ?_
  rw [hcore]
  exact finalExit_handleFinalContent env spec iteration _ _ _ rfl

theorem turn_answerTurn (iteration : Nat) (response : LLMResponse) (s : RunState ω)
    (hs : s.core = c.requested (govern env spec w c.messages).1) :
    Turn env spec iteration c (answerTurn env spec iteration response s).target := by
  have hfinish : ∀ (clean : Option String) (s' : RunState ω), s'.core = s.core →
      Turn env spec iteration c
        (.done (handleFinalContent env spec iteration clean response s').2.core) := by
    intro clean s' hs'
    exact .finalContent w
      (finalExit_handleFinalContent env spec iteration clean response s' (hs'.trans hs))
  unfold answerTurn
  dsimp only
  split
  · split
    · have hturn : Turn env spec iteration c (.again s.core) := by
        rw [hs]
        exact .emptyRetry w
      exact hturn
    · exact turn_finalizationTurn env spec iteration _ hs
  · split
    · split
      · obtain ⟨hmessages, hused, hevents, hlog⟩ := Core.mk.inj hs
        have hcore : ∀ m : Json, ({ c.requested (govern env spec w c.messages).1 with
            messages := c.messages ++ [m, lengthRecoveryMessage] } : Core) =
            ⟨s.messages ++ [m, lengthRecoveryMessage], s.toolsUsed, s.toolEvents, s.log⟩ := by
          intro m
          rw [hmessages, hused, hevents, hlog]
          rfl
        have hturn : Turn env spec iteration c _ := .lengthRecovery w
          (buildAssistantMessage (env.finalizeContent s.world response.content).1 []
            response.reasoningContent response.thinkingBlocks) ⟨_, _, _, rfl⟩
        rw [hcore] at hturn
        exact hturn
      · exact hfinish _ _ rfl
    · exact hfinish _ _ rfl

theorem turn_iterate (iteration : Nat) (s : RunState ω) :
    Turn env spec iteration s.core (iterate env spec iteration s).target := by
  unfold iterate
  dsimp only
  split
  case isTrue h => exact turn_toolTurn env spec iteration _ _ (core_requestTurn env spec s) h
  case isFalse => exact turn_answerTurn env spec iteration _ _ (core_requestTurn env spec s)

/-! ## Runs -/

/-- `.done` is the exit of `handle_final_content`. -/
theorem result_of_done {iteration : Nat} {s s' : RunState ω} {r : AgentRunResult}
    (h : iterate env spec iteration s = .done r s') :
    r.messages = s'.messages ∧ r.toolsUsed = [] ∧ r.toolEvents = [] := by
  have hfinal : ∀ clean response (s₁ : RunState ω),
      handleFinalContent env spec iteration clean response s₁ = (r, s') →
      r.messages = s'.messages ∧ r.toolsUsed = [] ∧ r.toolEvents = [] := by
    intro clean response s₁ heq
    have hresult := handleFinalContent_result env spec iteration clean response s₁
    rw [heq] at hresult
    exact hresult
  have hmk : ∀ out : AgentRunResult × RunState ω, Next.done out.1 out.2 = .done r s' →
      out = (r, s') := by
    intro out heq
    obtain ⟨hr, hs⟩ := Next.done.inj heq
    exact Prod.ext hr hs
  unfold iterate at h
  dsimp only at h
  split at h
  · unfold toolTurn at h
    split at h
    · dsimp only at h
      split at h <;> exact absurd h nofun
    · exact absurd h nofun
  · unfold answerTurn at h
    dsimp only at h
    split at h
    · split at h
      · exact absurd h nofun
      · exact hfinal _ _ _ (hmk _ h)
    · split at h
      · split at h
        · exact absurd h nofun
        · exact hfinal _ _ _ (hmk _ h)
      · exact hfinal _ _ _ (hmk _ h)

/-- The state at the iteration cap before the last drain. -/
def Core.capped (spec : AgentRunSpec) (c : Core) : Core :=
  { c with messages := appendFinalMessage c.messages (spec.maxIterationsMessage.getD
    ("Task did not finish within " ++ toString spec.maxIterations ++ " iterations.")) }

/-- The invariant rule of a run: `P` holds before every iteration, and `Q` relates the result
to the state at the end. -/
theorem loop_rule {P : Nat → Core → Prop} {Q : AgentRunResult → Core → Prop}
    (hagain : ∀ iteration c c', P iteration c → iteration < spec.maxIterations →
      Turn env spec iteration c (.again c') → P (iteration + 1) c')
    (hleave : ∀ iteration c c' r, P iteration c → iteration < spec.maxIterations →
      Turn env spec iteration c (.leave c') →
      r.messages = c'.messages → r.toolsUsed = c'.toolsUsed → r.toolEvents = c'.toolEvents → Q r c')
    (hdone : ∀ iteration c c' r, P iteration c → iteration < spec.maxIterations →
      Turn env spec iteration c (.done c') →
      r.messages = c'.messages → r.toolsUsed = [] → r.toolEvents = [] → Q r c')
    (hcap : ∀ c d c' r, P spec.maxIterations c →
      Drain env .atIterationCap spec.maxIterations none (c.capped spec) d c' →
      r.messages = c'.messages → r.toolsUsed = c'.toolsUsed → r.toolEvents = c'.toolEvents → Q r c')
    (w : ω) (hinit : P 0 ⟨spec.initialMessages, [], [], []⟩) :
    Q (run env spec w).1 (run env spec w).2.core := by
  have hloop : ∀ (n iteration : Nat) (s : RunState ω), n + iteration = spec.maxIterations →
      P iteration s.core →
      Q (loop env spec n iteration s).1 (loop env spec n iteration s).2.core := by
    intro n
    induction n with
    | zero =>
      intro iteration s hn hP
      obtain rfl : iteration = spec.maxIterations := by omega
      exact hcap s.core _ _ _ hP (drain_tryDrainInjections env .atIterationCap spec.maxIterations
        none { s with
          stopReason := "max_iterations"
          finalContent := some (spec.maxIterationsMessage.getD
            ("Task did not finish within " ++ toString spec.maxIterations ++ " iterations."))
          messages := appendFinalMessage s.messages (spec.maxIterationsMessage.getD
            ("Task did not finish within " ++ toString spec.maxIterations ++ " iterations.")) })
        rfl rfl rfl
    | succ n ih =>
      intro iteration s hn hP
      have hlt : iteration < spec.maxIterations := by omega
      have hturn := turn_iterate env spec iteration s
      rw [loop]
      cases hnext : iterate env spec iteration s with
      | again s' =>
        rw [hnext] at hturn
        exact ih (iteration + 1) s' (by omega) (hagain iteration _ _ hP hlt hturn)
      | leave s' =>
        rw [hnext] at hturn
        exact hleave iteration _ _ _ hP hlt hturn rfl rfl rfl
      | done r s' =>
        rw [hnext] at hturn
        obtain ⟨hmessages, hused, hevents⟩ := result_of_done env spec hnext
        exact hdone iteration _ _ _ hP hlt hturn hmessages hused hevents
  exact hloop spec.maxIterations 0 _ rfl hinit

end HiveClaw.Runner
