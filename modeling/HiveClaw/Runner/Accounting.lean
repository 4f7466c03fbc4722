import HiveClaw.Runner.Steps

/-!
# The tools a run reports

The loop collects the names and the events of the tool calls it executes. They are part of
the result when the loop itself returns it, at the iteration cap and after a fatal tool
error. `handle_final_content` builds results of its own, with empty lists. So the report is
complete exactly if no tool was used before a final answer
(`reported_iff_answersWithoutTools`).
-/

namespace HiveClaw.Runner

open Providers

variable {ω : Type} {env : Env ω} {spec : AgentRunSpec}

/-! ## What the log says -/

/-- The names of the calls that an event put through `execute_tools`. -/
def RunEvent.toolNames : RunEvent → List String
  | .executed calls _ => calls.map ToolCallRequest.name
  | _ => []

/-- The events of the calls that were executed. -/
def RunEvent.toolEvents : RunEvent → List ToolEvent
  | .executed _ outcomes => outcomes.map ToolOutcome.event
  | _ => []

def RunEvent.Batch : RunEvent → Prop
  | .executed calls _ => calls ≠ []
  | _ => True

/-- The lists that the loop collects agree with the log. -/
structure Core.Accounted (c : Core) : Prop where
  names : c.toolsUsed = c.log.flatMap RunEvent.toolNames
  events : c.toolEvents = c.log.flatMap RunEvent.toolEvents
  batches : ∀ e ∈ c.log, e.Batch

/-- An event that executes nothing. -/
def RunEvent.Idle (e : RunEvent) : Prop := e.toolNames = [] ∧ e.toolEvents = [] ∧ e.Batch

variable {c c' : Core}

theorem Core.Accounted.append (h : c.Accounted) (events : List RunEvent)
    (hidle : ∀ e ∈ events, e.Idle) (hused : c'.toolsUsed = c.toolsUsed)
    (hevents : c'.toolEvents = c.toolEvents) (hlog : c'.log = c.log ++ events) : c'.Accounted := by
  have hnames : events.flatMap RunEvent.toolNames = [] :=
    List.flatMap_eq_nil_iff.mpr fun e he => (hidle e he).1
  have hnone : events.flatMap RunEvent.toolEvents = [] :=
    List.flatMap_eq_nil_iff.mpr fun e he => (hidle e he).2.1
  refine ⟨?_, ?_, ?_⟩
  · rw [hused, h.names, hlog, List.flatMap_append, hnames, List.append_nil]
  · rw [hevents, h.events, hlog, List.flatMap_append, hnone, List.append_nil]
  · intro e he
    rw [hlog] at he
    rcases List.mem_append.mp he with he | he
    · exact h.batches e he
    · exact (hidle e he).2.2

theorem Core.Accounted.toolEvents_eq_nil (h : c.Accounted) (hused : c.toolsUsed = []) :
    c.toolEvents = [] := by
  rw [h.events]
  refine List.flatMap_eq_nil_iff.mpr fun e he => ?_
  have hnames := List.flatMap_eq_nil_iff.mp (h.names.symm.trans hused) e he
  have hbatch := h.batches e he
  cases e with
  | executed calls outcomes => exact absurd (List.map_eq_nil_iff.mp hnames) hbatch
  | request => rfl
  | finalizationRetry => rfl
  | drained => rfl

/-! ## Steps -/

theorem Core.Accounted.withMessages (h : c.Accounted) (messages : List Json) :
    Core.Accounted { c with messages := messages } :=
  ⟨h.names, h.events, h.batches⟩

theorem Core.Accounted.requested (h : c.Accounted) (messages : List Json) :
    (c.requested messages).Accounted :=
  h.append [.request messages] (by simp [RunEvent.Idle, RunEvent.toolNames, RunEvent.toolEvents,
    RunEvent.Batch]) rfl rfl rfl

theorem Drain.accounted {site : DrainSite} {iteration : Nat} {assistant : Option Json} {d : Bool}
    (hdrain : Drain env site iteration assistant c d c') (h : c.Accounted) :
    c'.Accounted ∧ c'.toolsUsed = c.toolsUsed := by
  cases hdrain with
  | nothing => exact ⟨h, rfl⟩
  | injected injected =>
    refine ⟨h.append [.drained site iteration injected] ?_ rfl rfl rfl, rfl⟩
    simp [RunEvent.Idle, RunEvent.toolNames, RunEvent.toolEvents, RunEvent.Batch]

theorem ToolRun.accounted {fatal : Option String} (hrun : ToolRun env spec c fatal c')
    (h : c.Accounted) : c'.Accounted := by
  cases hrun with
  | run response counts w results hcalls =>
    refine ⟨?_, ?_, ?_⟩
    · simp only [List.flatMap_append, ← h.names, List.flatMap_singleton, RunEvent.toolNames]
    · simp only [List.flatMap_append, ← h.events, List.flatMap_singleton, RunEvent.toolEvents]
    · intro e he
      rcases List.mem_append.mp he with he | he
      · exact h.batches e he
      · rw [List.mem_singleton.mp he]
        intro hnil
        simp [LLMResponse.shouldExecuteTools, LLMResponse.hasToolCalls, hnil] at hcalls

theorem FinalExit.accounted {c c' : Core} {iteration : Nat}
    (hexit : FinalExit env iteration c c') (h : c.Accounted) : c'.Accounted ∧ c'.toolsUsed = c.toolsUsed := by
  cases hexit with
  | injected assistant _ hdrain => exact hdrain.accounted h
  | modelError d hdrain => exact hdrain.accounted (h.withMessages _)
  | emptyAnswer d hdrain => exact hdrain.accounted (h.withMessages _)
  | answer m => exact ⟨h.withMessages _, rfl⟩

/-- The account is kept, and nothing was used since `c` if the run ends with an answer. -/
def Target.Accounted (c : Core) : Target → Prop
  | .again c' => c'.Accounted
  | .leave c' => c'.Accounted
  | .done c' => c'.Accounted ∧ c'.toolsUsed = c.toolsUsed

theorem Turn.accounted {c : Core} {iteration : Nat} {t : Target}
    (hturn : Turn env spec iteration c t) (h : c.Accounted) : t.Accounted c := by
  cases hturn with
  | fatalAgain w err htools hdrain =>
    exact (hdrain.accounted ((htools.accounted (h.requested _)).withMessages _)).1
  | fatalLeave w err htools hdrain =>
    exact (hdrain.accounted ((htools.accounted (h.requested _)).withMessages _)).1
  | tools w d htools hdrain => exact (hdrain.accounted (htools.accounted (h.requested _))).1
  | emptyRetry w => exact h.requested _
  | lengthRecovery w m => exact (h.requested _).withMessages _
  | finalContent w hexit => exact hexit.accounted (h.requested _)
  | finalization w hexit =>
    refine hexit.accounted (h.append [.request (govern env spec w c.messages).1,
      .finalizationRetry (c.messages ++ [finalizationRetryMessage])] ?_ rfl rfl rfl)
    simp [RunEvent.Idle, RunEvent.toolNames, RunEvent.toolEvents, RunEvent.Batch]

/-! ## Runs -/

/-- The result names all tools the run executed, and has all their events. -/
def Reported (out : AgentRunResult × RunState ω) : Prop :=
  out.1.toolsUsed = out.2.log.flatMap RunEvent.toolNames ∧
    out.1.toolEvents = out.2.log.flatMap RunEvent.toolEvents

/-- If an iteration ends with a final answer, no tool was used before it. -/
def AnswersWithoutTools (env : Env ω) (spec : AgentRunSpec) : Nat → Nat → RunState ω → Prop
  | 0, _, _ => True
  | n + 1, iteration, s =>
    match iterate env spec iteration s with
    | .again s' => AnswersWithoutTools env spec n (iteration + 1) s'
    | .leave _ => True
    | .done _ _ => s.toolsUsed = []

theorem reported_loop_iff (n iteration : Nat) (s : RunState ω) (h : s.core.Accounted) :
    Reported (loop env spec n iteration s) ↔ AnswersWithoutTools env spec n iteration s := by
  induction n generalizing iteration s with
  | zero =>
    refine ⟨fun _ => trivial, fun _ => ?_⟩
    have hdrain := drain_tryDrainInjections env .atIterationCap spec.maxIterations none { s with
      stopReason := "max_iterations"
      finalContent := some (spec.maxIterationsMessage.getD ("Task did not finish within " ++
        toString spec.maxIterations ++ " iterations."))
      messages := appendFinalMessage s.messages (spec.maxIterationsMessage.getD
        ("Task did not finish within " ++ toString spec.maxIterations ++ " iterations.")) }
    have haccounted := (hdrain.accounted (h.withMessages _)).1
    exact ⟨haccounted.names, haccounted.events⟩
  | succ n ih =>
    have hturn := (turn_iterate env spec iteration s).accounted h
    rw [loop, AnswersWithoutTools]
    cases hnext : iterate env spec iteration s with
    | again s' =>
      rw [hnext] at hturn
      exact ih (iteration + 1) s' hturn
    | leave s' =>
      rw [hnext] at hturn
      exact ⟨fun _ => trivial, fun _ => ⟨hturn.names, hturn.events⟩⟩
    | done r s' =>
      rw [hnext] at hturn
      obtain ⟨-, hused, hevents⟩ := result_of_done env spec hnext
      obtain ⟨haccounted, hsame⟩ := hturn
      have hnames : r.toolsUsed = s'.log.flatMap RunEvent.toolNames ↔ s.toolsUsed = [] := by
        have hnames : s.toolsUsed = s'.log.flatMap RunEvent.toolNames :=
          hsame.symm.trans haccounted.names
        rw [hused, ← hnames]
        exact eq_comm
      constructor
      · exact fun hreported => hnames.mp hreported.1
      · intro hempty
        refine ⟨hnames.mpr hempty, ?_⟩
        rw [hevents]
        exact (haccounted.events.symm.trans
          (haccounted.toolEvents_eq_nil (hsame.trans hempty))).symm

/-- A run reports its tools exactly if it used none before a final answer. -/
theorem reported_iff_answersWithoutTools (env : Env ω) (spec : AgentRunSpec) (w : ω) :
    Reported (run env spec w) ↔
      AnswersWithoutTools env spec spec.maxIterations 0
        { messages := spec.initialMessages, world := w } :=
  reported_loop_iff spec.maxIterations 0 _ ⟨rfl, rfl, by simp [RunState.core]⟩

/-- A model that reads a file and then answers. -/
def readsThenAnswers : Env Nat :=
  { requestModel := fun requests _ =>
      match requests with
      | 0 => ({ toolCalls := [{ id := "call_1", name := "read_file" }], finishReason := "tool_calls" }, 1)
      | n => ({ content := some "Done." }, n + 1)
    chatWithRetry := fun requests _ => ({}, requests)
    executeTool := fun requests _ _ => (.str "text", requests) }

def readSpec : AgentRunSpec :=
  { initialMessages := [textMessage "user" "Read it."], maxIterations := 5 }

/-- The run reads a file, and its result names no tool. -/
theorem answer_forgets_tools :
    let out := run readsThenAnswers readSpec 0
    out.1.finalContent = some "Done." ∧ out.1.toolsUsed = [] ∧
      out.2.log.flatMap RunEvent.toolNames = ["read_file"] ∧ ¬ Reported out := by
  have hused : (run readsThenAnswers readSpec 0).1.toolsUsed = [] := by decide +kernel
  have hnames : (run readsThenAnswers readSpec 0).2.log.flatMap RunEvent.toolNames =
      ["read_file"] := by
    decide +kernel
  refine ⟨by decide +kernel, hused, hnames, fun hreported => ?_⟩
  exact absurd (hused.symm.trans (hreported.1.trans hnames)) (by decide)

end HiveClaw.Runner
