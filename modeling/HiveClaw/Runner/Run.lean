import HiveClaw.Runner.Tools

/-!
# The loop of the agent runner

`AgentRunner::run` of `crates/agent/src/runner.rs`: requests to the model, tool batches,
retries of empty and truncated answers, injected user messages, and the exits.

A run also keeps a log of what it did (`RunEvent`): its requests, the injections it drained
and the tool batches it executed. No step reads the log. What hooks, checkpoints and
progress messages are told is left out.
-/

namespace HiveClaw.Runner

open Providers

variable {ω : Type}

/-! ## Texts -/

-- `DEFAULT_ERROR_MESSAGE`
def defaultErrorMessage : String := "Sorry, I encountered an error calling the AI model."

-- `EMPTY_FINAL_RESPONSE_MESSAGE`
def emptyFinalResponseMessage : String := "(No response from model)"

-- `build_finalization_retry_message`
def finalizationRetryMessage : Json :=
  textMessage "user" "Your last response appeared to be empty. Please provide your answer."

-- `build_length_recovery_message`
def lengthRecoveryMessage : Json :=
  textMessage "user" "Your response was truncated. Please continue from where you left off."

def maxEmptyRetries : Nat := 2

def maxLengthRecoveries : Nat := 3

def maxInjectionsPerTurn : Nat := 3

def maxInjectionCycles : Nat := 5

-- `is_blank_text`
def isBlankText : Option String → Bool
  | none => true
  | some s => RustStr.trim s = ""

-- `ToolCallRequest::to_openai_tool_call`
def toOpenaiToolCall (env : Env ω) (tc : ToolCallRequest) : Json :=
  let extra (key : String) (fields : Option JsonMap) : JsonMap :=
    (fields.map fun f => (key, Json.obj f)).toList
  .obj ([("id", .str tc.id), ("type", .str "function"),
    ("function", .obj ([("name", .str tc.name), ("arguments", .str (env.toJson (.obj tc.arguments)))] ++
      extra "provider_specific_fields" tc.functionProviderSpecificFields))] ++
    extra "extra_content" tc.extraContent ++
    extra "provider_specific_fields" tc.providerSpecificFields)

/-! ## The state of a run -/

/-- Where `try_drain_injections` is called. -/
inductive DrainSite where
  | afterTools
  | afterFatalToolError
  | beforeFinalAnswer
  | afterModelError
  | afterEmptyAnswer
  | atIterationCap
deriving DecidableEq, Repr

inductive RunEvent where
  | request (messages : List Json)
  | finalizationRetry (messages : List Json)
  | drained (site : DrainSite) (iteration : Nat) (injected : List Json)
  | executed (calls : List ToolCallRequest) (outcomes : List ToolOutcome)

/-- The variables of `run`, and its log. -/
structure RunState (ω : Type) where
  messages : List Json
  finalContent : Option String := none
  toolsUsed : List String := []
  usage : HashMap String Int := .collect [("prompt_tokens", 0), ("completion_tokens", 0)]
  error : Option String := none
  stopReason : String := "completed"
  toolEvents : List ToolEvent := []
  counts : Counts := {}
  emptyRetries : Nat := 0
  lengthRecoveries : Nat := 0
  hadInjections : Bool := false
  injectionCycles : Nat := 0
  world : ω
  log : List RunEvent := []

-- `AgentRunResult`
structure AgentRunResult where
  finalContent : Option String := none
  messages : List Json := []
  toolsUsed : List String := []
  usage : HashMap String Int := ∅
  stopReason : String := ""
  error : Option String := none
  toolEvents : List ToolEvent := []
  hadInjections : Bool := false

-- `accumulate_usage`
def accumulateUsage (target delta : HashMap String Int) : HashMap String Int :=
  delta.entries.foldl (fun t e => t.insert e.1 ((t.lookup e.1).getD 0 + e.2)) target

-- `append_final_message`
def appendFinalMessage (messages : List Json) (content : String) : List Json :=
  if content = "" then messages else messages ++ [textMessage "assistant" content]

-- `append_model_error_placeholder`
def appendModelErrorPlaceholder (messages : List Json) : List Json :=
  if messages.getLast?.any fun last => role last = some "assistant" && !hasTools last then messages
  else messages ++ [textMessage "assistant" "[Assistant reply unavailable due to model error.]"]

/-! ## Injections -/

-- `to_blocks`
def toBlocks (env : Env ω) : Json → List Json
  | .null => []
  | .arr items => items.map fun item =>
    match item with
    | .obj fields => .obj fields
    | .str s => textBlock s
    | other => textBlock (env.toJson other)
  | .str s => [textBlock s]
  | other => [textBlock (env.toJson other)]
where
  /-- `{"type": "text", "text": s}`. -/
  textBlock (s : String) : Json := .obj [("type", .str "text"), ("text", .str s)]

-- `merge_message_content`
def mergeMessageContent (env : Env ω) : Option Json → Option Json → Json
  | some (.str a), some (.str b) => if a = "" then .str b else .str (a ++ "\n\n" ++ b)
  | some left, some right => .arr (toBlocks env left ++ toBlocks env right)
  | some v, none => v
  | none, some v => v
  | none, none => .str ""

/-- One turn of `append_injected_messages`. -/
def appendInjected (env : Env ω) (messages : List Json) (injection : Json) : List Json :=
  match messages.getLast? with
  | none => messages ++ [injection]
  | some last =>
    if role injection = some "user" ∧ role last = some "user" then
      messages.dropLast ++
        [setField last "content"
          (mergeMessageContent env (last.get "content") (injection.get "content"))]
    else messages ++ [injection]

/-- The user message of an item of the injection callback. -/
def injectionOf (item : Json) : Option Json :=
  if role item = some "user" ∧ (item.get "content").isSome then some item
  else
    ((item.getStr "content").filter fun text => RustStr.trim text ≠ "").map (textMessage "user")

-- `drain_injections`
def drainInjections (env : Env ω) (w : ω) : List Json × ω :=
  match env.injectionCallback with
  | none => ([], w)
  | some callback =>
    let (items, w) := callback w maxInjectionsPerTurn
    ((items.filterMap injectionOf).take maxInjectionsPerTurn, w)

/-- `try_drain_injections`: whether there were injections, and the state after. -/
def tryDrainInjections (env : Env ω) (site : DrainSite) (iteration : Nat)
    (assistantMessage : Option Json) (s : RunState ω) : Bool × RunState ω :=
  if s.injectionCycles ≥ maxInjectionCycles then (false, s)
  else
    let (injected, w) := drainInjections env s.world
    if injected.isEmpty then (false, { s with world := w })
    else
      (true, { s with
        world := w
        injectionCycles := s.injectionCycles + 1
        messages := injected.foldl (appendInjected env) (s.messages ++ assistantMessage.toList)
        log := s.log ++ [.drained site iteration injected] })

/-! ## Exits -/

/-- The result that the loop itself returns. -/
def RunState.result (s : RunState ω) : AgentRunResult :=
  { finalContent := s.finalContent
    messages := s.messages
    toolsUsed := s.toolsUsed
    usage := s.usage
    stopReason := s.stopReason
    error := s.error
    toolEvents := s.toolEvents
    hadInjections := s.hadInjections }

-- `handle_final_content`
def handleFinalContent (env : Env ω) (spec : AgentRunSpec) (iteration : Nat)
    (clean : Option String) (response : LLMResponse) (s : RunState ω) :
    AgentRunResult × RunState ω :=
  let isError := response.finishReason = "error"
  let assistant := buildAssistantMessage clean [] response.reasoningContent response.thinkingBlocks
  let (shouldContinue, s) := tryDrainInjections env .beforeFinalAnswer iteration
    (if ¬ isError ∧ ¬ isBlankText clean then some assistant else none) s
  if shouldContinue then
    ({ messages := s.messages, usage := s.usage, stopReason := "injected", hadInjections := true }, s)
  else if isError then
    let content := clean.getD (spec.errorMessage.getD defaultErrorMessage)
    let s := { s with messages := appendModelErrorPlaceholder s.messages }
    let (drained, s) := tryDrainInjections env .afterModelError iteration none s
    ({ finalContent := some content, messages := s.messages, usage := s.usage
       stopReason := "error", error := some content, hadInjections := s.hadInjections || drained }, s)
  else if isBlankText clean then
    let s := { s with messages := appendFinalMessage s.messages emptyFinalResponseMessage }
    let (drained, s) := tryDrainInjections env .afterEmptyAnswer iteration none s
    ({ finalContent := some emptyFinalResponseMessage, messages := s.messages, usage := s.usage
       stopReason := "empty_final_response", error := some emptyFinalResponseMessage
       hadInjections := s.hadInjections || drained }, s)
  else
    let s := { s with messages := s.messages ++ [assistant] }
    ({ finalContent := clean, messages := s.messages, usage := s.usage, stopReason := "completed"
       hadInjections := s.hadInjections }, s)

/-- How an iteration ends: with `continue`, with `break`, or with a result. -/
inductive Next (ω : Type) where
  | again (s : RunState ω)
  | leave (s : RunState ω)
  | done (r : AgentRunResult) (s : RunState ω)

/-- The tool messages of a batch: the calls zipped with the results. -/
def toolMessages (env : Env ω) :
    List ToolCallRequest → List ToolOutcome → ω → List Json × ω
  | tc :: calls, outcome :: outcomes, w =>
    let (content, w) := normalizeToolResult env w tc.id tc.name outcome.result
    let (rest, w) := toolMessages env calls outcomes w
    (toolMessage (.str tc.id) tc.name content :: rest, w)
  | _, _, w => ([], w)

/-- The state after the tool calls of a response, and the fatal error. -/
def runTools (env : Env ω) (spec : AgentRunSpec) (response : LLMResponse) (s : RunState ω) :
    Option String × RunState ω :=
  let assistant := buildAssistantMessage response.content
    (response.toolCalls.map (toOpenaiToolCall env)) response.reasoningContent response.thinkingBlocks
  let (outcomes, counts, w) := executeTools env spec response.toolCalls s.counts s.world
  let (results, w) := toolMessages env response.toolCalls outcomes w
  (fatalOf outcomes, { s with
    messages := s.messages ++ assistant :: results
    toolsUsed := s.toolsUsed ++ response.toolCalls.map ToolCallRequest.name
    toolEvents := s.toolEvents ++ outcomes.map ToolOutcome.event
    counts
    world := w
    log := s.log ++ [.executed response.toolCalls outcomes] })

/-- The branch of `run` for a response with tool calls. -/
def toolTurn (env : Env ω) (spec : AgentRunSpec) (iteration : Nat) (response : LLMResponse)
    (s : RunState ω) : Next ω :=
  match runTools env spec response s with
  | (some err, s) =>
    let text := "Error: " ++ err
    let s := { s with
      error := some text
      finalContent := some text
      stopReason := "tool_error"
      messages := appendFinalMessage s.messages text }
    let (drained, s) := tryDrainInjections env .afterFatalToolError iteration none s
    if drained then .again { s with hadInjections := true } else .leave s
  | (none, s) =>
    let s := { s with emptyRetries := 0, lengthRecoveries := 0 }
    let (drained, s) := tryDrainInjections env .afterTools iteration none s
    .again { s with hadInjections := s.hadInjections || drained }

/-- The retry without tools of an answer that stayed empty. -/
def finalizationTurn (env : Env ω) (spec : AgentRunSpec) (iteration : Nat) (s : RunState ω) :
    Next ω :=
  let messages := s.messages ++ [finalizationRetryMessage]
  let (response, w) := env.chatWithRetry s.world messages
  let (clean, w) := env.finalizeContent w response.content
  let (r, s) := handleFinalContent env spec iteration clean response { s with
    world := w
    usage := accumulateUsage s.usage response.usage
    log := s.log ++ [.finalizationRetry messages] }
  .done r s

/-- The branch of `run` for a response without tool calls. -/
def answerTurn (env : Env ω) (spec : AgentRunSpec) (iteration : Nat) (response : LLMResponse)
    (s : RunState ω) : Next ω :=
  let (clean, w) := env.finalizeContent s.world response.content
  let s := { s with world := w }
  let finish (s : RunState ω) : Next ω :=
    let (r, s) := handleFinalContent env spec iteration clean response s
    .done r s
  if response.finishReason ≠ "error" ∧ isBlankText clean then
    let s := { s with emptyRetries := s.emptyRetries + 1 }
    if s.emptyRetries < maxEmptyRetries then .again s
    else finalizationTurn env spec iteration s
  else if response.finishReason = "length" ∧ ¬ isBlankText clean then
    let s := { s with lengthRecoveries := s.lengthRecoveries + 1 }
    if s.lengthRecoveries ≤ maxLengthRecoveries then
      .again { s with messages := s.messages ++
        [buildAssistantMessage clean [] response.reasoningContent response.thinkingBlocks,
          lengthRecoveryMessage] }
    else finish s
  else finish s

/-- The request of an iteration: the response with its content cleaned, and the state. -/
def requestTurn (env : Env ω) (spec : AgentRunSpec) (s : RunState ω) :
    LLMResponse × RunState ω :=
  let (messagesForModel, w) := govern env spec s.world s.messages
  let (response, w) := env.requestModel w messagesForModel
  ({ response with content := env.extractReasoning response },
    { s with
      world := w
      usage := accumulateUsage s.usage response.usage
      log := s.log ++ [.request messagesForModel] })

/-- One iteration of `run`. -/
def iterate (env : Env ω) (spec : AgentRunSpec) (iteration : Nat) (s : RunState ω) : Next ω :=
  let (response, s) := requestTurn env spec s
  if response.shouldExecuteTools then toolTurn env spec iteration response s
  else answerTurn env spec iteration response s

/-- What `run` does when the loop ran out of iterations. -/
def iterationCap (env : Env ω) (spec : AgentRunSpec) (s : RunState ω) :
    AgentRunResult × RunState ω :=
  let content := spec.maxIterationsMessage.getD
    ("Task did not finish within " ++ toString spec.maxIterations ++ " iterations.")
  let s := { s with
    stopReason := "max_iterations"
    finalContent := some content
    messages := appendFinalMessage s.messages content }
  let (_, s) := tryDrainInjections env .atIterationCap spec.maxIterations none s
  let s := { s with hadInjections := true }
  (s.result, s)

/-- The loop of `run` from an iteration on, with `n` iterations left. -/
def loop (env : Env ω) (spec : AgentRunSpec) : Nat → Nat → RunState ω → AgentRunResult × RunState ω
  | 0, _, s => iterationCap env spec s
  | n + 1, iteration, s =>
    match iterate env spec iteration s with
    | .again s => loop env spec n (iteration + 1) s
    | .leave s => (s.result, s)
    | .done r s => (r, s)

/-- `run`: the result, and the state it ends in. -/
def run (env : Env ω) (spec : AgentRunSpec) (w : ω) : AgentRunResult × RunState ω :=
  loop env spec spec.maxIterations 0 { messages := spec.initialMessages, world := w }

end HiveClaw.Runner
