import HiveClaw.Runner.Context

/-!
# Tool execution in the agent runner

`execute_single_tool`, `partition_tool_batches` and `execute_tools` of
`crates/agent/src/runner.rs`, with the throttling of repeated lookups and the classification
of boundary violations.

The calls of a concurrent batch run one after another here: the environment is arbitrary, so
every outcome of an interleaving is the outcome of some environment.
-/

namespace HiveClaw

namespace RustStr

/-- `str::starts_with` for a string pattern. -/
def startsWith (text pattern : String) : Bool := pattern.toList.isPrefixOf text.toList

-- `str::split_whitespace`
def splitWhitespace (text : String) : List String :=
  ((text.toList.splitOnP isWhitespace).filter fun part => !part.isEmpty).map String.ofList

/-- The first characters of a text. -/
def takeChars (n : Nat) (text : String) : String := String.ofList (text.toList.take n)

end RustStr

namespace Runner

open Providers

variable {ω : Type}

/-- `truncate_text` of the helpers. -/
def truncateText (text : String) (maxChars : Nat) : String :=
  if maxChars = 0 || text.length ≤ maxChars then text
  else RustStr.takeChars maxChars text ++ "\n... (truncated)"

-- `ToolEvent`
structure ToolEvent where
  name : String
  status : String
  detail : String
deriving DecidableEq, Repr

/-- The counters that `run` keeps between the tool calls. -/
structure Counts where
  externalLookup : HashMap String Nat := ∅
  workspaceViolation : HashMap String Nat := ∅

/-! ## Repeated lookups -/

-- `MAX_REPEAT_EXTERNAL_LOOKUPS`
def maxRepeatExternalLookups : Nat := 2

-- `MAX_REPEAT_WORKSPACE_VIOLATIONS`
def maxRepeatWorkspaceViolations : Nat := 2

/-- A string argument without the white space around it. -/
def argument (arguments : Json) (key : String) : String :=
  RustStr.trim ((arguments.getStr key).getD "")

-- `external_lookup_signature`
def externalLookupSignature (env : Env ω) (toolName : String) (arguments : Json) : Option String :=
  match toolName with
  | "web_fetch" =>
    let url := argument arguments "url"
    if url = "" then none else some ("web_fetch:" ++ env.toLowercase url)
  | "web_search" =>
    let query := argument arguments "query"
    let query := if query = "" then argument arguments "search_term" else query
    if query = "" then none else some ("web_search:" ++ env.toLowercase query)
  | _ => none

-- `repeated_external_lookup_error`
def repeatedExternalLookupError (env : Env ω) (toolName : String) (arguments : Json)
    (seen : HashMap String Nat) : Option String × HashMap String Nat :=
  match externalLookupSignature env toolName arguments with
  | none => (none, seen)
  | some sig =>
    let count := (seen.lookup sig).getD 0 + 1
    (if count ≤ maxRepeatExternalLookups then none
      else some ("Error: repeated external lookup blocked. Use the results you already have " ++
        "to answer, or try a meaningfully different source."),
      seen.insert sig count)

/-! ## Boundary violations -/

-- `SSRF_MARKERS`
def ssrfMarkers : List String :=
  ["internal/private url detected", "private/internal address", "private address"]

-- `SSRF_BOUNDARY_NOTE`
def ssrfBoundaryNote : String :=
  "This is a non-bypassable security boundary. Stop trying to access " ++
  "private/internal URLs. Do not retry with curl, wget, encoded IPs, " ++
  "alternate DNS, redirects, proxies, or another tool. Ask the user for " ++
  "local files, logs, screenshots, or an explicit safe public URL instead. " ++
  "If the user explicitly trusts this private URL, ask them to whitelist " ++
  "the exact IP/CIDR via tools.ssrfWhitelist."

-- `WORKSPACE_VIOLATION_MARKERS`
def workspaceViolationMarkers : List String :=
  ["outside the configured workspace", "outside allowed directory", "working_dir is outside",
    "working_dir could not be resolved", "path outside working dir", "path traversal detected"]

-- `is_ssrf_violation`
def isSsrfViolation (env : Env ω) (text : String) : Bool :=
  text ≠ "" && containsAny (env.toLowercase text) ssrfMarkers

-- `is_workspace_violation`
def isWorkspaceViolation (env : Env ω) (text : String) : Bool :=
  text ≠ "" && (isSsrfViolation env (env.toLowercase text) ||
    containsAny (env.toLowercase text) workspaceViolationMarkers)

-- `normalize_violation_target`
def normalizeViolationTarget (env : Env ω) (w : ω) (raw : String) : String :=
  "violation:" ++ env.toLowercase
    ((env.canonicalize w raw).getD (RustStr.replace raw "\\" "/"))

-- `workspace_violation_signature`
def workspaceViolationSignature (env : Env ω) (w : ω) (toolName : String) (arguments : Json) :
    Option String :=
  let paths := (["path", "file_path", "target", "source", "destination"].map (argument arguments)).filter
    (· ≠ "")
  let command := (RustStr.splitWhitespace (argument arguments "command")).filter
    (RustStr.startsWith · "/")
  let cwd := [argument arguments "working_dir"].filter (· ≠ "")
  let targets := paths ++ if toolName = "exec" || toolName = "shell" then command ++ cwd else []
  targets.head?.map (normalizeViolationTarget env w)

/-- The text of a refusal. -/
def violationRefusal (target : String) (count : Nat) : String :=
  "Error: refusing repeated workspace-bypass attempts.\n" ++
    "You have tried to access '" ++ target ++ "' (or an equivalent path) " ++
    toString count ++ " times in this turn. This is a hard policy boundary -- " ++
    "switching tools, shell tricks, working_dir overrides, symlinks, " ++
    "or base64 piping will NOT change the answer. Stop retrying. " ++
    "If the user genuinely needs this resource, tell them you cannot " ++
    "access it and ask how they want to proceed (e.g. copy the file " ++
    "into the workspace, or disable restrict_to_workspace for this run)."

/-- `repeated_workspace_violation_error`; the count is read and never stored. -/
def repeatedWorkspaceViolationError (env : Env ω) (w : ω) (toolName : String) (arguments : Json)
    (seen : HashMap String Nat) : Option String × HashMap String Nat :=
  match workspaceViolationSignature env w toolName arguments with
  | none => (none, seen)
  | some signature =>
    let stored := (seen.lookup signature).getD 0
    let count := stored + 1
    let target := String.ofList (signature.toList.drop "violation:".length)
    (if count ≤ maxRepeatWorkspaceViolations then none
      else some (violationRefusal target count),
      seen.insert signature stored)

-- `event_detail`
def eventDetail (label text : String) (limit : Nat) : String :=
  RustStr.takeChars limit (label ++ RustStr.trim (RustStr.replace text "\n" " "))

-- `ssrf_soft_payload`
def ssrfSoftPayload (rawText : String) : String :=
  let text := RustStr.trim rawText
  (if text = "" then "Error: request blocked by SSRF guard" else text) ++ "\n\n" ++ ssrfBoundaryNote

/-- `classify_violation`: the payload and the event of a violation. -/
def classifyViolation (env : Env ω) (w : ω) (rawText : String) (event : ToolEvent)
    (tc : ToolCallRequest) (seen : HashMap String Nat) :
    Option (Json × ToolEvent) × HashMap String Nat :=
  if isSsrfViolation env rawText then
    (some (.str (ssrfSoftPayload rawText),
      { event with detail := eventDetail "ssrf_violation: " rawText 160 }), seen)
  else if isWorkspaceViolation env rawText then
    match repeatedWorkspaceViolationError env w tc.name (.obj tc.arguments) seen with
    | (some escalated, seen) =>
      (some (.str escalated,
        { event with detail := eventDetail "workspace_violation_escalated: " rawText 160 }), seen)
    | (none, seen) =>
      (some (.str rawText,
        { event with detail := eventDetail "workspace_violation: " rawText 160 }), seen)
  else (none, seen)

/-! ## Execution -/

-- `hint` of `execute_single_tool`
def errorHint : String := "\n\n[Analyze the error above and try a different approach.]"

structure ToolOutcome where
  result : Json
  event : ToolEvent
  fatal : Option String := none

-- `execute_single_tool`
def executeSingleTool (env : Env ω) (spec : AgentRunSpec) (tc : ToolCallRequest)
    (counts : Counts) (w : ω) : ToolOutcome × Counts × ω :=
  match repeatedExternalLookupError env tc.name (.obj tc.arguments) counts.externalLookup with
  | (some err, seen) =>
    ({ result := .str (err ++ errorHint)
       event := ⟨tc.name, "error", truncateText err 120⟩ },
      { counts with externalLookup := seen }, w)
  | (none, seen) =>
    let counts := { counts with externalLookup := seen }
    let (result, w) := env.executeTool w tc.name (.obj tc.arguments)
    let raw := match result with
      | .str s => s
      | other => env.toJson other
    let isError := RustStr.startsWith raw "Error"
    let event : ToolEvent := ⟨tc.name, if isError then "error" else "ok", truncateText raw 200⟩
    if isError then
      match classifyViolation env w raw event tc counts.workspaceViolation with
      | (some (payload, event), seen) =>
        ({ result := payload, event }, { counts with workspaceViolation := seen }, w)
      | (none, seen) =>
        ({ result := .str (raw ++ errorHint), event
           fatal := if spec.failOnToolError then some raw else none },
          { counts with workspaceViolation := seen }, w)
    else ({ result, event }, counts, w)

/-- One turn of the loop of `partition_tool_batches`: the batches, and the open one. -/
def partitionStep (safe : String → Bool)
    (st : List (List ToolCallRequest) × List ToolCallRequest) (tc : ToolCallRequest) :
    List (List ToolCallRequest) × List ToolCallRequest :=
  if safe tc.name then (st.1, st.2 ++ [tc])
  else ((if st.2.isEmpty then st.1 else st.1 ++ [st.2]) ++ [[tc]], [])

-- `partition_tool_batches`
def partitionToolBatches (env : Env ω) (spec : AgentRunSpec) (w : ω)
    (calls : List ToolCallRequest) : List (List ToolCallRequest) :=
  if !spec.concurrentTools then calls.map fun tc => [tc]
  else
    let (batches, current) := calls.foldl (partitionStep (env.concurrencySafe w)) ([], [])
    if current.isEmpty then batches else batches ++ [current]

/-- A concurrent batch: each call with counters of its own. -/
def executeConcurrent (env : Env ω) (spec : AgentRunSpec) :
    List ToolCallRequest → ω → List ToolOutcome × ω
  | [], w => ([], w)
  | tc :: rest, w =>
    let (outcome, _, w) := executeSingleTool env spec tc {} w
    let (outcomes, w) := executeConcurrent env spec rest w
    (outcome :: outcomes, w)

/-- The calls of a batch one by one, up to a fatal error. -/
def executeSequential (env : Env ω) (spec : AgentRunSpec) :
    List ToolCallRequest → Counts → ω → List ToolOutcome × Counts × ω
  | [], counts, w => ([], counts, w)
  | tc :: rest, counts, w =>
    let (outcome, counts, w) := executeSingleTool env spec tc counts w
    if outcome.fatal.isSome then ([outcome], counts, w)
    else
      let (outcomes, counts, w) := executeSequential env spec rest counts w
      (outcome :: outcomes, counts, w)

/-- One batch of `execute_tools`. -/
def executeBatch (env : Env ω) (spec : AgentRunSpec) (batch : List ToolCallRequest)
    (counts : Counts) (w : ω) : List ToolOutcome × Counts × ω :=
  if spec.concurrentTools && batch.length > 1 then
    let (outcomes, w) := executeConcurrent env spec batch w
    (outcomes, counts, w)
  else executeSequential env spec batch counts w

/-- The fatal error of a batch: the last one. -/
def fatalOf (outcomes : List ToolOutcome) : Option String :=
  (outcomes.filterMap ToolOutcome.fatal).getLast?

/-- The loop of `execute_tools` over the batches. -/
def executeBatches (env : Env ω) (spec : AgentRunSpec) :
    List (List ToolCallRequest) → Counts → ω → List ToolOutcome × Counts × ω
  | [], counts, w => ([], counts, w)
  | batch :: rest, counts, w =>
    let (outcomes, counts, w) := executeBatch env spec batch counts w
    if (fatalOf outcomes).isSome then (outcomes, counts, w)
    else
      let (more, counts, w) := executeBatches env spec rest counts w
      (outcomes ++ more, counts, w)

/-- `execute_tools`: the outcomes of the calls it executed, in order. -/
def executeTools (env : Env ω) (spec : AgentRunSpec) (calls : List ToolCallRequest)
    (counts : Counts) (w : ω) : List ToolOutcome × Counts × ω :=
  executeBatches env spec (partitionToolBatches env spec w calls) counts w

end Runner

end HiveClaw
