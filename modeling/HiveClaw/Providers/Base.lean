import HiveClaw.Json
import HiveClaw.RustStd

/-!
# The provider trait

Requests and responses of `crates/providers/src/base.rs`, the classification of errors, the
clean-up of the messages of a request, and `chat_stream_with_retry`.

A provider is a state machine (`Provider`): a streaming call hands over its deltas in order
and ends with a response. How long the retry policy sleeps, and what it tells
`on_retry_wait` while it does, is not part of the model.
-/

namespace HiveClaw.Providers

/-! ## Requests and responses -/

-- `ToolCallRequest`
structure ToolCallRequest where
  id : String
  name : String
  arguments : JsonMap := []
  extraContent : Option JsonMap := none
  providerSpecificFields : Option JsonMap := none
  functionProviderSpecificFields : Option JsonMap := none
deriving DecidableEq, Repr

/-- `LLMResponse`; the delays are left out. -/
structure LLMResponse where
  content : Option String := none
  toolCalls : List ToolCallRequest := []
  finishReason : String := "stop"
  usage : HashMap String Int := ∅
  reasoningContent : Option String := none
  thinkingBlocks : Option (List Json) := none
  errorStatusCode : Option Int := none
  errorKind : Option String := none
  errorType : Option String := none
  errorCode : Option String := none
  errorShouldRetry : Option Bool := none

namespace LLMResponse

-- `has_tool_calls`
def hasToolCalls (r : LLMResponse) : Bool := !r.toolCalls.isEmpty

-- `should_execute_tools`
def shouldExecuteTools (r : LLMResponse) : Bool :=
  r.hasToolCalls && ["tool_calls", "function_call", "stop"].contains r.finishReason

-- `is_error`
def isError (r : LLMResponse) : Bool := r.finishReason = "error"

-- `LLMResponse::error`
def error (msg : String) : LLMResponse := { content := some msg, finishReason := "error" }

end LLMResponse

-- `ToolChoice`
inductive ToolChoice where
  | auto
  | required
  | none
  | specific (tool : Json)
deriving DecidableEq, Repr

/-- `ChatRequest`; a temperature that is not finite is `none`. -/
structure ChatRequest where
  messages : List Json := []
  tools : Option (List Json) := none
  model : Option String := none
  maxTokens : Nat := 0
  temperature : Option Rat := none
  reasoningEffort : Option String := none
  toolChoice : Option ToolChoice := none

-- `GenerationSettings`
structure GenerationSettings where
  temperature : Rat := 7 / 10
  maxTokens : Nat := 4096
  reasoningEffort : Option String := none

-- `RetryMode`
inductive RetryMode where
  | standard
  | persistent
deriving DecidableEq, Repr

/-! ## Errors -/

def transientErrorMarkers : List String :=
  ["429", "rate limit", "500", "502", "503", "504", "overloaded", "timeout", "timed out",
    "connection", "server error", "temporarily unavailable", "速率限制", "访问量过大"]

def nonRetryable429Text : List String :=
  ["insufficient_quota", "insufficient quota", "quota exceeded", "quota exhausted",
    "billing hard limit", "billing_hard_limit_reached", "billing not active",
    "insufficient balance", "insufficient_balance", "credit balance too low",
    "payment required", "out of credits", "out of quota", "exceeded your current quota"]

def retryable429Text : List String :=
  ["rate limit", "rate_limit", "too many requests", "retry after", "try again in",
    "temporarily unavailable", "overloaded", "concurrency limit", "速率限制"]

def nonRetryable429Tokens : List String :=
  ["insufficient_quota", "quota_exceeded", "quota_exhausted", "billing_hard_limit_reached",
    "insufficient_balance", "credit_balance_too_low", "billing_not_active", "payment_required"]

def retryable429Tokens : List String :=
  ["rate_limit_exceeded", "rate_limit_error", "too_many_requests", "request_limit_exceeded",
    "requests_limit_exceeded", "overloaded_error"]

def retryableStatusCodes : List Int := [408, 409, 429]

def transientErrorKinds : List String := ["timeout", "connection"]

/-- Whether a text holds one of the markers. -/
def containsAny (text : String) (markers : List String) : Bool :=
  markers.any fun m => RustStr.contains text m

-- `is_transient_text`
def isTransientText : Option String → Bool
  | none => false
  | some s => containsAny (RustStr.toAsciiLowercase s) transientErrorMarkers

-- `normalize_token`
def normalizeToken (v : Option String) : Option String :=
  (v.map fun s => RustStr.toAsciiLowercase (RustStr.trim s)).filter fun s => s ≠ ""

-- `is_retryable_429`
def isRetryable429 (r : LLMResponse) : Bool :=
  let tokens := (normalizeToken r.errorType).toList ++ (normalizeToken r.errorCode).toList
  let contentLower := RustStr.toAsciiLowercase (r.content.getD "")
  if tokens.any nonRetryable429Tokens.contains then false
  else if containsAny contentLower nonRetryable429Text then false
  else if tokens.any retryable429Tokens.contains then true
  else if containsAny contentLower retryable429Text then true
  else true

-- `is_transient_response`
def isTransientResponse (r : LLMResponse) : Bool :=
  match r.errorShouldRetry with
  | some flag => flag
  | none =>
    if r.errorStatusCode = some 429 then isRetryable429 r
    else if r.errorStatusCode.any fun s => retryableStatusCodes.contains s || s ≥ 500 then true
    else if r.errorKind.any fun k =>
        transientErrorKinds.contains (RustStr.toAsciiLowercase (RustStr.trim k)) then true
    else isTransientText r.content

/-! ## The messages of a request -/

/-- Whether a message has tool calls. -/
def hasTools (msg : Json) : Bool := ((msg.get "tool_calls").map fun v => !v.isNull).getD false

/-- `obj.insert("content", value)` on an object. -/
def setField (msg : Json) (key : String) (value : Json) : Json :=
  match msg with
  | .obj fields => .obj (JsonMap.insert fields key value)
  | msg => msg

theorem get_setField_of_ne (msg : Json) {key key' : String} (value : Json) (h : key' ≠ key) :
    (setField msg key value).get key' = msg.get key' := by
  cases msg with
  | obj fields => exact JsonMap.get_insert_of_ne fields value h
  | _ => rfl

-- `SYNTHETIC_USER_CONTENT`
def syntheticUserContent : String := "(conversation continued)"

/-- The last message of `merged` after a message of the same role came. -/
def mergeInto (prev msg : Json) : Json :=
  if msg.getStr "role" = some "assistant" && hasTools msg then msg
  else if msg.getStr "role" = some "assistant" && hasTools prev then prev
  else
    match (prev.get "content").getD (.str ""), (msg.get "content").getD .null with
    | .str p, .str c => setField prev "content" (.str (RustStr.trim (p ++ "\n\n" ++ c)))
    | _, _ => msg

/-- One turn of the merging loop of `enforce_role_alternation`. -/
def mergeStep (merged : List Json) (msg : Json) : List Json :=
  let role := (msg.getStr "role").getD ""
  match merged.getLast? with
  | none => merged ++ [msg]
  | some prev =>
    if (prev.getStr "role").getD "" = role && (role = "user" || role = "assistant") then
      merged.dropLast ++ [mergeInto prev msg]
    else merged ++ [msg]

-- `enforce_role_alternation`
def enforceRoleAlternation (messages : List Json) : List Json :=
  let merged := messages.foldl mergeStep []
  let isAssistant (m : Json) : Bool := m.getStr "role" = some "assistant"
  let popped := (merged.reverse.takeWhile isAssistant).getLast?
  let merged := (merged.reverse.dropWhile isAssistant).reverse
  let hasUserOrTool := merged.any fun m =>
    m.getStr "role" = some "user" || m.getStr "role" = some "tool"
  let merged := match popped with
    | some recovered =>
      if !merged.isEmpty && !hasUserOrTool then
        merged ++ [setField recovered "role" (.str "user")]
      else merged
    | none => merged
  let systems := merged.takeWhile fun m => (m.getStr "role").getD "" = "system"
  match merged.drop systems.length with
  | first :: rest =>
    if first.getStr "role" = some "assistant" && !hasTools first then
      systems ++ .obj [("role", .str "user"), ("content", .str syntheticUserContent)] :: first :: rest
    else merged
  | [] => merged

/-- Whether a content block is an image. -/
def isImage (block : Json) : Bool := block.getStr "type" = some "image_url"

def imagePlaceholder (block : Json) : Json :=
  let path := (((block.get "_meta").bind fun m => m.getStr "path")).getD ""
  .obj [("type", .str "text"),
    ("text", .str (if path = "" then "[image omitted]" else "[image: " ++ path ++ "]"))]

/-- The content blocks of a message. -/
def contentBlocks (msg : Json) : Option (List Json) := (msg.get "content").bind Json.asArray

/-- `strip_image_content_inplace`: whether there were images, and the messages without. -/
def stripImageContent (messages : List Json) : Bool × List Json :=
  (messages.any fun msg => ((contentBlocks msg).getD []).any isImage,
    messages.map fun msg =>
      match contentBlocks msg with
      | some blocks =>
        setField msg "content"
          (.arr (blocks.map fun b => if isImage b then imagePlaceholder b else b))
      | none => msg)

/-! ## Streaming -/

/-- What a streaming call hands to its callbacks. -/
inductive Delta where
  | text (piece : String)
  | toolCall (delta : JsonMap)
deriving DecidableEq, Repr

def Delta.piece : Delta → String
  | .text piece => piece
  | .toolCall _ => ""

structure Attempt where
  deltas : List Delta := []
  response : LLMResponse

/-- The pieces passed to `on_delta`, put together. -/
def textOf (deltas : List Delta) : String := String.join (deltas.map Delta.piece)

/-- A provider over what it talks to. -/
structure Provider (ω : Type) where
  defaultModel : String := ""
  generation : GenerationSettings := {}
  chatStream : ChatRequest → ω → Attempt × ω

variable {ω : Type}

/-- The defaults that `chat_stream_with_retry` fills in, and its messages. -/
def prepare (p : Provider ω) (req : ChatRequest) : ChatRequest :=
  { req with
    maxTokens := if req.maxTokens = 0 then p.generation.maxTokens else req.maxTokens
    temperature := some (req.temperature.getD p.generation.temperature)
    reasoningEffort := req.reasoningEffort.or p.generation.reasoningEffort
    messages := enforceRoleAlternation req.messages }

/-- The variables of the retry loop, and the attempts so far. -/
structure Retry (ω : Type) where
  req : ChatRequest
  attempt : Nat := 0
  lastErrorKey : Option String := none
  identicalCount : Nat := 0
  attempts : List Attempt := []
  world : ω

-- `PERSISTENT_IDENTICAL_ERROR_LIMIT`
def persistentIdenticalErrorLimit : Nat := 10

/-- The number of delays of the standard mode. -/
def delays : List Nat := [1, 2, 4]

/-- The count of identical errors after an error. -/
def countError (s : Retry ω) (r : LLMResponse) : Retry ω :=
  let key := RustStr.toAsciiLowercase (RustStr.trim (r.content.getD ""))
  if key ≠ "" ∧ some key = s.lastErrorKey then
    { s with identicalCount := min (s.identicalCount + 1) (2 ^ 32 - 1) }
  else if key = "" then { s with lastErrorKey := none, identicalCount := 0 }
  else { s with lastErrorKey := some key, identicalCount := 1 }

/-- A call of `chat_stream`. -/
def Retry.call (p : Provider ω) (s : Retry ω) : Attempt × Retry ω :=
  let (a, w) := p.chatStream s.req s.world
  (a, { s with attempts := s.attempts ++ [a], world := w })

/-- One turn of the loop of `chat_stream_with_retry`: the response it returns, if any. -/
def retryStep (p : Provider ω) (mode : RetryMode) (s : Retry ω) : Option LLMResponse × Retry ω :=
  let s := { s with attempt := s.attempt + 1 }
  let (a, s) := s.call p
  if a.response.finishReason ≠ "error" then (some a.response, s)
  else
    let s := countError s a.response
    if !isTransientResponse a.response then
      let (found, stripped) := stripImageContent s.req.messages
      if found then
        let (b, s) := { s with req := { s.req with messages := stripped } }.call p
        (some b.response, s)
      else (some a.response, s)
    else if mode = .persistent ∧ s.identicalCount ≥ persistentIdenticalErrorLimit then
      (some a.response, s)
    else if mode = .standard ∧ s.attempt > delays.length then (some a.response, s)
    else (none, s)

/-- `chat_stream_with_retry`, if it returns within `fuel` turns of its loop. -/
def retryLoop (p : Provider ω) (mode : RetryMode) : Nat → Retry ω → Option (LLMResponse × Retry ω)
  | 0, _ => none
  | fuel + 1, s =>
    match retryStep p mode s with
    | (some r, s) => some (r, s)
    | (none, s) => retryLoop p mode fuel s

/-- `chat_stream_with_retry`: its response, and the calls it made. -/
def chatStreamWithRetry (p : Provider ω) (mode : RetryMode) (fuel : Nat) (req : ChatRequest)
    (w : ω) : Option (LLMResponse × Retry ω) :=
  retryLoop p mode fuel { req := prepare p req, world := w }

end HiveClaw.Providers
