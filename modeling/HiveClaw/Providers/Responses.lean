import HiveClaw.Lib.ByteSlice
import HiveClaw.Providers.Base

/-!
# Decoding the Responses API

`consume_events`, `consume_sdk_stream` and `parse_response_output` of
`crates/providers/src/responses/parsing.rs`. The two event loops treat most
events alike (`Acc.event`): they keep a buffer for each call id, and turn it
into a tool call when the item is done.

The preview in the warning about arguments that are no JSON object is a byte
slice; it is evaluated only if the log level lets warnings through.
-/

namespace HiveClaw.Providers.Responses

/-- `serde_json::from_str` and `to_string`, and whether warnings are logged. -/
structure Codec where
  fromStr : String → Option Json
  toText : Json → String
  warns : Bool

-- `map_finish_reason`
def mapFinishReason (status : Option String) : String :=
  let status := status.getD "completed"
  if status = "completed" then "stop"
  else if status = "incomplete" then "length"
  else if status = "failed" ∨ status = "cancelled" then "error"
  else status

/-! ## Arguments -/

/-- `&s[..s.len().min(200)]`; `none` is a panic. -/
def preview (s : String) : Option (List Char) := Lib.takeBytes s.toList (min s.utf8ByteSize 200)

variable (c : Codec)

/-- `serde_json::from_str`, if the text is that of an object. -/
def Codec.parseObject (s : String) : Option JsonMap := (c.fromStr s).bind Json.asObject

/-- The arguments of a call from their text: where it is not that of an object, it is kept under
`raw` and a warning shows its beginning. `none` is a panic. -/
def Codec.decodeArguments (s : String) : Option JsonMap :=
  match c.parseObject s with
  | some fields => some fields
  | none => if c.warns ∧ preview s = none then none else some [("raw", .str s)]

/-- The tool call that is made of a call id, an item id, a name and arguments. -/
def toolCall (callId itemId name : String) (arguments : JsonMap) : ToolCallRequest :=
  { id := callId ++ "|" ++ itemId, name, arguments }

/-! ## The event loops -/

/-- The types of events that are handled. -/
inductive Kind where
  | itemAdded
  | textDelta
  | argumentsDelta
  | argumentsDone
  | itemDone
  | completed
  | failure
  | other
deriving DecidableEq, Repr

/-- The branch of the loops that an event takes. -/
def kindOf (event : Json) : Kind :=
  match (event.getStr "type").getD "" with
  | "response.output_item.added" => .itemAdded
  | "response.output_text.delta" => .textDelta
  | "response.function_call_arguments.delta" => .argumentsDelta
  | "response.function_call_arguments.done" => .argumentsDone
  | "response.output_item.done" => .itemDone
  | "response.completed" => .completed
  | "error" | "response.failed" => .failure
  | _ => .other

/-- An entry of `tool_call_buffers`. -/
structure CallBuffer where
  id : String
  name : String
  arguments : String
deriving DecidableEq, Repr

/-- The buffer that a function call item starts with; `default` is for missing arguments. -/
def CallBuffer.ofItem (item : Json) (default : String) : CallBuffer where
  id := (item.getStr "id").getD "fc_0"
  name := (item.getStr "name").getD ""
  arguments := (item.getStr "arguments").getD default

/-- The item of an event with its call id, if it is a function call that has one. -/
def functionCall (event : Json) : Option (String × Json) :=
  (event.get "item").bind fun item =>
    if item.getStr "type" = some "function_call" then
      (item.getStr "call_id").map fun callId => (callId, item)
    else none

/-- The variables that both loops have. -/
structure Acc where
  content : String := ""
  toolCallBuffers : HashMap String CallBuffer := ∅
  toolCalls : List ToolCallRequest := []
  finishReason : String := "stop"

namespace Acc

/-- The buffer that an event names by its call id. -/
def buffer (a : Acc) (event : Json) : Option (String × CallBuffer) :=
  (event.getStr "call_id").bind fun callId =>
    (a.toolCallBuffers.lookup callId).map fun buf => (callId, buf)

-- `response.output_item.added`
def itemAdded (a : Acc) (event : Json) : Acc :=
  match functionCall event with
  | some (callId, item) =>
    { a with toolCallBuffers := a.toolCallBuffers.insert callId (.ofItem item "") }
  | none => a

/-- The arguments in the buffer that an event names are changed, if there is one. -/
def amend (a : Acc) (event : Json) (change : String → String) : Acc :=
  match a.buffer event with
  | some (callId, buf) =>
    { a with
      toolCallBuffers :=
        a.toolCallBuffers.insert callId { buf with arguments := change buf.arguments } }
  | none => a

-- `response.function_call_arguments.delta`
def argumentsDelta (a : Acc) (event : Json) : Acc :=
  a.amend event fun arguments => arguments ++ (event.getStr "delta").getD ""

-- `response.function_call_arguments.done`
def argumentsDone (a : Acc) (event : Json) : Acc :=
  a.amend event fun _ => (event.getStr "arguments").getD ""

/-- The buffer of a call becomes a tool call. -/
def close (a : Acc) (callId : String) (buf : CallBuffer) (args : JsonMap) : Acc :=
  { a with
    toolCallBuffers := a.toolCallBuffers.erase callId
    toolCalls := a.toolCalls ++ [toolCall callId buf.id buf.name args] }

-- `response.output_item.done`
def itemDone (a : Acc) (event : Json) : Option Acc :=
  match functionCall event with
  | some (callId, item) =>
    let buf := (a.toolCallBuffers.lookup callId).getD (.ofItem item "{}")
    let argsRaw := if buf.arguments = "" then "{}" else buf.arguments
    (c.decodeArguments argsRaw).map (a.close callId buf)
  | none => some a

/-- What both loops do with an event. -/
def event (a : Acc) (event : Json) : Option Acc :=
  match kindOf event with
  | .itemAdded => some (a.itemAdded event)
  | .textDelta => some { a with content := a.content ++ (event.getStr "delta").getD "" }
  | .argumentsDelta => some (a.argumentsDelta event)
  | .argumentsDone => some (a.argumentsDone event)
  | .itemDone => a.itemDone c event
  | .completed =>
    let status := (event.get "response").bind fun r => r.getStr "status"
    some { a with finishReason := mapFinishReason status }
  | .failure | .other => some a

end Acc

/-- Why `consume_events` does not return a result. -/
inductive Stop where
  | panic
  | failed (message : String)
deriving DecidableEq, Repr

/-- The result of a step that may panic. -/
def orPanic {α : Type} : Option α → Except Stop α
  | some a => .ok a
  | none => .error .panic

/-- The error of an event that reports a failure. -/
def failureMessage (event : Json) : String :=
  let detail := ((event.get "error").or (event.get "message")).getD event
  "Response failed: " ++ String.ofList ((c.toText detail).toList.take 500)

/-- One turn of the loop of `consume_events`. -/
def consumeEvent (a : Acc) (event : Json) : Except Stop Acc :=
  if kindOf event = .failure then .error (.failed (failureMessage c event))
  else orPanic (a.event c event)

-- `consume_events`
def consumeEvents (events : List Json) :
    Except Stop (String × List ToolCallRequest × String) :=
  (events.foldlM (consumeEvent c) {}).map fun a => (a.content, a.toolCalls, a.finishReason)

/-- The reasoning with the summary of an item, if that is reasoning. -/
def addSummary (reasoning : Option String) (item : Json) : Option String :=
  if item.getStr "type" = some "reasoning" then
    (((item.get "summary").bind Json.asArray).getD []).foldl (fun reasoning s =>
      if s.getStr "type" = some "summary_text" then
        match s.getStr "text" with
        | some text => some (reasoning.getD "" ++ text)
        | none => reasoning
      else reasoning) reasoning
  else reasoning

/-- The counts of a `usage` object, if there is one. -/
def addUsage (usage : HashMap String Int) (response : Json) : HashMap String Int :=
  match (response.get "usage").filter fun u => u.asObject.isSome with
  | some u =>
    let asI (k : String) : Int := ((u.get k).bind Json.asI64).getD 0
    ((usage.insert "prompt_tokens" (asI "input_tokens")).insert
      "completion_tokens" (asI "output_tokens")).insert "total_tokens" (asI "total_tokens")
  | none => usage

/-- The variables of `consume_sdk_stream`; `deltas` is what the callbacks are given. -/
structure Sdk extends Acc where
  usage : HashMap String Int := ∅
  reasoningContent : Option String := none
  deltas : List Delta := []

/-- What `on_tool_call_delta` is given. -/
def toolCallDelta (callId name delta : String) : Delta :=
  .toolCall [("call_id", .str callId), ("name", .str name), ("arguments_delta", .str delta)]

/-- What an event makes `consume_sdk_stream` hand to its callbacks. -/
def deltasOf (a : Acc) (event : Json) : List Delta :=
  match kindOf event with
  | .itemAdded =>
    match functionCall event with
    | some (callId, item) => [toolCallDelta callId (CallBuffer.ofItem item "").name ""]
    | none => []
  | .textDelta =>
    let text := (event.getStr "delta").getD ""
    if text = "" then [] else [.text text]
  | .argumentsDelta =>
    match a.buffer event with
    | some (callId, buf) => [toolCallDelta callId buf.name ((event.getStr "delta").getD "")]
    | none => []
  | _ => []

/-- One turn of the loop of `consume_sdk_stream`. -/
def consumeSdkEvent (s : Sdk) (event : Json) : Option Sdk :=
  (s.toAcc.event c event).map fun a =>
    let s := { s with toAcc := a, deltas := s.deltas ++ deltasOf s.toAcc event }
    match kindOf event with
    | .completed =>
      let response := (event.get "response").getD .null
      let output := ((response.get "output").bind Json.asArray).getD []
      { s with
        usage := addUsage s.usage response
        reasoningContent := output.foldl addSummary s.reasoningContent }
    | .failure => { s with finishReason := "error" }
    | _ => s

/-- `consume_sdk_stream`: what it returns are the variables at the end. -/
def consumeSdkStream (events : List Json) : Option Sdk := events.foldlM (consumeSdkEvent c) {}

/-! ## The complete response -/

/-- The variables of the loop of `parse_response_output`. -/
structure Parsed where
  contentParts : List String := []
  toolCalls : List ToolCallRequest := []
  reasoningContent : Option String := none

def outputTexts (item : Json) : List String :=
  (((item.get "content").bind Json.asArray).getD []).filterMap fun block =>
    if block.getStr "type" = some "output_text" then block.getStr "text" else none

/-- The arguments of a function call item. -/
def itemArguments (item : Json) : Option JsonMap :=
  match (item.get "arguments").getD (.str "{}") with
  | .str s => c.decodeArguments s
  | .obj fields => some fields
  | _ => some []

/-- One turn of the loop of `parse_response_output`; `none` is a panic. -/
def parseItem (p : Parsed) (item : Json) : Option Parsed :=
  if item.getStr "type" = some "message" then
    some { p with contentParts := p.contentParts ++ outputTexts item }
  else if item.getStr "type" = some "function_call" then
    let buf := CallBuffer.ofItem item ""
    (itemArguments c item).map fun args =>
      { p with
        toolCalls :=
          p.toolCalls ++ [toolCall ((item.getStr "call_id").getD "") buf.id buf.name args] }
  else some { p with reasoningContent := addSummary p.reasoningContent item }

/-- `parse_response_output`; `none` is a panic. -/
def parseResponseOutput (response : Json) : Option LLMResponse :=
  let output := ((response.get "output").bind Json.asArray).getD []
  (output.foldlM (parseItem c) {}).map fun p =>
    { content := if p.contentParts.isEmpty then none else some (String.join p.contentParts)
      toolCalls := p.toolCalls
      finishReason := mapFinishReason (response.getStr "status")
      usage := addUsage ∅ response
      reasoningContent := p.reasoningContent }

end HiveClaw.Providers.Responses
