import HiveClaw.Json
import HiveClaw.RustStd

/-!
# Input specs of workflow nodes

`crates/hiveweb/src/runtime/input_source.rs`: where the fields of a node's
input come from, and the checks made when a graph is saved.

Reading an `InputSource` from JSON is derived code of `serde` and a parameter
here, with the library's message as its error.
-/

namespace HiveClaw.Workflow

-- `AgentContextCategory`
inductive AgentContextCategory where
  | userInput
  | entities
  | toolResults
  | stateChanges
  | extensions
deriving DecidableEq, Repr

namespace AgentContextCategory

-- `USER_INPUT_FIELDS`
def userInputFields : List String :=
  ["raw_text", "session_id", "message_id", "timestamp", "metadata"]

-- `is_valid`, a `matches!` over all variants
def isValid : AgentContextCategory → Bool
  | .userInput | .entities | .toolResults | .stateChanges | .extensions => true

-- `{:?}`
def debug : AgentContextCategory → String
  | .userInput => "UserInput"
  | .entities => "Entities"
  | .toolResults => "ToolResults"
  | .stateChanges => "StateChanges"
  | .extensions => "Extensions"

end AgentContextCategory

-- `InputSource`
inductive InputSource where
  | upstream (nodeKey : String) (field : Option String)
  | custom (value : Json)
  | agentContext (category : AgentContextCategory) (key : String) (subKey : Option String)

-- `InputSpec`
abbrev InputSpec := BTreeMap InputSource

-- `RESERVED_INPUT_KEYS`
def reservedInputKeys : List String := ["_agent_context", "_agent_context_updates"]

-- the loop of `parse_input_spec`
def parseFields (ofJson : Json → Except String InputSource) :
    JsonMap → InputSpec → Except String InputSpec
  | [], spec => .ok spec
  | (field, src) :: rest, spec =>
    match ofJson src with
    | .error e => .error s!"field '{field}': invalid InputSource — {e}"
    | .ok parsed => parseFields ofJson rest (spec.insert field parsed)

-- `parse_input_spec`
def parseInputSpec (ofJson : Json → Except String InputSource) (value : Json) :
    Except String InputSpec :=
  if value.isNull then .ok []
  else
    match value.asObject with
    | none => .error "input spec must be a JSON object"
    | some obj => parseFields ofJson obj []

-- the first loop of `validate_input_spec`
def validateKeys : List String → Except String Unit
  | [] => .ok ()
  | field :: rest =>
    if field ∈ reservedInputKeys then
      .error s!"input field '{field}' is reserved by the runtime and cannot be declared"
    else if field = "" then .error "input field name cannot be empty"
    else validateKeys rest

-- `{:?}` of `USER_INPUT_FIELDS`
def debugStrings (fields : List String) : String :=
  "[" ++ ", ".intercalate (fields.map fun f => "\"" ++ f ++ "\"") ++ "]"

-- the `UserInput` part of a check: only `metadata` takes a sub-key
def validateUserInput (field key : String) (subKey : Option String) : Except String Unit :=
  if key ∉ AgentContextCategory.userInputFields then
    .error (s!"field '{field}': agent_context.user_input.key '{key}' is not a known field; " ++
      "expected one of " ++ debugStrings AgentContextCategory.userInputFields)
  else
    match subKey with
    | none => .ok ()
    | some sk =>
      if sk = "" then
        .error s!"field '{field}': agent_context.sub_key cannot be empty when set"
      else if key ≠ "metadata" then
        .error (s!"field '{field}': agent_context.user_input.key '{key}' does not accept " ++
          "a sub_key; only 'metadata' does")
      else .ok ()

-- the body of the second loop of `validate_input_spec`
def validateSource (field : String) : InputSource → Except String Unit
  | .upstream nodeKey _ =>
    if nodeKey = "" then .error s!"field '{field}': upstream.node_key cannot be empty"
    else .ok ()
  | .custom _ => .ok ()
  | .agentContext category key subKey => do
    if category.isValid = false then
      .error s!"field '{field}': agent_context.category {category.debug} is not valid"
    if key = "" then .error s!"field '{field}': agent_context.key cannot be empty"
    if category = .userInput then validateUserInput field key subKey
    if category = .extensions ∧ subKey = none then
      .error (s!"field '{field}': agent_context.extensions requires both key (extension id) " ++
        "and sub_key (field name)")

-- `validate_input_spec`
def validateInputSpec (spec : InputSpec) : Except String Unit := do
  validateKeys (spec.map Prod.fst)
  spec.forM fun e => validateSource e.1 e.2

end HiveClaw.Workflow
