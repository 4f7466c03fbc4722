import HiveClaw.Runtime.Env

/-!
# Executing one node of a workflow

`node_executor.rs`, `function_node.rs` and `generate_answer_node.rs` of
`crates/hiveweb/src/runtime/workflow`: the input of a node is put together from
its spec, then a function is executed or the model writes an answer.
-/

namespace HiveClaw.Workflow

open HiveClaw.Runtime Context Lib

-- `WorkflowError`
inductive WorkflowError where
  | notFound (id : Int)
  | loadFailed (message : String)
  | missingFunction (nodeKey : String)
  | timeout (ms : Int)
  | nodeFailure (nodeKey message : String)
  | mappingResolve (nodeKey field message : String)
deriving DecidableEq, Repr

-- `Display for WorkflowError`
def WorkflowError.message : WorkflowError → String
  | .notFound id => s!"workflow {id} not found"
  | .loadFailed m => s!"workflow load failed: {m}"
  | .missingFunction key => s!"missing function for node {key}"
  | .timeout ms => s!"workflow timeout after {ms}ms"
  | .nodeFailure key m => s!"node {key} failed: {m}"
  | .mappingResolve key field m => s!"mapping resolve failed at {key}.{field}: {m}"

-- `NodeValueMap`
abbrev NodeValueMap := HashMap String Json

-- ---
-- The input of a node
-- ---

-- `resolve_dot_path`; the path is split at its dots
def resolveDotPath (field : String) : Json → List String → Except (String × String) Json
  | current, [] => .ok current
  | current, seg :: rest =>
    match current.asObject with
    | none => .error (field, s!"cannot index into non-object at segment '{seg}'")
    | some m =>
      match m.get seg with
      | none => .error (field, s!"path segment '{seg}' not found in upstream output")
      | some v => resolveDotPath field v rest

-- `resolve_from_external`; a missing field is the empty string
def resolveFromExternal (key field : String) (externalInput : Json) :
    Except (String × String) Json :=
  match externalInput.asObject with
  | none => .error (field, "external_input is not a JSON object")
  | some ext => .ok ((ext.get key).getD (.str ""))

-- `o.ok_or_else(|| (field, message))`
def resolved (o : Option Json) (field message : String) : Except (String × String) Json :=
  match o with
  | some v => .ok v
  | none => .error (field, message)

-- the three categories of records are looked up alike
def resolveRecord (name key : String) (snapshot : Json) (field : String) :
    Except (String × String) Json :=
  match (snapshot.get name).bind Json.asArray with
  | none => .error (field, s!"snapshot.{name} missing")
  | some arr =>
    resolved ((arr.find? fun r => r.getStr "key" = some key).bind fun r => r.get "value") field
      s!"{name}.{key} not found"

-- `resolve_from_agent_context`
def resolveFromAgentContext (category : AgentContextCategory) (key : String)
    (subKey : Option String) (snapshot : Json) (field : String) :
    Except (String × String) Json :=
  match category with
  | .userInput =>
    match (snapshot.get "user_input").bind Json.asObject with
    | none => .error (field, "snapshot.user_input missing")
    | some ui =>
      match subKey with
      | none => resolved (ui.get key) field s!"user_input.{key} not found"
      | some sk =>
        match (ui.get "metadata").bind Json.asObject with
        | none => .error (field, "snapshot.user_input.metadata missing")
        | some md => resolved (md.get sk) field s!"user_input.metadata.{sk} not found"
  | .entities => resolveRecord "entities" key snapshot field
  | .toolResults => resolveRecord "tool_results" key snapshot field
  | .stateChanges => resolveRecord "state_changes" key snapshot field
  | .extensions =>
    match (snapshot.get "extensions").bind Json.asArray with
    | none => .error (field, "snapshot.extensions missing")
    | some arr =>
      match arr.find? fun e => e.getStr "id" = some key with
      | none => .error (field, s!"extension id '{key}' not found")
      | some ext =>
        match subKey with
        | none => .error (field, "extensions requires sub_key (field name)")
        | some sk => resolved (ext.get sk) field s!"extension '{key}' has no field '{sk}'"

-- the body of the loop of `build_input_from_spec`
def resolveSource (outputs : NodeValueMap) (externalInput snapshot : Json) (field : String) :
    InputSource → Except (String × String) Json
  | .upstream nodeKey sub =>
    if nodeKey = "start" then resolveFromExternal (sub.getD field) field externalInput
    else
      match outputs.lookup nodeKey with
      | none => .error (field, s!"upstream node '{nodeKey}' produced no output")
      | some upstream =>
        match sub with
        | some path => resolveDotPath field upstream (path.splitOn ".")
        | none => .ok upstream
  | .custom value => .ok value
  | .agentContext category key subKey =>
    resolveFromAgentContext category key subKey snapshot field

-- `build_input_from_spec`
def buildInputFromSpec (outputs : NodeValueMap) (externalInput snapshot : Json) :
    InputSpec → JsonMap → Except (String × String) Json
  | [], input => .ok (.obj input)
  | (field, src) :: rest, input =>
    match resolveSource outputs externalInput snapshot field src with
    | .error e => .error e
    | .ok value => buildInputFromSpec outputs externalInput snapshot rest (input.insert field value)

/-- `build_node_input`: function and answer nodes have a spec, any other node
gets the external input as it is. -/
def buildNodeInput (env : Env) (rank : String → Nat) (ctx : AgentContext) (nodeType : NodeType)
    (nodeKey : String) (outputs : NodeValueMap) (externalInput : Json)
    (nodeConfig : Option Json) : Except (String × String) Json :=
  if nodeType = .functionNode ∨ nodeType = .generateAnswerNode then
    match parseInputSpec env.inputSource
        ((nodeConfig.bind fun c => c.get "input_mapping").getD .null) with
    | .error e => .error (nodeKey, s!"parse node_config.input_mapping: {e}")
    | .ok spec =>
      buildInputFromSpec outputs externalInput (agentContextSnapshotValue rank ctx) spec []
  else .ok externalInput

-- ---
-- Answer nodes
-- ---

-- `[a-zA-Z0-9_]`
def isWordChar (c : Char) : Bool := c.isAlphanum || c = '_'

/-- What follows a match of `\{\s*[a-zA-Z0-9_]+\s*\}` at the start of the
text. -/
def afterPlaceholder : List Char → Option (List Char)
  | '{' :: rest =>
    let word := rest.dropWhile RustStr.isWhitespace
    if (word.takeWhile isWordChar).isEmpty then none
    else
      match (word.dropWhile isWordChar).dropWhile RustStr.isWhitespace with
      | '}' :: after => some after
      | _ => none
  | _ => none

-- `re.replace_all(&result, "")`, with the number of characters still to look at
def dropPlaceholders : Nat → List Char → List Char
  | 0, text => text
  | _, [] => []
  | n + 1, c :: rest =>
    match afterPlaceholder (c :: rest) with
    | some after => dropPlaceholders n after
    | none => c :: dropPlaceholders n rest

-- `resolve_template_vars`
def resolveTemplateVars (env : Env) (template : String) (input : Json) : String :=
  let filled := ((input.asObject).getD []).foldl (fun result field =>
    RustStr.replace result (String.ofList ('{' :: field.1.toList ++ ['}']))
      (match field.2 with
        | .str s => s
        | other => env.toText other)) template
  String.ofList (dropPlaceholders filled.length filled.toList)

-- one line of the history
def historyLine (msg : Json) : Option String :=
  let role := (msg.getStr "role").getD ""
  let content := (msg.getStr "content").getD ""
  if content = "" then none
  else
    let user := if role = "user" then "用户A" else if role = "assistant" then "用户B" else role
    some (user ++ ": " ++ content)

-- `build_history_context`
def buildHistoryContext (ctx : AgentContext) (limit : Nat) : String :=
  if ctx.messages = [] then "用户A:" ++ ctx.userInput.rawText
  else
    let recent := if 0 < limit ∧ limit < ctx.messages.length then
      ctx.messages.drop (ctx.messages.length - limit) else ctx.messages
    "\n".intercalate (recent.filterMap historyLine)

-- the input of the prompt: without the snapshot, with the history if asked for
def promptInput (ctx : AgentContext) (historyWindow : Int) : Json → Json
  | .obj fields =>
    let plain := JsonMap.remove fields "_agent_context"
    let history := buildHistoryContext ctx historyWindow.toNat
    if 0 < historyWindow ∧ history ≠ "" then .obj (JsonMap.insert plain "context" (.str history))
    else .obj plain
  | v => v

/-- The text of an answer; a failure of the model becomes the text itself. -/
def answerText (resolvedPrompt : String) : Rt String := do
  let provider ← Rt.look Moment.provider
  match provider with
  | .error _ => pure s!"[无可用模型] 系统提示: {resolvedPrompt}\n"
  | .ok _ => do
    Rt.emit (.modelRequest [.obj [("role", .str "system"), ("content", .str resolvedPrompt)]])
    let resp ← Rt.ask Moment.response
    if resp.isError then
      let err := resp.content.getD "unknown LLM error"
      pure s!"[LLM 调用失败: {err}]"
    else pure (resp.content.getD "")

-- `execute_answer_node`
def executeAnswerNode (env : Env) (nodeKey : String) (input : Json) (nodeConfig : Option Json) :
    Rt (Except WorkflowError (String × Json)) := do
  let config := nodeConfig.getD .null
  let systemPrompt := (config.getStr "system_prompt").getD "You are a helpful assistant."
  let modelPreset := (config.getStr "model_preset").filter fun s => s ≠ ""
  let historyWindow := ((config.get "history_window").bind Json.asI64).getD 0
  let ctx ← Rt.getCtx
  let answer ← answerText
    (resolveTemplateVars env systemPrompt (promptInput ctx historyWindow input))
  pure (.ok (nodeKey, .obj [("answer", .str answer), ("model_preset", optStr modelPreset)]))

-- ---
-- Function nodes
-- ---

-- `execute_builtin_function`
def executeBuiltinFunction (via : Via) (permissions : List String) (nodeKey : String)
    (f : Function) (input : Json) : Rt (Except WorkflowError (String × Json)) := do
  if lookupBuiltin f.identifier = false then
    pure (.error (.nodeFailure nodeKey s!"unknown builtin: {f.identifier}"))
  else do
    let nodeInput ← injectSnapshot input
    let out ← callHandler
      { via := via, node := some nodeKey, function := some f, permissions := permissions
        input := nodeInput }
    match out with
    | .error e => pure (.error (.nodeFailure nodeKey e))
    | .ok out => pure (.ok (nodeKey, out))

-- `execute_plugin_function`
def executePluginFunction (env : Env) (via : Via) (permissions : List String) (nodeKey : String)
    (f : Function) (input : Json) : Rt (Except WorkflowError (String × Json)) :=
  match f.pluginId, f.pluginExport with
  | none, _ => pure (.error (.nodeFailure nodeKey "custom function missing plugin_id"))
  | some _, none => pure (.error (.nodeFailure nodeKey "custom function missing plugin_export"))
  | some _, some _ => do
    let nodeInput ← injectSnapshot input
    let out ← invoke
      { via := via, node := some nodeKey, function := some f, permissions := permissions
        input := nodeInput }
    match out with
    | .error e => pure (.error (.nodeFailure nodeKey s!"plugin invoke: {e}"))
    | .ok out => pure (.ok (nodeKey, parseOutput env out))

/-- `execute_function_node`: every function of kind 1 is taken for a
builtin. -/
def executeFunctionNode (env : Env) (via : Via) (permissions : List String) (nodeKey : String)
    (functionId : Int) (input : Json) : Rt (Except WorkflowError (String × Json)) := do
  let row ← Rt.query fun m => m.store.function? functionId
  match row with
  | .error e => pure (.error (.nodeFailure nodeKey s!"function fetch: {e}"))
  | .ok none => pure (.error (.nodeFailure nodeKey s!"function id={functionId} not found"))
  | .ok (some f) =>
    if f.kind = 1 then executeBuiltinFunction via permissions nodeKey f input
    else executePluginFunction env via permissions nodeKey f input

-- `node_type_to_db_str`
def nodeTypeName : NodeType → String
  | .functionNode => "function_node"
  | .startNode => "start_node"
  | .endNode => "end_node"
  | .generateAnswerNode => "generate_answer_node"

-- `execute_node`
def executeNode (env : Env) (via : Via) (permissions : List String) (functionId : Option Int)
    (nodeType : NodeType) (nodeConfig : Option Json) (nodeKey : String) (input : Json) :
    Rt (Except WorkflowError (String × Json)) :=
  match nodeType with
  | .generateAnswerNode => executeAnswerNode env nodeKey input nodeConfig
  | .functionNode =>
    match functionId with
    | none => pure (.error (.nodeFailure nodeKey "function node has no function_id"))
    | some fid => executeFunctionNode env via permissions nodeKey fid input
  | other => pure (.error (.nodeFailure nodeKey s!"unsupported node type: {nodeTypeName other}"))

end HiveClaw.Workflow
