import HiveClaw.Context.Definitions
import HiveClaw.Store.Tables

/-!
# Context snapshots and updates

How functions and workflows see the `AgentContext` and write to it: the
helpers of `crates/hiveweb/src/runtime/hook.rs`. A snapshot goes into the
input under `_agent_context`; what the output carries under
`_agent_context_updates` is applied entry by entry, and an entry that the
context refuses is only logged.

* `ContextEntry.accepts_iff` — what a context accepts, by kind of entry and
  state of its lifecycle.
-/

namespace HiveClaw.Runtime

open Context

-- ---
-- Snapshots
-- ---

def optStr (o : Option String) : Json := (o.map Json.str).getD .null

def stringMap (m : List (String × String)) : Json := .obj (m.map fun e => (e.1, .str e.2))

-- the derived `Serialize` of `ExtensionType` writes the variant's name
def extensionTypeName : ExtensionType → String
  | .card => "Card"
  | .image => "Image"
  | .suggestion => "Suggestion"
  | .link => "Link"
  | .button => "Button"
  | .table => "Table"
  | .chart => "Chart"
  | .objectRef => "ObjectRef"
  | .usage => "Usage"

-- `serde_json::to_value` of an `ExtensionContent`
def extensionValue (e : ExtensionContent) : Json :=
  .obj ([("id", .str e.id), ("content_type", .str (extensionTypeName e.contentType))] ++
    (match e.reply with
      | some r => [("reply", r)]
      | none => []) ++
    [("data", e.data), ("render_hints", stringMap e.renderHints)])

/-- `get_extensions`, in the order in which the map is iterated. -/
def extensionsInOrder (rank : String → Nat) (ctx : AgentContext) : List ExtensionContent :=
  (hashOrder rank ctx.extensions.keys).filterMap fun id => ctx.extensions.lookup id

-- `{"key", "value", "source"}` for each record of a category
def categoryValue (ctx : AgentContext) (category : Category) : Json :=
  .arr ((ctx.getCategory category).map fun r =>
    .obj [("key", .str r.key), ("value", r.value), ("source", .str r.source)])

-- `agent_context_snapshot_value`
def agentContextSnapshotValue (rank : String → Nat) (ctx : AgentContext) : Json :=
  let ui := ctx.userInput
  .obj
    [("user_input", .obj
      [("raw_text", .str ui.rawText), ("session_id", optStr ui.sessionId),
       ("message_id", optStr ui.messageId),
       ("timestamp", .num (.int (Int.fdiv ui.timestamp 1000))),
       ("metadata", stringMap ui.metadata)]),
     ("tool_results", categoryValue ctx .toolResults),
     ("entities", categoryValue ctx .entities),
     ("state_changes", categoryValue ctx .stateChanges),
     ("extensions", .arr ((extensionsInOrder rank ctx).map extensionValue)),
     ("messages", .arr ctx.messages)]

/-- `inject_agent_context_snapshot`: only objects receive the snapshot. -/
def injectAgentContextSnapshot (rank : String → Nat) (ctx : AgentContext) : Json → Json
  | .obj fields =>
    .obj (JsonMap.insert fields "_agent_context" (agentContextSnapshotValue rank ctx))
  | v => v

-- ---
-- Updates
-- ---

/-- One entry of `_agent_context_updates`. -/
inductive ContextEntry where
  | record (category : Category) (key : String) (value : Json) (source : String)
      (iteration : Nat)
  | extension (id : String) (content : ExtensionContent)
  | metadata (key value : String)

def categoryOfName : String → Option Category
  | "Entities" => some .entities
  | "Intentions" => some .intentions
  | "ToolResults" => some .toolResults
  | "QueryResults" => some .queryResults
  | "WorkflowResults" => some .workflowResults
  | "ReasoningResults" => some .reasoningResults
  | "Extensions" => some .extensions
  | "StateChanges" => some .stateChanges
  | "SubagentResults" => some .subagentResults
  | _ => none

-- an unknown type is a card
def extensionTypeOfName : String → ExtensionType
  | "image" => .image
  | "suggestion" => .suggestion
  | "link" => .link
  | "button" => .button
  | "table" => .table
  | "chart" => .chart
  | "object_ref" => .objectRef
  | "usage" => .usage
  | _ => .card

-- the body of the first loop; a record of an unknown category is passed over
def recordEntry (record : Json) : Option ContextEntry :=
  (categoryOfName ((record.getStr "category").getD "")).map fun category =>
    .record category ((record.getStr "key").getD "") ((record.get "value").getD .null)
      ((record.getStr "source").getD "hook_function")
      (((record.get "iteration").bind Json.asU64).getD 0)

-- `data`, or what is left of the object without its other fields
def extensionData (ext : Json) : Option Json :=
  match ext.get "data" with
  | some d => some d
  | none =>
    ext.asObject.map fun o =>
      .obj (JsonMap.remove (JsonMap.remove (JsonMap.remove o "content_type") "id") "reply")

-- the body of the second loop
def extensionEntry (ext : Json) : Option ContextEntry :=
  let id := (ext.getStr "id").getD ""
  (extensionData ext).map fun data =>
    .extension id (ExtensionContent.new id
      (extensionTypeOfName ((ext.getStr "content_type").getD "card")) (ext.get "reply") data)

-- the body of the third loop
def metadataEntry (field : String × Json) : Option ContextEntry :=
  field.2.asStr.map fun s => .metadata field.1 s

/-- The entries of an output in the order in which
`apply_agent_context_updates` applies them. -/
def contextEntries (output : Json) : List ContextEntry :=
  match output.get "_agent_context_updates" with
  | none => []
  | some updates =>
    (((updates.get "records").bind Json.asArray).getD []).filterMap recordEntry ++
    (((updates.get "extensions").bind Json.asArray).getD []).filterMap extensionEntry ++
    (((updates.get "metadata").bind Json.asObject).getD []).filterMap metadataEntry

namespace ContextEntry

/-- The operation on the context that an entry stands for. -/
def apply (lower : String → String) (now : DateTime) (ctx : AgentContext) :
    ContextEntry → Except ContextError AgentContext
  | .record category key value source iteration =>
    ctx.setRecord lower now category key value source iteration
  | .extension id content => ctx.addExtension id content
  | .metadata key value => ctx.setMetadata key value

def Accepts (lower : String → String) (now : DateTime) (ctx : AgentContext)
    (entry : ContextEntry) : Prop :=
  ∃ ctx', entry.apply lower now ctx = .ok ctx'

/-- The same context while its execution is going on. -/
def activate (ctx : AgentContext) : AgentContext := { ctx with lifecycleState := .active }

def IsMetadata : ContextEntry → Prop
  | .metadata _ _ => True
  | _ => False

/-- Metadata is always accepted; a record or an extension while the context is
open, a record only if it passes the blacklist and carries nothing sensitive. -/
theorem accepts_iff (lower : String → String) (now : DateTime) (ctx : AgentContext)
    (entry : ContextEntry) :
    entry.Accepts lower now ctx ↔
      match entry with
      | .record category key value _ _ =>
        ctx.checkWriteAllowed = .ok () ∧ ctx.checkBlacklist category = .ok () ∧
          AgentContext.checkSensitiveData lower key value = .ok ()
      | .extension _ _ => ctx.checkWriteAllowed = .ok ()
      | .metadata _ _ => True := by
  unfold Accepts
  cases entry with
  | record category key value source iteration =>
    simp only [apply, AgentContext.setRecord]
    cases hw : ctx.checkWriteAllowed with
    | error e => simp [bind, Except.bind]
    | ok _ =>
      cases hb : ctx.checkBlacklist category with
      | error e => simp [bind, Except.bind]
      | ok _ =>
        cases hs : AgentContext.checkSensitiveData lower key value with
        | error e => simp [bind, Except.bind]
        | ok _ => simp [bind, Except.bind, pure, Except.pure]
  | extension id content =>
    simp only [apply, AgentContext.addExtension]
    cases hw : ctx.checkWriteAllowed with
    | error e => simp [bind, Except.bind]
    | ok _ => simp [bind, Except.bind, pure, Except.pure]
  | metadata key value => simp [apply, AgentContext.setMetadata]

end ContextEntry

end HiveClaw.Runtime
