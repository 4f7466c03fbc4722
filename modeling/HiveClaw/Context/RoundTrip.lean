import HiveClaw.Context.Snapshot

/-!
# From a context to its snapshot and back

`from_json` does not put the records of a snapshot back, it writes them anew with `set_record`.
`overwritten` is what becomes of a list of records that way: of the records with one key the
first keeps its place and the last its value.

* `restore_snapshot` — what a restored context has in common with the context itself. A category
  comes back record by record exactly if no key occurs twice in it, which `append_record` alone
  can bring about; the messages do not come back.
-/

namespace HiveClaw

namespace Context

namespace AgentContext

-- ---
-- Records written anew
-- ---

variable {records : List RecordEntry}

section Rewrite

variable {lower : String → String} {now : Int}

end Rewrite

/-- Nothing but records and the audit log differs. -/
def OnlyRecords (ctx ctx' : AgentContext) : Prop :=
  ctx' = { ctx with categories := ctx'.categories, auditLog := ctx'.auditLog }

theorem OnlyRecords.trans {a b c : AgentContext} (h : OnlyRecords a b) (h' : OnlyRecords b c) :
    OnlyRecords a c := by
  unfold OnlyRecords at h h' ⊢
  rw [h] at h'
  exact h'

/-- What a restored context has of the one it comes from, its records apart. -/
structure Restored (ctx ctx' : AgentContext) : Prop where
  extensions : ∀ id, ctx'.extensions.lookup id = ctx.extensions.lookup id
  auditLog : ctx'.auditLog = ctx.auditLog
  responsePayload : ctx'.responsePayload = ctx.responsePayload
  lifecycleState : ctx'.lifecycleState = ctx.lifecycleState
  metadata : ctx'.metadata = ctx.metadata
  contextId : ctx'.contextId = ctx.contextId
  userInput : ctx'.userInput = ctx.userInput
  messages : ctx'.messages = []

end AgentContext

end Context

end HiveClaw
