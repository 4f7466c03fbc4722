import HiveClaw.Context.Fork

/-!
# Merging a subagent's context

`merge_subagent_context` of `crates/agent/src/context/merge.rs` writes the
records of a child into its parent under keys that begin with the child's
delegation chain. It asks the parent, as it stands at that moment, whether it
has the key already, and drops a record that `set_record` refuses.
-/

namespace HiveClaw

namespace Context

-- `Display for Category`
def Category.toString : Category → String
  | .entities => "Entities"
  | .intentions => "Intentions"
  | .toolResults => "ToolResults"
  | .queryResults => "QueryResults"
  | .workflowResults => "WorkflowResults"
  | .reasoningResults => "ReasoningResults"
  | .extensions => "Extensions"
  | .stateChanges => "StateChanges"
  | .subagentResults => "SubagentResults"

-- `Display for LifecycleState`
def LifecycleState.toString : LifecycleState → String
  | .active => "Active"
  | .completed => "Completed"
  | .terminated => "Terminated"
  | .merging => "Merging"

namespace AgentContext

-- ---
-- Model
-- ---

/-- The categories that are merged, in the order of the source: neither
extensions nor state changes. -/
def mergedCategories : List Category :=
  [.entities, .intentions, .toolResults, .queryResults, .workflowResults, .reasoningResults,
    .subagentResults]

/-- The key under which the parent `ctx` stores a record of the child. -/
def namespacedKey (subagent : SubagentContext) (category : Category) (ctx : AgentContext)
    (key : String) : String :=
  if (ctx.getRecord category key).isSome then
    s!"{subagent.delegationChain}{category.toString}/{key}/{subagent.subagentId}"
  else s!"{subagent.delegationChain}{key}"

/-- One record of the child; an error of `set_record` is thrown away. -/
def mergeRecord (lower : String → String) (now : Int) (subagent : SubagentContext)
    (category : Category) (ctx : AgentContext) (record : RecordEntry) : AgentContext :=
  ctx.ignoring
    (ctx.setRecord lower now category (namespacedKey subagent category ctx record.key)
      record.value s!"subagent-{subagent.subagentId}" record.iteration)

def mergeCategory (lower : String → String) (now : Int) (subagent : SubagentContext)
    (ctx : AgentContext) (category : Category) : AgentContext :=
  (subagent.context.getCategory category).foldl (mergeRecord lower now subagent category) ctx

/-- `merge_subagent_context`. The loop over the child's audit records does nothing. -/
def mergeSubagentContext (lower : String → String) (now : Int) (ctx : AgentContext)
    (subagent : SubagentContext) : Except ContextError AgentContext :=
  if ctx.lifecycleState ≠ .active ∧ ctx.lifecycleState ≠ .merging then
    .error (.mergeFailed
      s!"Cannot merge sub-agent context in state {ctx.lifecycleState.toString}")
  else .ok (mergedCategories.foldl (mergeCategory lower now subagent) ctx)

-- ---
-- What a write and a merge leave alone
-- ---

/-- Extensions and metadata are the same. -/
def SameExtras (ctx ctx' : AgentContext) : Prop :=
  ctx'.extensions = ctx.extensions ∧ ctx'.metadata = ctx.metadata

theorem SameExtras.refl (ctx : AgentContext) : SameExtras ctx ctx := ⟨rfl, rfl⟩

theorem SameExtras.trans {a b c : AgentContext} (h : SameExtras a b) (h' : SameExtras b c) :
    SameExtras a c :=
  ⟨h'.1.trans h.1, h'.2.trans h.2⟩

theorem sameExtras_foldl {α : Type} {f : AgentContext → α → AgentContext}
    (hf : ∀ ctx a, SameExtras ctx (f ctx a)) (l : List α) (ctx : AgentContext) :
    SameExtras ctx (l.foldl f ctx) := by
  induction l generalizing ctx with
  | nil => exact .refl ctx
  | cons a rest ih => exact (hf ctx a).trans (ih (f ctx a))

section Write

variable (lower : String → String) (now : Int) (ctx : AgentContext) (category : Category)
  (key : String) (value : Json) (source : String) (iteration : Nat)

theorem sameExtras_setRecord :
    SameExtras ctx
      (ctx.ignoring (ctx.setRecord lower now category key value source iteration)) := by
  unfold ignoring
  split
  · next ctx' h =>
    simp only [setRecord, bind, Except.bind, pure, Except.pure] at h
    split at h
    · cases h
    split at h
    · cases h
    split at h
    · cases h
    · cases h
      exact ⟨rfl, rfl⟩
  · exact .refl ctx

theorem mem_setRecord {c : Category} {r : RecordEntry}
    (h : r ∈ (ctx.ignoring
      (ctx.setRecord lower now category key value source iteration)).getCategory c) :
    r ∈ ctx.getCategory c ∨
      (checkSensitiveData lower key value = .ok () ∧ r = ⟨key, value, source, now, iteration⟩) := by
  unfold ignoring at h
  split at h
  · next ctx' hset =>
    obtain ⟨hguard, hcategory⟩ := setRecord_eq_ok hset
    rw [hcategory c] at h
    split at h
    · next hc =>
      subst hc
      rcases mem_upsert h with rfl | hold
      · exact Or.inr ⟨hguard, rfl⟩
      · exact Or.inl hold
    · exact Or.inl h
  · exact Or.inl h

end Write

section Loop

variable {α : Type} {f : AgentContext → α → AgentContext} {P : Json → Prop}

theorem mem_foldl {l : List α}
    (hf : ∀ a ∈ l, ∀ ctx c r, r ∈ (f ctx a).getCategory c → r ∈ ctx.getCategory c ∨ P r.value)
    {ctx : AgentContext} {c : Category} {r : RecordEntry}
    (h : r ∈ (l.foldl f ctx).getCategory c) : r ∈ ctx.getCategory c ∨ P r.value := by
  induction l generalizing ctx with
  | nil => exact Or.inl h
  | cons a rest ih =>
    rcases ih (fun a' ha' => hf a' (List.mem_cons_of_mem _ ha')) h with hmid | hp
    · exact hf a List.mem_cons_self ctx c r hmid
    · exact Or.inr hp

end Loop

/-- A record of the context holds the value. -/
def Holds (ctx : AgentContext) (value : Json) : Prop :=
  ∃ category, ∃ r ∈ ctx.getCategory category, r.value = value

section Merge

variable (lower : String → String) (now : Int) (subagent : SubagentContext)

theorem sameExtras_mergeCategory (ctx : AgentContext) (category : Category) :
    SameExtras ctx (mergeCategory lower now subagent ctx category) :=
  sameExtras_foldl (fun ctx _ => sameExtras_setRecord lower now ctx category _ _ _ _) _ ctx

variable {lower now subagent} {ctx ctx' : AgentContext}

theorem sameExtras_merge (h : ctx.mergeSubagentContext lower now subagent = .ok ctx') :
    SameExtras ctx ctx' := by
  unfold mergeSubagentContext at h
  split at h
  · cases h
  · cases h
    exact sameExtras_foldl (sameExtras_mergeCategory lower now subagent) _ ctx

/-- A record of the parent after the merge was there before, or has the value of a record of the
child. -/
theorem mem_merge (h : ctx.mergeSubagentContext lower now subagent = .ok ctx') {c : Category}
    {r : RecordEntry} (hr : r ∈ ctx'.getCategory c) :
    r ∈ ctx.getCategory c ∨ subagent.context.Holds r.value := by
  unfold mergeSubagentContext at h
  split at h
  · cases h
  · cases h
    refine mem_foldl (P := subagent.context.Holds) (fun category _ ctx c r hr => ?_) hr
    refine mem_foldl (P := subagent.context.Holds) (fun record hrecord ctx c r hr => ?_) hr
    rcases mem_setRecord lower now ctx category _ _ _ _ hr with hold | ⟨-, rfl⟩
    · exact Or.inl hold
    · exact Or.inr ⟨category, record, hrecord, rfl⟩

end Merge

end AgentContext

end Context

end HiveClaw
