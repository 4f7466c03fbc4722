import HiveClaw.Runtime.Session

/-!
# Two ways to a plugin function

The model reaches a plugin function through a tool that wraps it or through
`invoke_function`. `handle_meta_tool` puts a snapshot of the context into the
input and applies the updates of the output; `handle_workspace_tool` does both
for builtin functions and workflows, but not where the tool wraps a plugin
function.

* `Applied.same_iff` — which updates leave a context as it is.
* `wrapped_same_iff` — when the two ways give the plugin one input and leave
  one context.
-/

namespace HiveClaw.Runtime

open Lib Context

-- ---
-- Contexts
-- ---

/-- A context apart from its two maps. -/
def otherFields (c : AgentContext) : AgentContext := { c with extensions := ∅, metadata := ∅ }

/-- The same state of a context: maps have no order. -/
structure SameContext (c c' : AgentContext) : Prop where
  extensions : ∀ id, c.extensions.lookup id = c'.extensions.lookup id
  metadata : ∀ key, c.metadata.lookup key = c'.metadata.lookup key
  others : otherFields c = otherFields c'

/-- The context after an entry, whose error is only logged. -/
def ContextEntry.effect (lower : String → String) (now : DateTime) (c : AgentContext)
    (entry : ContextEntry) : AgentContext := c.ignoring (entry.apply lower now c)

/-- The entries applied one after the other, each at some time. -/
inductive Applied (lower : String → String) :
    List ContextEntry → AgentContext → AgentContext → Prop
  | nil {c : AgentContext} : Applied lower [] c c
  | cons {entry : ContextEntry} {rest : List ContextEntry} {c c' : AgentContext} (now : DateTime)
      (h : Applied lower rest (entry.effect lower now c) c') :
      Applied lower (entry :: rest) c c'

/-- What the last of the entries for an extension says. -/
def lastExtension (id : String) : List ContextEntry → Option ExtensionContent
  | [] => none
  | .extension id' content :: rest =>
    (lastExtension id rest).or (if id' = id then some content else none)
  | _ :: rest => lastExtension id rest

/-- What the last of the entries for a key of the metadata says. -/
def lastValue (key : String) : List ContextEntry → Option String
  | [] => none
  | .metadata key' value :: rest =>
    (lastValue key rest).or (if key' = key then some value else none)
  | _ :: rest => lastValue key rest

/-- The context takes none of the records, and the extensions and values that the entries end
with are those it has. -/
structure Idle (lower : String → String) (ctx : AgentContext) (entries : List ContextEntry) :
    Prop where
  records : ∀ category key value source iteration,
    .record category key value source iteration ∈ entries →
      ∀ now, ¬(ContextEntry.record category key value source iteration).Accepts lower now ctx
  extensions : ctx.checkWriteAllowed = .ok () → ∀ id content,
    lastExtension id entries = some content → ctx.extensions.lookup id = some content
  metadata : ∀ key value, lastValue key entries = some value →
    ctx.metadata.lookup key = some value

/-- What decides whether an entry is taken stays as it is. -/
structure SameGuards (c c' : AgentContext) : Prop where
  lifecycle : c'.lifecycleState = c.lifecycleState
  blacklist : c'.blacklistedCategories = c.blacklistedCategories
  subagent : c'.subagentId = c.subagentId

/-- Nothing is taken out of the audit log and of the categories. -/
structure Grows (c c' : AgentContext) : Prop where
  auditLog : c.auditLog.length ≤ c'.auditLog.length
  records : ∀ category, (c.getCategory category).length ≤ (c'.getCategory category).length

theorem Grows.refl (c : AgentContext) : Grows c c := ⟨le_refl _, fun _ => le_refl _⟩

theorem Grows.trans {c₁ c₂ c₃ : AgentContext} (h : Grows c₁ c₂) (h' : Grows c₂ c₃) :
    Grows c₁ c₃ :=
  ⟨h.auditLog.trans h'.auditLog, fun category => (h.records category).trans (h'.records category)⟩

-- ---
-- One entry
-- ---

section Entry

variable {lower : String → String} {now : DateTime} {c : AgentContext}

theorem SameGuards.accepts_iff {c' : AgentContext} (h : SameGuards c c') (now now' : DateTime)
    (entry : ContextEntry) : entry.Accepts lower now c' ↔ entry.Accepts lower now' c := by
  have hwrite : c'.checkWriteAllowed = c.checkWriteAllowed := by
    simp only [AgentContext.checkWriteAllowed, h.lifecycle]
  have hblack : ∀ category, c'.checkBlacklist category = c.checkBlacklist category := by
    intro category
    simp only [AgentContext.checkBlacklist, h.blacklist, h.subagent]
  rw [ContextEntry.accepts_iff, ContextEntry.accepts_iff]
  simp only [hwrite, hblack]

theorem length_upsert (entry : RecordEntry) (records : List RecordEntry) :
    (AgentContext.upsert entry records).length =
      records.length + if (records.find? fun r => r.key = entry.key).isSome then 0 else 1 := by
  induction records with
  | nil => rfl
  | cons r rest ih =>
    by_cases hr : r.key = entry.key
    · simp [AgentContext.upsert, hr]
    · simp only [AgentContext.upsert, if_neg hr, List.length_cons, ih, List.find?_cons,
        decide_eq_false hr]
      omega

variable {c' : AgentContext} {category : Category} {key source : String} {value : Json}
  {iteration : Nat}

theorem setRecord_grows (h : c.setRecord lower now category key value source iteration = .ok c') :
    Grows c c' ∧ (c.auditLog.length < c'.auditLog.length ∨
      (c.getCategory category).length < (c'.getCategory category).length) := by
  simp only [AgentContext.setRecord, bind, Except.bind, pure, Except.pure] at h
  split at h
  · cases h
  split at h
  · cases h
  split at h
  · cases h
  cases h
  -- the record is in the category already, or not
  cases hfind : (c.categories category).records.find? fun r => r.key = key with
  | none =>
    have hmore : (c.getCategory category).length <
        (AgentContext.upsert ⟨key, value, source, now, iteration⟩
          (c.categories category).records).length := by
      rw [length_upsert]
      simp [hfind, AgentContext.getCategory]
    refine ⟨⟨le_refl _, fun other => ?_⟩, Or.inr ?_⟩
    · by_cases hother : other = category
      · subst hother
        simpa [AgentContext.getCategory, AgentContext.withStore] using hmore.le
      · simp [AgentContext.getCategory, AgentContext.withStore, hother]
    · simpa [AgentContext.getCategory, AgentContext.withStore] using hmore
  | some existing =>
    have hsame : (AgentContext.upsert ⟨key, value, source, now, iteration⟩
          (c.categories category).records).length = (c.getCategory category).length := by
      rw [length_upsert]
      simp [hfind, AgentContext.getCategory]
    refine ⟨⟨by simp, fun other => ?_⟩, Or.inl (by simp)⟩
    by_cases hother : other = category
    · subst hother
      simp [AgentContext.getCategory, AgentContext.withStore] at hsame ⊢
      exact hsame.ge
    · simp [AgentContext.getCategory, AgentContext.withStore, hother]

theorem setRecord_guards (h : c.setRecord lower now category key value source iteration = .ok c') :
    SameGuards c c' := by
  simp only [AgentContext.setRecord, bind, Except.bind, pure, Except.pure] at h
  split at h
  · cases h
  split at h
  · cases h
  split at h
  · cases h
  cases h
  exact ⟨rfl, rfl, rfl⟩

theorem effect_of_accepts {entry : ContextEntry} (h : entry.apply lower now c = .ok c') :
    entry.effect lower now c = c' := by
  unfold ContextEntry.effect
  rw [h]
  rfl

theorem effect_of_not_accepts {entry : ContextEntry} (h : ¬entry.Accepts lower now c) :
    entry.effect lower now c = c := by
  unfold ContextEntry.effect
  cases happly : entry.apply lower now c with
  | error e => rfl
  | ok c' => exact absurd ⟨c', happly⟩ h

theorem effect_guards (entry : ContextEntry) : SameGuards c (entry.effect lower now c) := by
  refine ignoring_induction (P := SameGuards c) ⟨rfl, rfl, rfl⟩ fun c' h => ?_
  cases entry with
  | record category key value source iteration => exact setRecord_guards h
  | extension id content =>
    obtain ⟨-, rfl⟩ := addExtension_eq_ok_iff.mp h
    exact ⟨rfl, rfl, rfl⟩
  | metadata key value =>
    cases h
    exact ⟨rfl, rfl, rfl⟩

theorem effect_grows (entry : ContextEntry) : Grows c (entry.effect lower now c) := by
  refine ignoring_induction (P := Grows c) (.refl c) fun c' h => ?_
  cases entry with
  | record category key value source iteration => exact (setRecord_grows h).1
  | extension id content =>
    obtain ⟨-, rfl⟩ := addExtension_eq_ok_iff.mp h
    exact ⟨le_refl _, fun _ => le_refl _⟩
  | metadata key value =>
    cases h
    exact ⟨le_refl _, fun _ => le_refl _⟩

theorem effect_others {entry : ContextEntry}
    (h : ∀ category key value source iteration,
      entry = .record category key value source iteration → ¬entry.Accepts lower now c) :
    otherFields (entry.effect lower now c) = otherFields c := by
  cases entry with
  | record category key value source iteration =>
    rw [effect_of_not_accepts (h _ _ _ _ _ rfl)]
  | extension id content =>
    refine ignoring_induction (P := fun c' => otherFields c' = otherFields c) rfl fun c' hc => ?_
    obtain ⟨-, rfl⟩ := addExtension_eq_ok_iff.mp hc
    rfl
  | metadata key value => rfl

theorem effect_extensions (entry : ContextEntry) (id : String) :
    (entry.effect lower now c).extensions.lookup id =
      if c.checkWriteAllowed = .ok () then
        (lastExtension id [entry]).or (c.extensions.lookup id)
      else c.extensions.lookup id := by
  cases entry with
  | record category key value source iteration =>
    have hkeep : ((ContextEntry.record category key value source iteration).effect lower now
        c).extensions = c.extensions :=
      ignoring_induction (P := fun c' => c'.extensions = c.extensions) rfl
        fun c' h => (setRecord_kept h).extensions
    simp [hkeep, lastExtension]
  | extension id' content =>
    split
    · next hwrite =>
      have happly : (ContextEntry.extension id' content).effect lower now c =
          { c with extensions := c.extensions.insert id' content } :=
        effect_of_accepts (addExtension_eq_ok_iff.mpr ⟨hwrite, rfl⟩)
      rw [happly]
      by_cases hid : id' = id
      · subst hid
        simp [lastExtension]
      · simp [lastExtension, hid, AList.lookup_insert_ne (Ne.symm hid)]
    · next hwrite =>
      rw [effect_of_not_accepts]
      rintro ⟨c', h⟩
      exact hwrite (addExtension_eq_ok_iff.mp h).1
  | metadata key value => simp [ContextEntry.effect, ContextEntry.apply, AgentContext.setMetadata,
      AgentContext.ignoring, lastExtension]

theorem effect_metadata (entry : ContextEntry) (key : String) :
    (entry.effect lower now c).metadata.lookup key =
      (lastValue key [entry]).or (c.metadata.lookup key) := by
  cases entry with
  | record category key' value source iteration =>
    have hkeep : ((ContextEntry.record category key' value source iteration).effect lower now
        c).metadata = c.metadata :=
      ignoring_induction (P := fun c' => c'.metadata = c.metadata) rfl
        fun c' h => (setRecord_kept h).metadata
    simp [hkeep, lastValue]
  | extension id content =>
    have hkeep : ((ContextEntry.extension id content).effect lower now c).metadata = c.metadata :=
      ignoring_induction (P := fun c' => c'.metadata = c.metadata) rfl fun c' h => by
        obtain ⟨-, rfl⟩ := addExtension_eq_ok_iff.mp h
        rfl
    simp [hkeep, lastValue]
  | metadata key' value =>
    show (c.metadata.insert key' value).lookup key = _
    by_cases hkey : key' = key
    · subst hkey
      simp [lastValue]
    · simp [lastValue, hkey, AList.lookup_insert_ne (Ne.symm hkey)]

end Entry

-- ---
-- All entries
-- ---

theorem lastExtension_cons (id : String) (entry : ContextEntry) (rest : List ContextEntry) :
    lastExtension id (entry :: rest) = (lastExtension id rest).or (lastExtension id [entry]) := by
  cases entry <;> simp [lastExtension]

theorem lastValue_cons (key : String) (entry : ContextEntry) (rest : List ContextEntry) :
    lastValue key (entry :: rest) = (lastValue key rest).or (lastValue key [entry]) := by
  cases entry <;> simp [lastValue]

namespace Applied

variable {lower : String → String} {entries : List ContextEntry} {c c' : AgentContext}

theorem grows (h : Applied lower entries c c') : Grows c c' := by
  induction h with
  | nil => exact .refl _
  | cons now _ ih => exact (effect_grows _).trans ih

theorem extensions (h : Applied lower entries c c') (id : String) :
    c'.extensions.lookup id =
      if c.checkWriteAllowed = .ok () then
        (lastExtension id entries).or (c.extensions.lookup id)
      else c.extensions.lookup id := by
  induction h with
  | nil => simp [lastExtension]
  | @cons entry rest c c' now _ ih =>
    have hwrite : (entry.effect lower now c).checkWriteAllowed = c.checkWriteAllowed := by
      simp only [AgentContext.checkWriteAllowed, (effect_guards entry).lifecycle]
    rw [ih, hwrite, effect_extensions, lastExtension_cons id entry rest]
    split
    · rw [Option.or_assoc]
    · rfl

theorem metadata (h : Applied lower entries c c') (key : String) :
    c'.metadata.lookup key = (lastValue key entries).or (c.metadata.lookup key) := by
  induction h with
  | nil => simp [lastValue]
  | @cons entry rest c c' now _ ih => 
    rw [ih, effect_metadata, lastValue_cons key entry rest, Option.or_assoc]

/-- Apart from extensions and metadata the context is as before if and only if it took none of
the records. -/
theorem others_iff (h : Applied lower entries c c') :
    otherFields c' = otherFields c ↔
      ∀ category key value source iteration,
        .record category key value source iteration ∈ entries →
          ∀ now, ¬(ContextEntry.record category key value source iteration).Accepts lower now c := by
  induction h with
  | nil => simp
  | @cons entry rest c c' now hrest ih =>
    have haccepts : ∀ (e : ContextEntry) now', e.Accepts lower now' (entry.effect lower now c) ↔
        e.Accepts lower now' c := fun e now' => (effect_guards entry).accepts_iff now' now' e
    simp only [haccepts] at ih
    by_cases htaken : ∃ category key value source iteration,
        entry = .record category key value source iteration ∧ entry.Accepts lower now c
    · -- a record is taken, and nothing takes it out again
      obtain ⟨category, key, value, source, iteration, rfl, c₁, hok⟩ := htaken
      constructor
      · intro hsame
        obtain ⟨hgrows, hmore⟩ := setRecord_grows hok
        have hgrows' : Grows c₁ c' := effect_of_accepts hok ▸ hrest.grows
        have hlog : c'.auditLog = c.auditLog := by
          simpa [otherFields] using congrArg AgentContext.auditLog hsame
        have hcat : c'.categories = c.categories := by
          simpa [otherFields] using congrArg AgentContext.categories hsame
        rcases hmore with hmore | hmore
        · have := hgrows'.auditLog
          rw [hlog] at this
          omega
        · have := hgrows'.records category
          rw [AgentContext.getCategory, AgentContext.getCategory, hcat] at this
          rw [AgentContext.getCategory, AgentContext.getCategory] at hmore
          omega
      · intro hnone
        exact absurd ⟨c₁, hok⟩ (hnone _ _ _ _ _ List.mem_cons_self now)
    · have hstays : otherFields (entry.effect lower now c) = otherFields c := effect_others
        fun category key value source iteration hentry haccepts =>
          htaken ⟨category, key, value, source, iteration, hentry, haccepts⟩
      rw [hstays] at ih
      rw [ih]
      refine forall_congr' fun category => forall_congr' fun key => forall_congr' fun value =>
        forall_congr' fun source => forall_congr' fun iteration => ?_
      constructor
      · intro hall hmem now'
        rcases List.mem_cons.mp hmem with rfl | hmem
        · intro haccepts
          refine htaken ⟨_, _, _, _, _, rfl, ?_⟩
          exact ((SameGuards.mk rfl rfl rfl).accepts_iff now now' _).mpr haccepts
        · exact hall hmem now'
      · exact fun hall hmem => hall (List.mem_cons_of_mem _ hmem)

theorem same_iff (h : Applied lower entries c c') :
    SameContext c c' ↔ Idle lower c entries := by
  constructor
  · intro hsame
    refine ⟨h.others_iff.mp hsame.others.symm, fun hwrite id content hlast => ?_,
      fun key value hlast => ?_⟩
    · rw [hsame.extensions, h.extensions, if_pos hwrite, hlast]
      rfl
    · rw [hsame.metadata, h.metadata, hlast]
      rfl
  · intro hquiet
    refine ⟨fun id => ?_, fun key => ?_, (h.others_iff.mpr hquiet.records).symm⟩
    · rw [h.extensions]
      split
      · next hwrite =>
        cases hlast : lastExtension id entries with
        | none => rfl
        | some content => exact hquiet.extensions hwrite id content hlast
      · rfl
    · rw [h.metadata]
      cases hlast : lastValue key entries with
      | none => rfl
      | some value => exact hquiet.metadata key value hlast

end Applied

-- ---
-- The two ways
-- ---

/-- A function that a plugin executes. -/
structure PluginBacked (f : Function) : Prop where
  kind : f.kind = 1 ∨ f.kind = 2
  pluginId : f.pluginId.isSome
  pluginExport : f.pluginExport.isSome

/-- A tool that wraps a plugin function. -/
structure Wraps (tool : ToolRef) (f : Function) : Prop where
  kind : tool.kind = 1
  isMetaTool : tool.isMetaTool = false
  isBuiltinFunction : tool.isBuiltinFunction = false
  functionId : tool.functionId = some f.id
  pluginId : tool.pluginId = f.pluginId
  pluginExport : tool.pluginExport = f.pluginExport

/-- The meta tool `invoke_function`. -/
structure InvokesFunctions (tool : ToolRef) : Prop where
  kind : tool.kind = 1
  isMetaTool : tool.isMetaTool = true
  identifier : tool.identifier = "invoke_function"

/-- What a call finds outside: the function by both of its keys, and the plugin's answer. -/
structure Serves (env : Env) (f : Function) (answer : Except String String)
    (outside : Nat → Moment) : Prop where
  dbError : ∀ k, (outside k).dbError = none
  byIdentifier : ∀ k, ((outside k).store.functions.find? fun g =>
    env.collationKey g.identifier = env.collationKey f.identifier) = some f
  byId : ∀ k, (outside k).store.function? f.id = some f
  invoked : ∀ k, (outside k).invoked = answer

/-- The inputs with which functions were executed. -/
def inputs (trace : List Event) : List Json :=
  trace.filterMap fun
    | .executed e => some e.input
    | _ => none

/-- The updates that the answer of a plugin asks for. -/
def answerEntries (env : Env) : Except String String → List ContextEntry
  | .ok out => contextEntries (parseOutput env out)
  | .error _ => []

/-- The call of `invoke_function` for a function and its arguments. -/
def invokeCall (tc : ToolCallRequest) (identifier : String) : ToolCallRequest :=
  { tc with
    name := "invoke_function"
    arguments := [("function_identifier", .str identifier), ("function_input", .obj tc.arguments)] }

theorem inputs_log (w : World) (e : Execution) :
    inputs (w.log (.executed e)).trace = inputs w.trace ++ [e.input] := by
  simp [inputs, World.log, List.filterMap_append]

variable {w : World}

theorem runs_applyUpdates {env : Env} {output : Json} {w' : World} {u : Unit}
    (h : (applyAgentContextUpdates env output).Runs w u w') :
    Applied env.lower (contextEntries output) w.ctx w'.ctx ∧ inputs w'.trace = inputs w.trace := by
  unfold applyAgentContextUpdates at h
  generalize contextEntries output = entries at h ⊢
  induction entries generalizing w with
  | nil =>
    obtain ⟨-, rfl⟩ := Prog.runs_done_iff.mp h
    exact ⟨.nil, rfl⟩
  | cons entry rest ih =>
    obtain ⟨_, w₁, h₁, h₂⟩ := Prog.runs_bind_iff.mp h
    obtain ⟨m, -, rfl⟩ := Prog.runs_modify_iff.mp h₁
    obtain ⟨happlied, hinputs⟩ := ih h₂
    refine ⟨.cons m.now happlied, hinputs.trans ?_⟩
    simp [inputs, World.log, List.filterMap_append]

variable {α : Type}

theorem exec_invoke_bind (e : Execution) (k : Except String String → Rt α)
    (outside : Nat → Moment) (w : World) :
    (invoke e >>= k).exec outside w =
      (k (outside 1).invoked).exec (fun i => outside (i + 2)) (w.log (.executed e)) := rfl

theorem exec_query_bind {β : Type} (read : Moment → α) (k : Except String α → Rt β)
    {outside : Nat → Moment} (h : (outside 0).dbError = none) :
    (Rt.query read >>= k).exec outside w =
      (k (.ok (read (outside 0)))).exec (fun i => outside (i + 1)) w := by
  unfold Rt.query Rt.ask Rt.await Prog.modify
  simp only [bind, Prog.bind_stmt, Prog.bind_done, Prog.exec]
  rw [h]

section Ways

variable {env : Env} {content : AgentContent} {f : Function} {tool : ToolRef}
  {tc : ToolCallRequest} {answer : Except String String} {outside : Nat → Moment} {w : World}

theorem wrapped_exec (hf : PluginBacked f) (htool : Wraps tool f)
    (hcaps : missingCapabilities tool.requiredCapabilities content.permissions = [])
    (houtside : Serves env f answer outside) :
    ((handleWorkspaceTool env content tool tc).exec outside w).2 =
      w.log (.executed { via := .tool tool, function := some f
                         permissions := content.permissions, input := .obj tc.arguments }) := by
  obtain ⟨p, hp⟩ := Option.isSome_iff_exists.mp hf.pluginId
  obtain ⟨x, hx⟩ := Option.isSome_iff_exists.mp hf.pluginExport
  have hrow : wrappedFunction tool (outside 0).store = some f := by
    rw [wrappedFunction, htool.functionId, Option.bind_some, houtside.byId]
  have hway : handleWorkspaceTool env content tool tc = wrappedPlugin env content tool tc := by
    simp [handleWorkspaceTool, hcaps, htool.kind, htool.isMetaTool, htool.isBuiltinFunction]
  rw [hway, wrappedPlugin, htool.pluginId, htool.pluginExport, hp, hx]
  show ((invoke { via := .tool tool, function := wrappedFunction tool (outside 0).store
                  permissions := content.permissions, input := .obj tc.arguments } >>= _).exec
      (fun k => outside (k + 1)) w).2 = _
  rw [exec_invoke_bind, hrow]
  split <;> rfl

/-- What `invoke_function` executes. -/
def invokedExecution (content : AgentContent) (f : Function) (tc : ToolCallRequest)
    (rank : String → Nat) (ctx : AgentContext) : Execution :=
  { via := .invokeFunction, function := some f, permissions := content.permissions
    input := injectAgentContextSnapshot rank ctx (.obj tc.arguments) }

theorem metaPlugin_exec (hf : PluginBacked f) (e : Execution) :
    (metaPlugin env f e).exec outside w =
      (match (outside 1).invoked with
        | .error err => (pure (.error s!"plugin invoke failed: {err}") : Rt ToolOutcome)
        | .ok out => do
          applyAgentContextUpdates env (parseOutput env out)
          pure (.ok (parseOutput env out))).exec (fun i => outside (i + 2))
        (w.log (.executed e)) := by
  obtain ⟨p, hp⟩ := Option.isSome_iff_exists.mp hf.pluginId
  obtain ⟨x, hx⟩ := Option.isSome_iff_exists.mp hf.pluginExport
  rw [metaPlugin, hp, hx]
  exact exec_invoke_bind e _ outside w

theorem invokeFunctionRow_exec (hf : PluginBacked f)
    (hcaps : missingCapabilities (capabilityList f.requiredCapabilities) content.permissions = []) :
    (invokeFunctionRow env content f.identifier f (.obj tc.arguments)).exec outside w =
      (metaPlugin env f (invokedExecution content f tc (outside 0).rank w.ctx)).exec
        (fun i => outside (i + 1)) w := by
  obtain ⟨p, hp⟩ := Option.isSome_iff_exists.mp hf.pluginId
  have hrow : invokeFunctionRow env content f.identifier f (.obj tc.arguments) = (do
      let input ← injectSnapshot (.obj tc.arguments)
      metaPlugin env f { via := .invokeFunction, function := some f
                         permissions := content.permissions, input := input }) := by
    simp [invokeFunctionRow, hcaps, hp, hf.kind]
  rw [hrow]
  rfl

theorem invokeFunction_exec (houtside : Serves env f answer outside) :
    (invokeFunction env content (invokeCall tc f.identifier)).exec outside w =
      (invokeFunctionRow env content f.identifier f (.obj tc.arguments)).exec
        (fun i => outside (i + 1)) w := by
  have hident : (invokeCall tc f.identifier).arguments.get "function_identifier" =
      some (.str f.identifier) := rfl
  have hinput : (invokeCall tc f.identifier).arguments.get "function_input" =
      some (.obj tc.arguments) := rfl
  rw [invokeFunction, hident, hinput]
  refine (exec_query_bind _ _ (houtside.dbError 0)).trans ?_
  rw [houtside.byIdentifier]

theorem invoked_exec (hf : PluginBacked f) (htool : InvokesFunctions tool)
    (hcaps : missingCapabilities tool.requiredCapabilities content.permissions = [])
    (hfcaps : missingCapabilities (capabilityList f.requiredCapabilities) content.permissions = [])
    (houtside : Serves env f answer outside) {w' : World}
    (hw' : ((handleWorkspaceTool env content tool (invokeCall tc f.identifier)).exec outside w).2 =
      w') :
    inputs w'.trace = inputs w.trace ++
        [injectAgentContextSnapshot (outside 1).rank w.ctx (.obj tc.arguments)] ∧
      Applied env.lower (answerEntries env answer) w.ctx w'.ctx := by
  have hway : handleWorkspaceTool env content tool (invokeCall tc f.identifier) =
      invokeFunction env content (invokeCall tc f.identifier) := by
    simp [handleWorkspaceTool, handleMetaTool, hcaps, htool.kind, htool.isMetaTool,
      htool.identifier]
  rw [hway, invokeFunction_exec houtside, invokeFunctionRow_exec hf hfcaps, metaPlugin_exec hf,
    houtside.invoked] at hw'
  cases answer with
  | error err =>
    subst hw'
    exact ⟨inputs_log _ _, .nil⟩
  | ok out =>
    obtain ⟨_, w₁, happly, hdone⟩ := Prog.runs_bind_iff.mp (hw' ▸ Prog.runs_exec _ _ _)
    obtain ⟨-, rfl⟩ := Prog.runs_done_iff.mp hdone
    obtain ⟨happlied, hinputs⟩ := runs_applyUpdates happly
    exact ⟨hinputs.trans (inputs_log _ _), happlied⟩

end Ways

theorem wraps_toolRef {s : Store} {t : Tool} {f : Function} (hf : PluginBacked f)
    (hkind : t.kind = 1) (hid : t.functionId = some f.id) (hrow : s.function? f.id = some f) :
    Wraps (toolRef s t) f where
  kind := hkind
  isMetaTool := by simp [toolRef, hid]
  isBuiltinFunction := by simp [toolRef, hid, hrow, hf.pluginId]
  functionId := hid
  pluginId := by simp [toolRef, hid, hrow]
  pluginExport := by simp [toolRef, hid, hrow]

/-- A plugin function is called with the same arguments through a tool that wraps it and through
`invoke_function`. The plugin receives one input and the context ends up in one state if and only
if the arguments carry the snapshot already and the updates of the output are idle. -/
theorem wrapped_same_iff (env : Env) (content : AgentContent) {f : Function} (hf : PluginBacked f)
    {tool metaTool : ToolRef} (htool : Wraps tool f) (hmeta : InvokesFunctions metaTool)
    (hcaps : missingCapabilities tool.requiredCapabilities content.permissions = [])
    (hmcaps : missingCapabilities metaTool.requiredCapabilities content.permissions = [])
    (hfcaps : missingCapabilities (capabilityList f.requiredCapabilities) content.permissions = [])
    (tc : ToolCallRequest) (w : World) (plugin : Json → Except String String)
    {outside outside' : Nat → Moment}
    (houtside : Serves env f (plugin (.obj tc.arguments)) outside)
    (houtside' : Serves env f (plugin (injectAgentContextSnapshot (outside' 1).rank w.ctx
      (.obj tc.arguments))) outside') :
    let wrapped := ((handleWorkspaceTool env content tool tc).exec outside w).2
    let invoked :=
      ((handleWorkspaceTool env content metaTool (invokeCall tc f.identifier)).exec outside' w).2
    (inputs wrapped.trace = inputs invoked.trace ∧ SameContext wrapped.ctx invoked.ctx) ↔
      tc.arguments.get "_agent_context" =
          some (agentContextSnapshotValue (outside' 1).rank w.ctx) ∧
        Idle env.lower w.ctx (answerEntries env (plugin (.obj tc.arguments))) := by
  intro wrapped invoked
  have hwrapped : wrapped = w.log (.executed
      { via := .tool tool, function := some f, permissions := content.permissions
        input := .obj tc.arguments }) := wrapped_exec hf htool hcaps houtside
  have hinvoked : ((handleWorkspaceTool env content metaTool
      (invokeCall tc f.identifier)).exec outside' w).2 = invoked := rfl
  obtain ⟨hinputs, happlied⟩ := invoked_exec hf hmeta hmcaps hfcaps houtside' hinvoked
  have hinput : inputs wrapped.trace = inputs invoked.trace ↔
      tc.arguments.get "_agent_context" =
        some (agentContextSnapshotValue (outside' 1).rank w.ctx) := by
    rw [hwrapped, inputs_log, hinputs, List.append_cancel_left_eq, List.cons.injEq,
      and_iff_left rfl, injectAgentContextSnapshot, Json.obj.injEq, eq_comm,
      JsonMap.insert_eq_self_iff]
  rw [hinput]
  refine and_congr_right fun hsnapshot => ?_
  have hsame : injectAgentContextSnapshot (outside' 1).rank w.ctx (.obj tc.arguments) =
      .obj tc.arguments := by
    rw [injectAgentContextSnapshot, (JsonMap.insert_eq_self_iff _ _ _).mpr hsnapshot]
  have hctx : wrapped.ctx = w.ctx := by rw [hwrapped, World.log_ctx]
  rw [hctx, happlied.same_iff, hsame]

/-- The function `lookup` of a plugin, a tool that wraps it, and the meta tool. -/
def lookupFunction : Function :=
  { functionRow 7 "lookup" [] with pluginId := some 1, pluginExport := some "run" }

def lookupTool : Tool :=
  { id := 3, identifier := "lookup", name := "lookup", description := "", kind := 1
    source := "workspace", isAlways := true, functionId := some 7, workflowId := none
    inputSchema := .obj [], outputSchema := .obj [], categoryId := none
    requiredCapabilities := none, createdAt := 0, updatedAt := 0 }

def lookupStore : Store := { functions := [lookupFunction], tools := [lookupTool] }

def invokeTool : ToolRef :=
  toolRef lookupStore { lookupTool with identifier := "invoke_function", functionId := none }

-- the outside of a call to which the plugin answers with a text
def answering (answer : String) : Moment :=
  { Moment.of lookupStore with invoked := .ok answer }

-- an agent without permissions
def lookupContent : AgentContent :=
  { agentId := 1, identifier := "main", systemPrompt := "", modelPreset := none
    tools := [toolRef lookupStore lookupTool, invokeTool], permissions := [], children := []
    hooks := [] }

-- the session's context before the call, and a call with these arguments
def lookupWorld : World := initialWorld Env.plain greeting 0

def lookupCall (arguments : JsonMap) : ToolCallRequest :=
  { id := "call-1", name := "lookup", arguments := arguments }

/-- An environment in which every output asks for an entry of the metadata. -/
def updatingEnv : Env :=
  { Env.plain with
    ofText := fun _ => some (.obj [("_agent_context_updates",
      .obj [("metadata", .obj [("seen", .str "yes")])])]) }

theorem lookup_backed : PluginBacked lookupFunction := ⟨Or.inl rfl, rfl, rfl⟩

theorem answering_serves (env : Env) (answer : String) :
    Serves env lookupFunction (.ok answer) (fun _ => answering answer) where
  dbError _ := rfl
  byIdentifier _ := by simp [answering, Moment.of, lookupStore]
  byId _ := rfl
  invoked _ := rfl

/-- The arguments carry the snapshot, and the output is a text. -/
theorem wrapped_same_lookup :
    let arguments := [("_agent_context", agentContextSnapshotValue (fun _ => 0) lookupWorld.ctx)]
    let wrapped := ((handleWorkspaceTool Env.plain lookupContent (toolRef lookupStore lookupTool)
      (lookupCall arguments)).exec (fun _ => answering "found") lookupWorld).2
    let invoked := ((handleWorkspaceTool Env.plain lookupContent invokeTool
      (invokeCall (lookupCall arguments) "lookup")).exec (fun _ => answering "found")
        lookupWorld).2
    inputs wrapped.trace = inputs invoked.trace ∧ SameContext wrapped.ctx invoked.ctx :=
  (wrapped_same_iff Env.plain lookupContent lookup_backed
    (wraps_toolRef lookup_backed rfl rfl rfl) ⟨rfl, rfl, rfl⟩ rfl rfl rfl
    (lookupCall [("_agent_context", agentContextSnapshotValue (fun _ => 0) lookupWorld.ctx)])
    lookupWorld (fun _ => .ok "found") (answering_serves _ _) (answering_serves _ _)).mpr
    ⟨rfl, nofun, nofun, nofun⟩

/-- Without arguments, and with an output that asks for an update: the input and the context
differ. -/
theorem wrapped_differs_lookup :
    let wrapped := ((handleWorkspaceTool updatingEnv lookupContent (toolRef lookupStore lookupTool)
      (lookupCall [])).exec (fun _ => answering "found") lookupWorld).2
    let invoked := ((handleWorkspaceTool updatingEnv lookupContent invokeTool
      (invokeCall (lookupCall []) "lookup")).exec (fun _ => answering "found") lookupWorld).2
    inputs wrapped.trace ≠ inputs invoked.trace ∧ ¬SameContext wrapped.ctx invoked.ctx := by
  intro wrapped invoked
  constructor
  · have hwrapped : inputs wrapped.trace = [.obj []] := rfl
    have hinvoked : inputs invoked.trace =
        [.obj [("_agent_context", agentContextSnapshotValue (fun _ => 0) lookupWorld.ctx)]] := rfl
    rw [hwrapped, hinvoked]
    simp
  · intro hsame
    have hwrapped : wrapped.ctx.metadata.lookup "seen" = none := rfl
    have hinvoked : invoked.ctx.metadata.lookup "seen" = some "yes" := rfl
    have hseen := hsame.metadata "seen"
    rw [hwrapped, hinvoked] at hseen
    cases hseen

end HiveClaw.Runtime
