import HiveClaw.Runtime.ContextView
import HiveClaw.Workflow.Upstream

/-!
# The order within a layer

`run_layers` takes the nodes of a layer in the order of a hash map. Two runs of one saved
workflow can therefore differ in the order of every layer, and in the order of the rows.

`LayerRun` is what a run to the end does, round by round: which nodes are executed, what they
receive, what they write. It says nothing about orders within a layer, and `runLayers_run`
shows that the loop does no more.

* `putGraph_confluent` — two runs in which equal inputs have equal outputs end alike, if no two
  nodes of one layer write to the same place of the context.
-/

namespace HiveClaw.Workflow

open HiveClaw.Runtime Context Lib Lib.Digraph Lib.Commuting

-- ---
-- What a node receives
-- ---

variable {ctx : AgentContext}

theorem find_extensionsInOrder (rank : String → Nat) (hkeyed : (view ctx).Keyed) (id : String) :
    (extensionsInOrder rank ctx).find? (fun e => e.id = id) = ctx.extensions.lookup id := by
  have hmem : ∀ e ∈ extensionsInOrder rank ctx, ctx.extensions.lookup e.id = some e := by
    intro e he
    obtain ⟨id', -, hlookup⟩ := List.mem_filterMap.mp he
    rwa [hkeyed id' e (congrArg Seen.extension hlookup)]
  cases hlookup : ctx.extensions.lookup id with
  | none =>
    refine List.find?_eq_none.mpr fun e he hid => ?_
    have hsome := hmem e he
    rw [of_decide_eq_true hid, hlookup] at hsome
    cases hsome
  | some e =>
    have hkey : id ∈ hashOrder rank ctx.extensions.keys := by
      refine (hashOrder_perm rank _).mem_iff.mpr (AList.mem_keys.mp ?_)
      rw [← AList.lookup_isSome, hlookup]
      rfl
    have hin : e ∈ extensionsInOrder rank ctx := List.mem_filterMap.mpr ⟨id, hkey, hlookup⟩
    have hid : e.id = id := hkeyed id e (congrArg Seen.extension hlookup)
    have hfound : ((extensionsInOrder rank ctx).find? fun e => decide (e.id = id)).isSome :=
      List.find?_isSome.mpr ⟨e, hin, decide_eq_true hid⟩
    obtain ⟨e', hfind⟩ := Option.isSome_iff_exists.mp hfound
    have htest := List.find?_some hfind
    have hid' : e'.id = id := of_decide_eq_true htest
    rw [hfind, ← hlookup, ← hid', hmem e' (List.mem_of_find?_eq_some hfind)]

theorem resolveRecord_eq {name : String} {snapshot : Json} {category : Category}
    (h : snapshot.get name = some (categoryValue ctx category)) (key field : String) :
    resolveRecord name key snapshot field =
      resolved ((recordsAt (ctx.getCategory category) key).head?.map Prod.fst) field
        s!"{name}.{key} not found" := by
  have hfind : ((((ctx.getCategory category).map fun r =>
      Json.obj [("key", .str r.key), ("value", r.value), ("source", .str r.source)]).find?
        fun r => r.getStr "key" = some key).bind fun r => r.get "value") =
      (recordsAt (ctx.getCategory category) key).head?.map Prod.fst := by
    unfold recordsAt
    rw [List.head?_map, List.head?_filter, List.find?_map, Option.map_map, Option.bind_map]
    have hkey : ((fun r : Json => decide (r.getStr "key" = some key)) ∘ fun r : RecordEntry =>
        Json.obj [("key", .str r.key), ("value", r.value), ("source", .str r.source)]) =
        fun r => decide (r.key = key) := by
      funext r
      exact decide_eq_decide.mpr Option.some_inj
    rw [hkey]
    cases (ctx.getCategory category).find? fun r => decide (r.key = key) <;> rfl
  unfold resolveRecord
  rw [h]
  exact congrArg (fun o => resolved o field s!"{name}.{key} not found") hfind

section Views

variable {ctx₁ ctx₂ : AgentContext}

theorem resolveRecord_view (hview : view ctx₁ = view ctx₂) (category : Category) {name : String}
    {s₁ s₂ : Json} (h₁ : s₁.get name = some (categoryValue ctx₁ category))
    (h₂ : s₂.get name = some (categoryValue ctx₂ category)) (key field : String) :
    resolveRecord name key s₁ field = resolveRecord name key s₂ field := by
  have hrecords : recordsAt (ctx₁.getCategory category) key =
      recordsAt (ctx₂.getCategory category) key :=
    Seen.records.inj (congrFun (congrArg ContextView.seen hview) (.record category key))
  rw [resolveRecord_eq h₁, resolveRecord_eq h₂, hrecords]

theorem resolveFromAgentContext_view (hview : view ctx₁ = view ctx₂)
    (hkeyed : (view ctx₁).Keyed) (rank₁ rank₂ : String → Nat) (category : AgentContextCategory)
    (key : String) (subKey : Option String) (field : String) :
    resolveFromAgentContext category key subKey (agentContextSnapshotValue rank₁ ctx₁) field =
      resolveFromAgentContext category key subKey (agentContextSnapshotValue rank₂ ctx₂) field := by
  cases category with
  | userInput =>
    have hinput : ctx₁.userInput = ctx₂.userInput :=
      congrArg (fun v : ContextView => v.rest.userInput) hview
    have hget : (agentContextSnapshotValue rank₁ ctx₁).get "user_input" =
        (agentContextSnapshotValue rank₂ ctx₂).get "user_input" := by
      unfold agentContextSnapshotValue
      rw [hinput]
      rfl
    unfold resolveFromAgentContext
    rw [hget]
  | entities =>
    simp only [resolveFromAgentContext]
    exact resolveRecord_view hview .entities rfl rfl key field
  | toolResults =>
    simp only [resolveFromAgentContext]
    exact resolveRecord_view hview .toolResults rfl rfl key field
  | stateChanges =>
    simp only [resolveFromAgentContext]
    exact resolveRecord_view hview .stateChanges rfl rfl key field
  | extensions =>
    have hfind : ∀ (rank : String → Nat) (ctx : AgentContext), (view ctx).Keyed →
        ((extensionsInOrder rank ctx).map extensionValue).find?
          (fun e => e.getStr "id" = some key) = (ctx.extensions.lookup key).map extensionValue := by
      intro rank ctx hkeyed
      have hid : ((fun e : Json => decide (e.getStr "id" = some key)) ∘ extensionValue) =
          fun e => decide (e.id = key) := by
        funext e
        exact decide_eq_decide.mpr Option.some_inj
      rw [List.find?_map, hid, find_extensionsInOrder rank hkeyed]
    have hlookup : ctx₁.extensions.lookup key = ctx₂.extensions.lookup key :=
      Seen.extension.inj (congrFun (congrArg ContextView.seen hview) (.extension key))
    have harray : ∀ (rank : String → Nat) (ctx : AgentContext),
        ((agentContextSnapshotValue rank ctx).get "extensions").bind Json.asArray =
          some ((extensionsInOrder rank ctx).map extensionValue) := fun _ _ => rfl
    simp only [resolveFromAgentContext, harray, hfind rank₁ ctx₁ hkeyed,
      hfind rank₂ ctx₂ (hview ▸ hkeyed), hlookup]

end Views

variable {outputs₁ outputs₂ : NodeValueMap} {ext : Json}

theorem buildInputFromSpec_congr {s₁ s₂ : Json}
    (hout : ∀ k, outputs₁.lookup k = outputs₂.lookup k)
    (hsnap : ∀ category key subKey field, resolveFromAgentContext category key subKey s₁ field =
      resolveFromAgentContext category key subKey s₂ field) (spec : InputSpec) (input : JsonMap) :
    buildInputFromSpec outputs₁ ext s₁ spec input =
      buildInputFromSpec outputs₂ ext s₂ spec input := by
  induction spec generalizing input with
  | nil => rfl
  | cons entry rest ih =>
    obtain ⟨field, src⟩ := entry
    have hsource : resolveSource outputs₁ ext s₁ field src =
        resolveSource outputs₂ ext s₂ field src := by
      cases src with
      | upstream nodeKey sub => simp only [resolveSource, hout]
      | custom value => rfl
      | agentContext category key subKey => exact hsnap category key subKey field
    unfold buildInputFromSpec
    rw [hsource]
    split
    · rfl
    · exact ih _

theorem buildNodeInput_congr (env : Env) {ctx₁ ctx₂ : AgentContext}
    (hview : view ctx₁ = view ctx₂) (hkeyed : (view ctx₁).Keyed) (rank₁ rank₂ : String → Nat)
    (hout : ∀ k, outputs₁.lookup k = outputs₂.lookup k) (nodeType : NodeType) (key : String)
    (ext : Json) (config : Option Json) :
    buildNodeInput env rank₁ ctx₁ nodeType key outputs₁ ext config =
      buildNodeInput env rank₂ ctx₂ nodeType key outputs₂ ext config := by
  unfold buildNodeInput
  split
  · split
    · rfl
    · exact buildInputFromSpec_congr hout
        (resolveFromAgentContext_view hview hkeyed rank₁ rank₂) _ _
  · rfl

-- ---
-- What a round does
-- ---

/-- The entries that the output of a node writes to the context. -/
def entriesOf (st : LayerState) (key : String) : List ContextEntry :=
  contextEntries ((st.outputs.lookup key).getD .null)

def Receives (env : Env) (ext : Json) (nodeOf : String → Option WorkflowNode) (st : LayerState)
    (ctx : AgentContext) (key : String) (input : Json) : Prop :=
  ∃ n rank, nodeOf key = some n ∧
    buildNodeInput env rank ctx n.nodeType key st.outputs ext n.nodeConfig = .ok input

structure LayerStep (env : Env) (ext : Json) (nodeOf : String → Option WorkflowNode)
    (layer : List String) (st : LayerState) (ctx : AgentContext) (st' : LayerState)
    (ctx' : AgentContext) : Prop where
  inputs : ∀ k ∈ layer, ∃ input, Receives env ext nodeOf st ctx k input ∧
    st'.nodeInputs.lookup k = some (cleanInput input)
  otherInputs : ∀ k ∉ layer, st'.nodeInputs.lookup k = st.nodeInputs.lookup k
  otherOutputs : ∀ k ∉ layer, st'.outputs.lookup k = st.outputs.lookup k
  layers : st'.layers = st.layers ++ [layer]
  view : view ctx' =
    layer.foldl (fun v k => (entriesOf st' k).foldl (ContextView.write env.lower) v) (view ctx)

variable {topo : Topology} {st st' : LayerState}

theorem prepareLayer_inputs {env : Env} {rank : String → Nat} {layer : List String}
    {prepared : List Prepared} (hnodup : layer.Nodup)
    (h : prepareLayer env rank ctx topo ext layer st = .ok (prepared, st')) :
    (∀ k ∈ layer, ∃ input, Receives env ext topo.byKey.lookup st ctx k input ∧
      st'.nodeInputs.lookup k = some (cleanInput input)) ∧
      ∀ k ∉ layer, st'.nodeInputs.lookup k = st.nodeInputs.lookup k := by
  induction layer generalizing st prepared with
  | nil =>
    cases h
    exact ⟨fun k hk => absurd hk List.not_mem_nil, fun _ _ => rfl⟩
  | cons key rest ih =>
    obtain ⟨hoff, hrest⟩ := List.nodup_cons.mp hnodup
    unfold prepareLayer at h
    dsimp only at h
    split at h
    · cases h
    next input hinput =>
    split at h
    · cases h
    next n hn =>
    split at h
    · cases h
    next ps st₂ hps =>
    cases h
    obtain ⟨hinputs, hothers⟩ := ih hrest hps
    rw [hn] at hinput
    refine ⟨List.forall_mem_cons.mpr ⟨?_, hinputs⟩, fun k hk => ?_⟩
    · refine ⟨input, ⟨n, rank, hn, hinput⟩, ?_⟩
      rw [hothers key hoff, AList.lookup_insert]
    · rw [List.mem_cons, not_or] at hk
      rw [hothers k hk.2, AList.lookup_insert_ne hk.1]

variable {w w' : World}

theorem applyAgentContextUpdates_view {env : Env} {output : Json} {u : Unit}
    (h : (applyAgentContextUpdates env output).Runs w u w') :
    view w'.ctx = (contextEntries output).foldl (ContextView.write env.lower) (view w.ctx) := by
  unfold applyAgentContextUpdates at h
  generalize contextEntries output = entries at h ⊢
  induction entries generalizing w with
  | nil =>
    obtain ⟨-, rfl⟩ := Prog.runs_done_iff.mp h
    rfl
  | cons entry rest ih =>
    obtain ⟨_, w₁, hentry, hrest⟩ := Prog.runs_bind_iff.mp h
    obtain ⟨m, -, rfl⟩ := Prog.runs_modify_iff.mp hentry
    rw [ih hrest, List.foldl_cons, ← view_apply env.lower m.now w.ctx entry]

theorem takeResults_view {env : Env} {keys : List String}
    {results : List (Except WorkflowError (String × Json))}
    (hresults : List.Forall₂ ResultOf keys results) (hnodup : keys.Nodup)
    (h : (takeResults env topo results st).Runs w (.ok st') w') :
    (∀ k ∉ keys, st'.outputs.lookup k = st.outputs.lookup k) ∧ st'.nodeInputs = st.nodeInputs ∧
      st'.layers = st.layers ∧
      view w'.ctx = keys.foldl
        (fun v k => (entriesOf st' k).foldl (ContextView.write env.lower) v) (view w.ctx) := by
  induction hresults generalizing st w with
  | nil =>
    obtain ⟨hst, rfl⟩ := Prog.runs_done_iff.mp h
    cases hst
    exact ⟨fun _ _ => rfl, rfl, rfl, rfl⟩
  | @cons key r keys results hr _ ih =>
    cases r with
    | error e => cases (Prog.runs_done_iff.mp h).1
    | ok res =>
      obtain ⟨k, out⟩ := res
      obtain rfl : k = key := hr k out rfl
      obtain ⟨hoff, hrest⟩ := List.nodup_cons.mp hnodup
      obtain ⟨_, w₁, happly, h⟩ := Prog.runs_bind_iff.mp h
      obtain ⟨hothers, hinputs, hlayers, hview⟩ := ih hrest h
      have hout : st'.outputs.lookup k = some out := by
        rw [hothers k hoff]
        exact AList.lookup_insert st.outputs
      refine ⟨fun x hx => ?_, hinputs, hlayers, ?_⟩
      · rw [List.mem_cons, not_or] at hx
        rw [hothers x hx.2]
        exact AList.lookup_insert_ne hx.1
      · rw [hview, applyAgentContextUpdates_view happly, List.foldl_cons, entriesOf, hout]
        rfl

section Contexts

variable {env : Env} {via : Via} {permissions : List String}

/-- The statement leaves the context as it is. -/
abbrev SameCtx (w w' : World) : Prop := w'.ctx = w.ctx

variable {α : Type}

theorem sameCtx_read (f : Moment → World → α) :
    Prog.Steps SameCtx (Rt.sync fun m w => (f m w, w)) := Prog.steps_modify fun _ _ => rfl

theorem sameCtx_ask (f : Moment → α) : Prog.Steps SameCtx (Rt.ask f) :=
  Prog.steps_modify fun _ _ => rfl

theorem sameCtx_emit (e : Event) : Prog.Steps SameCtx (Rt.emit e) :=
  Prog.steps_modify fun _ _ => rfl

theorem sameCtx_answerText (prompt : String) : Prog.Steps SameCtx (answerText prompt) := by
  refine (sameCtx_read fun m _ => m.provider).bind fun provider => ?_
  cases provider with
  | error e => exact .done _
  | ok model =>
    refine (sameCtx_emit _).bind fun _ => (sameCtx_ask _).bind fun resp => ?_
    dsimp only
    split
    · exact .done _
    · exact .done _

theorem sameCtx_executeFunctionNode (key : String) (functionId : Int) (input : Json) :
    Prog.Steps SameCtx (executeFunctionNode env via permissions key functionId input) := by
  refine (sameCtx_ask _).bind fun row => ?_
  rcases row with e | _ | f
  · exact .done _
  · exact .done _
  dsimp only
  split
  · unfold executeBuiltinFunction
    split
    · exact .done _
    refine (sameCtx_read _).bind fun nodeInput => ?_
    refine ((sameCtx_emit _).bind fun _ => sameCtx_read fun m _ => m.handler).bind fun out => ?_
    cases out with
    | error e => exact .done _
    | ok out => exact .done _
  · unfold executePluginFunction
    split
    · exact .done _
    · exact .done _
    refine (sameCtx_read _).bind fun nodeInput => ?_
    refine ((sameCtx_emit _).bind fun _ => sameCtx_ask _).bind fun out => ?_
    cases out with
    | error e => exact .done _
    | ok out => exact .done _

theorem sameCtx_executeAll (prepared : List Prepared) :
    Prog.Steps SameCtx (executeAll env via permissions prepared) := by
  induction prepared with
  | nil => exact .done _
  | cons p rest ih =>
    refine Prog.Steps.bind ?_ fun r => ih.bind fun rs => .done _
    unfold executeNode
    split
    · exact (sameCtx_read _).bind fun _ => (sameCtx_answerText _).bind fun _ => .done _
    · split
      · exact .done _
      · exact sameCtx_executeFunctionNode _ _ _
    · exact .done _

end Contexts

-- ---
-- What a run does
-- ---

/-- The nodes to which the longest path has `k` edges. -/
structure IsLevel (nodeOf : String → Option WorkflowNode) (r : String → String → Prop) (k : Nat)
    (layer : List String) : Prop where
  nodup : layer.Nodup
  mem : ∀ x, x ∈ layer ↔ (nodeOf x).isSome ∧ Depth r k x ∧ ¬Depth r (k + 1) x

/-- A run from round `k` to its end. -/
inductive LayerRun (env : Env) (ext : Json) (nodeOf : String → Option WorkflowNode)
    (r : String → String → Prop) :
    Nat → LayerState → AgentContext → LayerState → AgentContext → Prop
  | done {k : Nat} {st : LayerState} {ctx : AgentContext}
      (hnone : ∀ x, (nodeOf x).isSome → ¬Depth r k x) : LayerRun env ext nodeOf r k st ctx st ctx
  | round {k : Nat} {layer : List String} {st st' fin : LayerState}
      {ctx ctx' ctxEnd : AgentContext} (hne : layer ≠ []) (hlevel : IsLevel nodeOf r k layer)
      (hstep : LayerStep env ext nodeOf layer st ctx st' ctx')
      (hrest : LayerRun env ext nodeOf r (k + 1) st' ctx' fin ctxEnd) :
      LayerRun env ext nodeOf r k st ctx fin ctxEnd

/-- **The loop.** A run of `run_layers` to its end is a `LayerRun`. -/
theorem runLayers_run {es : List (String × String)} {nodes : List WorkflowNode}
    (hload : Loaded es topo) (hknows : Knows topo nodes)
    (hsrc : ∀ x y, (x, y) ∈ es → x ∈ nodes.map WorkflowNode.nodeKey) {env : Env} {via : Via}
    {permissions : List String} {fuel k : Nat} {fin : LayerState} (hround : Round es nodes k st)
    (h : (runLayers env via permissions topo ext fuel st).Runs w (.done fin) w') :
    LayerRun env ext topo.byKey.lookup (fun x y => (x, y) ∈ es) k st w.ctx fin w'.ctx := by
  have hnode : ∀ x, (topo.byKey.lookup x).isSome ↔ x ∈ nodes.map WorkflowNode.nodeKey := by
    intro x
    rw [Option.isSome_iff_exists, List.mem_map]
    exact exists_congr fun n => hknows x n
  have hbyKey : ∀ k n, topo.byKey.lookup k = some n → n.nodeKey = k :=
    fun k n hn => ((hknows k n).mp hn).2
  -- with nothing left, no node has the depth of the round
  have hend : st.remaining = [] → ∀ x, (topo.byKey.lookup x).isSome →
      ¬Depth (fun x y => (x, y) ∈ es) k x := by
    intro hnil x hx hdepth
    have hmem := (hround.remaining x).mpr ⟨(hnode x).mp hx, hdepth⟩
    rw [hnil] at hmem
    cases hmem
  induction fuel generalizing st w k with
  | zero =>
    unfold runLayers at h
    split at h
    · next hnil =>
      obtain ⟨hst, rfl⟩ := Prog.runs_done_iff.mp h
      cases hst
      exact .done (hend hnil)
    · cases (Prog.runs_done_iff.mp h).1
  | succ fuel ih =>
    unfold runLayers at h
    split at h
    · next hnil =>
      obtain ⟨hst, rfl⟩ := Prog.runs_done_iff.mp h
      cases hst
      exact .done (hend hnil)
    obtain ⟨layer, w₁, hlayer, h⟩ := Prog.runs_bind_iff.mp h
    obtain ⟨m, rfl, rfl⟩ := Prog.runs_modify_iff.mp hlayer
    dsimp only at h
    split at h
    · cases (Prog.runs_done_iff.mp h).1
    next hne =>
    obtain ⟨prepared, w₂, hprep, h⟩ := Prog.runs_bind_iff.mp h
    obtain ⟨m', rfl, rfl⟩ := Prog.runs_modify_iff.mp hprep
    dsimp only at h
    split at h
    · cases (Prog.runs_done_iff.mp h).1
    next prepared st₁ hprepare =>
    have hlevel : IsLevel topo.byKey.lookup (fun x y => (x, y) ∈ es) k (nextLayer m.rank st) := by
      refine ⟨((hashOrder_perm m.rank st.remaining).nodup_iff.mpr hround.inv.nodup).filter _,
        fun x => ?_⟩
      rw [hround.mem_nextLayer hsrc, hnode]
    obtain ⟨hkeys, hrem, hdeg, hlayers₁, hout⟩ := prepareLayer_ok hbyKey hprepare
    obtain ⟨hinputs, hothers⟩ := prepareLayer_inputs hlevel.nodup hprepare
    obtain ⟨results, w₃, hexec, h⟩ := Prog.runs_bind_iff.mp h
    -- the nodes themselves leave the context alone
    have hctx : w₃.ctx = w₂.ctx := (sameCtx_executeAll prepared).runs (fun _ => rfl)
      (fun _ _ _ hab hbc => hbc.trans hab) hexec
    have hresults := (returns_executeAll env via permissions prepared).runs hexec
    rw [hkeys] at hresults
    obtain ⟨taken, w₄, htake, h⟩ := Prog.runs_bind_iff.mp h
    cases taken with
    | error e => cases (Prog.runs_done_iff.mp h).1
    | ok st₂ =>
      obtain ⟨houtputs, hnodeInputs, hlayers, hview⟩ :=
        takeResults_view hresults hlevel.nodup htake
      have hround₂ := hround.next hload hsrc m.rank
        { st₁ with layers := st₁.layers ++ [nextLayer m.rank st] } hrem hdeg hout hresults htake
      -- inputs, other inputs, outputs, layers and context of the round
      refine .round hne hlevel ⟨?_, ?_, ?_, ?_, ?_⟩ (ih hround₂ h ?_)
      · intro x hx
        rw [hnodeInputs]
        exact hinputs x hx
      · intro x hx
        rw [hnodeInputs]
        exact hothers x hx
      · intro x hx
        rw [houtputs x hx]
        exact congrArg (AList.lookup x) hout
      · rw [hlayers]
        exact congrArg (· ++ [nextLayer m.rank st]) hlayers₁
      · rw [hview, hctx]
      · intro hnil x hx hdepth
        have hmem := (hround₂.remaining x).mpr ⟨(hnode x).mp hx, hdepth⟩
        rw [hnil] at hmem
        cases hmem

section Runs

variable {env : Env} {ext : Json} {nodeOf : String → Option WorkflowNode}
  {r : String → String → Prop} {k : Nat}

variable {fin st : LayerState} {ctx ctxEnd : AgentContext}

theorem LayerRun.keeps (h : LayerRun env ext nodeOf r k st ctx fin ctxEnd) :
    (∀ x, ¬Depth r k x → fin.nodeInputs.lookup x = st.nodeInputs.lookup x ∧
      fin.outputs.lookup x = st.outputs.lookup x) ∧ ∃ ls, fin.layers = st.layers ++ ls := by
  induction h with
  | done _ => exact ⟨fun _ _ => ⟨rfl, rfl⟩, [], (List.append_nil _).symm⟩
  | @round k layer st st' fin ctx ctx' ctxEnd hne hlevel hstep hrest ih =>
    obtain ⟨hkept, ls, hls⟩ := ih
    refine ⟨fun x hx => ?_, layer :: ls, ?_⟩
    · have hoff : x ∉ layer := fun hmem => hx ((hlevel.mem x).mp hmem).2.1
      obtain ⟨hinput, houtput⟩ := hkept x fun hdepth => hx hdepth.pred
      exact ⟨hinput.trans (hstep.otherInputs x hoff), houtput.trans (hstep.otherOutputs x hoff)⟩
    · rw [hls, hstep.layers, List.append_assoc]
      rfl

variable {layer : List String}

theorem LayerRun.settled (hlevel : IsLevel nodeOf r k layer)
    (h : LayerRun env ext nodeOf r (k + 1) st ctx fin ctxEnd) {x : String} (hx : x ∈ layer) :
    fin.nodeInputs.lookup x = st.nodeInputs.lookup x ∧
      fin.outputs.lookup x = st.outputs.lookup x :=
  h.keeps.1 x ((hlevel.mem x).mp hx).2.2

theorem IsLevel.perm {layer₁ layer₂ : List String} (h₁ : IsLevel nodeOf r k layer₁)
    (h₂ : IsLevel nodeOf r k layer₂) : layer₁.Perm layer₂ :=
  (List.perm_ext_iff_of_nodup h₁.nodup h₂.nodup).mpr fun x => (h₁.mem x).trans (h₂.mem x).symm

theorem IsLevel.not_done (hne : layer ≠ []) (hlevel : IsLevel nodeOf r k layer) :
    ¬∀ x, (nodeOf x).isSome → ¬Depth r k x := by
  intro hnone
  obtain ⟨x, hx⟩ := List.exists_mem_of_ne_nil layer hne
  obtain ⟨hnode, hdepth, -⟩ := (hlevel.mem x).mp hx
  exact hnone x hnode hdepth

end Runs

/-- What two runs have in common between the rounds. -/
structure Agree (st₁ : LayerState) (ctx₁ : AgentContext) (st₂ : LayerState)
    (ctx₂ : AgentContext) : Prop where
  inputs : ∀ k, st₁.nodeInputs.lookup k = st₂.nodeInputs.lookup k
  outputs : ∀ k, st₁.outputs.lookup k = st₂.outputs.lookup k
  view : view ctx₁ = view ctx₂
  layers : List.Forall₂ List.Perm st₁.layers st₂.layers

/-- A node with the same input in both runs has the same output. -/
def SameAnswers (st₁ st₂ : LayerState) : Prop :=
  ∀ layer ∈ st₁.layers, ∀ k ∈ layer, st₁.nodeInputs.lookup k = st₂.nodeInputs.lookup k →
    st₁.outputs.lookup k = st₂.outputs.lookup k

/-- No two nodes of a layer write to one place of the context. -/
def Separate (st : LayerState) : Prop :=
  ∀ layer ∈ st.layers, layer.Pairwise fun x y =>
    Apart ContextEntry.target (entriesOf st x) (entriesOf st y)

section Agreement

variable {env : Env} {ext : Json} {nodeOf : String → Option WorkflowNode}
  {r : String → String → Prop}

variable {st₁ st₂ : LayerState} {ctx₁ ctx₂ : AgentContext}

theorem Agree.receives (h : Agree st₁ ctx₁ st₂ ctx₂) (hkeyed : (Runtime.view ctx₁).Keyed)
    {key : String} {input₁ input₂ : Json} (h₁ : Receives env ext nodeOf st₁ ctx₁ key input₁)
    (h₂ : Receives env ext nodeOf st₂ ctx₂ key input₂) : input₁ = input₂ := by
  obtain ⟨n, rank₁, hn, hbuild₁⟩ := h₁
  obtain ⟨n', rank₂, hn', hbuild₂⟩ := h₂
  obtain rfl : n = n' := Option.some.inj (hn.symm.trans hn')
  rw [buildNodeInput_congr env h.view hkeyed rank₁ rank₂ h.outputs] at hbuild₁
  exact Except.ok.inj (hbuild₁.symm.trans hbuild₂)

/-- **One round.** Two runs that agree do so after the next layer, in whatever order each
takes it. -/
theorem Agree.step {k : Nat} {layer₁ layer₂ : List String}
    {st₁ st₁' st₂ st₂' fin₁ fin₂ : LayerState}
    {ctx₁ ctx₁' ctx₂ ctx₂' ctxEnd₁ ctxEnd₂ : AgentContext} (h : Agree st₁ ctx₁ st₂ ctx₂)
    (hkeyed : (Runtime.view ctx₁).Keyed) (hlevel₁ : IsLevel nodeOf r k layer₁)
    (hlevel₂ : IsLevel nodeOf r k layer₂)
    (hstep₁ : LayerStep env ext nodeOf layer₁ st₁ ctx₁ st₁' ctx₁')
    (hstep₂ : LayerStep env ext nodeOf layer₂ st₂ ctx₂ st₂' ctx₂')
    (hrest₁ : LayerRun env ext nodeOf r (k + 1) st₁' ctx₁' fin₁ ctxEnd₁)
    (hrest₂ : LayerRun env ext nodeOf r (k + 1) st₂' ctx₂' fin₂ ctxEnd₂)
    (hsame : SameAnswers fin₁ fin₂) (hsep : Separate fin₁) : Agree st₁' ctx₁' st₂' ctx₂' := by
  have hperm := hlevel₁.perm hlevel₂
  have hlayer : layer₁ ∈ fin₁.layers := by
    obtain ⟨-, ls, hls⟩ := hrest₁.keeps
    rw [hls, hstep₁.layers]
    simp
  have hinputs : ∀ x, st₁'.nodeInputs.lookup x = st₂'.nodeInputs.lookup x := by
    intro x
    by_cases hx : x ∈ layer₁
    · obtain ⟨input₁, hreceives₁, hinput₁⟩ := hstep₁.inputs x hx
      obtain ⟨input₂, hreceives₂, hinput₂⟩ := hstep₂.inputs x (hperm.mem_iff.mp hx)
      rw [hinput₁, hinput₂, h.receives hkeyed hreceives₁ hreceives₂]
    · rw [hstep₁.otherInputs x hx, hstep₂.otherInputs x fun hx₂ => hx (hperm.mem_iff.mpr hx₂),
        h.inputs x]
  have houtputs : ∀ x, st₁'.outputs.lookup x = st₂'.outputs.lookup x := by
    intro x
    by_cases hx : x ∈ layer₁
    · obtain ⟨hinput₁, houtput₁⟩ := hrest₁.settled hlevel₁ hx
      obtain ⟨hinput₂, houtput₂⟩ := hrest₂.settled hlevel₂ (hperm.mem_iff.mp hx)
      rw [← houtput₁, ← houtput₂]
      refine hsame layer₁ hlayer x hx ?_
      rw [hinput₁, hinput₂, hinputs x]
    · rw [hstep₁.otherOutputs x hx, hstep₂.otherOutputs x fun hx₂ => hx (hperm.mem_iff.mpr hx₂),
        h.outputs x]
  have hentries : ∀ x, entriesOf st₁' x = entriesOf st₂' x := by
    intro x
    rw [entriesOf, entriesOf, houtputs x]
  have hfinal : ∀ x ∈ layer₁, entriesOf fin₁ x = entriesOf st₁' x := by
    intro x hx
    rw [entriesOf, entriesOf, (hrest₁.settled hlevel₁ hx).2]
  have hapart : layer₁.Pairwise fun x y =>
      Apart ContextEntry.target (entriesOf st₁' x) (entriesOf st₁' y) := by
    refine (hsep layer₁ hlayer).imp_of_mem fun {x y} hx hy hxy => ?_
    rwa [hfinal x hx, hfinal y hy] at hxy
  refine ⟨hinputs, houtputs, ?_, ?_⟩
  · rw [hstep₁.view, hstep₂.view, ← h.view,
      foldl_perm (independent_write env.lower) (entriesOf st₁') hperm hapart]
    simp only [hentries]
  · rw [hstep₁.layers, hstep₂.layers]
    exact List.rel_append h.layers (.cons hperm .nil)

/-- **Runs.** Two runs that agree at the start agree at the end. -/
theorem LayerRun.agree {k : Nat} {fin₁ fin₂ : LayerState} {ctxEnd₁ ctxEnd₂ : AgentContext}
    (h₁ : LayerRun env ext nodeOf r k st₁ ctx₁ fin₁ ctxEnd₁)
    (h₂ : LayerRun env ext nodeOf r k st₂ ctx₂ fin₂ ctxEnd₂) (h : Agree st₁ ctx₁ st₂ ctx₂)
    (hkeyed : (Runtime.view ctx₁).Keyed) (hsame : SameAnswers fin₁ fin₂) (hsep : Separate fin₁) :
    Agree fin₁ ctxEnd₁ fin₂ ctxEnd₂ := by
  induction h₁ generalizing st₂ ctx₂ with
  | done hnone =>
    cases h₂ with
    | done _ => exact h
    | round hne hlevel _ _ => exact absurd hnone (hlevel.not_done hne)
  | @round k layer₁ st₁ st₁' fin₁ ctx₁ ctx₁' ctxEnd₁ hne₁ hlevel₁ hstep₁ hrest₁ ih =>
    cases h₂ with
    | done hnone => exact absurd hnone (hlevel₁.not_done hne₁)
    | round hne₂ hlevel₂ hstep₂ hrest₂ =>
      refine ih hrest₂ ?_ ?_ hsame hsep
      · exact h.step hkeyed hlevel₁ hlevel₂ hstep₁ hstep₂ hrest₁ hrest₂ hsame hsep
      · rw [hstep₁.view]
        -- every node keeps the extensions under their own ids
        have hfold : ∀ (keys : List String) (v : ContextView), v.Keyed →
            (keys.foldl (fun v x => (entriesOf st₁' x).foldl (ContextView.write env.lower) v)
              v).Keyed := by
          intro keys
          induction keys with
          | nil => exact fun v hv => hv
          | cons x rest ihkeys => exact fun v hv => ihkeys _ (hv.contextEntries _)
        exact hfold layer₁ _ hkeyed

end Agreement

-- ---
-- The end value
-- ---

theorem isNone_succ_iff (nodes : List WorkflowNode) (edges : List WorkflowEdge) (k : String) :
    ((topologyOf nodes edges).succ.lookup k).isNone ↔
      ∀ y, (k, y) ∉ loadedEdges nodes edges := by
  have hloop : ∀ (es : List (String × String)) (indegree : HashMap String Nat)
      (succ : HashMap String (List String)),
      ((es.foldl (fun acc e => (bump acc.1 e.2, push acc.2 e.1 e.2)) (indegree, succ)).2.lookup
        k).isNone ↔ (∀ y, (k, y) ∉ es) ∧ (succ.lookup k).isNone := by
    intro es
    induction es with
    | nil => intro indegree succ; simp
    | cons e rest ih =>
      intro indegree succ
      obtain ⟨x, y⟩ := e
      rw [List.foldl_cons, ih]
      by_cases hk : k = x
      · subst hk
        have hsome : ¬((push succ k y).lookup k).isNone := by simp [push]
        refine iff_of_false (fun h => hsome h.2) fun h => ?_
        exact h.1 y List.mem_cons_self
      · have hkept : (push succ x y).lookup k = succ.lookup k := AList.lookup_insert_ne hk
        simp [hkept, hk]
  have h := hloop (loadedEdges nodes edges) (initialIndegree nodes) ∅
  rw [AList.lookup_empty] at h
  exact h.trans (and_iff_left rfl)

variable {topo₁ topo₂ : Topology}

theorem endFields_congr (hnodes : topo₁.nodes = topo₂.nodes)
    (hlast : ∀ k, (topo₁.succ.lookup k).isNone = (topo₂.succ.lookup k).isNone)
    (hout : ∀ k, outputs₁.lookup k = outputs₂.lookup k) (fields : List String) :
    endFields topo₁ outputs₁ fields = endFields topo₂ outputs₂ fields := by
  simp only [endFields, hnodes, hlast, hout]

theorem buildEndOutput_congr (hnodes : topo₁.nodes = topo₂.nodes)
    (hlast : ∀ k, (topo₁.succ.lookup k).isNone = (topo₂.succ.lookup k).isNone)
    (hout : ∀ k, outputs₁.lookup k = outputs₂.lookup k) (schema : Option Json) :
    buildEndOutput topo₁ outputs₁ schema = buildEndOutput topo₂ outputs₂ schema := by
  unfold buildEndOutput
  cases schema with
  | none => simp only [hout]
  | some schema => simp only [endFields_congr hnodes hlast hout]

/-- The fields that a last node gives to the end value. -/
def endEntries (outputs : NodeValueMap) (fields : List String) (n : WorkflowNode) :
    List (String × Json) :=
  match (outputs.lookup n.nodeKey).bind Json.asObject with
  | none => []
  | some obj => fields.filterMap fun field => (obj.get field).map fun v => (field, v)

/-- An entry is written to an object. -/
def putField (acc : JsonMap) (e : String × Json) : JsonMap := JsonMap.insert acc e.1 e.2

/-- An entry is written to what is found under the fields. -/
def putAt (m : String → Option Json) (e : String × Json) : String → Option Json :=
  Function.update m e.1 (some e.2)

theorem endFields_eq (topo : Topology) (outputs : NodeValueMap) (fields : List String) :
    endFields topo outputs fields =
      (topo.nodes.filter fun n => (topo.succ.lookup n.nodeKey).isNone).foldl
        (fun acc n => (endEntries outputs fields n).foldl putField acc) [] := by
  unfold endFields
  refine congrArg (fun f => List.foldl f [] _) (funext fun acc => funext fun n => ?_)
  unfold endEntries
  cases (outputs.lookup n.nodeKey).bind Json.asObject with
  | none => rfl
  | some obj =>
    dsimp only
    induction fields generalizing acc with
    | nil => rfl
    | cons field rest ih =>
      rw [List.foldl_cons, ih]
      cases hfield : obj.get field <;> simp [hfield, putField]

theorem get_foldl_insert (entries : List (String × Json)) (acc : JsonMap) :
    JsonMap.get (entries.foldl putField acc) = entries.foldl putAt (JsonMap.get acc) := by
  induction entries generalizing acc with
  | nil => rfl
  | cons e rest ih =>
    rw [List.foldl_cons, List.foldl_cons, ih]
    refine congrArg (List.foldl putAt · rest) (funext fun key => ?_)
    unfold putField putAt
    by_cases hkey : key = e.1
    · rw [hkey, JsonMap.get_insert_self, Function.update_self]
    · rw [JsonMap.get_insert_of_ne acc e.2 hkey, Function.update_of_ne hkey]

/-- The last nodes give different fields to the end value. -/
def EndsApart (topo : Topology) (outputs : NodeValueMap) (fields : List String) : Prop :=
  (topo.nodes.filter fun n => (topo.succ.lookup n.nodeKey).isNone).Pairwise fun n m =>
    Apart Prod.fst (endEntries outputs fields n) (endEntries outputs fields m)

theorem endFields_perm (hnodes : topo₁.nodes.Perm topo₂.nodes)
    (hlast : ∀ k, (topo₁.succ.lookup k).isNone = (topo₂.succ.lookup k).isNone)
    (hout : ∀ k, outputs₁.lookup k = outputs₂.lookup k) {fields : List String}
    (hapart : EndsApart topo₁ outputs₁ fields) :
    JsonMap.get (endFields topo₁ outputs₁ fields) =
      JsonMap.get (endFields topo₂ outputs₂ fields) := by
  have hentries : endEntries outputs₁ fields = endEntries outputs₂ fields := by
    funext n
    simp only [endEntries, hout]
  have hget : ∀ (outputs : NodeValueMap) (ns : List WorkflowNode) (acc : JsonMap),
      JsonMap.get (ns.foldl (fun acc n => (endEntries outputs fields n).foldl putField acc) acc) =
        ns.foldl (fun m n => (endEntries outputs fields n).foldl putAt m) (JsonMap.get acc) := by
    intro outputs ns
    induction ns with
    | nil => exact fun _ => rfl
    | cons n rest ih =>
      exact fun acc => by rw [List.foldl_cons, List.foldl_cons, ih, get_foldl_insert]
  have hind : Independent putAt Prod.fst :=
    fun m a b hab => Function.update_comm hab _ _ m
  rw [endFields_eq, endFields_eq, hget, hget,
    foldl_perm hind _ (hnodes.filter _) hapart]
  simp only [hlast, hentries]

-- ---
-- Saved workflows
-- ---

/-- The fields of an output schema. -/
def schemaFields (schema : Json) : List String :=
  (((schema.get "properties").bind Json.asObject).map fun m => m.map Prod.fst).getD []

/-- **Confluence.** Two runs to the end of one saved workflow, with whatever orders of the rows
and of the hash maps, in contexts with one view: where equal inputs have equal outputs and no two
nodes of a layer write to one place, they execute the same layers, up to the order in each, with
the same inputs and outputs, and leave one view of the context. The end value has the same fields
if no two last nodes give the same field to it, and is the same if the nodes are read in one
order. -/
theorem putGraph_confluent {pf : Platform} {id : Int} {graph : GraphPut} {s s' : Store}
    {g : WorkflowGraph} (hput : (putGraph pf id graph).Runs s (.ok g) s') {mn₁ me₁ mn₂ me₂ : Moment}
    (hmn₁ : mn₁.store = s') (hme₁ : me₁.store = s') (hmn₂ : mn₂.store = s') (hme₂ : me₂.store = s')
    {env : Env} {via₁ via₂ : Via} {permissions₁ permissions₂ : List String} {ext : Json}
    {fuel₁ fuel₂ : Nat} {w₁ w₁' w₂ w₂' : World} {st₁ st₂ : LayerState}
    (h₁ : (runLayers env via₁ permissions₁ (topologyOf (nodeRows mn₁ id) (edgeRows me₁ id)) ext
      fuel₁ (initialState (nodeRows mn₁ id) (edgeRows me₁ id))).Runs w₁ (.done st₁) w₁')
    (h₂ : (runLayers env via₂ permissions₂ (topologyOf (nodeRows mn₂ id) (edgeRows me₂ id)) ext
      fuel₂ (initialState (nodeRows mn₂ id) (edgeRows me₂ id))).Runs w₂ (.done st₂) w₂')
    (hview : view w₁.ctx = view w₂.ctx) (hkeyed : (view w₁.ctx).Keyed)
    (hsame : SameAnswers st₁ st₂) (hsep : Separate st₁) :
    Agree st₁ w₁'.ctx st₂ w₂'.ctx ∧
      ∀ schema,
        ((∀ v ∈ schema, EndsApart (topologyOf (nodeRows mn₁ id) (edgeRows me₁ id)) st₁.outputs
            (schemaFields v)) →
          (buildEndOutput (topologyOf (nodeRows mn₁ id) (edgeRows me₁ id)) st₁.outputs schema).get =
            (buildEndOutput (topologyOf (nodeRows mn₂ id) (edgeRows me₂ id)) st₂.outputs
              schema).get) ∧
        (nodeRows mn₁ id = nodeRows mn₂ id →
          buildEndOutput (topologyOf (nodeRows mn₁ id) (edgeRows me₁ id)) st₁.outputs schema =
            buildEndOutput (topologyOf (nodeRows mn₂ id) (edgeRows me₂ id)) st₂.outputs
              schema) := by
  have hstored : ∀ {mn me : Moment}, mn.store = s' → me.store = s' →
      StoredGraph (nodeRows mn id) (edgeRows me id) := fun hmn hme =>
    (putGraph_stored hput).perm (hmn ▸ nodeRows_perm _ id) (hme ▸ edgeRows_perm _ id)
  have hstored₁ := hstored hmn₁ hme₁
  have hstored₂ := hstored hmn₂ hme₂
  -- both runs are runs of the same nodes and the same edges
  have hnodes : (nodeRows mn₁ id).Perm (nodeRows mn₂ id) :=
    (hmn₁ ▸ nodeRows_perm mn₁ id).trans (hmn₂ ▸ nodeRows_perm mn₂ id).symm
  have hedges : (edgeRows me₁ id).Perm (edgeRows me₂ id) :=
    (hme₁ ▸ edgeRows_perm me₁ id).trans (hme₂ ▸ edgeRows_perm me₂ id).symm
  have hrel : ∀ x y, (x, y) ∈ loadedEdges (nodeRows mn₁ id) (edgeRows me₁ id) ↔
      (x, y) ∈ loadedEdges (nodeRows mn₂ id) (edgeRows me₂ id) := by
    intro x y
    rw [mem_loadedEdges hstored₁.ids_nodup, mem_loadedEdges hstored₂.ids_nodup]
    simp only [KeyEdge, hedges.mem_iff, hnodes.mem_iff]
  have hknows₁ := knows_topologyOf (edgeRows me₁ id) hstored₁.keys_nodup
  have hknows₂ := knows_topologyOf (edgeRows me₂ id) hstored₂.keys_nodup
  have hlookup : (topologyOf (nodeRows mn₁ id) (edgeRows me₁ id)).byKey.lookup =
      (topologyOf (nodeRows mn₂ id) (edgeRows me₂ id)).byKey.lookup := by
    funext k
    refine Option.ext fun n => ?_
    rw [hknows₁ k n, hknows₂ k n, hnodes.mem_iff]
  have hsrc : ∀ {mn me : Moment}, StoredGraph (nodeRows mn id) (edgeRows me id) → ∀ x y,
      (x, y) ∈ loadedEdges (nodeRows mn id) (edgeRows me id) →
        x ∈ (nodeRows mn id).map WorkflowNode.nodeKey := by
    intro mn me hstored x y hxy
    obtain ⟨_, _, m, hm, _, _, -, -, hkey, -⟩ := (mem_loadedEdges hstored.ids_nodup).mp hxy
    exact List.mem_map.mpr ⟨m, hm, hkey⟩
  have hrun₁ := runLayers_run (loaded_topologyOf _ _) hknows₁ (hsrc hstored₁)
    (round_initialState hstored₁) h₁
  have hrun₂ := runLayers_run (loaded_topologyOf _ _) hknows₂ (hsrc hstored₂)
    (round_initialState hstored₂) h₂
  simp only [hlookup, hrel] at hrun₁
  have hstart : Agree (initialState (nodeRows mn₁ id) (edgeRows me₁ id)) w₁.ctx
      (initialState (nodeRows mn₂ id) (edgeRows me₂ id)) w₂.ctx :=
    ⟨fun _ => rfl, fun _ => rfl, hview, .nil⟩
  have hagree := hrun₁.agree hrun₂ hstart hkeyed hsame hsep
  have hlast : ∀ k, ((topologyOf (nodeRows mn₁ id) (edgeRows me₁ id)).succ.lookup k).isNone =
      ((topologyOf (nodeRows mn₂ id) (edgeRows me₂ id)).succ.lookup k).isNone := by
    intro k
    rw [Bool.eq_iff_iff, isNone_succ_iff, isNone_succ_iff]
    exact forall_congr' fun y => not_congr (hrel k y)
  refine ⟨hagree, fun schema => ⟨fun hends => ?_, fun hrows => ?_⟩⟩
  · cases schema with
    | none => simp only [buildEndOutput, hagree.outputs]
    | some v => exact endFields_perm hnodes hlast hagree.outputs (hends v rfl)
  · exact buildEndOutput_congr hrows hlast hagree.outputs schema

def forkGraph : GraphPut :=
  { nodes := [{ nodeKey := "a", nodeType := .functionNode, functionId := some 7 },
      { nodeKey := "b", nodeType := .functionNode, functionId := some 8 }]
    edges := [] }

def twoBuiltins : Store :=
  { emptyWorkflow with
    functions := [functionRow 7 "game_list" [], functionRow 8 "rag_answer" []] }

/-- The store once the graph is saved. -/
@[irreducible] def savedFork : Store :=
  ((putGraph plainPlatform 1 forkGraph).exec (fun _ => .at 0) twoBuiltins).2

-- what `game_list` returns when there are no games
def noGames : Json :=
  .obj [("_agent_context_updates", .obj [("metadata", .obj [("target_client_type", .str "WEB")])]),
    ("data", .str ""), ("games", .arr [])]

-- what `rag_answer` returns when the model answers "hello"
def ragHello : Json :=
  .obj [("_agent_context_updates", .obj [("metadata", .obj
    [("agent_loop_break", .str "true"), ("agent_loop_reply", .str "hello")])])]

def freshWorld : World := { ctx := .new 0 "" ⟨"", none, none, 0, []⟩ .default, trace := [] }

/-- A run of the saved graph with hash maps in this order, in which the handlers return these. -/
def forkRun (rank : String → Nat) (first second : Json) : LayerEnd × World :=
  (runLayers .plain .invokeFunction []
    (topologyOf (nodeRows (.of savedFork) 1) (edgeRows (.of savedFork) 1)) (.obj []) 2
    (initialState (nodeRows (.of savedFork) 1) (edgeRows (.of savedFork) 1))).exec
      (fun i => { Moment.of savedFork with
        rank := rank, handler := .ok (if i < 6 then first else second) }) freshWorld

theorem runs_forkRun {rank : String → Nat} {first second : Json} {st : LayerState}
    (h : (forkRun rank first second).1 = .done st) :
    (runLayers .plain .invokeFunction []
      (topologyOf (nodeRows (.of savedFork) 1) (edgeRows (.of savedFork) 1)) (.obj []) 2
      (initialState (nodeRows (.of savedFork) 1) (edgeRows (.of savedFork) 1))).Runs
        freshWorld (.done st) (forkRun rank first second).2 := by
  rw [← h]
  exact Prog.runs_exec _ _ _

/-- The two outputs write to different places. -/
theorem apart_fork {st : LayerState} (ha : st.outputs.lookup "a" = some noGames)
    (hb : st.outputs.lookup "b" = some ragHello) :
    Apart ContextEntry.target (entriesOf st "a") (entriesOf st "b") := by
  have hgames : entriesOf st "a" = [.metadata "target_client_type" "WEB"] := by
    rw [entriesOf, ha]
    rfl
  have hanswer : entriesOf st "b" =
      [.metadata "agent_loop_break" "true", .metadata "agent_loop_reply" "hello"] := by
    rw [entriesOf, hb]
    rfl
  rw [hgames, hanswer]
  simp [Apart, ContextEntry.target]

/-- The order in which `b` comes first. -/
def backwards (key : String) : Nat := if key = "a" then 1 else 0

def LayerEnd.state? : LayerEnd → Option LayerState
  | .done st => some st
  | _ => none

theorem LayerEnd.eq_done {fin : LayerEnd} (h : fin.state?.isSome) :
    ∃ st, fin = .done st ∧ fin.state? = some st := by
  cases fin with
  | done st => exact ⟨st, rfl, rfl⟩
  | nodeError e => cases h
  | unschedulable => cases h
  | outOfFuel => cases h

/-- The game list is called first, or the answer. -/
def gamesFirst : LayerEnd × World := forkRun (fun _ => 0) noGames ragHello

@[inherit_doc gamesFirst]
def answerFirst : LayerEnd × World := forkRun backwards ragHello noGames

/-- The two nodes are executed in either order and write to different places of the context, with
the same result. -/
theorem putGraph_confluent_fork :
    ∃ st₁ st₂, gamesFirst.1 = .done st₁ ∧ answerFirst.1 = .done st₂ ∧
      st₁.layers = [["a", "b"]] ∧ st₂.layers = [["b", "a"]] ∧
      st₁.outputs.lookup "a" = some noGames ∧ st₁.outputs.lookup "b" = some ragHello ∧
      Agree st₁ gamesFirst.2.ctx st₂ answerFirst.2.ctx := by
  have hput : (putGraph plainPlatform 1 forkGraph).Runs twoBuiltins
      ((putGraph plainPlatform 1 forkGraph).exec (fun _ => .at 0) twoBuiltins).1 savedFork := by
    unfold savedFork
    exact Service.runs_exec _ _ _
  have hsome : ((putGraph plainPlatform 1 forkGraph).exec (fun _ => .at 0)
      twoBuiltins).1.toOption.isSome = true := by decide +kernel
  obtain ⟨st₁, hdone₁, hst₁⟩ := LayerEnd.eq_done
    (show gamesFirst.1.state?.isSome = true by decide +kernel)
  obtain ⟨st₂, hdone₂, hst₂⟩ := LayerEnd.eq_done
    (show answerFirst.1.state?.isSome = true by decide +kernel)
  have hlayers₁ : gamesFirst.1.state?.map LayerState.layers = some [["a", "b"]] := by
    decide +kernel
  have hlayers₂ : answerFirst.1.state?.map LayerState.layers = some [["b", "a"]] := by
    decide +kernel
  have hanswers : ∀ k ∈ ["a", "b"],
      (gamesFirst.1.state?.bind fun st => st.outputs.lookup k) =
        answerFirst.1.state?.bind fun st => st.outputs.lookup k := by decide +kernel
  have ha : (gamesFirst.1.state?.bind fun st => st.outputs.lookup "a") = some noGames := by
    decide +kernel
  have hb : (gamesFirst.1.state?.bind fun st => st.outputs.lookup "b") = some ragHello := by
    decide +kernel
  rw [hst₁, Option.map_some, Option.some_inj] at hlayers₁
  rw [hst₂, Option.map_some, Option.some_inj] at hlayers₂
  rw [hst₁, Option.bind_some] at ha hb
  simp only [hst₁, hst₂, Option.bind_some] at hanswers
  have hsame : SameAnswers st₁ st₂ := by
    intro layer hlayer k hk _
    rw [hlayers₁] at hlayer
    obtain rfl := List.mem_singleton.mp hlayer
    exact hanswers k hk
  have hsep : Separate st₁ := by
    intro layer hlayer
    rw [hlayers₁] at hlayer
    obtain rfl := List.mem_singleton.mp hlayer
    exact .cons (List.forall_mem_singleton.mpr (apart_fork ha hb)) (List.pairwise_singleton _ _)
  have hkeyed : (view freshWorld.ctx).Keyed := by
    intro id content hseen
    cases Seen.extension.inj hseen
  cases hres : ((putGraph plainPlatform 1 forkGraph).exec (fun _ => .at 0) twoBuiltins).1 with
  | error e =>
    rw [hres] at hsome
    cases hsome
  | ok g =>
    rw [hres] at hput
    obtain ⟨hagree, -⟩ := @putGraph_confluent _ _ _ _ _ _ hput (.of savedFork) (.of savedFork)
      (.of savedFork) (.of savedFork) rfl rfl rfl rfl _ _ _ _ _ _ _ _ _ _ _ _ _ _
      (runs_forkRun hdone₁) (runs_forkRun hdone₂) rfl hkeyed hsame hsep
    exact ⟨st₁, st₂, hdone₁, hdone₂, hlayers₁, hlayers₂, ha, hb, hagree⟩

end HiveClaw.Workflow
