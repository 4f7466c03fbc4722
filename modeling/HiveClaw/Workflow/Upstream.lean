import HiveClaw.Workflow.Schedule

/-!
# References to upstream nodes

A source `Upstream` of `input_source.rs` names the node that a field of the
input is read from. `put_graph` checks that the name is not empty; whether there
is such a node, and whether it is executed before, it does not look at. At run
time the field is read from the outputs of the layers before.

* `runLayers_upstream` — which references a run cannot resolve.
* `putGraph_upstream` — no run of an accepted graph misses an output if every
  reference is to `start` or to an earlier node, and only then does a run come to
  its end. A node is earlier than all to which a path of edges leads from it.
-/

namespace HiveClaw.Workflow

open HiveClaw.Runtime Lib Lib.Digraph

-- ---
-- Errors of sources
-- ---

/-- The error of a source whose node has no output. -/
def noOutput (nodeKey : String) : String := s!"upstream node '{nodeKey}' produced no output"

-- other errors are told apart by their first two characters
variable {a b : Char} {rest : List Char}

theorem ne_noOutput (m nodeKey : String) (hm : m.toList = a :: b :: rest)
    (hab : (a, b) ≠ ('u', 'p')) : m ≠ noOutput nodeKey := by
  rintro rfl
  have hup : (noOutput nodeKey).toList = "upstream node '".toList ++
      (nodeKey.toList ++ "' produced no output".toList) := by
    show ("upstream node '" ++ nodeKey ++ "' produced no output").toList = _
    rw [String.toList_append, String.toList_append, List.append_assoc]
  rw [hup] at hm
  cases hm
  exact hab rfl

theorem toList_three (x y z : String) : (x ++ y ++ z).toList = x.toList ++ (y.toList ++ z.toList) := by
  rw [String.toList_append, String.toList_append, List.append_assoc]

variable {f field m nodeKey : String}

theorem resolveDotPath_ne {root : Json} {path : List String}
    (h : resolveDotPath field root path = .error (f, m)) : m ≠ noOutput nodeKey := by
  induction path generalizing root with
  | nil => cases h
  | cons seg rest ih =>
    unfold resolveDotPath at h
    split at h
    · cases h
      exact ne_noOutput _ _ (toList_three "cannot index into non-object at segment '" seg "'")
        (by decide)
    split at h
    · cases h
      exact ne_noOutput _ _
        (toList_three "path segment '" seg "' not found in upstream output") (by decide)
    · exact ih h

theorem resolved_error {o : Option Json} {message : String}
    (h : resolved o field message = .error (f, m)) : m = message := by
  unfold resolved at h
  split at h
  · cases h
  · cases h
    rfl

variable {key : String}

theorem resolveRecord_ne {name : String} {snapshot : Json} (hname : name.toList = a :: b :: rest)
    (hab : (a, b) ≠ ('u', 'p')) (h : resolveRecord name key snapshot field = .error (f, m)) :
    m ≠ noOutput nodeKey := by
  unfold resolveRecord at h
  split at h
  · cases h
    exact ne_noOutput _ _ (toList_three "snapshot." name " missing") (by decide)
  · rw [resolved_error h]
    have hm : (name ++ "." ++ key ++ " not found").toList =
        a :: b :: (rest ++ ("." ++ key ++ " not found").toList) := by
      simp only [String.toList_append, hname, List.append_assoc, List.cons_append]
    exact ne_noOutput _ _ hm hab

theorem resolveFromAgentContext_ne {category : AgentContextCategory} {subKey : Option String}
    {snapshot : Json}
    (h : resolveFromAgentContext category key subKey snapshot field = .error (f, m)) :
    m ≠ noOutput nodeKey := by
  unfold resolveFromAgentContext at h
  split at h
  · split at h
    · cases h
      exact ne_noOutput _ _ rfl (by decide)
    split at h
    · rw [resolved_error h]
      exact ne_noOutput _ _ (toList_three "user_input." key " not found") (by decide)
    split at h
    · cases h
      exact ne_noOutput _ _ rfl (by decide)
    · rw [resolved_error h]
      exact ne_noOutput _ _ (toList_three "user_input.metadata." _ " not found") (by decide)
  · exact resolveRecord_ne (by rfl) (by decide) h
  · exact resolveRecord_ne (by rfl) (by decide) h
  · exact resolveRecord_ne (by rfl) (by decide) h
  · split at h
    · cases h
      exact ne_noOutput _ _ rfl (by decide)
    split at h
    · cases h
      exact ne_noOutput _ _ (toList_three "extension id '" key "' not found") (by decide)
    split at h
    · cases h
      exact ne_noOutput _ _ rfl (by decide)
    · rw [resolved_error h]
      next sk =>
      have hm : ("extension '" ++ key ++ "' has no field '" ++ sk ++ "'").toList = 'e' :: 'x' ::
          ("tension '" ++ key ++ "' has no field '" ++ sk ++ "'").toList := by
        simp only [String.toList_append, List.append_assoc]
        rfl
      exact ne_noOutput _ _ hm (by decide)

variable {outputs : NodeValueMap} {ext : Json}

theorem resolveSource_noOutput {snapshot : Json} {src : InputSource}
    (h : resolveSource outputs ext snapshot field src = .error (f, m)) (hm : m = noOutput nodeKey) :
    ∃ y sub, src = .upstream y sub ∧ y ≠ "start" ∧ outputs.lookup y = none := by
  cases src with
  | upstream y sub =>
    rw [resolveSource] at h
    split at h
    · unfold resolveFromExternal at h
      split at h
      · cases h
        exact absurd hm (ne_noOutput _ _ rfl (by decide))
      · cases h
    next hstart =>
    split at h
    · next hnone => exact ⟨y, sub, rfl, hstart, hnone⟩
    split at h
    · exact absurd hm (resolveDotPath_ne h)
    · cases h
  | custom v => cases h
  | agentContext category key subKey => exact absurd hm (resolveFromAgentContext_ne h)

theorem resolveSource_ok {snapshot v : Json} {y : String} {sub : Option String}
    (h : resolveSource outputs ext snapshot field (.upstream y sub) = .ok v) :
    y = "start" ∨ (outputs.lookup y).isSome := by
  rw [resolveSource] at h
  split at h
  · next hstart => exact Or.inl hstart
  split at h
  · cases h
  · next upstream hsome => exact Or.inr (by rw [hsome]; rfl)

-- ---
-- The input of a node
-- ---

section Specs

variable {outputs : NodeValueMap} {ext snapshot : Json} {spec : InputSpec} {input : JsonMap}

theorem buildInputFromSpec_error {e : String × String}
    (h : buildInputFromSpec outputs ext snapshot spec input = .error e) :
    ∃ entry ∈ spec, resolveSource outputs ext snapshot entry.1 entry.2 = .error e := by
  induction spec generalizing input with
  | nil => cases h
  | cons entry rest ih =>
    unfold buildInputFromSpec at h
    split at h
    · next e' he =>
      cases h
      exact ⟨entry, List.mem_cons_self, he⟩
    · obtain ⟨entry', hmem, herror⟩ := ih h
      exact ⟨entry', List.mem_cons_of_mem _ hmem, herror⟩

theorem buildInputFromSpec_ok {v : Json}
    (h : buildInputFromSpec outputs ext snapshot spec input = .ok v) :
    ∀ entry ∈ spec, ∃ v, resolveSource outputs ext snapshot entry.1 entry.2 = .ok v := by
  induction spec generalizing input with
  | nil => exact nofun
  | cons entry rest ih =>
    unfold buildInputFromSpec at h
    split at h
    · cases h
    · next v' hv =>
      intro entry' hmem
      rcases List.mem_cons.mp hmem with rfl | hmem
      · exact ⟨v', hv⟩
      · exact ih h entry' hmem

end Specs

/-- The node reads this field of its input from the output of the node `y`. -/
def Reads (env : Env) (nodeType : NodeType) (nodeConfig : Option Json) (field y : String) : Prop :=
  (nodeType = .functionNode ∨ nodeType = .generateAnswerNode) ∧
    ∃ spec sub, parseInputSpec env.inputSource
      ((nodeConfig.bind fun c => c.get "input_mapping").getD .null) = .ok spec ∧
        (field, InputSource.upstream y sub) ∈ spec

section Inputs

variable {env : Env} {rank : String → Nat} {ctx : Context.AgentContext} {nodeType : NodeType}
  {key : String} {outputs : NodeValueMap} {ext : Json} {config : Option Json}

theorem buildNodeInput_noOutput {f m nodeKey : String}
    (h : buildNodeInput env rank ctx nodeType key outputs ext config = .error (f, m))
    (hm : m = noOutput nodeKey) :
    ∃ field y, Reads env nodeType config field y ∧ y ≠ "start" ∧ outputs.lookup y = none := by
  unfold buildNodeInput at h
  split at h
  · next htype =>
    split at h
    · next e _ =>
      cases h
      exact absurd hm (ne_noOutput _ _ String.toList_append (by decide))
    · next spec hspec =>
      obtain ⟨⟨field, src⟩, hmem, herror⟩ := buildInputFromSpec_error h
      obtain ⟨y, sub, rfl, hstart, hnone⟩ := resolveSource_noOutput herror hm
      exact ⟨field, y, ⟨htype, spec, sub, hspec, hmem⟩, hstart, hnone⟩
  · cases h

theorem buildNodeInput_ok {v : Json} {field y : String}
    (h : buildNodeInput env rank ctx nodeType key outputs ext config = .ok v)
    (hreads : Reads env nodeType config field y) :
    y = "start" ∨ (outputs.lookup y).isSome := by
  obtain ⟨htype, spec, sub, hspec, hmem⟩ := hreads
  unfold buildNodeInput at h
  rw [if_pos htype, hspec] at h
  obtain ⟨v', hv⟩ := buildInputFromSpec_ok h _ hmem
  exact resolveSource_ok hv

end Inputs

-- ---
-- Layers
-- ---

/-- The run of a node fails in no source. -/
def NodeResult (r : Except WorkflowError (String × Json)) : Prop :=
  ∀ key field m, r ≠ .error (.mappingResolve key field m)

theorem returns_executeFunctionNode_result (env : Env) (via : Via) (permissions : List String)
    (key : String) (functionId : Int) (input : Json) :
    (executeFunctionNode env via permissions key functionId input).Returns NodeResult := by
  refine (Prog.returns_true _).bind fun row _ => ?_
  rcases row with e | _ | f
  · exact .done nofun
  · exact .done nofun
  dsimp only
  split
  · unfold executeBuiltinFunction
    split
    · exact .done nofun
    · refine (Prog.returns_true _).bind fun _ _ => (Prog.returns_true _).bind fun out _ => ?_
      cases out with
      | error e => exact .done nofun
      | ok out => exact .done nofun
  · unfold executePluginFunction
    split
    · exact .done nofun
    · exact .done nofun
    · refine (Prog.returns_true _).bind fun _ _ => (Prog.returns_true _).bind fun out _ => ?_
      cases out with
      | error e => exact .done nofun
      | ok out => exact .done nofun

theorem returns_executeAll_results (env : Env) (via : Via) (permissions : List String)
    (prepared : List Prepared) :
    (executeAll env via permissions prepared).Returns fun rs => ∀ r ∈ rs, NodeResult r := by
  induction prepared with
  | nil => exact .done nofun
  | cons p rest ih =>
    have hnode : (executeNode env via permissions p.node.functionId p.node.nodeType
        p.node.nodeConfig p.node.nodeKey p.input).Returns NodeResult := by
      unfold executeNode
      split
      · exact (Prog.returns_true _).bind fun _ _ => (Prog.returns_true _).bind fun _ _ => .done nofun
      · split
        · exact .done nofun
        · exact returns_executeFunctionNode_result env via permissions _ _ _
      · exact .done nofun
    exact hnode.bind fun r hr => ih.bind fun rs hrs =>
      .done (List.forall_mem_cons.mpr ⟨hr, hrs⟩)

variable {topo : Topology} {results : List (Except WorkflowError (String × Json))} {st : LayerState}
  {w w' : World}

theorem takeResults_error {env : Env} {e : WorkflowError}
    (h : (takeResults env topo results st).Runs w (.error e) w') : .error e ∈ results := by
  induction results generalizing st w with
  | nil => cases (Prog.runs_done_iff.mp h).1
  | cons r rest ih =>
    cases r with
    | error e' =>
      cases (Prog.runs_done_iff.mp h).1
      exact List.mem_cons_self
    | ok res =>
      obtain ⟨_, w₁, -, h⟩ := Prog.runs_bind_iff.mp h
      exact List.mem_cons_of_mem _ (ih h)

section Prepare

variable {env : Env} {rank : String → Nat} {ctx : Context.AgentContext} {topo : Topology}
  {ext : Json} {layer : List String} {st : LayerState}

theorem prepareLayer_noOutput {e : WorkflowError}
    (hfound : ∀ k ∈ layer, (topo.byKey.lookup k).isSome)
    (h : prepareLayer env rank ctx topo ext layer st = .error e) {key f nodeKey : String}
    (he : e = .mappingResolve key f (noOutput nodeKey)) :
    ∃ n field y, key ∈ layer ∧ topo.byKey.lookup key = some n ∧
      Reads env n.nodeType n.nodeConfig field y ∧ y ≠ "start" ∧ st.outputs.lookup y = none := by
  induction layer generalizing st with
  | nil => cases h
  | cons k rest ih =>
    obtain ⟨n, hn⟩ := Option.isSome_iff_exists.mp (hfound k List.mem_cons_self)
    unfold prepareLayer at h
    simp only [hn, Option.map_some, Option.getD_some, Option.bind_some] at h
    split at h
    · next e' herror =>
      cases h
      obtain ⟨rfl, -, hm⟩ := WorkflowError.mappingResolve.inj he
      obtain ⟨field, y, hreads, hstart, hnone⟩ := buildNodeInput_noOutput herror hm
      exact ⟨n, field, y, List.mem_cons_self, hn, hreads, hstart, hnone⟩
    split at h
    · next e' hrest =>
      cases h
      obtain ⟨m, field, y, hkey, hm⟩ :=
        ih (fun k hk => hfound k (List.mem_cons_of_mem _ hk)) hrest
      exact ⟨m, field, y, List.mem_cons_of_mem _ hkey, hm⟩
    · cases h

theorem prepareLayer_reads {prepared : List Prepared} {st' : LayerState}
    (h : prepareLayer env rank ctx topo ext layer st = .ok (prepared, st')) :
    st'.outputs = st.outputs ∧ ∀ k ∈ layer, ∀ n, topo.byKey.lookup k = some n →
      ∀ field y, Reads env n.nodeType n.nodeConfig field y →
        y = "start" ∨ (st.outputs.lookup y).isSome := by
  induction layer generalizing st prepared with
  | nil =>
    cases h
    exact ⟨rfl, nofun⟩
  | cons k rest ih =>
    unfold prepareLayer at h
    dsimp only at h
    split at h
    · cases h
    next input hinput =>
    split at h
    · cases h
    next n hn =>
    split at h
    · cases h
    next ps st₂ hps =>
    cases h
    obtain ⟨houtputs, hreads⟩ := ih hps
    refine ⟨houtputs, List.forall_mem_cons.mpr ⟨fun m hm field y hy => ?_, hreads⟩⟩
    rw [hn] at hm hinput
    cases hm
    exact buildNodeInput_ok hinput hy

end Prepare

-- ---
-- The loop
-- ---

/-- The run ends because a source reads from a node without output. -/
def MissesOutput (r : LayerEnd) : Prop :=
  ∃ key field y, r = .nodeError (.mappingResolve key field (noOutput y))

/-- The reference is to `start` or to a stored node that is earlier. -/
def Resolvable (r : String → String → Prop) (nodes : List WorkflowNode) (key y : String) : Prop :=
  y = "start" ∨ y ∈ nodes.map WorkflowNode.nodeKey ∧ Earlier r y key

/-- Every field of a node is read from `start` or from an earlier node. -/
def Ordered (env : Env) (r : String → String → Prop) (nodes : List WorkflowNode) : Prop :=
  ∀ n ∈ nodes, ∀ field y, Reads env n.nodeType n.nodeConfig field y →
    Resolvable r nodes n.nodeKey y

/-- Where the loop stands after `k` layers: the nodes with a path of `k` edges to them remain, all
others have an output. -/
structure Round (es : List (String × String)) (nodes : List WorkflowNode) (k : Nat)
    (st : LayerState) : Prop where
  inv : LayerInv es st
  remaining : ∀ x, x ∈ st.remaining ↔
    x ∈ nodes.map WorkflowNode.nodeKey ∧ Depth (fun x y => (x, y) ∈ es) k x
  outputs : ∀ y, (st.outputs.lookup y).isSome ↔
    y ∈ nodes.map WorkflowNode.nodeKey ∧ ¬Depth (fun x y => (x, y) ∈ es) k y

def Knows (topo : Topology) (nodes : List WorkflowNode) : Prop :=
  ∀ k n, topo.byKey.lookup k = some n ↔ n ∈ nodes ∧ n.nodeKey = k

section Rounds

variable {es : List (String × String)} {nodes : List WorkflowNode} {k : Nat} {st : LayerState}

theorem Round.mem_nextLayer (h : Round es nodes k st)
    (hsrc : ∀ x y, (x, y) ∈ es → x ∈ nodes.map WorkflowNode.nodeKey) (rank : String → Nat)
    (x : String) :
    x ∈ nextLayer rank st ↔ x ∈ nodes.map WorkflowNode.nodeKey ∧
      Depth (fun x y => (x, y) ∈ es) k x ∧ ¬Depth (fun x y => (x, y) ∈ es) (k + 1) x := by
  rw [Workflow.mem_nextLayer h.inv, h.remaining, depth_succ_iff, and_assoc]
  refine and_congr_right fun _ => and_congr_right fun _ => ?_
  constructor
  · rintro hnone ⟨y, hy, hyx⟩
    exact hnone y ((h.remaining y).mpr ⟨hsrc y x hyx, hy⟩) hyx
  · intro hnone y hy hyx
    exact hnone ⟨y, ((h.remaining y).mp hy).2, hyx⟩

theorem Round.resolvable_iff (h : Round es nodes k st) {x y : String}
    (hx : Depth (fun x y => (x, y) ∈ es) k x) (hx' : ¬Depth (fun x y => (x, y) ∈ es) (k + 1) x) :
    Resolvable (fun x y => (x, y) ∈ es) nodes x y ↔
      y = "start" ∨ (st.outputs.lookup y).isSome := by
  rw [h.outputs, Resolvable]
  refine or_congr_right (and_congr_right fun _ => ⟨?_, fun hy => ⟨k, hx, hy⟩⟩)
  rintro ⟨n, hn, hyn⟩ hy
  have hle : n ≤ k := by
    by_contra hlt
    exact hx' (hn.le (by omega))
  exact hyn (hy.le hle)

theorem Round.next {env : Env} {topo : Topology} (hload : Loaded es topo)
    (h : Round es nodes k st) (hsrc : ∀ x y, (x, y) ∈ es → x ∈ nodes.map WorkflowNode.nodeKey)
    (rank : String → Nat) (st₁ : LayerState) {st₂ : LayerState}
    {results : List (Except WorkflowError (String × Json))} {w w' : World}
    (hrem : st₁.remaining = st.remaining) (hdeg : st₁.indegree = st.indegree)
    (hout : st₁.outputs = st.outputs)
    (hresults : List.Forall₂ ResultOf (nextLayer rank st) results)
    (htake : (takeResults env topo results st₁).Runs w (.ok st₂) w') :
    Round es nodes (k + 1) st₂ := by
  have hmem := h.mem_nextLayer hsrc rank
  have hnodup : (nextLayer rank st).Nodup :=
    ((hashOrder_perm rank st.remaining).nodup_iff.mpr h.inv.nodup).filter _
  have hinv₁ : LayerInv es st₁ := ⟨hrem ▸ h.inv.nodup, fun k => by
    rw [hdeg, hrem]
    exact h.inv.deg k⟩
  have hlayer : ∀ x ∈ nextLayer rank st, x ∈ st₁.remaining := by
    intro x hx
    obtain ⟨hkey, hdepth, -⟩ := (hmem x).mp hx
    rw [hrem]
    exact (h.remaining x).mpr ⟨hkey, hdepth⟩
  obtain ⟨hinv₂, hrem₂, -⟩ := takeResults_ok hload hresults hnodup hlayer hinv₁ htake
  refine ⟨hinv₂, fun x => ?_, fun y => ?_⟩
  · rw [hrem₂, List.mem_filter, hrem, h.remaining, decide_eq_true_iff, hmem]
    constructor
    · rintro ⟨⟨hkey, hdepth⟩, hnot⟩
      exact ⟨hkey, by_contra fun hnext => hnot ⟨hkey, hdepth, hnext⟩⟩
    · rintro ⟨hkey, hdepth⟩
      exact ⟨⟨hkey, hdepth.pred⟩, fun hnot => hnot.2.2 hdepth⟩
  · rw [takeResults_outputs hresults htake, hout, h.outputs, hmem]
    constructor
    · rintro (⟨hkey, -, hnext⟩ | ⟨hkey, hdepth⟩)
      · exact ⟨hkey, hnext⟩
      · exact ⟨hkey, fun hnext => hdepth hnext.pred⟩
    · rintro ⟨hkey, hnext⟩
      by_cases hdepth : Depth (fun x y => (x, y) ∈ es) k y
      · exact Or.inl ⟨hkey, hdepth, hnext⟩
      · exact Or.inr ⟨hkey, hdepth⟩

end Rounds

/-- What the end of a run says about the references of the nodes that remained. -/
def EndsSoundly (env : Env) (r : String → String → Prop) (nodes : List WorkflowNode)
    (remaining : List String) (fin : LayerEnd) : Prop :=
  (MissesOutput fin → ¬Ordered env r nodes) ∧
    ∀ st, fin = .done st → ∀ n ∈ nodes, n.nodeKey ∈ remaining →
      ∀ field y, Reads env n.nodeType n.nodeConfig field y → Resolvable r nodes n.nodeKey y

section Ends

variable {env : Env} {r : String → String → Prop} {nodes : List WorkflowNode}
  {remaining : List String}

theorem endsSoundly_done (st : LayerState) : EndsSoundly env r nodes [] (.done st) :=
  ⟨fun ⟨_, _, _, h⟩ => (nomatch h), fun _ _ _ _ hmem => (nomatch hmem)⟩

theorem endsSoundly_of_ne {fin : LayerEnd} (hmiss : ¬MissesOutput fin) (hdone : ∀ st, fin ≠ .done st) :
    EndsSoundly env r nodes remaining fin :=
  ⟨fun h => absurd h hmiss, fun st h => absurd h (hdone st)⟩

end Ends

variable {nodes : List WorkflowNode}

/-- A run that misses an output has a reference that is not resolvable; a run to the end has
none. -/
theorem runLayers_upstream {es : List (String × String)} (hload : Loaded es topo)
    (hknows : Knows topo nodes) (hsrc : ∀ x y, (x, y) ∈ es → x ∈ nodes.map WorkflowNode.nodeKey)
    {env : Env} {via : Via} {permissions : List String} {fuel k : Nat} {fin : LayerEnd}
    (hround : Round es nodes k st)
    (h : (runLayers env via permissions topo ext fuel st).Runs w fin w') :
    EndsSoundly env (fun x y => (x, y) ∈ es) nodes st.remaining fin := by
  -- on the fuel: the round grows by one with each layer
  induction fuel generalizing st w k with
  | zero =>
    unfold runLayers at h
    split at h
    · next hnil =>
      obtain ⟨rfl, -⟩ := Prog.runs_done_iff.mp h
      exact hnil ▸ endsSoundly_done st
    · obtain ⟨rfl, -⟩ := Prog.runs_done_iff.mp h
      refine endsSoundly_of_ne ?_ fun _ he => by cases he
      rintro ⟨_, _, _, he⟩
      cases he
  | succ fuel ih =>
    unfold runLayers at h
    split at h
    · next hnil =>
      obtain ⟨rfl, -⟩ := Prog.runs_done_iff.mp h
      exact hnil ▸ endsSoundly_done st
    obtain ⟨layer, w₁, hlayer, h⟩ := Prog.runs_bind_iff.mp h
    obtain ⟨m, rfl, -⟩ := Prog.runs_modify_iff.mp hlayer
    dsimp only at h
    split at h
    · obtain ⟨rfl, -⟩ := Prog.runs_done_iff.mp h
      refine endsSoundly_of_ne ?_ fun _ he => by cases he
      rintro ⟨_, _, _, he⟩
      cases he
    obtain ⟨prepared, w₂, hprep, h⟩ := Prog.runs_bind_iff.mp h
    obtain ⟨m', rfl, -⟩ := Prog.runs_modify_iff.mp hprep
    have hmem := hround.mem_nextLayer hsrc m.rank
    -- what a node of the layer reads can be resolved if and only if it has an output
    have hresolves : ∀ n ∈ nodes, n.nodeKey ∈ nextLayer m.rank st → ∀ y,
        Resolvable (fun x y => (x, y) ∈ es) nodes n.nodeKey y ↔
          y = "start" ∨ (st.outputs.lookup y).isSome := by
      intro n _ hkey y
      obtain ⟨-, hdepth, hnext⟩ := (hmem n.nodeKey).mp hkey
      exact hround.resolvable_iff hdepth hnext
    dsimp only at h
    split at h
    · -- a node of this layer finds no output
      next e hprepare =>
      obtain ⟨rfl, -⟩ := Prog.runs_done_iff.mp h
      refine ⟨?_, fun _ he => by cases he⟩
      rintro ⟨key, f, nodeKey, he⟩ hordered
      have hfound : ∀ x ∈ nextLayer m.rank st, (topo.byKey.lookup x).isSome := by
        intro x hx
        obtain ⟨n, hn, hkey⟩ := List.mem_map.mp ((hmem x).mp hx).1
        rw [(hknows x n).mpr ⟨hn, hkey⟩]
        rfl
      obtain ⟨n, field, y, hlayer, hlookup, hreads, hstart, hnone⟩ :=
        prepareLayer_noOutput hfound hprepare (LayerEnd.nodeError.inj he)
      obtain ⟨hn, rfl⟩ := (hknows key n).mp hlookup
      rcases (hresolves n hn hlayer y).mp (hordered n hn field y hreads) with heq | hsome
      · exact hstart heq
      · rw [hnone] at hsome
        cases hsome
    · next prepared st₁ hprepare =>
      have hbyKey : ∀ k n, topo.byKey.lookup k = some n → n.nodeKey = k :=
        fun k n hn => ((hknows k n).mp hn).2
      obtain ⟨hkeys, hrem, hdeg, -⟩ := prepareLayer_ok hbyKey hprepare
      obtain ⟨hout, hreads⟩ := prepareLayer_reads hprepare
      obtain ⟨results, w₃, hexec, h⟩ := Prog.runs_bind_iff.mp h
      have hresults := (returns_executeAll env via permissions prepared).runs hexec
      rw [hkeys] at hresults
      have hnode := (returns_executeAll_results env via permissions prepared).runs hexec
      obtain ⟨taken, w₄, htake, h⟩ := Prog.runs_bind_iff.mp h
      cases taken with
      | error e =>
        obtain ⟨rfl, -⟩ := Prog.runs_done_iff.mp h
        refine endsSoundly_of_ne ?_ fun _ he => by cases he
        rintro ⟨key, f, nodeKey, he⟩
        cases he
        exact hnode _ (takeResults_error htake) key f _ rfl
      | ok st₂ =>
        have hround₂ := hround.next hload hsrc m.rank
          { st₁ with layers := st₁.layers ++ [nextLayer m.rank st] } hrem hdeg hout hresults htake
        obtain ⟨hmiss, hdone⟩ := ih hround₂ h
        -- the nodes of this layer, then those of the later rounds
        refine ⟨hmiss, fun st' hst' n hn hkey field y hy => ?_⟩
        by_cases hlayer : n.nodeKey ∈ nextLayer m.rank st
        · rw [hresolves n hn hlayer]
          exact hreads _ hlayer n ((hknows _ n).mpr ⟨hn, rfl⟩) field y hy
        · refine hdone st' hst' n hn ((hround₂.remaining _).mpr ?_) field y hy
          obtain ⟨hin, hdepth⟩ := (hround.remaining _).mp hkey
          exact ⟨hin, by_contra fun hnext => hlayer ((hmem _).mpr ⟨hin, hdepth, hnext⟩)⟩

-- ---
-- Saved workflows
-- ---

theorem knows_topologyOf (edges : List WorkflowEdge)
    (hkeys : (nodes.map WorkflowNode.nodeKey).Nodup) : Knows (topologyOf nodes edges) nodes := by
  intro k n
  constructor
  · intro h
    rcases lookup_foldl_insert WorkflowNode.nodeKey (fun n => n) nodes ∅ k h with
      ⟨x, hx, hkey, rfl⟩ | hnone
    · exact ⟨hx, hkey⟩
    · simp at hnone
  · rintro ⟨hn, rfl⟩
    exact lookup_foldl_insert_of_nodup WorkflowNode.nodeKey (fun n => n) nodes ∅ hkeys hn

variable {edges : List WorkflowEdge}

theorem round_initialState (h : StoredGraph nodes edges) :
    Round (loadedEdges nodes edges) nodes 0 (initialState nodes edges) := by
  refine ⟨layerInv_initialState h, fun x => ?_, fun y => ?_⟩
  · rw [and_iff_left (Depth.zero x)]
    exact List.mem_dedup
  · refine iff_of_false ?_ fun hy => hy.2 (.zero y)
    show ¬((∅ : NodeValueMap).lookup y).isSome
    simp

/-- Every reference is to `start` or to a stored node from which a path leads to the referring
node. -/
def ReadsAncestors (env : Env) (nodes : List WorkflowNode) (edges : List WorkflowEdge) : Prop :=
  ∀ n ∈ nodes, ∀ field y, Reads env n.nodeType n.nodeConfig field y →
    y = "start" ∨ Relation.TransGen (KeyEdge nodes edges) y n.nodeKey

theorem ordered_of_readsAncestors {env : Env} (hstored : StoredGraph nodes edges)
    (h : ReadsAncestors env nodes edges) : Ordered env (KeyEdge nodes edges) nodes := by
  intro n hn field y hreads
  refine (h n hn field y hreads).imp_right fun hpath => ?_
  have hsrc : ∀ x y, KeyEdge nodes edges y x → y ∈ nodes.map WorkflowNode.nodeKey := by
    rintro x y ⟨_, _, m, hm, _, _, -, -, hkey, -⟩
    exact List.mem_map.mpr ⟨m, hm, hkey⟩
  obtain ⟨z, hyz, -⟩ := Relation.TransGen.head'_iff.mp hpath
  exact ⟨hsrc z y hyz, hstored.acyclic.earlier (List.finite_toSet _) hsrc hpath⟩

/-- **References.** On the rows of an accepted graph, in whatever order they are read: if every
reference is to `start` or to an earlier node, no run misses an output; that holds where every
reference is to `start` or to an ancestor. A run to the end has only such references. -/
theorem putGraph_upstream {pf : Platform} {id : Int} {graph : GraphPut} {s s' : Store}
    {g : WorkflowGraph} (hput : (putGraph pf id graph).Runs s (.ok g) s') {mn me : Moment}
    (hmn : mn.store = s') (hme : me.store = s') (env : Env) :
    (ReadsAncestors env (nodeRows mn id) (edgeRows me id) →
      Ordered env (KeyEdge (nodeRows mn id) (edgeRows me id)) (nodeRows mn id)) ∧
      ∀ via permissions ext fuel w w' fin,
        (runLayers env via permissions (topologyOf (nodeRows mn id) (edgeRows me id)) ext fuel
          (initialState (nodeRows mn id) (edgeRows me id))).Runs w fin w' →
        (Ordered env (KeyEdge (nodeRows mn id) (edgeRows me id)) (nodeRows mn id) →
          ¬MissesOutput fin) ∧
          ∀ st, fin = .done st →
            Ordered env (KeyEdge (nodeRows mn id) (edgeRows me id)) (nodeRows mn id) := by
  have hstored : StoredGraph (nodeRows mn id) (edgeRows me id) :=
    (putGraph_stored hput).perm (hmn ▸ nodeRows_perm mn id) (hme ▸ edgeRows_perm me id)
  refine ⟨ordered_of_readsAncestors hstored, fun via permissions ext fuel w w' fin hrun => ?_⟩
  have hedge : (fun x y => (x, y) ∈ loadedEdges (nodeRows mn id) (edgeRows me id)) =
      KeyEdge (nodeRows mn id) (edgeRows me id) :=
    funext fun x => funext fun y => propext (mem_loadedEdges hstored.ids_nodup)
  have hsrc : ∀ x y, (x, y) ∈ loadedEdges (nodeRows mn id) (edgeRows me id) →
      x ∈ (nodeRows mn id).map WorkflowNode.nodeKey := by
    intro x y hxy
    obtain ⟨_, _, m, hm, _, _, -, -, hkey, -⟩ := (mem_loadedEdges hstored.ids_nodup).mp hxy
    exact List.mem_map.mpr ⟨m, hm, hkey⟩
  obtain ⟨hmiss, hdone⟩ := runLayers_upstream (loaded_topologyOf _ _)
    (knows_topologyOf _ hstored.keys_nodup) hsrc (round_initialState hstored) hrun
  rw [hedge] at hmiss hdone
  refine ⟨fun hordered h => hmiss h hordered, fun st hst n hn => hdone st hst n hn ?_⟩
  exact List.mem_dedup.mpr (List.mem_map_of_mem hn)

/-- Sources that read from another node. -/
def readUpstream (v : Json) : Except String InputSource :=
  match v.getStr "kind", v.getStr "node_key" with
  | some "upstream", some key => .ok (.upstream key (v.getStr "field"))
  | _, _ => .error "missing field `kind`"

def upstreamPlatform : Platform :=
  { mysql := .plain, rank := fun _ => 0, inputSource := readUpstream }

def upstreamEnv : Env := { Env.plain with inputSource := readUpstream }

/-- Node `b` follows node `a` and reads from this node. -/
def readingGraph (nodeKey : String) : GraphPut :=
  { nodes := [{ nodeKey := "a", nodeType := .generateAnswerNode },
      { nodeKey := "b", nodeType := .generateAnswerNode
        nodeConfig := some (.obj [("input_mapping", .obj [("query", .obj
          [("kind", .str "upstream"), ("node_key", .str nodeKey)])])]) }]
    edges := [{ srcNodeKey := "a", dstNodeKey := "b", mapping := .obj [] }] }

/-- The store once the graph is saved. -/
@[irreducible] def savedReading (nodeKey : String) : Store :=
  ((putGraph upstreamPlatform 1 (readingGraph nodeKey)).exec (fun _ => .at 0) emptyWorkflow).2

def readingRun (nodeKey : String) : LayerEnd × World :=
  (runLayers upstreamEnv .invokeFunction []
    (topologyOf (nodeRows (.of (savedReading nodeKey)) 1) (edgeRows (.of (savedReading nodeKey)) 1))
    (.obj []) 2
    (initialState (nodeRows (.of (savedReading nodeKey)) 1)
      (edgeRows (.of (savedReading nodeKey)) 1))).exec
      (fun _ => .of (savedReading nodeKey))
      { ctx := .new 0 "" ⟨"", none, none, 0, []⟩ .default, trace := [] }

theorem savedReading_saved (nodeKey : String)
    (hok : ((putGraph upstreamPlatform 1 (readingGraph nodeKey)).exec (fun _ => .at 0)
      emptyWorkflow).1.toOption.isSome) :
    ∃ g, (putGraph upstreamPlatform 1 (readingGraph nodeKey)).Runs emptyWorkflow (.ok g)
      (savedReading nodeKey) := by
  have hput : (putGraph upstreamPlatform 1 (readingGraph nodeKey)).Runs emptyWorkflow
      ((putGraph upstreamPlatform 1 (readingGraph nodeKey)).exec (fun _ => .at 0) emptyWorkflow).1
      (savedReading nodeKey) := by
    unfold savedReading
    exact Service.runs_exec _ _ _
  cases hres : ((putGraph upstreamPlatform 1 (readingGraph nodeKey)).exec (fun _ => .at 0)
      emptyWorkflow).1 with
  | error e =>
    rw [hres] at hok
    cases hok
  | ok g => exact ⟨g, hres ▸ hput⟩

-- the end of a run that misses an output
def LayerEnd.mappingError : LayerEnd → Option (String × String × String)
  | .nodeError (.mappingResolve key field m) => some (key, field, m)
  | _ => none

/-- A node reads from the one before it. -/
theorem putGraph_upstream_reading :
    ∃ g, (putGraph upstreamPlatform 1 (readingGraph "a")).Runs emptyWorkflow (.ok g)
        (savedReading "a") ∧
      ¬MissesOutput (readingRun "a").1 ∧ (readingRun "a").1.failed = false := by
  obtain ⟨g, hput⟩ := savedReading_saved "a" (by decide +kernel)
  refine ⟨g, hput, ?_, by decide +kernel⟩
  obtain ⟨hancestors, hruns⟩ := @putGraph_upstream _ _ _ _ _ _ hput (.of (savedReading "a"))
    (.of (savedReading "a")) rfl rfl upstreamEnv
  refine (hruns _ _ _ _ _ _ _ (Prog.runs_exec _ _ _)).1 (hancestors ?_)
  have hnodes : nodeRows (.of (savedReading "a")) 1 =
      newNodes .plain 1 1 (readingGraph "a").nodes := by decide +kernel
  have hedges : edgeRows (.of (savedReading "a")) 1 = [⟨1, 1, 1, 2, .obj []⟩] := by decide +kernel
  rw [hnodes, hedges]
  rintro n hn field y ⟨-, spec, sub, hspec, hmem⟩
  rcases List.mem_cons.mp hn with rfl | hn
  · cases hspec
    cases hmem
  · obtain rfl := List.mem_singleton.mp hn
    cases hspec
    cases List.mem_singleton.mp hmem
    refine Or.inr (.single ⟨_, List.mem_cons_self, ?_⟩)
    exact ⟨newNode .plain 1 1 { nodeKey := "a", nodeType := .generateAnswerNode },
      List.mem_cons_self, _, List.mem_cons_of_mem _ List.mem_cons_self, rfl, rfl, rfl, rfl⟩

/-- A reference to a node that does not exist is saved; the run cannot resolve it. -/
theorem putGraph_upstream_ghost :
    ∃ g, (putGraph upstreamPlatform 1 (readingGraph "ghost")).Runs emptyWorkflow (.ok g)
        (savedReading "ghost") ∧ MissesOutput (readingRun "ghost").1 := by
  obtain ⟨g, hput⟩ := savedReading_saved "ghost" (by decide +kernel)
  refine ⟨g, hput, "b", "query", "ghost", ?_⟩
  have herror : (readingRun "ghost").1.mappingError = some ("b", "query", noOutput "ghost") := by
    decide +kernel
  cases hfin : (readingRun "ghost").1 with
  | nodeError e =>
    rw [hfin] at herror
    cases e with
    | mappingResolve key field m =>
      obtain ⟨rfl, rfl, rfl⟩ : key = "b" ∧ field = "query" ∧ m = noOutput "ghost" := by
        simpa [LayerEnd.mappingError] using herror
      rfl
    | _ => cases herror
  | done st => rw [hfin] at herror; cases herror
  | unschedulable => rw [hfin] at herror; cases herror
  | outOfFuel => rw [hfin] at herror; cases herror

end HiveClaw.Workflow
