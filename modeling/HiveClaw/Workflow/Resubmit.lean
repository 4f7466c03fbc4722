import HiveClaw.Workflow.Saved

/-!
# Saving a fetched graph again

What `fetch_graph` returns for a saved workflow is accepted by `put_graph` and
changes nothing: the nodes that are stored come back (`dbNodes_graphOf`,
`dbEdges_graphOf`), their JSON columns in the server's normal form, and all that the
checks look at is the same (`Restored`).

In a fetched graph every stored node lies on a path from `start` to `end`: the
virtual edges are put where an acyclic graph begins and ends.
-/

namespace HiveClaw.Workflow

open Service Lib Lib.Digraph Relation

-- ---
-- Input specs in the server's normal form
-- ---

variable {v : Type} {key : String}

theorem mem_insert {value : v} {m : BTreeMap v} {e : String × v}
    (h : e ∈ BTreeMap.insert key value m) : e = (key, value) ∨ e ∈ m := by
  induction m with
  | nil => exact Or.inl (List.mem_singleton.mp h)
  | cons f rest ih =>
    obtain ⟨k, w⟩ := f
    unfold BTreeMap.insert at h
    split at h
    · rcases List.mem_cons.mp h with rfl | h
      · exact Or.inl rfl
      · exact Or.inr (List.mem_cons_of_mem _ h)
    · split at h
      · exact List.mem_cons.mp h
      · rcases List.mem_cons.mp h with rfl | h
        · exact Or.inr List.mem_cons_self
        · rcases ih h with heq | hmem
          · exact Or.inl heq
          · exact Or.inr (List.mem_cons_of_mem _ hmem)

theorem mem_insert_self (key : String) (value : v) (m : BTreeMap v) :
    (key, value) ∈ BTreeMap.insert key value m := by
  induction m with
  | nil => exact List.mem_cons_self
  | cons f rest ih =>
    obtain ⟨k, w⟩ := f
    unfold BTreeMap.insert
    split
    · exact List.mem_cons_self
    · split
      · exact List.mem_cons_self
      · exact List.mem_cons_of_mem _ ih

theorem mem_insert_of_ne {value : v} {m : BTreeMap v} {e : String × v} (h : e ∈ m)
    (hne : e.1 ≠ key) : e ∈ BTreeMap.insert key value m := by
  induction m with
  | nil => cases h
  | cons f rest ih =>
    obtain ⟨k, w⟩ := f
    unfold BTreeMap.insert
    rcases List.mem_cons.mp h with rfl | h
    · rw [if_neg (Ne.symm hne)]
      split
      · exact List.mem_cons_of_mem _ List.mem_cons_self
      · exact List.mem_cons_self
    · split
      · exact List.mem_cons_of_mem _ h
      · split
        · exact List.mem_cons_of_mem _ (List.mem_cons_of_mem _ h)
        · exact List.mem_cons_of_mem _ (ih h)

section Specs

variable {ofJson : Json → Except String InputSource}

variable {fields : JsonMap} {spec : InputSpec}

theorem parseFields_ok {spec' : InputSpec} (h : parseFields ofJson fields spec = .ok spec')
    (hkeys : (fields.map Prod.fst).Nodup) :
    (∀ e ∈ spec, e.1 ∉ fields.map Prod.fst → e ∈ spec') ∧
      ∀ f ∈ fields, ∃ src, ofJson f.2 = .ok src ∧ (f.1, src) ∈ spec' := by
  induction fields generalizing spec with
  | nil =>
    obtain rfl := Except.ok.inj h
    exact ⟨fun e he _ => he, nofun⟩
  | cons f rest ih =>
    obtain ⟨key, v⟩ := f
    obtain ⟨hoff, hkeys⟩ := List.nodup_cons.mp hkeys
    unfold parseFields at h
    cases hv : ofJson v with
    | error e =>
      rw [hv] at h
      cases h
    | ok src =>
      rw [hv] at h
      obtain ⟨hkeep, hread⟩ := ih h hkeys
      refine ⟨fun e he hout => ?_, fun f hf => ?_⟩
      · have hne : e.1 ≠ key := fun heq => hout (heq ▸ List.mem_cons_self)
        exact hkeep e (mem_insert_of_ne he hne) fun hin => hout (List.mem_cons_of_mem _ hin)
      · rcases List.mem_cons.mp hf with rfl | hf
        · exact ⟨src, hv, hkeep _ (mem_insert_self key src spec) hoff⟩
        · exact hread f hf

theorem parseFields_succeeds (h : ∀ f ∈ fields, ∃ src, ofJson f.2 = .ok src) (spec : InputSpec) :
    ∃ spec', parseFields ofJson fields spec = .ok spec' ∧
      ∀ e ∈ spec', e ∈ spec ∨ ∃ f ∈ fields, f.1 = e.1 ∧ ofJson f.2 = .ok e.2 := by
  induction fields generalizing spec with
  | nil => exact ⟨spec, rfl, fun e he => Or.inl he⟩
  | cons f rest ih =>
    obtain ⟨key, v⟩ := f
    obtain ⟨src, hsrc⟩ := h _ List.mem_cons_self
    obtain ⟨spec', hparse, hmem⟩ := ih (fun f hf => h f (List.mem_cons_of_mem _ hf))
      (BTreeMap.insert key src spec)
    refine ⟨spec', ?_, fun e he => ?_⟩
    · unfold parseFields
      dsimp only at hsrc
      rw [hsrc]
      exact hparse
    · rcases hmem e he with hold | ⟨f, hf, heq⟩
      · rcases mem_insert hold with rfl | hold
        · exact Or.inr ⟨_, List.mem_cons_self, rfl, hsrc⟩
        · exact Or.inl hold
      · exact Or.inr ⟨f, List.mem_cons_of_mem _ hf, heq⟩

theorem validateKeys_eq_ok {keys : List String} :
    validateKeys keys = .ok () ↔ ∀ key ∈ keys, key ∉ reservedInputKeys ∧ key ≠ "" := by
  induction keys with
  | nil => exact ⟨fun _ => nofun, fun _ => rfl⟩
  | cons key rest ih =>
    rw [List.forall_mem_cons, ← ih, validateKeys]
    by_cases hreserved : key ∈ reservedInputKeys
    · rw [if_pos hreserved]
      exact ⟨nofun, fun h => absurd hreserved h.1.1⟩
    · rw [if_neg hreserved]
      by_cases hempty : key = ""
      · rw [if_pos hempty]
        exact ⟨nofun, fun h => absurd hempty h.1.2⟩
      · rw [if_neg hempty]
        exact ⟨fun h => ⟨⟨hreserved, hempty⟩, h⟩, fun h => h.2⟩

theorem validateInputSpec_eq_ok :
    validateInputSpec spec = .ok () ↔
      ∀ e ∈ spec, (e.1 ∉ reservedInputKeys ∧ e.1 ≠ "") ∧ validateSource e.1 e.2 = .ok () := by
  unfold validateInputSpec
  cases hkeys : validateKeys (spec.map Prod.fst) with
  | error e =>
    refine ⟨nofun, fun h => ?_⟩
    have hok : validateKeys (spec.map Prod.fst) = .ok () := by
      refine validateKeys_eq_ok.mpr fun key hkey => ?_
      obtain ⟨f, hf, rfl⟩ := List.mem_map.mp hkey
      exact (h f hf).1
    cases hkeys.symm.trans hok
  | ok u =>
    have hall := validateKeys_eq_ok.mp hkeys
    refine (forM_eq_ok (f := fun e : String × InputSource => validateSource e.1 e.2)).trans ?_
    exact ⟨fun h e he => ⟨hall e.1 (List.mem_map_of_mem he), h e he⟩, fun h e he => (h e he).2⟩

/-- A source whose value is rewritten. -/
def InputSource.mapValue (f : Json → Json) : InputSource → InputSource
  | .upstream nodeKey field => .upstream nodeKey field
  | .custom value => .custom (f value)
  | .agentContext category key subKey => .agentContext category key subKey

theorem validateSource_mapValue (field : String) (f : Json → Json) (src : InputSource) :
    validateSource field (src.mapValue f) = validateSource field src := by
  cases src <;> rfl

end Specs

/-- What the code relies on: the normal form keeps what a document says and is
stored as it is, and derived code reads the same from it. -/
structure Platform.KeepsJson (pf : Platform) : Prop extends pf.mysql.KeepsJson where
  again : ∀ v, pf.mysql.jsonNormal (pf.mysql.jsonNormal v) = pf.mysql.jsonNormal v
  source : ∀ v src, pf.inputSource v = .ok src →
    pf.inputSource (pf.mysql.jsonNormal v) = .ok (src.mapValue pf.mysql.jsonNormal)

-- ---
-- What the checks look at
-- ---

/-- A node as it comes back from the store. -/
structure Restored (mysql : Mysql) (n n' : GraphNode) : Prop where
  nodeKey : n'.nodeKey = n.nodeKey
  nodeType : n'.nodeType = n.nodeType
  functionId : n'.functionId = n.functionId
  position : n'.position = n.position.map mysql.jsonNormal
  nodeConfig : n'.nodeConfig = n.nodeConfig.map mysql.jsonNormal

section Checks

variable {pf : Platform} {mysql : Mysql} {n n' : GraphNode}

theorem get_stored (hm : mysql.KeepsJson) (config : Option Json) (key : String) :
    ((config.map mysql.jsonNormal).bind fun c => c.get key) =
      (config.bind fun c => c.get key).map mysql.jsonNormal := by
  cases config with
  | none => rfl
  | some c => exact hm.get c key

theorem spec_stored (hpf : pf.KeepsJson) {v : Json} (hv : v.Proper) {spec : InputSpec}
    (hparse : parseInputSpec pf.inputSource v = .ok spec)
    (hvalid : validateInputSpec spec = .ok ()) :
    ∃ spec', parseInputSpec pf.inputSource (pf.mysql.jsonNormal v) = .ok spec' ∧
      validateInputSpec spec' = .ok () := by
  cases hv with
  | null =>
    rw [hpf.null]
    exact ⟨spec, hparse, hvalid⟩
  | obj fields hkeys _ =>
    obtain ⟨fields', heq, hsub⟩ := hpf.obj fields
    have hparse : parseFields pf.inputSource fields [] = .ok spec := hparse
    have hread := (parseFields_ok hparse hkeys).2
    -- every stored field is one of the document, read and found in its spec
    have hfields : ∀ f ∈ fields', ∃ src, pf.inputSource f.2 =
        .ok (src.mapValue pf.mysql.jsonNormal) ∧ (f.1, src) ∈ spec := by
      intro f hf
      obtain ⟨f₀, hf₀, rfl⟩ := List.mem_map.mp (hsub hf)
      obtain ⟨src, hsrc, hmem⟩ := hread f₀ hf₀
      exact ⟨src, hpf.source f₀.2 src hsrc, hmem⟩
    obtain ⟨spec', hparse', hmem'⟩ := parseFields_succeeds
      (fun f hf => ((hfields f hf).imp fun _ h => h.1).elim fun src h => ⟨_, h⟩) []
    refine ⟨spec', ?_, validateInputSpec_eq_ok.mpr fun e he => ?_⟩
    · rw [heq]
      exact hparse'
    · rcases hmem' e he with hnone | ⟨f, hf, hkey, hsrc⟩
      · cases hnone
      · obtain ⟨src, hsrc', hmem⟩ := hfields f hf
        have hsame : e.2 = src.mapValue pf.mysql.jsonNormal :=
          Except.ok.inj (hsrc.symm.trans hsrc')
        rw [← hkey, hsame, validateSource_mapValue]
        exact validateInputSpec_eq_ok.mp hvalid _ hmem
  | bool b => cases hparse
  | num x => cases hparse
  | str x => cases hparse
  | arr items _ => cases hparse

theorem checkInputMapping_restored (hpf : pf.KeepsJson) (h : Restored pf.mysql n n')
    (hproper : ∀ c, n.nodeConfig = some c → c.Proper)
    (hok : checkInputMapping pf.inputSource n = .ok ()) :
    checkInputMapping pf.inputSource n' = .ok () := by
  unfold checkInputMapping at hok ⊢
  rw [h.nodeType, h.nodeConfig, get_stored hpf.toKeepsJson]
  split at hok
  · rename_i htype
    rw [if_pos htype]
    cases hspec : n.nodeConfig.bind fun c => c.get "input_mapping" with
    | none => rfl
    | some v =>
      rw [hspec] at hok
      dsimp only [Option.map_some] at hok ⊢
      have hv : v.Proper := by
        obtain ⟨c, hc, hget⟩ := Option.bind_eq_some_iff.mp hspec
        exact (hproper c hc).get hget
      cases hparse : parseInputSpec pf.inputSource v with
      | error e =>
        rw [hparse] at hok
        cases hok
      | ok spec =>
        rw [hparse] at hok
        dsimp only at hok
        cases hvalid : validateInputSpec spec with
        | error e =>
          rw [hvalid] at hok
          cases hok
        | ok u =>
          obtain ⟨spec', hparse', hvalid'⟩ := spec_stored hpf hv hparse hvalid
          rw [hparse']
          dsimp only
          rw [hvalid']
  · rename_i htype
    rw [if_neg htype]

theorem checkRequiredInputs_restored (hm : mysql.KeepsJson) (h : Restored mysql n n')
    (schemas : List Function) :
    checkRequiredInputs schemas n' = checkRequiredInputs schemas n := by
  have hkeys : ∀ field,
      ((((n.nodeConfig.bind fun c => c.get "input_mapping").map mysql.jsonNormal).bind
        Json.asObject).map fun m => m.containsKey field).getD false =
      (((n.nodeConfig.bind fun c => c.get "input_mapping").bind
        Json.asObject).map fun m => m.containsKey field).getD false := by
    intro field
    cases n.nodeConfig.bind fun c => c.get "input_mapping" with
    | none => rfl
    | some v =>
      have hstored := (mysql.jsonNormal v).containsKey_eq field
      have hsent := v.containsKey_eq field
      rw [hm.get, Option.isSome_map] at hstored
      exact hstored.trans hsent.symm
  unfold checkRequiredInputs
  rw [h.functionId, h.nodeConfig, h.nodeKey, get_stored hm]
  simp only [hkeys]

end Checks

section Lists

variable {mysql : Mysql} {nodes nodes' : List GraphNode}

theorem map_nodeKey_restored (h : List.Forall₂ (Restored mysql) nodes nodes') :
    nodes'.map GraphNode.nodeKey = nodes.map GraphNode.nodeKey := by
  induction h with
  | nil => rfl
  | cons hn _ ih => rw [List.map_cons, List.map_cons, ih, hn.nodeKey]

theorem functionIds_restored (h : List.Forall₂ (Restored mysql) nodes nodes') :
    functionIds nodes' = functionIds nodes := by
  unfold functionIds
  induction h with
  | nil => rfl
  | cons hn _ ih =>
    rw [List.filter_cons, List.filter_cons, hn.nodeType]
    split
    · rw [List.filterMap_cons, List.filterMap_cons, ih, hn.functionId]
    · exact ih

theorem flatMap_restored {β : Type} (h : List.Forall₂ (Restored mysql) nodes nodes')
    {f : GraphNode → List β} (hf : ∀ n n' : GraphNode, n'.functionId = n.functionId → f n' = f n) :
    nodes'.flatMap f = nodes.flatMap f := by
  induction h with
  | nil => rfl
  | cons hn _ ih => rw [List.flatMap_cons, List.flatMap_cons, ih, hf _ _ hn.functionId]

theorem workflowCaps_restored (h : List.Forall₂ (Restored mysql) nodes nodes')
    (schemas : List Function) : workflowCaps schemas nodes' = workflowCaps schemas nodes := by
  unfold workflowCaps
  rw [flatMap_restored h]
  intro n n' heq
  rw [heq]

theorem checkNodeKeys_of_nodup {seen : List String} (hnodup : (nodes.map GraphNode.nodeKey).Nodup)
    (hseen : ∀ n ∈ nodes, n.nodeKey ∉ seen) : checkNodeKeys nodes seen = .ok () := by
  induction nodes generalizing seen with
  | nil => rfl
  | cons n rest ih =>
    obtain ⟨hoff, hnodup⟩ := List.nodup_cons.mp hnodup
    rw [checkNodeKeys, if_neg (hseen n List.mem_cons_self)]
    refine ih hnodup fun m hm hmem => ?_
    rcases List.mem_cons.mp hmem with heq | hmem
    · exact hoff (heq ▸ List.mem_map_of_mem hm)
    · exact hseen m (List.mem_cons_of_mem _ hm) hmem

end Lists

/-! ### The constraints -/

/-- For rows of workflow `id` the two stores are alike. -/
structure SameKeys (id : Int) (s t : Store) : Prop where
  functions : t.functions = s.functions
  workflow : (t.workflow? id).isNone = (s.workflow? id).isNone
  keys : (t.workflowNodes.filter fun n => n.workflowId = id).map WorkflowNode.nodeKey =
    (s.workflowNodes.filter fun n => n.workflowId = id).map WorkflowNode.nodeKey

section Fits

variable {mysql : Mysql} {id a b : Int} {s t : Store} {n n' : GraphNode}

theorem any_key_eq (rows : List WorkflowNode) (p : String → Bool) :
    (rows.any fun n => n.workflowId = id && p n.nodeKey) =
      ((rows.filter fun n => n.workflowId = id).map WorkflowNode.nodeKey).any p := by
  rw [List.any_map, List.any_filter]
  rfl

theorem checkNodeRow_restored (h : SameKeys id s t) (hn : Restored mysql n n') :
    checkNodeRow mysql t (newNode mysql id a n') = checkNodeRow mysql s (newNode mysql id b n) := by
  have hfunction : ∀ fid, t.function? fid = s.function? fid := by
    intro fid
    rw [Store.function?, Store.function?, h.functions]
  have hany : (t.workflowNodes.any fun m => m.workflowId = id &&
        decide (mysql.collationKey m.nodeKey = mysql.collationKey n.nodeKey)) =
      s.workflowNodes.any fun m => m.workflowId = id &&
        decide (mysql.collationKey m.nodeKey = mysql.collationKey n.nodeKey) := by
    rw [any_key_eq _ fun key => decide (mysql.collationKey key = mysql.collationKey n.nodeKey),
      any_key_eq _ fun key => decide (mysql.collationKey key = mysql.collationKey n.nodeKey), h.keys]
  unfold checkNodeRow newNode
  dsimp only
  rw [hn.nodeKey, hn.functionId, hany, h.workflow]
  simp only [hfunction]

theorem SameKeys.addNodes (h : SameKeys id s t) (hn : Restored mysql n n') :
    SameKeys id (addNodes s [newNode mysql id a n]) (addNodes t [newNode mysql id b n']) where
  functions := h.functions
  workflow := h.workflow
  keys := by
    have hself : ∀ c m, ([newNode mysql id c m].filter fun n => n.workflowId = id) =
        [newNode mysql id c m] := fun c m => List.filter_eq_self.mpr (by simp [newNode])
    show ((t.workflowNodes ++ _).filter _).map _ = ((s.workflowNodes ++ _).filter _).map _
    rw [List.filter_append, List.filter_append, List.map_append, List.map_append, h.keys, hself,
      hself]
    simp [newNode, hn.nodeKey]

/-- What fits fits again. -/
theorem Fits.restored {nodes nodes' : List GraphNode}
    (hnodes : List.Forall₂ (Restored mysql) nodes nodes') (h : SameKeys id s t)
    (hfits : Fits mysql id s nodes) : Fits mysql id t nodes' := by
  induction hnodes generalizing s t with
  | nil => trivial
  | cons hn _ ih =>
    obtain ⟨hcheck, hrest⟩ := hfits
    refine ⟨?_, ih (h.addNodes hn) hrest⟩
    rw [checkNodeRow_restored h hn]
    exact hcheck

end Fits

-- ---
-- Fetching
-- ---

/-- The nodes as `fetch_graph` returns them. -/
def fetchedNodes (nodes : List WorkflowNode) : List GraphNode :=
  nodes.map fun n =>
    { id := some n.id, nodeKey := n.nodeKey, nodeType := n.nodeType, functionId := n.functionId
      position := n.position, nodeConfig := n.nodeConfig }

def fetchedEdges (nodes : List WorkflowNode) (edges : List WorkflowEdge) : List GraphEdge :=
  edges.map fun e =>
    { id := some e.id, srcNodeKey := keyOf nodes e.srcNodeId, dstNodeKey := keyOf nodes e.dstNodeId
      mapping := e.mapping }

/-- The nodes with the virtual ones. -/
def allNodes (wf : HiveClaw.Workflow) (nodes : List WorkflowNode) : List GraphNode :=
  [startNode wf] ++ fetchedNodes nodes ++ [endNode wf]

/-- What `fetch_graph` makes of the rows. -/
def graphOf (wf : HiveClaw.Workflow) (nodes : List WorkflowNode) (edges : List WorkflowEdge) :
    WorkflowGraph :=
  { workflow := wf, nodes := allNodes wf nodes
    edges := fetchedEdges nodes edges ++
      (allNodes wf nodes).flatMap (virtualEdges (fetchedEdges nodes edges)) }

/-- The rows of a workflow, by id. -/
def sortedNodes (s : Store) (id : Int) : List WorkflowNode :=
  (s.workflowNodes.filter fun n => n.workflowId = id).insertionSort fun a b => a.id ≤ b.id

def sortedEdges (s : Store) (id : Int) : List WorkflowEdge :=
  (s.workflowEdges.filter fun e => e.workflowId = id).insertionSort fun a b => a.id ≤ b.id

section Fetch

variable {id : Int} {s s' : Store} {wf : HiveClaw.Workflow} {g : WorkflowGraph}

theorem fetchGraph_ok (h : (fetchGraph id).Runs s (.ok g) s') :
    ∃ wf, s.workflow? id = some wf ∧ g = graphOf wf (sortedNodes s id) (sortedEdges s id) := by
  rcases runs_bind_readOnly (keeps_fetchById id) h with ⟨-, e, he⟩ | ⟨wf, hwf, h⟩
  · cases he
  rcases runs_bind_readOnly (keeps_query _ _) h with ⟨-, e, he⟩ | ⟨nodes, hnodes, h⟩
  · cases he
  rcases runs_bind_readOnly (keeps_query _ _) h with ⟨-, e, he⟩ | ⟨edges, hedges, h⟩
  · cases he
  rcases runs_bind_readOnly (keeps_query _ _) hwf with ⟨-, e, he⟩ | ⟨row, hrow, hwf⟩
  · cases he
  obtain ⟨rfl, -⟩ := runs_query_ok hrow
  obtain ⟨rfl, -⟩ := runs_query_ok hnodes
  obtain ⟨rfl, -⟩ := runs_query_ok hedges
  obtain ⟨hg, -⟩ := runs_pure_iff.mp h
  exact ⟨wf, runs_okOr_ok hwf, Except.ok.inj hg⟩

theorem fetchGraph_succeeds (h : s.workflow? id = some wf) :
    (fetchGraph id).Succeeds s (graphOf wf (sortedNodes s id) (sortedEdges s id)) s := by
  have hwf : (fetchById id).Succeeds s wf s := (succeeds_query _ _ s).bind (succeeds_okOr h s)
  refine hwf.bind ?_
  refine (succeeds_query _ _ s).bind ?_
  refine (succeeds_query _ _ s).bind ?_
  exact succeeds_pure _ s

end Fetch

/-! ### What is saved is what is fetched -/

section Saved

variable {mysql : Mysql} {id next : Int} {s : Store} {wf : HiveClaw.Workflow} {graph : GraphPut}
  {nodes : List GraphNode} {edges : List GraphEdge} {keyToId : HashMap String Int}

/-- The row of the workflow with an accepted graph. -/
def savedRow (mysql : Mysql) (graph : GraphPut) (wf : HiveClaw.Workflow) (s : Store) :
    HiveClaw.Workflow :=
  { wf with
    requiredCapabilities := (workflowCaps (schemasOf s (functionIds (dbNodes graph)))
      (dbNodes graph)).map mysql.jsonNormal
    inputSchema := (startEnd wf graph).inputSchema.map mysql.jsonNormal
    startDescription := (startEnd wf graph).startDescription
    outputSchema := (startEnd wf graph).outputSchema.map mysql.jsonNormal }

theorem workflow?_savedGraph (h : s.workflow? id = some wf) :
    (savedGraph mysql id graph wf s).workflow? id = some (savedRow mysql graph wf s) := by
  have hfind := find?_map_update HiveClaw.Workflow.id id
    (fun w => { w with
      requiredCapabilities := (workflowCaps (schemasOf s (functionIds (dbNodes graph)))
        (dbNodes graph)).map mysql.jsonNormal
      inputSchema := (startEnd wf graph).inputSchema.map mysql.jsonNormal
      startDescription := (startEnd wf graph).startDescription
      outputSchema := (startEnd wf graph).outputSchema.map mysql.jsonNormal })
    (fun _ => rfl) s.workflows
  have h : (s.workflows.find? fun w => w.id = id) = some wf := h
  rw [h] at hfind
  exact hfind

theorem sortedNodes_savedGraph :
    sortedNodes (savedGraph mysql id graph wf s) id =
      newNodes mysql id s.workflowNodesAutoIncrement (dbNodes graph) := by
  unfold sortedNodes savedGraph
  rw [replaceGraph_nodes]
  exact ((pairwise_newNodes _ _).imp fun h => Int.le_of_lt h).insertionSort_eq

theorem pairwise_newEdges (next : Int) (edges : List GraphEdge) :
    (newEdges mysql id keyToId next edges).Pairwise fun a b => a.id < b.id := by
  induction edges generalizing next with
  | nil => exact .nil
  | cons e rest ih =>
    refine .cons (fun row hrow => ?_) (ih (next + 1))
    have hle := (mem_newEdges hrow).1
    show next < row.id
    omega

theorem sortedEdges_savedGraph :
    sortedEdges (savedGraph mysql id graph wf s) id =
      newEdges mysql id (keyIds s.workflowNodesAutoIncrement (dbNodes graph) ∅)
        s.workflowEdgesAutoIncrement (dbEdges graph) := by
  unfold sortedEdges savedGraph
  rw [replaceGraph_edges]
  exact ((pairwise_newEdges _ _).imp fun h => Int.le_of_lt h).insertionSort_eq

theorem fetchedNodes_restored (next : Int) (nodes : List GraphNode) :
    List.Forall₂ (Restored mysql) nodes (fetchedNodes (newNodes mysql id next nodes)) := by
  induction nodes generalizing next with
  | nil => exact .nil
  | cons n rest ih => exact .cons ⟨rfl, rfl, rfl, rfl, rfl⟩ (ih (next + 1))

/-- The id of a key leads back to the key. -/
theorem keyOf_lookup {key : String}
    (h : ((keyIds next nodes ∅).lookup key).isSome = true) :
    keyOf (newNodes mysql id next nodes) (((keyIds next nodes ∅).lookup key).getD 0) = key := by
  obtain ⟨nodeId, hlookup⟩ := Option.isSome_iff_exists.mp h
  rw [hlookup, Option.getD_some]
  unfold keyOf
  cases hfind : (newNodes mysql id next nodes).find? fun n => n.id = nodeId with
  | some row =>
    have hid : row.id = nodeId := by simpa using List.find?_some hfind
    exact nodeKey_of_lookup hlookup (List.mem_of_find?_eq_some hfind) hid
  | none =>
    rcases lookup_keyIds mysql id hlookup with ⟨row, hrow, -, hid⟩ | hnone
    · have hne := List.find?_eq_none.mp hfind row hrow
      simp [hid] at hne
    · simp at hnone

/-- An edge as it comes back from the store. -/
structure RestoredEdge (mysql : Mysql) (e e' : GraphEdge) : Prop where
  srcNodeKey : e'.srcNodeKey = e.srcNodeKey
  dstNodeKey : e'.dstNodeKey = e.dstNodeKey
  mapping : e'.mapping = mysql.jsonNormal e.mapping

theorem fetchedEdges_restored (edgeId : Int)
    (h : ∀ e ∈ edges, HasEnds (keyIds next nodes ∅) e) :
    List.Forall₂ (RestoredEdge mysql) edges
      (fetchedEdges (newNodes mysql id next nodes)
        (newEdges mysql id (keyIds next nodes ∅) edgeId edges)) := by
  induction edges generalizing edgeId with
  | nil => exact .nil
  | cons e rest ih =>
    obtain ⟨hsrc, hdst⟩ := h e List.mem_cons_self
    refine .cons ⟨keyOf_lookup hsrc, keyOf_lookup hdst, rfl⟩ ?_
    exact ih (edgeId + 1) fun e he => h e (List.mem_cons_of_mem _ he)

end Saved

-- ---
-- The fetched graph as a request
-- ---

/-- The request that submits a fetched graph. -/
def WorkflowGraph.put (g : WorkflowGraph) : GraphPut := { nodes := g.nodes, edges := g.edges }

/-- The node is stored: neither `start` nor `end`. -/
def Stored (n : GraphNode) : Prop :=
  n.nodeType ≠ .startNode ∧ n.nodeKey ≠ "start" ∧ n.nodeType ≠ .endNode ∧ n.nodeKey ≠ "end"

/-- The edge is stored: neither of its ends is virtual. -/
def StoredEdge (e : GraphEdge) : Prop :=
  e.srcNodeKey ≠ "start" ∧ e.dstNodeKey ≠ "start" ∧ e.srcNodeKey ≠ "end" ∧ e.dstNodeKey ≠ "end"

section Request

variable {wf : HiveClaw.Workflow} {rows : List WorkflowNode} {edges : List WorkflowEdge}
  {graph : GraphPut}

variable {n : GraphNode}

theorem mem_dbNodes : n ∈ dbNodes graph ↔ n ∈ graph.nodes ∧ Stored n := by
  simp [dbNodes, Stored, and_assoc]

variable {e : GraphEdge}

theorem mem_dbEdges : e ∈ dbEdges graph ↔ e ∈ graph.edges ∧ StoredEdge e := by
  simp [dbEdges, StoredEdge, and_assoc]

theorem dbNodes_graphOf (h : ∀ n ∈ fetchedNodes rows, Stored n) :
    dbNodes (graphOf wf rows edges).put = fetchedNodes rows := by
  have hkeep : (fetchedNodes rows).filter (fun n => n.nodeType ≠ .startNode &&
      n.nodeKey ≠ "start" && n.nodeType ≠ .endNode && n.nodeKey ≠ "end") = fetchedNodes rows := by
    refine List.filter_eq_self.mpr fun n hn => ?_
    obtain ⟨h₁, h₂, h₃, h₄⟩ := h n hn
    simp [h₁, h₂, h₃, h₄]
  show ([startNode wf] ++ fetchedNodes rows ++ [endNode wf]).filter _ = _
  rw [List.filter_append, List.filter_append, hkeep]
  simp [startNode, endNode]

theorem not_stored_virtualEdges {dbEdges : List GraphEdge} (h : e ∈ virtualEdges dbEdges n) :
    ¬ StoredEdge e := by
  unfold virtualEdges at h
  split at h
  · cases h
  · rcases List.mem_append.mp h with h | h
    · split at h
      · cases h
      · rw [List.mem_singleton.mp h]
        exact fun hstored => hstored.1 rfl
    · split at h
      · cases h
      · rw [List.mem_singleton.mp h]
        exact fun hstored => hstored.2.2.2 rfl

theorem dbEdges_graphOf (h : ∀ e ∈ fetchedEdges rows edges, StoredEdge e) :
    dbEdges (graphOf wf rows edges).put = fetchedEdges rows edges := by
  show (fetchedEdges rows edges ++ _).filter _ = _
  rw [List.filter_append]
  have hkeep : (fetchedEdges rows edges).filter (fun e => e.srcNodeKey ≠ "start" &&
      e.dstNodeKey ≠ "start" && e.srcNodeKey ≠ "end" && e.dstNodeKey ≠ "end") =
      fetchedEdges rows edges := by
    refine List.filter_eq_self.mpr fun e he => ?_
    obtain ⟨h₁, h₂, h₃, h₄⟩ := h e he
    simp [h₁, h₂, h₃, h₄]
  have hdrop : ((allNodes wf rows).flatMap (virtualEdges (fetchedEdges rows edges))).filter
      (fun e => e.srcNodeKey ≠ "start" && e.dstNodeKey ≠ "start" && e.srcNodeKey ≠ "end" &&
        e.dstNodeKey ≠ "end") = [] := by
    refine List.filter_eq_nil_iff.mpr fun e he hstored => ?_
    obtain ⟨n, -, hvirtual⟩ := List.mem_flatMap.mp he
    refine not_stored_virtualEdges hvirtual ?_
    simpa [StoredEdge, and_assoc] using hstored
  rw [hkeep, hdrop, List.append_nil]

/-- The columns of the workflow come back as they are; an absent schema as the empty
one. -/
theorem startEnd_graphOf (h : ∀ n ∈ fetchedNodes rows, Stored n) :
    startEnd wf (graphOf wf rows edges).put =
      { inputSchema := some (wf.inputSchema.getD emptySchema)
        startDescription := wf.startDescription
        outputSchema := wf.outputSchema } := by
  have hstart : ((graphOf wf rows edges).put.nodes.find? fun n =>
      n.nodeType = .startNode || n.nodeKey = "start") = some (startNode wf) := rfl
  have hend : ((graphOf wf rows edges).put.nodes.find? fun n =>
      n.nodeType = .endNode || n.nodeKey = "end") = some (endNode wf) := by
    have hnone : ((fetchedNodes rows).find? fun n =>
        n.nodeType = .endNode || n.nodeKey = "end") = none := by
      refine List.find?_eq_none.mpr fun n hn => ?_
      obtain ⟨-, -, htype, hkey⟩ := h n hn
      simp [htype, hkey]
    show ([startNode wf] ++ fetchedNodes rows ++ [endNode wf]).find? _ = _
    rw [List.find?_append, List.find?_append, hnone]
    rfl
  unfold startEnd
  rw [hstart, hend]
  have hinput : ((startNode wf).position.bind fun p => p.get "input_schema") =
      some (wf.inputSchema.getD emptySchema) := rfl
  have hdescription : ((startNode wf).position.bind fun p => p.getStr "start_description") =
      none := rfl
  have houtput : ((endNode wf).position.bind fun p => p.get "output_schema") =
      wf.outputSchema := by
    unfold endNode
    cases wf.outputSchema with
    | none => rfl
    | some schema => rfl
  simp only [Option.bind_some, hinput, hdescription, houtput, Option.some_or, Option.none_or]
  cases wf.outputSchema with
  | none => rfl
  | some schema => rfl

end Request

-- ---
-- The fetched graph is accepted
-- ---

section Topology

variable {nodes : List GraphNode} {edges edges' : List GraphEdge} {mysql : Mysql}

theorem addEdges_succeeds {keys : List String}
    (h : ∀ e ∈ edges, e.srcNodeKey ∈ keys ∧ e.dstNodeKey ∈ keys) (adj : Adjacency) :
    ∃ adj', addEdges keys edges adj = .ok adj' := by
  induction edges generalizing adj with
  | nil => exact ⟨adj, rfl⟩
  | cons e rest ih =>
    obtain ⟨hsrc, hdst⟩ := h e List.mem_cons_self
    unfold addEdges
    rw [if_neg (not_not.mpr hsrc), if_neg (not_not.mpr hdst)]
    exact ih (fun e he => h e (List.mem_cons_of_mem _ he)) _

theorem checkTopology_of_acyclic (rank : String → Nat)
    (hends : ∀ e ∈ edges, e.srcNodeKey ∈ nodes.map GraphNode.nodeKey ∧
      e.dstNodeKey ∈ nodes.map GraphNode.nodeKey)
    (hacyclic : Acyclic (EdgeOf edges)) : checkTopology rank nodes edges = .ok () := by
  obtain ⟨adj, hadj⟩ := addEdges_succeeds hends (emptyAdjacency nodes)
  have hedges : Acyclic (Edge adj) := by
    refine hacyclic.mono fun x y hxy => ?_
    rcases ((addEdges_ok hadj).1 x y).mp hxy with hnone | hedge
    · exact absurd hnone ((emptyAdjacency_spec nodes).1 x y)
    · exact hedge
  unfold checkTopology
  rw [hadj]
  dsimp only [bind, Except.bind]
  split
  · rfl
  · cases hdetect : detectCycle rank adj with
    | finished color => rfl
    | cycle keys => exact absurd hdetect (detectCycle_ne_cycle rank hedges keys)
    | outOfFuel => exact absurd hdetect (detectCycle_ne_outOfFuel rank adj)

theorem checkTopology_ends {rank : String → Nat} (h : checkTopology rank nodes edges = .ok ()) :
    ∀ e ∈ edges, e.srcNodeKey ∈ nodes.map GraphNode.nodeKey ∧
      e.dstNodeKey ∈ nodes.map GraphNode.nodeKey := by
  unfold checkTopology at h
  cases hadj : addEdges (nodes.map GraphNode.nodeKey) edges (emptyAdjacency nodes) with
  | error e =>
    rw [hadj] at h
    cases h
  | ok adj => exact (addEdges_ok hadj).2.1

theorem mem_restoredEdges (h : List.Forall₂ (RestoredEdge mysql) edges edges') {e' : GraphEdge}
    (he' : e' ∈ edges') : ∃ e ∈ edges, RestoredEdge mysql e e' := by
  induction h with
  | nil => cases he'
  | cons he _ ih =>
    rcases List.mem_cons.mp he' with rfl | he'
    · exact ⟨_, List.mem_cons_self, he⟩
    · obtain ⟨e, hmem, hrest⟩ := ih he'
      exact ⟨e, List.mem_cons_of_mem _ hmem, hrest⟩

theorem edgeOf_restored (h : List.Forall₂ (RestoredEdge mysql) edges edges') {x y : String}
    (hxy : EdgeOf edges' x y) : EdgeOf edges x y := by
  obtain ⟨e', he', hsrc, hdst⟩ := hxy
  obtain ⟨e, he, hrest⟩ := mem_restoredEdges h he'
  exact ⟨e, he, hrest.srcNodeKey.symm.trans hsrc, hrest.dstNodeKey.symm.trans hdst⟩

theorem mem_restored {nodes' : List GraphNode} (h : List.Forall₂ (Restored mysql) nodes nodes')
    {n' : GraphNode} (hn' : n' ∈ nodes') : ∃ n ∈ nodes, Restored mysql n n' := by
  induction h with
  | nil => cases hn'
  | cons hn _ ih =>
    rcases List.mem_cons.mp hn' with rfl | hn'
    · exact ⟨_, List.mem_cons_self, hn⟩
    · obtain ⟨n, hmem, hrest⟩ := ih hn'
      exact ⟨n, List.mem_cons_of_mem _ hmem, hrest⟩

theorem isSome_lookup_keyIds {next : Int} {keyToId : HashMap String Int} {key : String}
    (h : key ∈ nodes.map GraphNode.nodeKey ∨ (keyToId.lookup key).isSome = true) :
    ((keyIds next nodes keyToId).lookup key).isSome = true := by
  induction nodes generalizing next keyToId with
  | nil => exact h.resolve_left (by simp)
  | cons n rest ih =>
    refine ih ?_
    by_cases hkey : key = n.nodeKey
    · rw [hkey, AList.lookup_insert]
      exact Or.inr rfl
    · rw [AList.lookup_insert_ne hkey]
      rcases h with hmem | hold
      · exact Or.inl ((List.mem_cons.mp hmem).resolve_left hkey)
      · exact Or.inr hold

end Topology

/-- The objects in the configurations of a request hold each key once. -/
def GraphPut.Proper (graph : GraphPut) : Prop :=
  ∀ n ∈ graph.nodes, ∀ c, n.nodeConfig = some c → c.Proper

section Again

variable {pf : Platform} {id : Int} {graph : GraphPut} {s : Store} {wf : HiveClaw.Workflow}

/-- The graph that is fetched once a graph has been saved. -/
def savedAs (mysql : Mysql) (id : Int) (graph : GraphPut) (wf : HiveClaw.Workflow) (s : Store) :
    WorkflowGraph :=
  graphOf (savedRow mysql graph wf s) (sortedNodes (savedGraph mysql id graph wf s) id)
    (sortedEdges (savedGraph mysql id graph wf s) id)

theorem savedNodes_restored :
    List.Forall₂ (Restored pf.mysql) (dbNodes graph)
      (fetchedNodes (sortedNodes (savedGraph pf.mysql id graph wf s) id)) := by
  rw [sortedNodes_savedGraph]
  exact fetchedNodes_restored _ _

theorem savedEdges_restored (h : Accepted pf id graph s wf) :
    List.Forall₂ (RestoredEdge pf.mysql) (dbEdges graph)
      (fetchedEdges (sortedNodes (savedGraph pf.mysql id graph wf s) id)
        (sortedEdges (savedGraph pf.mysql id graph wf s) id)) := by
  rw [sortedNodes_savedGraph, sortedEdges_savedGraph]
  exact fetchedEdges_restored _ h.ends

theorem stored_savedNodes {n : GraphNode}
    (hn : n ∈ fetchedNodes (sortedNodes (savedGraph pf.mysql id graph wf s) id)) : Stored n := by
  obtain ⟨n₀, hn₀, hrest⟩ := mem_restored savedNodes_restored hn
  have hstored := (mem_dbNodes.mp hn₀).2
  unfold Stored
  rw [hrest.nodeKey, hrest.nodeType]
  exact hstored

theorem stored_savedEdges (h : Accepted pf id graph s wf) {e : GraphEdge}
    (he : e ∈ fetchedEdges (sortedNodes (savedGraph pf.mysql id graph wf s) id)
      (sortedEdges (savedGraph pf.mysql id graph wf s) id)) : StoredEdge e := by
  obtain ⟨e₀, he₀, hrest⟩ := mem_restoredEdges (savedEdges_restored h) he
  have hstored := (mem_dbEdges.mp he₀).2
  unfold StoredEdge
  rw [hrest.srcNodeKey, hrest.dstNodeKey]
  exact hstored

theorem dbNodes_savedAs :
    dbNodes (savedAs pf.mysql id graph wf s).put =
      fetchedNodes (sortedNodes (savedGraph pf.mysql id graph wf s) id) :=
  dbNodes_graphOf fun _ hn => stored_savedNodes hn

theorem dbEdges_savedAs (h : Accepted pf id graph s wf) :
    dbEdges (savedAs pf.mysql id graph wf s).put =
      fetchedEdges (sortedNodes (savedGraph pf.mysql id graph wf s) id)
        (sortedEdges (savedGraph pf.mysql id graph wf s) id) :=
  dbEdges_graphOf fun _ he => stored_savedEdges h he

theorem restoredNodes_savedAs :
    List.Forall₂ (Restored pf.mysql) (dbNodes graph)
      (dbNodes (savedAs pf.mysql id graph wf s).put) := by
  rw [dbNodes_savedAs]
  exact savedNodes_restored

theorem restoredEdges_savedAs (h : Accepted pf id graph s wf) :
    List.Forall₂ (RestoredEdge pf.mysql) (dbEdges graph)
      (dbEdges (savedAs pf.mysql id graph wf s).put) := by
  rw [dbEdges_savedAs h]
  exact savedEdges_restored h

theorem schemasOf_savedGraph (ids : List Int) :
    schemasOf (savedGraph pf.mysql id graph wf s) ids = schemasOf s ids := rfl

theorem sameKeys_clearGraph {mysql : Mysql} {t : Store} (hfunctions : t.functions = s.functions)
    (hworkflow : (t.workflow? id).isNone = (s.workflow? id).isNone) (caps caps' : Option Json)
    (cols cols' : StartEnd) :
    SameKeys id (clearGraph mysql id caps cols s) (clearGraph mysql id caps' cols' t) where
  functions := hfunctions
  workflow := by
    have hupdate : ∀ (t : Store) caps cols,
        ((clearGraph mysql id caps cols t).workflow? id).isNone = (t.workflow? id).isNone := by
      intro t caps cols
      have hfind := find?_map_update HiveClaw.Workflow.id id
        (fun w => { w with
          requiredCapabilities := caps.map mysql.jsonNormal
          inputSchema := cols.inputSchema.map mysql.jsonNormal
          startDescription := cols.startDescription
          outputSchema := cols.outputSchema.map mysql.jsonNormal })
        (fun _ => rfl) t.workflows
      show (List.find? _ _).isNone = (List.find? _ _).isNone
      exact (congrArg Option.isNone hfind).trans Option.isNone_map
    rw [hupdate, hupdate, hworkflow]
  keys := by
    have hnone : ∀ rows : List WorkflowNode,
        ((rows.filter fun n => n.workflowId ≠ id).filter fun n => n.workflowId = id) = [] := by
      intro rows
      simp
    show (((List.filter _ _).filter _).map _ : List String) = ((List.filter _ _).filter _).map _
    rw [hnone, hnone]

/-- **The fetched graph is accepted.** -/
theorem Accepted.again (hpf : pf.KeepsJson) (hproper : graph.Proper)
    (h : Accepted pf id graph s wf) (rank : String → Nat) :
    Accepted { pf with rank := rank } id (savedAs pf.mysql id graph wf s).put
      (savedGraph pf.mysql id graph wf s) (savedRow pf.mysql graph wf s) := by
  have hnodes : List.Forall₂ (Restored pf.mysql) (dbNodes graph)
      (dbNodes (savedAs pf.mysql id graph wf s).put) := restoredNodes_savedAs
  have hedges := restoredEdges_savedAs h
  have hkeys := map_nodeKey_restored hnodes
  have hids := functionIds_restored hnodes
  have hends : ∀ e ∈ dbEdges (savedAs pf.mysql id graph wf s).put,
      e.srcNodeKey ∈ (dbNodes (savedAs pf.mysql id graph wf s).put).map GraphNode.nodeKey ∧
      e.dstNodeKey ∈ (dbNodes (savedAs pf.mysql id graph wf s).put).map GraphNode.nodeKey := by
    intro e he
    obtain ⟨e₀, he₀, hrest⟩ := mem_restoredEdges hedges he
    rw [hkeys, hrest.srcNodeKey, hrest.dstNodeKey]
    exact checkTopology_ends h.topology e₀ he₀
  constructor
  · exact workflow?_savedGraph h.workflow
  · refine checkNodeKeys_of_nodup ?_ fun _ _ => List.not_mem_nil
    rw [hkeys]
    exact (checkNodeKeys_ok h.keys).1
  · rw [hids]
    exact h.found
  · exact checkTopology_of_acyclic rank hends
      ((checkTopology_ok h.topology).mono fun x y hxy => edgeOf_restored hedges hxy)
  · intro n hn
    obtain ⟨n₀, hn₀, hrest⟩ := mem_restored hnodes hn
    show checkInputMapping pf.inputSource n = .ok ()
    refine checkInputMapping_restored hpf hrest ?_ (h.mapping n₀ hn₀)
    exact hproper n₀ (mem_dbNodes.mp hn₀).1
  · intro n hn
    obtain ⟨n₀, hn₀, hrest⟩ := mem_restored hnodes hn
    rw [hids, checkRequiredInputs_restored hpf.toKeepsJson hrest]
    exact h.required n₀ hn₀
  · -- the old rows are gone either way
    refine Fits.restored hnodes ?_ h.fits
    have hfunctions : (savedGraph pf.mysql id graph wf s).functions = s.functions := rfl
    have hworkflow : ((savedGraph pf.mysql id graph wf s).workflow? id).isNone =
        (s.workflow? id).isNone := by
      rw [workflow?_savedGraph h.workflow, h.workflow]
      rfl
    exact sameKeys_clearGraph hfunctions hworkflow _ _ _ _
  · intro e he
    obtain ⟨hsrc, hdst⟩ := hends e he
    exact ⟨isSome_lookup_keyIds (Or.inl hsrc), isSome_lookup_keyIds (Or.inl hdst)⟩

end Again

-- ---
-- Nothing changes
-- ---

/-- The stored nodes of a workflow, in order, without their ids. -/
def storedNodes (s : Store) (id : Int) : List GraphNode :=
  (fetchedNodes (sortedNodes s id)).map fun n => { n with id := none }

/-- The stored edges of a workflow, in order, without their ids. -/
def storedEdges (s : Store) (id : Int) : List GraphEdge :=
  (fetchedEdges (sortedNodes s id) (sortedEdges s id)).map fun e => { e with id := none }

/-- The columns `input_schema`, `output_schema`, `start_description` and
`required_capabilities` of a workflow. -/
def storedColumns (s : Store) (id : Int) :
    Option (Option Json × Option Json × Option String × Option Json) :=
  (s.workflow? id).map fun w =>
    (w.inputSchema, w.outputSchema, w.startDescription, w.requiredCapabilities)

/-- The graph of a workflow is the same in both stores. -/
structure SameGraph (id : Int) (s s' : Store) : Prop where
  nodes : storedNodes s' id = storedNodes s id
  edges : storedEdges s' id = storedEdges s id
  columns : storedColumns s' id = storedColumns s id

section Unchanged

variable {pf : Platform} {id : Int} {graph : GraphPut} {s : Store} {wf : HiveClaw.Workflow}

variable {mysql : Mysql}

theorem restored_again (hagain : ∀ v, mysql.jsonNormal (mysql.jsonNormal v) = mysql.jsonNormal v)
    {nodes nodes' nodes'' : List GraphNode} (h : List.Forall₂ (Restored mysql) nodes nodes')
    (h' : List.Forall₂ (Restored mysql) nodes' nodes'') :
    (nodes''.map fun n => { n with id := none } : List GraphNode) =
      nodes'.map fun n => { n with id := none } := by
  have hmap : ∀ v : Option Json, (v.map mysql.jsonNormal).map mysql.jsonNormal =
      v.map mysql.jsonNormal := by
    intro v
    cases v with
    | none => rfl
    | some v => exact congrArg some (hagain v)
  induction h' generalizing nodes with
  | nil => rfl
  | cons hn' _ ih =>
    cases h with
    | cons hn hrest =>
      rw [List.map_cons, List.map_cons, ih hrest, hn'.nodeKey, hn'.nodeType, hn'.functionId,
        hn'.position, hn'.nodeConfig, hn.position, hn.nodeConfig, hmap, hmap]

theorem restoredEdges_again
    (hagain : ∀ v, mysql.jsonNormal (mysql.jsonNormal v) = mysql.jsonNormal v)
    {edges edges' edges'' : List GraphEdge} (h : List.Forall₂ (RestoredEdge mysql) edges edges')
    (h' : List.Forall₂ (RestoredEdge mysql) edges' edges'') :
    (edges''.map fun e => { e with id := none } : List GraphEdge) =
      edges'.map fun e => { e with id := none } := by
  induction h' generalizing edges with
  | nil => rfl
  | cons he' _ ih =>
    cases h with
    | cons he hrest =>
      rw [List.map_cons, List.map_cons, ih hrest, he'.srcNodeKey, he'.dstNodeKey, he'.mapping,
        he.mapping, hagain]

theorem storedColumns_savedGraph (h : s.workflow? id = some wf) :
    storedColumns (savedGraph pf.mysql id graph wf s) id =
      some ((startEnd wf graph).inputSchema.map pf.mysql.jsonNormal,
        (startEnd wf graph).outputSchema.map pf.mysql.jsonNormal,
        (startEnd wf graph).startDescription,
        (workflowCaps (schemasOf s (functionIds (dbNodes graph))) (dbNodes graph)).map
          pf.mysql.jsonNormal) := by
  unfold storedColumns
  rw [workflow?_savedGraph h]
  rfl

/-- **Nothing changes** when the fetched graph is saved again. -/
theorem sameGraph_again (hpf : pf.KeepsJson) (h : Accepted pf id graph s wf)
    (hagain : Accepted pf id (savedAs pf.mysql id graph wf s).put
      (savedGraph pf.mysql id graph wf s) (savedRow pf.mysql graph wf s)) :
    SameGraph id (savedGraph pf.mysql id graph wf s)
      (savedGraph pf.mysql id (savedAs pf.mysql id graph wf s).put
        (savedRow pf.mysql graph wf s) (savedGraph pf.mysql id graph wf s)) := by
  have hnodes : List.Forall₂ (Restored pf.mysql) (dbNodes graph)
      (dbNodes (savedAs pf.mysql id graph wf s).put) := restoredNodes_savedAs
  constructor
  · have hback : List.Forall₂ (Restored pf.mysql) (dbNodes (savedAs pf.mysql id graph wf s).put)
        (fetchedNodes (sortedNodes (savedGraph pf.mysql id (savedAs pf.mysql id graph wf s).put
          (savedRow pf.mysql graph wf s) (savedGraph pf.mysql id graph wf s)) id)) :=
      savedNodes_restored
    have hsame := restored_again hpf.again hnodes hback
    rw [dbNodes_savedAs] at hsame
    exact hsame
  · have hsame := restoredEdges_again hpf.again (restoredEdges_savedAs h)
      (savedEdges_restored hagain)
    rw [dbEdges_savedAs h] at hsame
    exact hsame
  · rw [storedColumns_savedGraph hagain.workflow, storedColumns_savedGraph h.workflow,
      functionIds_restored hnodes, workflowCaps_restored hnodes, schemasOf_savedGraph]
    have hcols : startEnd (savedRow pf.mysql graph wf s) (savedAs pf.mysql id graph wf s).put =
        _ := startEnd_graphOf fun _ hn => stored_savedNodes hn
    rw [hcols]
    -- the schemas are stored in the normal form already
    have hinput : ∃ v, (startEnd wf graph).inputSchema = some v := by
      unfold startEnd
      dsimp only
      cases (Option.bind _ fun p : Json => p.get "input_schema") with
      | some v => exact ⟨v, rfl⟩
      | none =>
        cases wf.inputSchema with
        | some v => exact ⟨v, rfl⟩
        | none => exact ⟨emptySchema, rfl⟩
    obtain ⟨v, hv⟩ := hinput
    have houtput : ((startEnd wf graph).outputSchema.map pf.mysql.jsonNormal).map
        pf.mysql.jsonNormal = (startEnd wf graph).outputSchema.map pf.mysql.jsonNormal := by
      cases (startEnd wf graph).outputSchema with
      | none => rfl
      | some w => exact congrArg some (hpf.again w)
    simp only [savedRow, hv, houtput, Option.map_some, Option.getD_some, hpf.again]

end Unchanged

-- ---
-- From start to end
-- ---

section Paths

variable {wf : HiveClaw.Workflow} {rows : List WorkflowNode} {edges : List WorkflowEdge}

variable {n : GraphNode}

theorem mem_virtualEdges_start {dbEdges : List GraphEdge} (hn : Stored n)
    (hfirst : ∀ x, ¬ EdgeOf dbEdges x n.nodeKey) :
    ⟨none, "start", n.nodeKey, .obj []⟩ ∈ virtualEdges dbEdges n := by
  have hnone : (dbEdges.any fun e => e.dstNodeKey = n.nodeKey) = false := by
    refine List.any_eq_false.mpr fun e he hkey => ?_
    exact hfirst e.srcNodeKey ⟨e, he, rfl, of_decide_eq_true hkey⟩
  have hreal : ¬ (n.nodeKey = "start" ∨ n.nodeKey = "end") := fun h => h.elim hn.2.1 hn.2.2.2
  unfold virtualEdges
  rw [if_neg hreal, hnone]
  exact List.mem_append_left _ List.mem_cons_self

theorem mem_virtualEdges_end {dbEdges : List GraphEdge} (hn : Stored n)
    (hlast : ∀ x, ¬ EdgeOf dbEdges n.nodeKey x) :
    ⟨none, n.nodeKey, "end", .obj []⟩ ∈ virtualEdges dbEdges n := by
  have hnone : (dbEdges.any fun e => e.srcNodeKey = n.nodeKey) = false := by
    refine List.any_eq_false.mpr fun e he hkey => ?_
    exact hlast e.dstNodeKey ⟨e, he, of_decide_eq_true hkey, rfl⟩
  have hreal : ¬ (n.nodeKey = "start" ∨ n.nodeKey = "end") := fun h => h.elim hn.2.1 hn.2.2.2
  unfold virtualEdges
  rw [if_neg hreal, hnone]
  exact List.mem_append_right _ List.mem_cons_self

/-- **Paths.** In a graph without a cycle every stored node lies between `start` and
`end`. -/
theorem graphOf_paths (hstored : ∀ n ∈ fetchedNodes rows, Stored n)
    (hends : ∀ e ∈ fetchedEdges rows edges,
      e.srcNodeKey ∈ (fetchedNodes rows).map GraphNode.nodeKey ∧
        e.dstNodeKey ∈ (fetchedNodes rows).map GraphNode.nodeKey)
    (hacyclic : Acyclic (EdgeOf (fetchedEdges rows edges))) (hn : n ∈ fetchedNodes rows) :
    ReflTransGen (EdgeOf (graphOf wf rows edges).edges) "start" n.nodeKey ∧
      ReflTransGen (EdgeOf (graphOf wf rows edges).edges) n.nodeKey "end" := by
  have hfin : {key | key ∈ (fetchedNodes rows).map GraphNode.nodeKey}.Finite :=
    List.finite_toSet _
  have hkey : n.nodeKey ∈ {key | key ∈ (fetchedNodes rows).map GraphNode.nodeKey} :=
    List.mem_map_of_mem hn
  have hsub : ∀ x y, EdgeOf (fetchedEdges rows edges) x y →
      EdgeOf (graphOf wf rows edges).edges x y := by
    rintro x y ⟨e, he, hxy⟩
    exact ⟨e, List.mem_append_left _ he, hxy⟩
  have hvirtual : ∀ m ∈ fetchedNodes rows, ∀ e ∈ virtualEdges (fetchedEdges rows edges) m,
      e ∈ (graphOf wf rows edges).edges := by
    intro m hm e he
    refine List.mem_append_right _ (List.mem_flatMap.mpr ⟨m, ?_, he⟩)
    exact List.mem_append_left _ (List.mem_append_right _ hm)
  refine ⟨?_, ?_⟩
  · obtain ⟨x, hx, hfirst, hpath⟩ := hacyclic.exists_root hfin
      (fun x _ y ⟨e, he, hsrc, _⟩ => hsrc ▸ (hends e he).1) hkey
    obtain ⟨m, hm, rfl⟩ := List.mem_map.mp hx
    have hedge : EdgeOf (graphOf wf rows edges).edges "start" m.nodeKey :=
      ⟨_, hvirtual m hm _ (mem_virtualEdges_start (hstored m hm) hfirst), rfl, rfl⟩
    exact .head hedge (ReflTransGen.mono hsub _ _ hpath)
  · obtain ⟨x, hx, hlast, hpath⟩ := hacyclic.exists_sink hfin
      (fun x _ y ⟨e, he, _, hdst⟩ => hdst ▸ (hends e he).2) hkey
    obtain ⟨m, hm, rfl⟩ := List.mem_map.mp hx
    have hedge : EdgeOf (graphOf wf rows edges).edges m.nodeKey "end" :=
      ⟨_, hvirtual m hm _ (mem_virtualEdges_end (hstored m hm) hlast), rfl, rfl⟩
    exact .tail (ReflTransGen.mono hsub _ _ hpath) hedge

end Paths

-- ---
-- The result
-- ---

/-- **Saving a fetched graph again.** Once `put_graph` has accepted a graph,
submitting what `fetch_graph` returns is accepted, in whatever order the nodes are
visited by the cycle check, and every such request leaves the stored graph as it was.
In the fetched graph every stored node is reachable from `start` and reaches `end`. -/
theorem fetched_graph_accepted_unchanged {pf : Platform} (hpf : pf.KeepsJson) {id : Int}
    {graph : GraphPut} (hproper : graph.Proper) {s s' : Store} {g₀ g : WorkflowGraph}
    (hput : (putGraph pf id graph).Runs s (.ok g₀) s')
    (hfetch : (fetchGraph id).Runs s' (.ok g) s') (rank : String → Nat) :
    (∃ g' s'', (putGraph { pf with rank := rank } id g.put).Succeeds s' g' s'') ∧
    (∀ g' s'', (putGraph { pf with rank := rank } id g.put).Runs s' (.ok g') s'' →
      SameGraph id s' s'') ∧
    ∀ n ∈ sortedNodes s' id,
      ReflTransGen (EdgeOf g.edges) "start" n.nodeKey ∧
        ReflTransGen (EdgeOf g.edges) n.nodeKey "end" := by
  obtain ⟨wf, haccepted, rfl, -⟩ := putGraph_ok hput
  have hrow : (savedGraph pf.mysql id graph wf s).workflow? id = some _ :=
    workflow?_savedGraph haccepted.workflow
  obtain ⟨wf', hwf', rfl⟩ := fetchGraph_ok hfetch
  obtain rfl : savedRow pf.mysql graph wf s = wf' := Option.some.inj (hrow.symm.trans hwf')
  have hagain := haccepted.again hpf hproper rank
  refine ⟨?_, ?_, ?_⟩
  · exact ⟨_, _, putGraph_succeeds hagain
      (fetchGraph_succeeds (workflow?_savedGraph hagain.workflow))⟩
  · intro g' s'' hrun
    obtain ⟨wf'', haccepted'', rfl, -⟩ := putGraph_ok hrun
    obtain rfl : savedRow pf.mysql graph wf s = wf'' :=
      Option.some.inj (hagain.workflow.symm.trans haccepted''.workflow)
    exact sameGraph_again hpf haccepted (haccepted.again hpf hproper pf.rank)
  · intro n hn
    have hedges := savedEdges_restored haccepted
    refine graphOf_paths (fun _ hm => stored_savedNodes hm) ?_ ?_
      (List.mem_map_of_mem hn)
    · intro e he
      obtain ⟨e₀, he₀, hrest⟩ := mem_restoredEdges hedges he
      rw [map_nodeKey_restored savedNodes_restored, hrest.srcNodeKey, hrest.dstNodeKey]
      exact checkTopology_ends haccepted.topology e₀ he₀
    · exact (checkTopology_ok haccepted.topology).mono fun x y hxy => edgeOf_restored hedges hxy

/-- `Deserialize` of an `InputSource`, for the kinds that a document below uses. -/
def readSource (v : Json) : Except String InputSource :=
  if v.getStr "kind" = some "custom" then
    match v.get "value" with
    | some w => .ok (.custom w)
    | none => .error "missing field `value`"
  else .error "missing field `kind`"

/-- A server that stores JSON as it comes. -/
def sourcePlatform : Platform := { mysql := .plain, rank := fun _ => 0, inputSource := readSource }

theorem sourcePlatform_keepsJson : sourcePlatform.KeepsJson where
  toKeepsJson := Mysql.keepsJson_plain
  again _ := rfl
  source v src h := by
    have hsame : src.mapValue Mysql.plain.jsonNormal = src := by cases src <;> rfl
    show readSource v = .ok (src.mapValue Mysql.plain.jsonNormal)
    rw [hsame]
    exact h

/-- The input spec of an answer node. -/
def questionConfig : Json :=
  .obj [("input_mapping", .obj [("question", .obj [("kind", .str "custom"), ("value", .null)])])]

theorem questionConfig_proper : questionConfig.Proper := by
  refine .obj _ (by decide) fun f hf => ?_
  obtain rfl := List.mem_singleton.mp hf
  refine .obj _ (by decide) fun f hf => ?_
  obtain rfl := List.mem_singleton.mp hf
  refine .obj _ (by decide) fun f hf => ?_
  rcases List.mem_cons.mp hf with rfl | hf
  · exact .str _
  · obtain rfl := List.mem_singleton.mp hf
    exact .null

/-- Two answer nodes, one after the other. -/
def questionGraph : GraphPut :=
  { nodes := [{ nodeKey := "b", nodeType := .generateAnswerNode },
      { nodeKey := "a", nodeType := .generateAnswerNode, nodeConfig := some questionConfig }]
    edges := [{ srcNodeKey := "a", dstNodeKey := "b", mapping := .obj [] }] }

def oneWorkflow : Store :=
  { workflows := [{ id := 1, identifier := "wf", name := "wf", timeoutMs := 180000
                    requiredCapabilities := none, inputSchema := none, startDescription := none
                    outputSchema := none, endDescription := none }] }

/-- The graph is saved, fetched, and accepted again. -/
theorem fetched_graph_accepted_unchanged_question :
    ∃ s' g, (fetchGraph 1).Runs s' (.ok g) s' ∧ (sortedNodes s' 1).length = 2 ∧
      (∃ g' s'', (putGraph { sourcePlatform with rank := fun _ => 1 } 1 g.put).Succeeds s' g' s'') ∧
      ∀ n ∈ sortedNodes s' 1, ReflTransGen (EdgeOf g.edges) "start" n.nodeKey := by
  have hsome : ((putGraph sourcePlatform 1 questionGraph).exec (fun _ => .at 0)
      oneWorkflow).1.toOption.isSome = true := by decide +kernel
  have hlength : (sortedNodes ((putGraph sourcePlatform 1 questionGraph).exec (fun _ => .at 0)
      oneWorkflow).2 1).length = 2 := by decide +kernel
  have hput := runs_exec (putGraph sourcePlatform 1 questionGraph) (fun _ => .at 0) oneWorkflow
  cases hres : ((putGraph sourcePlatform 1 questionGraph).exec (fun _ => .at 0) oneWorkflow).1 with
  | error e =>
    rw [hres] at hsome
    cases hsome
  | ok g =>
    rw [hres] at hput
    obtain ⟨_, -, -, hfetch⟩ := putGraph_ok hput
    have hproper : questionGraph.Proper := by
      intro n hn c hc
      rcases List.mem_cons.mp hn with rfl | hn
      · cases hc
      · obtain rfl := List.mem_singleton.mp hn
        obtain rfl := Option.some.inj hc
        exact questionConfig_proper
    obtain ⟨haccepted, -, hpaths⟩ := fetched_graph_accepted_unchanged sourcePlatform_keepsJson
      hproper hput hfetch fun _ => 1
    exact ⟨_, g, hfetch, hlength, haccepted, fun n hn => (hpaths n hn).1⟩

end HiveClaw.Workflow
