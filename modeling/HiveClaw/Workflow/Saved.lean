import HiveClaw.Workflow.Graph

/-!
# What an accepted graph leaves in the tables

`putGraph_stored`: after a `put_graph` that returns a graph, the rows of the
workflow have distinct keys and ids and the edges between their keys form no
cycle.

The checks give this for the keys of the request (`checkTopology_ok`); the
transaction carries it over to the rows, because every edge refers to its nodes
through the ids that were just assigned to their keys (`insertNodes_ok_iff`,
`insertEdges_ok_iff`).

`putGraph_ok` and `putGraph_succeeds` say exactly when a graph is accepted
(`Accepted`) and what is stored then (`savedGraph`).
-/

namespace HiveClaw.Workflow

open Service Lib Lib.Digraph

/-- Two keys are joined by an edge of the request. -/
def EdgeOf (edges : List GraphEdge) (x y : String) : Prop :=
  ∃ e ∈ edges, e.srcNodeKey = x ∧ e.dstNodeKey = y

/-- Two keys are joined by a stored edge. -/
def KeyEdge (nodes : List WorkflowNode) (edges : List WorkflowEdge) (x y : String) : Prop :=
  ∃ e ∈ edges, ∃ n ∈ nodes, ∃ m ∈ nodes,
    n.id = e.srcNodeId ∧ m.id = e.dstNodeId ∧ n.nodeKey = x ∧ m.nodeKey = y

/-- The rows of a graph that can be executed. -/
structure StoredGraph (nodes : List WorkflowNode) (edges : List WorkflowEdge) : Prop where
  keys_nodup : (nodes.map WorkflowNode.nodeKey).Nodup
  ids_nodup  : (nodes.map WorkflowNode.id).Nodup
  acyclic    : Acyclic (KeyEdge nodes edges)

-- ---
-- The checks
-- ---

variable {nodes : List GraphNode}

theorem checkNodeKeys_ok {seen : List String} (h : checkNodeKeys nodes seen = .ok ()) :
    (nodes.map GraphNode.nodeKey).Nodup ∧ ∀ n ∈ nodes, n.nodeKey ∉ seen := by
  induction nodes generalizing seen with
  | nil => simp
  | cons n rest ih =>
    unfold checkNodeKeys at h
    split at h
    · cases h
    · rename_i hnew
      obtain ⟨hnodup, hseen⟩ := ih h
      have hoff : n.nodeKey ∉ rest.map GraphNode.nodeKey := by
        intro hmem
        obtain ⟨m, hm, hkey⟩ := List.mem_map.mp hmem
        exact hseen m hm (by simp [hkey])
      refine ⟨List.nodup_cons.mpr ⟨hoff, hnodup⟩, fun m hm => ?_⟩
      rcases List.mem_cons.mp hm with rfl | hm
      · exact hnew
      · intro hmem
        exact hseen m hm (by simp [hmem])

variable {adj : Adjacency}

theorem edge_insert {src dst x y : String} :
    Edge (adj.insert src ((adj.lookup src).getD [] ++ [dst])) x y ↔
      Edge adj x y ∨ (x = src ∧ y = dst) := by
  unfold Edge
  by_cases hx : x = src
  · rw [hx, AList.lookup_insert]
    simp
  · rw [AList.lookup_insert_ne hx]
    simp [hx]

variable {edges : List GraphEdge}

/-- The edges of the adjacency lists are those of the request, and both their
ends are nodes. -/
theorem addEdges_ok {keys : List String} {adj' : Adjacency}
    (h : addEdges keys edges adj = .ok adj') :
    (∀ x y, Edge adj' x y ↔ Edge adj x y ∨ EdgeOf edges x y) ∧
      (∀ e ∈ edges, e.srcNodeKey ∈ keys ∧ e.dstNodeKey ∈ keys) ∧
      ∀ k, k ∈ adj.keys → k ∈ adj'.keys := by
  induction edges generalizing adj with
  | nil =>
    simp only [addEdges, Except.ok.injEq] at h
    subst h
    simp [EdgeOf]
  | cons e rest ih =>
    unfold addEdges at h
    split at h
    · cases h
    split at h
    · cases h
    rename_i hsrc hdst
    obtain ⟨hedges, hkeys, hkeep⟩ := ih h
    refine ⟨fun x y => ?_, fun e' he' => ?_, fun k hk => hkeep k ?_⟩
    · rw [hedges, edge_insert]
      simp only [EdgeOf, List.mem_cons, exists_eq_or_imp]
      constructor
      · rintro ((hadj | ⟨rfl, rfl⟩) | hrest)
        · exact Or.inl hadj
        · exact Or.inr (Or.inl ⟨rfl, rfl⟩)
        · exact Or.inr (Or.inr hrest)
      · rintro (hadj | ⟨rfl, rfl⟩ | hrest)
        · exact Or.inl (Or.inl hadj)
        · exact Or.inl (Or.inr ⟨rfl, rfl⟩)
        · exact Or.inr hrest
    · rcases List.mem_cons.mp he' with rfl | he'
      · exact ⟨not_not.mp hsrc, not_not.mp hdst⟩
      · exact hkeys e' he'
    · rw [← AList.mem_keys] at hk ⊢
      exact (AList.mem_insert _).mpr (Or.inr hk)

theorem emptyAdjacency_spec (nodes : List GraphNode) :
    (∀ x y, ¬ Edge (emptyAdjacency nodes) x y) ∧
      ∀ n ∈ nodes, n.nodeKey ∈ (emptyAdjacency nodes).keys := by
  have hfold : ∀ adj : Adjacency, (∀ x y, ¬ Edge adj x y) →
      (∀ x y, ¬ Edge (nodes.foldl (fun adj n => adj.insert n.nodeKey []) adj) x y) ∧
        ∀ k, (k ∈ adj.keys ∨ ∃ n ∈ nodes, n.nodeKey = k) →
          k ∈ (nodes.foldl (fun adj n => adj.insert n.nodeKey []) adj).keys := by
    induction nodes with
    | nil =>
      intro adj hadj
      exact ⟨hadj, fun k hk => hk.resolve_right (by simp)⟩
    | cons n rest ih =>
      intro adj hadj
      have hnone : ∀ x y, ¬ Edge (adj.insert n.nodeKey []) x y := by
        intro x y
        unfold Edge
        by_cases hx : x = n.nodeKey
        · rw [hx, AList.lookup_insert]
          simp
        · rw [AList.lookup_insert_ne hx]
          exact hadj x y
      obtain ⟨hno, hkeys⟩ := ih (adj.insert n.nodeKey []) hnone
      refine ⟨hno, fun k hk => hkeys k ?_⟩
      rw [← AList.mem_keys, AList.mem_insert]
      rcases hk with hk | ⟨m, hm, rfl⟩
      · exact Or.inl (Or.inr (AList.mem_keys.mpr hk))
      · rcases List.mem_cons.mp hm with rfl | hm
        · exact Or.inl (Or.inl rfl)
        · exact Or.inr ⟨m, hm, rfl⟩
  have hempty : ∀ x y, ¬ Edge (∅ : Adjacency) x y := by
    intro x y
    simp [Edge]
  exact ⟨(hfold ∅ hempty).1, fun n hn => (hfold ∅ hempty).2 _ (Or.inr ⟨n, hn, rfl⟩)⟩

theorem checkTopology_ok {rank : String → Nat} (h : checkTopology rank nodes edges = .ok ()) :
    Acyclic (EdgeOf edges) := by
  unfold checkTopology at h
  cases hadj : addEdges (nodes.map GraphNode.nodeKey) edges (emptyAdjacency nodes) with
  | error e =>
    rw [hadj] at h
    cases h
  | ok adj =>
    rw [hadj] at h
    obtain ⟨hedges, hkeys, -⟩ := addEdges_ok hadj
    dsimp only [bind, Except.bind] at h
    split at h
    · -- without nodes there is no edge either
      rename_i hnil
      intro x hx
      obtain ⟨y, ⟨e, he, -, -⟩, -⟩ := Relation.TransGen.head'_iff.mp hx
      have hsrc := (hkeys e he).1
      rw [hnil] at hsrc
      simp at hsrc
    · cases hdetect : detectCycle rank adj with
      | finished color =>
        refine (detectCycle_acyclic hdetect).mono fun x y hxy => ?_
        exact (hedges x y).mpr (Or.inr hxy)
      | cycle keys =>
        rw [hdetect] at h
        cases h
      | outOfFuel =>
        rw [hdetect] at h
        cases h

-- ---
-- The transaction
-- ---

def newNode (mysql : Mysql) (id nodeId : Int) (n : GraphNode) : WorkflowNode :=
  { id := nodeId, workflowId := id, nodeKey := n.nodeKey, functionId := n.functionId
    nodeType := n.nodeType, position := n.position.map mysql.jsonNormal
    nodeConfig := n.nodeConfig.map mysql.jsonNormal }

/-- The rows of the nodes, under consecutive ids. -/
def newNodes (mysql : Mysql) (id : Int) : Int → List GraphNode → List WorkflowNode
  | _, [] => []
  | next, n :: rest => newNode mysql id next n :: newNodes mysql id (next + 1) rest

def keyIds : Int → List GraphNode → HashMap String Int → HashMap String Int
  | _, [], keyToId => keyToId
  | next, n :: rest, keyToId => keyIds (next + 1) rest (keyToId.insert n.nodeKey next)

/-- The store with more rows of `workflow_nodes`. -/
def addNodes (s : Store) (rows : List WorkflowNode) : Store :=
  { s with
    workflowNodes := s.workflowNodes ++ rows
    workflowNodesAutoIncrement := s.workflowNodesAutoIncrement + rows.length }

/-- The rows of the nodes meet the constraints, inserted one after the other. -/
def Fits (mysql : Mysql) (id : Int) : Store → List GraphNode → Prop
  | _, [] => True
  | s, n :: rest =>
    checkNodeRow mysql s (newNode mysql id s.workflowNodesAutoIncrement n) = .ok () ∧
      Fits mysql id (addNodes s [newNode mysql id s.workflowNodesAutoIncrement n]) rest

section Inserts

variable {pf : Platform} {mysql : Mysql} {id : Int} {i : Input} {s s' : Store}

theorem addNodes_nil : addNodes s [] = s := by
  simp [addNodes]

theorem addNodes_cons (row : WorkflowNode) (rows : List WorkflowNode) :
    addNodes (addNodes s [row]) rows = addNodes s (row :: rows) := by
  have hnext : s.workflowNodesAutoIncrement + ([row].length : Int) + (rows.length : Int) =
      s.workflowNodesAutoIncrement + ((row :: rows).length : Int) := by
    simp only [List.length_cons, List.length_nil]
    omega
  simp only [addNodes, List.append_assoc, List.singleton_append, hnext]

variable {nodeId : Int}

theorem insertNode_ok_iff {n : GraphNode} :
    (insertNode pf id i n).run s = (.ok nodeId, s') ↔
      i.check ("node insert " ++ n.nodeKey) = .ok () ∧
      checkNodeRow pf.mysql s (newNode pf.mysql id s.workflowNodesAutoIncrement n) = .ok () ∧
      nodeId = s.workflowNodesAutoIncrement ∧
      s' = addNodes s [newNode pf.mysql id s.workflowNodesAutoIncrement n] := by
  simp only [insertNode, Tx.run_bind_ok_iff, Tx.run_check_ok_iff, Tx.run_modifyGet_ok_iff,
    Tx.run_get_ok_iff, Tx.run_set_ok_iff, Tx.run_pure_ok_iff]
  constructor
  · rintro ⟨_, _, ⟨rfl, rfl⟩, _, _, ⟨hanswer, rfl⟩, _, _, ⟨rfl, rfl⟩, _, _, ⟨hcheck, rfl⟩, _, _,
      rfl, rfl, rfl⟩
    exact ⟨hanswer, hcheck, rfl, rfl⟩
  · rintro ⟨hanswer, hcheck, rfl, rfl⟩
    exact ⟨_, _, ⟨rfl, rfl⟩, _, _, ⟨hanswer, rfl⟩, _, _, ⟨rfl, rfl⟩, _, _, ⟨hcheck, rfl⟩, ⟨⟩, _,
      rfl, rfl, rfl⟩

variable {nodes : List GraphNode} {keyToId : HashMap String Int}

theorem insertNodes_ok_iff {keyToId' : HashMap String Int} :
    (insertNodes pf id i nodes keyToId).run s = (.ok keyToId', s') ↔
      (∀ n ∈ nodes, i.check ("node insert " ++ n.nodeKey) = .ok ()) ∧
      Fits pf.mysql id s nodes ∧
      keyToId' = keyIds s.workflowNodesAutoIncrement nodes keyToId ∧
      s' = addNodes s (newNodes pf.mysql id s.workflowNodesAutoIncrement nodes) := by
  induction nodes generalizing keyToId s with
  | nil =>
    simp only [insertNodes, Tx.run_pure_ok_iff, Fits, keyIds, newNodes, addNodes_nil,
      List.not_mem_nil, false_implies, implies_true, true_and]
  | cons n rest ih =>
    simp only [insertNodes, Tx.run_bind_ok_iff, insertNode_ok_iff, ih, List.mem_cons,
      forall_eq_or_imp]
    constructor
    · rintro ⟨_, _, ⟨hanswer, hcheck, rfl, rfl⟩, hanswers, hfits, rfl, rfl⟩
      exact ⟨⟨hanswer, hanswers⟩, ⟨hcheck, hfits⟩, rfl, addNodes_cons _ _⟩
    · rintro ⟨⟨hanswer, hanswers⟩, ⟨hcheck, hfits⟩, rfl, rfl⟩
      exact ⟨_, _, ⟨hanswer, hcheck, rfl, rfl⟩, hanswers, hfits, rfl, (addNodes_cons _ _).symm⟩

def newEdge (mysql : Mysql) (id : Int) (keyToId : HashMap String Int) (edgeId : Int)
    (e : GraphEdge) : WorkflowEdge :=
  { id := edgeId, workflowId := id, srcNodeId := (keyToId.lookup e.srcNodeKey).getD 0
    dstNodeId := (keyToId.lookup e.dstNodeKey).getD 0, mapping := mysql.jsonNormal e.mapping }

/-- The rows of the edges, under consecutive ids. -/
def newEdges (mysql : Mysql) (id : Int) (keyToId : HashMap String Int) :
    Int → List GraphEdge → List WorkflowEdge
  | _, [] => []
  | next, e :: rest =>
    newEdge mysql id keyToId next e :: newEdges mysql id keyToId (next + 1) rest

/-- The store with more rows of `workflow_edges`. -/
def addEdgeRows (s : Store) (rows : List WorkflowEdge) : Store :=
  { s with
    workflowEdges := s.workflowEdges ++ rows
    workflowEdgesAutoIncrement := s.workflowEdgesAutoIncrement + rows.length }

theorem addEdgeRows_nil : addEdgeRows s [] = s := by
  simp [addEdgeRows]

theorem addEdgeRows_cons (row : WorkflowEdge) (rows : List WorkflowEdge) :
    addEdgeRows (addEdgeRows s [row]) rows = addEdgeRows s (row :: rows) := by
  have hnext : s.workflowEdgesAutoIncrement + ([row].length : Int) + (rows.length : Int) =
      s.workflowEdgesAutoIncrement + ((row :: rows).length : Int) := by
    simp only [List.length_cons, List.length_nil]
    omega
  simp only [addEdgeRows, List.append_assoc, List.singleton_append, hnext]

variable {key : String}

theorem unwrapKey_ok_iff :
    unwrapKey keyToId key = .ok nodeId ↔ keyToId.lookup key = some nodeId := by
  unfold unwrapKey
  split
  · rename_i hlookup
    rw [hlookup]
    simp
  · rename_i hlookup
    rw [hlookup]
    simp

/-- Both ends of an edge are known. -/
def HasEnds (keyToId : HashMap String Int) (e : GraphEdge) : Prop :=
  (keyToId.lookup e.srcNodeKey).isSome = true ∧ (keyToId.lookup e.dstNodeKey).isSome = true

variable {u : Unit}

theorem insertEdge_ok_iff {e : GraphEdge} :
    (insertEdge pf id i keyToId e).run s = (.ok u, s') ↔
      i.check "edge insert" = .ok () ∧ HasEnds keyToId e ∧
      s' = addEdgeRows s [newEdge pf.mysql id keyToId s.workflowEdgesAutoIncrement e] := by
  simp only [insertEdge, Tx.run_bind_ok_iff, Tx.run_check_ok_iff, Tx.run_modifyGet_ok_iff,
    Tx.run_modify_ok_iff, unwrapKey_ok_iff]
  constructor
  · rintro ⟨src, _, ⟨hsrc, rfl⟩, dst, _, ⟨hdst, rfl⟩, _, _, ⟨rfl, rfl⟩, _, _, ⟨hanswer, rfl⟩, rfl⟩
    refine ⟨hanswer, ⟨by rw [hsrc]; rfl, by rw [hdst]; rfl⟩, ?_⟩
    simp [addEdgeRows, newEdge, hsrc, hdst]
  · rintro ⟨hanswer, ⟨hsrc, hdst⟩, rfl⟩
    obtain ⟨src, hsrc⟩ := Option.isSome_iff_exists.mp hsrc
    obtain ⟨dst, hdst⟩ := Option.isSome_iff_exists.mp hdst
    refine ⟨src, _, ⟨hsrc, rfl⟩, dst, _, ⟨hdst, rfl⟩, _, _, ⟨rfl, rfl⟩, ⟨⟩, _, ⟨hanswer, rfl⟩, ?_⟩
    simp [addEdgeRows, newEdge, hsrc, hdst]

variable {edges : List GraphEdge}

theorem insertEdges_ok_iff :
    (insertEdges pf id i keyToId edges).run s = (.ok u, s') ↔
      (∀ e ∈ edges, i.check "edge insert" = .ok () ∧ HasEnds keyToId e) ∧
      s' = addEdgeRows s (newEdges pf.mysql id keyToId s.workflowEdgesAutoIncrement edges) := by
  induction edges generalizing s with
  | nil =>
    simp only [insertEdges, Tx.run_pure_ok_iff, newEdges, addEdgeRows_nil, List.not_mem_nil,
      false_implies, implies_true, true_and]
  | cons e rest ih =>
    simp only [insertEdges, Tx.run_bind_ok_iff, insertEdge_ok_iff, ih, List.mem_cons,
      forall_eq_or_imp]
    constructor
    · rintro ⟨_, _, ⟨hanswer, hends, rfl⟩, hrest, rfl⟩
      exact ⟨⟨⟨hanswer, hends⟩, hrest⟩, addEdgeRows_cons _ _⟩
    · rintro ⟨⟨⟨hanswer, hends⟩, hrest⟩, rfl⟩
      exact ⟨⟨⟩, _, ⟨hanswer, hends, rfl⟩, hrest, (addEdgeRows_cons _ _).symm⟩

/-! ### The rows -/

theorem mem_newNodes {next : Int} {row : WorkflowNode} (h : row ∈ newNodes mysql id next nodes) :
    next ≤ row.id ∧ ∃ n ∈ nodes, row = newNode mysql id row.id n := by
  induction nodes generalizing next with
  | nil => cases h
  | cons n rest ih =>
    rcases List.mem_cons.mp h with rfl | h
    · exact ⟨Int.le_refl _, n, List.mem_cons_self, rfl⟩
    · obtain ⟨hle, m, hm, hrow⟩ := ih h
      exact ⟨by omega, m, List.mem_cons_of_mem _ hm, hrow⟩

/-- Later rows have larger ids. -/
theorem pairwise_newNodes (next : Int) (nodes : List GraphNode) :
    (newNodes mysql id next nodes).Pairwise fun a b => a.id < b.id := by
  induction nodes generalizing next with
  | nil => exact .nil
  | cons n rest ih =>
    refine .cons (fun row hrow => ?_) (ih (next + 1))
    have hle := (mem_newNodes hrow).1
    show next < row.id
    omega

theorem nodup_ids_newNodes (next : Int) (nodes : List GraphNode) :
    ((newNodes mysql id next nodes).map WorkflowNode.id).Nodup := by
  refine List.Pairwise.map _ ?_ (pairwise_newNodes next nodes)
  intro a b hlt
  exact Int.ne_of_lt hlt

theorem map_nodeKey_newNodes (next : Int) (nodes : List GraphNode) :
    (newNodes mysql id next nodes).map WorkflowNode.nodeKey = nodes.map GraphNode.nodeKey := by
  induction nodes generalizing next with
  | nil => rfl
  | cons n rest ih => exact congrArg (n.nodeKey :: ·) (ih (next + 1))

theorem lookup_keyIds (mysql : Mysql) (id : Int) {next : Int}
    (h : (keyIds next nodes keyToId).lookup key = some nodeId) :
    (∃ row ∈ newNodes mysql id next nodes, row.nodeKey = key ∧ row.id = nodeId) ∨
      keyToId.lookup key = some nodeId := by
  induction nodes generalizing next keyToId with
  | nil => exact Or.inr h
  | cons n rest ih =>
    rcases ih h with ⟨row, hrow, hrest⟩ | hold
    · exact Or.inl ⟨row, List.mem_cons_of_mem _ hrow, hrest⟩
    · by_cases hkey : key = n.nodeKey
      · rw [hkey, AList.lookup_insert] at hold
        obtain rfl := Option.some.inj hold
        exact Or.inl ⟨_, List.mem_cons_self, hkey.symm, rfl⟩
      · rw [AList.lookup_insert_ne hkey] at hold
        exact Or.inr hold

theorem mem_newEdges {next : Int} {row : WorkflowEdge}
    (h : row ∈ newEdges mysql id keyToId next edges) :
    next ≤ row.id ∧ ∃ e ∈ edges, row = newEdge mysql id keyToId row.id e := by
  induction edges generalizing next with
  | nil => cases h
  | cons e rest ih =>
    rcases List.mem_cons.mp h with rfl | h
    · exact ⟨Int.le_refl _, e, List.mem_cons_self, rfl⟩
    · obtain ⟨hle, e', he', hrow⟩ := ih h
      exact ⟨by omega, e', List.mem_cons_of_mem _ he', hrow⟩

end Inserts

theorem filter_replaced {ρ : Type} {key : ρ → Int} {id : Int} (old new : List ρ)
    (hnew : ∀ r ∈ new, key r = id) :
    (old.filter (fun r => key r ≠ id) ++ new).filter (fun r => key r = id) = new := by
  have hold : (old.filter fun r => key r ≠ id).filter (fun r => key r = id) = [] := by
    simp
  have hkeep : new.filter (fun r => key r = id) = new := by
    simpa [List.filter_eq_self] using hnew
  rw [List.filter_append, hold, hkeep, List.nil_append]

/-- The store without the old graph, the columns of the workflow updated. -/
def clearGraph (mysql : Mysql) (id : Int) (caps : Option Json) (cols : StartEnd) (s : Store) :
    Store :=
  { updateWorkflow mysql id caps cols s with
    workflowEdges := s.workflowEdges.filter fun e => e.workflowId ≠ id
    workflowNodes := s.workflowNodes.filter fun n => n.workflowId ≠ id }

def replaceGraph (mysql : Mysql) (id : Int) (caps : Option Json) (cols : StartEnd)
    (nodes : List GraphNode) (edges : List GraphEdge) (s : Store) : Store :=
  let keyToId := keyIds s.workflowNodesAutoIncrement nodes ∅
  addEdgeRows
    (addNodes (clearGraph mysql id caps cols s)
      (newNodes mysql id s.workflowNodesAutoIncrement nodes))
    (newEdges mysql id keyToId s.workflowEdgesAutoIncrement edges)

section Transaction

variable {pf : Platform} {mysql : Mysql} {id : Int} {caps : Option Json} {cols : StartEnd}
  {nodes : List GraphNode} {edges : List GraphEdge} {i : Input} {s s' : Store} {u : Unit}

theorem putGraphTx_ok (h : (putGraphTx pf id caps cols nodes edges i).run s = (.ok u, s')) :
    Fits pf.mysql id (clearGraph pf.mysql id caps cols s) nodes ∧
      (∀ e ∈ edges, HasEnds (keyIds s.workflowNodesAutoIncrement nodes ∅) e) ∧
      s' = replaceGraph pf.mysql id caps cols nodes edges s := by
  simp only [putGraphTx, Tx.run_bind_ok_iff, Tx.run_check_ok_iff, Tx.run_modify_ok_iff,
    insertNodes_ok_iff, insertEdges_ok_iff] at h
  obtain ⟨_, _, ⟨-, rfl⟩, _, _, ⟨-, rfl⟩, _, _, rfl, _, _, ⟨-, rfl⟩, _, _, rfl, _, _, ⟨-, rfl⟩, _, _,
    rfl, _, _, ⟨-, hfits, rfl, rfl⟩, _, _, ⟨hends, rfl⟩, -, rfl⟩ := h
  exact ⟨hfits, fun e he => (hends e he).2, rfl⟩

theorem check_of_answers (h : ∀ what, i.fault what = none) (what : String) :
    i.check what = .ok () := by
  unfold Input.check
  rw [h what]

theorem putGraphTx_run (hanswers : ∀ what, i.fault what = none)
    (hfits : Fits pf.mysql id (clearGraph pf.mysql id caps cols s) nodes)
    (hends : ∀ e ∈ edges, HasEnds (keyIds s.workflowNodesAutoIncrement nodes ∅) e) :
    (putGraphTx pf id caps cols nodes edges i).run s =
      (.ok (), replaceGraph pf.mysql id caps cols nodes edges s) := by
  have hcheck := check_of_answers hanswers
  simp only [putGraphTx, Tx.run_bind_ok_iff, Tx.run_check_ok_iff, Tx.run_modify_ok_iff,
    insertNodes_ok_iff, insertEdges_ok_iff]
  exact ⟨⟨⟩, _, ⟨hcheck _, rfl⟩, ⟨⟩, _, ⟨hcheck _, rfl⟩, ⟨⟩, _, rfl, ⟨⟩, _, ⟨hcheck _, rfl⟩, ⟨⟩, _,
    rfl, ⟨⟩, _, ⟨hcheck _, rfl⟩, ⟨⟩, _, rfl, _, _, ⟨fun _ _ => hcheck _, hfits, rfl, rfl⟩, ⟨⟩, _,
    ⟨fun e he => ⟨hcheck _, hends e he⟩, rfl⟩, hcheck _, rfl⟩

theorem replaceGraph_nodes :
    ((replaceGraph mysql id caps cols nodes edges s).workflowNodes.filter
      fun n => n.workflowId = id) = newNodes mysql id s.workflowNodesAutoIncrement nodes := by
  refine filter_replaced _ _ fun row hrow => ?_
  obtain ⟨-, n, -, hrow⟩ := mem_newNodes hrow
  rw [hrow]
  rfl

theorem replaceGraph_edges :
    ((replaceGraph mysql id caps cols nodes edges s).workflowEdges.filter
      fun e => e.workflowId = id) =
      newEdges mysql id (keyIds s.workflowNodesAutoIncrement nodes ∅)
        s.workflowEdgesAutoIncrement edges := by
  refine filter_replaced _ _ fun row hrow => ?_
  obtain ⟨-, e, -, hrow⟩ := mem_newEdges hrow
  rw [hrow]
  rfl

theorem nodeKey_of_lookup {next : Int} {key : String} {nodeId : Int}
    (h : (keyIds next nodes ∅).lookup key = some nodeId) {row : WorkflowNode}
    (hrow : row ∈ newNodes mysql id next nodes) (hid : row.id = nodeId) : row.nodeKey = key := by
  rcases lookup_keyIds mysql id h with ⟨row', hrow', hkey, hid'⟩ | hnone
  · have hsame : row = row' :=
      List.inj_on_of_nodup_map (nodup_ids_newNodes next nodes) hrow hrow' (hid.trans hid'.symm)
    rw [hsame, hkey]
  · simp at hnone

theorem replaceGraph_stored (hkeys : (nodes.map GraphNode.nodeKey).Nodup)
    (hacyclic : Acyclic (EdgeOf edges))
    (hends : ∀ e ∈ edges, HasEnds (keyIds s.workflowNodesAutoIncrement nodes ∅) e) :
    StoredGraph
      ((replaceGraph mysql id caps cols nodes edges s).workflowNodes.filter
        fun n => n.workflowId = id)
      ((replaceGraph mysql id caps cols nodes edges s).workflowEdges.filter
        fun e => e.workflowId = id) := by
  rw [replaceGraph_nodes, replaceGraph_edges]
  refine ⟨?_, nodup_ids_newNodes _ _, hacyclic.mono ?_⟩
  · rw [map_nodeKey_newNodes]
    exact hkeys
  · rintro x y ⟨row, hrow, n, hn, m, hm, hsrc, hdst, rfl, rfl⟩
    obtain ⟨-, e, he, hrow⟩ := mem_newEdges hrow
    obtain ⟨hsome, hsome'⟩ := hends e he
    obtain ⟨src, hlsrc⟩ := Option.isSome_iff_exists.mp hsome
    obtain ⟨dst, hldst⟩ := Option.isSome_iff_exists.mp hsome'
    rw [hrow] at hsrc hdst
    simp only [newEdge, hlsrc, hldst, Option.getD_some] at hsrc hdst
    exact ⟨e, he, (nodeKey_of_lookup hlsrc hn hsrc).symm, (nodeKey_of_lookup hldst hm hdst).symm⟩

end Transaction

-- ---
-- The request
-- ---

section Reads

variable {γ : Type} {f : Store → γ}

theorem keeps_fetchById (id : Int) : Keeps f (fetchById id) :=
  keeps_bind (keeps_query _ _) fun _ => keeps_okOr _ _

theorem keeps_functionSchemas (ids : List Int) : Keeps f (functionSchemas ids) := by
  unfold functionSchemas
  split
  · exact keeps_pure _
  · refine keeps_bind (keeps_query _ _) fun found => ?_
    split
    · exact keeps_fail _
    · exact keeps_pure _

theorem keeps_fetchGraph (id : Int) : Keeps f (fetchGraph id) :=
  keeps_bind (keeps_fetchById id) fun _ =>
    keeps_bind (keeps_query _ _) fun _ =>
      keeps_bind (keeps_query _ _) fun _ => keeps_pure _

end Reads

/-- The rows that `functionSchemas` returns. -/
def schemasOf (s : Store) (ids : List Int) : List Function :=
  if ids = [] then [] else s.functions.filter fun f => f.id ∈ ids

def AllFound (s : Store) (ids : List Int) : Prop :=
  ∀ fid ∈ ids, ∃ f ∈ schemasOf s ids, f.id = fid

variable {s : Store}

theorem allFound_iff {ids : List Int} :
    AllFound s ids ↔ (ids.find? fun fid => (schemasOf s ids).all fun f => f.id ≠ fid) = none := by
  simp [AllFound, List.find?_eq_none]

theorem functionSchemas_ok {s' : Store} {ids : List Int} {schemas : List Function}
    (h : (functionSchemas ids).Runs s (.ok schemas) s') :
    schemas = schemasOf s ids ∧ AllFound s ids := by
  rw [allFound_iff]
  unfold functionSchemas at h
  unfold schemasOf
  split at h
  · rename_i hnil
    obtain ⟨hschemas, -⟩ := runs_pure_iff.mp h
    rw [if_pos hnil, hnil]
    exact ⟨Except.ok.inj hschemas, rfl⟩
  · rename_i hne
    rw [if_neg hne]
    rcases runs_bind_readOnly (keeps_query _ _) h with ⟨-, e, he⟩ | ⟨found, hfound, h⟩
    · cases he
    obtain ⟨rfl, -⟩ := runs_query_ok hfound
    split at h
    · cases (runs_fail_iff.mp h).1
    · rename_i hnone
      obtain ⟨hschemas, -⟩ := runs_pure_iff.mp h
      exact ⟨Except.ok.inj hschemas, hnone⟩

theorem functionSchemas_succeeds {ids : List Int} (h : AllFound s ids) :
    (functionSchemas ids).Succeeds s (schemasOf s ids) s := by
  rw [allFound_iff] at h
  unfold functionSchemas
  unfold schemasOf at h ⊢
  split
  · exact succeeds_pure _ s
  · rename_i hne
    rw [if_neg hne] at h
    refine (succeeds_query _ _ s).bind ?_
    rw [h]
    exact succeeds_pure _ s

/-- The graph passes the checks and its rows fit. -/
structure Accepted (pf : Platform) (id : Int) (graph : GraphPut) (s : Store)
    (wf : HiveClaw.Workflow) : Prop where
  workflow : s.workflow? id = some wf
  keys : checkNodeKeys (dbNodes graph) [] = .ok ()
  found : AllFound s (functionIds (dbNodes graph))
  topology : checkTopology pf.rank (dbNodes graph) (dbEdges graph) = .ok ()
  mapping : ∀ n ∈ dbNodes graph, checkInputMapping pf.inputSource n = .ok ()
  required : ∀ n ∈ dbNodes graph,
    checkRequiredInputs (schemasOf s (functionIds (dbNodes graph))) n = .ok ()
  fits : Fits pf.mysql id (clearGraph pf.mysql id
    (workflowCaps (schemasOf s (functionIds (dbNodes graph))) (dbNodes graph))
    (startEnd wf graph) s) (dbNodes graph)
  ends : ∀ e ∈ dbEdges graph, HasEnds (keyIds s.workflowNodesAutoIncrement (dbNodes graph) ∅) e

/-- The store with an accepted graph. -/
def savedGraph (mysql : Mysql) (id : Int) (graph : GraphPut) (wf : HiveClaw.Workflow) (s : Store) :
    Store :=
  replaceGraph mysql id
    (workflowCaps (schemasOf s (functionIds (dbNodes graph))) (dbNodes graph))
    (startEnd wf graph) (dbNodes graph) (dbEdges graph) s

section Requests

variable {pf : Platform} {id : Int} {graph : GraphPut} {s s' : Store} {g : WorkflowGraph}

/-- What a `put_graph` that returns a graph has done. -/
theorem putGraph_ok (h : (putGraph pf id graph).Runs s (.ok g) s') :
    ∃ wf, Accepted pf id graph s wf ∧ s' = savedGraph pf.mysql id graph wf s ∧
      (fetchGraph id).Runs s' (.ok g) s' := by
  rcases runs_bind_readOnly (keeps_fetchById id) h with ⟨-, e, he⟩ | ⟨wf, hwf, h⟩
  · cases he
  rcases runs_bind_readOnly (keeps_lift _) h with ⟨-, e, he⟩ | ⟨_, hkeys, h⟩
  · cases he
  rcases runs_bind_readOnly (keeps_functionSchemas _) h with ⟨-, e, he⟩ | ⟨schemas, hschemas, h⟩
  · cases he
  rcases runs_bind_readOnly (keeps_lift _) h with ⟨-, e, he⟩ | ⟨_, htopo, h⟩
  · cases he
  rcases runs_bind_readOnly (keeps_lift _) h with ⟨-, e, he⟩ | ⟨_, hmapping, h⟩
  · cases he
  rcases runs_bind_readOnly (keeps_lift _) h with ⟨-, e, he⟩ | ⟨_, hrequired, h⟩
  · cases he
  rcases runs_bind_iff.mp h with ⟨e, -, he⟩ | ⟨_, s₁, htx, hfetch⟩
  · cases he
  obtain rfl : s' = s₁ := keeps_fetchGraph id (f := fun s => s) hfetch
  rcases runs_transaction htx with ⟨i, a, hbody, -⟩ | ⟨i, e, s₂, -, he, -⟩
  · obtain ⟨rfl, hfound⟩ := functionSchemas_ok hschemas
    obtain ⟨hfits, hends, hs'⟩ := putGraphTx_ok hbody
    have hwf : s.workflow? id = some wf := by
      rcases runs_bind_readOnly (keeps_query _ _) hwf with ⟨-, e, he⟩ | ⟨row, hrow, hwf⟩
      · cases he
      · obtain ⟨rfl, -⟩ := runs_query_ok hrow
        exact runs_okOr_ok hwf
    exact ⟨wf, ⟨hwf, runs_lift_ok hkeys, hfound, runs_lift_ok htopo,
      forM_eq_ok.mp (runs_lift_ok hmapping), forM_eq_ok.mp (runs_lift_ok hrequired), hfits, hends⟩,
      hs', hfetch⟩
  · cases he

theorem putGraph_succeeds {wf : HiveClaw.Workflow} (h : Accepted pf id graph s wf)
    (hfetch : (fetchGraph id).Succeeds (savedGraph pf.mysql id graph wf s) g
      (savedGraph pf.mysql id graph wf s)) :
    (putGraph pf id graph).Succeeds s g (savedGraph pf.mysql id graph wf s) := by
  have hwf : (fetchById id).Succeeds s wf s :=
    (succeeds_query _ _ s).bind (succeeds_okOr h.workflow s)
  refine hwf.bind ?_
  refine (succeeds_lift h.keys s).bind ?_
  refine (functionSchemas_succeeds h.found).bind ?_
  refine (succeeds_lift h.topology s).bind ?_
  refine (succeeds_lift (forM_eq_ok.mpr h.mapping) s).bind ?_
  refine (succeeds_lift (forM_eq_ok.mpr h.required) s).bind ?_
  exact (succeeds_transaction fun i hi => putGraphTx_run hi h.fits h.ends).bind hfetch

/-- **Stored graphs.** After an accepted `put_graph` the rows of the workflow
form a graph without cycles, with distinct keys and ids. -/
theorem putGraph_stored (h : (putGraph pf id graph).Runs s (.ok g) s') :
    StoredGraph (s'.workflowNodes.filter fun n => n.workflowId = id)
      (s'.workflowEdges.filter fun e => e.workflowId = id) := by
  obtain ⟨wf, haccepted, rfl, -⟩ := putGraph_ok h
  exact replaceGraph_stored (checkNodeKeys_ok haccepted.keys).1
    (checkTopology_ok haccepted.topology) haccepted.ends

end Requests

end HiveClaw.Workflow
