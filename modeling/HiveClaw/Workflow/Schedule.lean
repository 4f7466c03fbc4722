import HiveClaw.Workflow.Executor
import HiveClaw.Workflow.Saved

/-!
# Every saved workflow can be scheduled

The cycle check at save time and the in-degree counters at run time are two
algorithms; `putGraph_schedules` shows that they agree. On the rows of any
accepted graph, in whatever order the database lists them and the hash maps
are iterated, `run_layers` executes every node exactly once, none before its
predecessors, and ends, unless a node fails.

The invariant of the loop (`LayerInv`): the counter of a node is the number of
edges into it from nodes that remain, parallel edges counted one by one. So
the next layer consists of the sources of the remaining graph, and there is one
as long as a node is left, because the graph is acyclic.
-/

namespace HiveClaw.Workflow

open HiveClaw.Runtime Lib Lib.Digraph

-- ---
-- Counters and successor lists
-- ---

def deg (indegree : HashMap String Nat) (key : String) : Nat := (indegree.lookup key).getD 0

def succs (succ : HashMap String (List String)) (key : String) : List String :=
  (succ.lookup key).getD []

theorem deg_insert (m : HashMap String Nat) (key : String) (d : Nat) (k : String) :
    deg (m.insert key d) k = if k = key then d else deg m k := by
  unfold deg
  by_cases hk : k = key
  · rw [hk, AList.lookup_insert, if_pos rfl]
    rfl
  · rw [AList.lookup_insert_ne hk, if_neg hk]

theorem deg_bump (m : HashMap String Nat) (key k : String) :
    deg (bump m key) k = deg m k + if k = key then 1 else 0 := by
  unfold bump
  rw [deg_insert]
  by_cases hk : k = key
  · subst hk
    simp [deg]
  · simp [hk]

theorem deg_decrement (m : HashMap String Nat) (dst k : String) :
    deg (decrement m dst) k = deg m k - if k = dst then 1 else 0 := by
  unfold decrement
  cases hd : m.lookup dst with
  | none =>
    by_cases hk : k = dst
    · subst hk
      simp [deg, hd]
    · simp [hk]
  | some d =>
    rw [deg_insert]
    by_cases hk : k = dst
    · subst hk
      simp [deg, hd]
    · simp [hk]

theorem deg_foldl_decrement (m : HashMap String Nat) (dsts : List String) (k : String) :
    deg (dsts.foldl decrement m) k = deg m k - dsts.count k := by
  induction dsts generalizing m with
  | nil => simp
  | cons dst rest ih =>
    rw [List.foldl_cons, ih, deg_decrement, List.count_cons]
    by_cases hk : k = dst
    · simp [hk]
      omega
    · have : (dst == k) = false := by simpa using fun h => hk h.symm
      simp [hk, this]

theorem succs_push (m : HashMap String (List String)) (src dst k : String) :
    succs (push m src dst) k = succs m k ++ if k = src then [dst] else [] := by
  unfold push succs
  by_cases hk : k = src
  · rw [hk, AList.lookup_insert]
    simp
  · rw [AList.lookup_insert_ne hk]
    simp [hk]

theorem foldl_edges (es : List (String × String)) (indegree : HashMap String Nat)
    (succ : HashMap String (List String)) (k : String) :
    let r := es.foldl (fun acc e => (bump acc.1 e.2, push acc.2 e.1 e.2)) (indegree, succ)
    deg r.1 k = deg indegree k + es.countP (fun e => e.2 = k) ∧
      succs r.2 k = succs succ k ++ (es.filter fun e => e.1 = k).map Prod.snd := by
  induction es generalizing indegree succ with
  | nil => simp
  | cons e rest ih =>
    obtain ⟨hdeg, hsucc⟩ := ih (bump indegree e.2) (push succ e.1 e.2)
    refine ⟨?_, ?_⟩
    · rw [List.foldl_cons, hdeg, deg_bump, List.countP_cons]
      by_cases hk : k = e.2
      · simp [hk]
        omega
      · have : ¬ e.2 = k := fun h => hk h.symm
        simp [hk, this]
    · rw [List.foldl_cons, hsucc, succs_push, List.filter_cons]
      by_cases hk : k = e.1
      · simp [hk]
      · have : ¬ e.1 = k := fun h => hk h.symm
        simp [hk, this]

-- ---
-- The edges of the loaded graph
-- ---

variable {α β κ : Type}

theorem lookup_foldl_insert [DecidableEq κ] (f : α → κ) (g : α → β) (l : List α) (m : HashMap κ β)
    (k : κ) {v : β} (h : (l.foldl (fun m x => m.insert (f x) (g x)) m).lookup k = some v) :
    (∃ x ∈ l, f x = k ∧ g x = v) ∨ m.lookup k = some v := by
  induction l generalizing m with
  | nil => exact Or.inr h
  | cons x rest ih =>
    rcases ih (m.insert (f x) (g x)) h with ⟨y, hy, hkey⟩ | hold
    · exact Or.inl ⟨y, by simp [hy], hkey⟩
    · by_cases hk : k = f x
      · rw [hk, AList.lookup_insert] at hold
        exact Or.inl ⟨x, by simp, hk.symm, Option.some.inj hold⟩
      · rw [AList.lookup_insert_ne hk] at hold
        exact Or.inr hold

theorem lookup_foldl_insert_of_nodup [DecidableEq κ] (f : α → κ) (g : α → β) (l : List α)
    (m : HashMap κ β) (hnodup : (l.map f).Nodup) {x : α} (hx : x ∈ l) :
    (l.foldl (fun m x => m.insert (f x) (g x)) m).lookup (f x) = some (g x) := by
  have hkeep : ∀ (l : List α) (m : HashMap κ β), f x ∉ l.map f →
      (l.foldl (fun m x => m.insert (f x) (g x)) m).lookup (f x) = m.lookup (f x) := by
    intro l
    induction l with
    | nil => exact fun _ _ => rfl
    | cons y rest ih =>
      intro m hoff
      rw [List.map_cons, List.mem_cons, not_or] at hoff
      rw [List.foldl_cons, ih _ hoff.2, AList.lookup_insert_ne hoff.1]
  induction l generalizing m with
  | nil => cases hx
  | cons y rest ih =>
    obtain ⟨hoff, hrest⟩ := List.nodup_cons.mp hnodup
    rcases List.mem_cons.mp hx with rfl | hx
    · rw [List.foldl_cons, hkeep rest _ hoff, AList.lookup_insert]
    · exact ih (m.insert (f y) (g y)) hrest hx

/-- The edges of a loaded graph by their keys. -/
def loadedEdges (nodes : List WorkflowNode) (edges : List WorkflowEdge) :
    List (String × String) :=
  edges.filterMap (edgeKeys (idToKey nodes))

variable {nodes : List WorkflowNode} {edges : List WorkflowEdge}

theorem mem_loadedEdges (hids : (nodes.map WorkflowNode.id).Nodup) {x y : String} :
    (x, y) ∈ loadedEdges nodes edges ↔ KeyEdge nodes edges x y := by
  have hlookup : ∀ id key, (idToKey nodes).lookup id = some key ↔
      ∃ n ∈ nodes, n.id = id ∧ n.nodeKey = key := by
    intro id key
    constructor
    · intro h
      rcases lookup_foldl_insert WorkflowNode.id WorkflowNode.nodeKey nodes ∅ id h with h | hnone
      · exact h
      · simp at hnone
    · rintro ⟨n, hn, rfl, rfl⟩
      exact lookup_foldl_insert_of_nodup WorkflowNode.id WorkflowNode.nodeKey nodes ∅ hids hn
  unfold loadedEdges KeyEdge
  rw [List.mem_filterMap]
  refine exists_congr fun e => and_congr_right fun _ => ?_
  unfold edgeKeys
  constructor
  · intro h
    split at h
    · rename_i src dst hsrc hdst
      obtain ⟨n, hn, hnid, hnkey⟩ := (hlookup _ _).mp hsrc
      obtain ⟨m, hm, hmid, hmkey⟩ := (hlookup _ _).mp hdst
      simp only [Option.some.injEq, Prod.mk.injEq] at h
      exact ⟨n, hn, m, hm, hnid, hmid, hnkey.trans h.1, hmkey.trans h.2⟩
    · cases h
  · rintro ⟨n, hn, m, hm, hnid, hmid, rfl, rfl⟩
    rw [(hlookup e.srcNodeId n.nodeKey).mpr ⟨n, hn, hnid, rfl⟩,
      (hlookup e.dstNodeId m.nodeKey).mpr ⟨m, hm, hmid, rfl⟩]

-- ---
-- The loop
-- ---

/-- The tables agree with the edges `es`. -/
structure Loaded (es : List (String × String)) (topo : Topology) : Prop where
  succ  : ∀ k, succs topo.succ k = (es.filter fun e => e.1 = k).map Prod.snd
  byKey : ∀ k n, topo.byKey.lookup k = some n → n.nodeKey = k

/-- The number of edges into `k` that start in one of the sources. -/
def inEdges (es : List (String × String)) (sources : List String) (k : String) : Nat :=
  es.countP fun e => decide (e.2 = k) && decide (e.1 ∈ sources)

/-- The invariant of `run_layers`. -/
structure LayerInv (es : List (String × String)) (st : LayerState) : Prop where
  nodup : st.remaining.Nodup
  deg   : ∀ k, deg st.indegree k = inEdges es st.remaining k

/-- The edges from the remaining nodes are those from one of them and those
from the others. -/
theorem inEdges_split {es : List (String × String)} {sources : List String} {key : String}
    (hkey : key ∈ sources) (k : String) :
    inEdges es sources k =
      ((es.filter fun e => e.1 = key).map Prod.snd).count k +
        inEdges es (sources.filter fun x => x ≠ key) k := by
  unfold inEdges
  induction es with
  | nil => rfl
  | cons e rest ih =>
    obtain ⟨a, b⟩ := e
    by_cases hsrc : a = key
    · subst hsrc
      by_cases hdst : b = k
      · subst hdst
        simp only [List.countP_cons, List.filter_cons, decide_true, hkey, if_true, List.map_cons,
          List.count_cons_self, Bool.and_self, ih]
        simp
        omega
      · simp [hdst, ih]
    · by_cases hin : b = k ∧ a ∈ sources
      · obtain ⟨rfl, hmem⟩ := hin
        simp only [List.countP_cons, List.filter_cons, hsrc, decide_false, ih]
        simp [hmem, hsrc]
        omega
      · have hout : ∀ sources' : List String, (∀ x ∈ sources', x ∈ sources) →
            (decide (b = k) && decide (a ∈ sources')) = false := by
          intro sources' hsub
          by_contra htrue
          simp only [Bool.not_eq_false, Bool.and_eq_true, decide_eq_true_eq] at htrue
          exact hin ⟨htrue.1, hsub a htrue.2⟩
        have hleft := hout sources fun _ h => h
        have hright := hout (sources.filter fun x => x ≠ key) fun x hx => (List.mem_filter.mp hx).1
        simp only [List.countP_cons, List.filter_cons, hsrc, decide_false, hleft, hright, ih]
        simp

variable {es : List (String × String)} {topo : Topology} {st : LayerState}

theorem LayerInv.finishNode (hload : Loaded es topo) (h : LayerInv es st) {key : String}
    (hkey : key ∈ st.remaining) (out : Json) : LayerInv es (finishNode topo st key out) := by
  refine ⟨h.nodup.filter _, fun k => ?_⟩
  have hsplit := @inEdges_split es st.remaining key hkey k
  have hsucc : (topo.succ.lookup key).getD [] = (es.filter fun e => e.1 = key).map Prod.snd :=
    hload.succ key
  show Workflow.deg (((topo.succ.lookup key).getD []).foldl decrement st.indegree) k = _
  rw [deg_foldl_decrement, hsucc, h.deg k]
  show _ = inEdges es (st.remaining.filter fun x => x ≠ key) k
  omega

/-- A result that, if it is a success, is that of the node `key`. -/
def ResultOf (key : String) (r : Except WorkflowError (String × Json)) : Prop :=
  ∀ k out, r = .ok (k, out) → k = key

theorem resultOf_error (key : String) (e : WorkflowError) : ResultOf key (.error e) := by
  intro k out h
  cases h

theorem resultOf_ok (key : String) (out : Json) : ResultOf key (.ok (key, out)) := by
  intro k out' h
  cases h
  rfl

theorem returns_executeAnswerNode (env : Env) (key : String) (input : Json)
    (config : Option Json) :
    (executeAnswerNode env key input config).Returns (ResultOf key) := by
  refine (Prog.returns_true _).bind fun _ _ => ?_
  exact (Prog.returns_true _).bind fun _ _ => .done (resultOf_ok key _)

theorem returns_executeBuiltinFunction (via : Via) (permissions : List String) (key : String)
    (f : Function) (input : Json) :
    (executeBuiltinFunction via permissions key f input).Returns (ResultOf key) := by
  unfold executeBuiltinFunction
  split
  · exact .done (resultOf_error key _)
  · refine (Prog.returns_true _).bind fun _ _ => (Prog.returns_true _).bind fun out _ => ?_
    cases out with
    | error e => exact .done (resultOf_error key _)
    | ok out => exact .done (resultOf_ok key out)

theorem returns_executePluginFunction (env : Env) (via : Via) (permissions : List String)
    (key : String) (f : Function) (input : Json) :
    (executePluginFunction env via permissions key f input).Returns (ResultOf key) := by
  unfold executePluginFunction
  split
  · exact .done (resultOf_error key _)
  · exact .done (resultOf_error key _)
  · refine (Prog.returns_true _).bind fun _ _ => (Prog.returns_true _).bind fun out _ => ?_
    cases out with
    | error e => exact .done (resultOf_error key _)
    | ok out => exact .done (resultOf_ok key _)

theorem returns_executeNode (env : Env) (via : Via) (permissions : List String)
    (functionId : Option Int) (nodeType : NodeType) (config : Option Json) (key : String)
    (input : Json) :
    (executeNode env via permissions functionId nodeType config key input).Returns
      (ResultOf key) := by
  unfold executeNode
  split
  · exact returns_executeAnswerNode env key input config
  · split
    · exact .done (resultOf_error key _)
    · refine (Prog.returns_true _).bind fun row _ => ?_
      rcases row with e | _ | f
      · exact .done (resultOf_error key _)
      · exact .done (resultOf_error key _)
      · dsimp only
        split
        · exact returns_executeBuiltinFunction via permissions key f input
        · exact returns_executePluginFunction env via permissions key f input
  · exact .done (resultOf_error key _)

theorem returns_executeAll (env : Env) (via : Via) (permissions : List String)
    (prepared : List Prepared) :
    (executeAll env via permissions prepared).Returns
      (List.Forall₂ ResultOf (prepared.map fun p => p.node.nodeKey)) := by
  induction prepared with
  | nil => exact .done .nil
  | cons p rest ih =>
    refine (returns_executeNode env via permissions _ _ _ _ _).bind fun r hr => ?_
    exact ih.bind fun rs hrs => .done (.cons hr hrs)

variable {ext : Json} {st' : LayerState}

/-- Preparing a layer finds the node of every key and changes nothing the
scheduler looks at. -/
theorem prepareLayer_ok {env : Env} {rank : String → Nat} {ctx : Context.AgentContext}
    {layer : List String} {prepared : List Prepared}
    (hbyKey : ∀ k n, topo.byKey.lookup k = some n → n.nodeKey = k)
    (h : prepareLayer env rank ctx topo ext layer st = .ok (prepared, st')) :
    (prepared.map fun p => p.node.nodeKey) = layer ∧ st'.remaining = st.remaining ∧
      st'.indegree = st.indegree ∧ st'.layers = st.layers ∧ st'.outputs = st.outputs := by
  induction layer generalizing st prepared with
  | nil =>
    simp only [prepareLayer, Except.ok.injEq, Prod.mk.injEq] at h
    obtain ⟨rfl, rfl⟩ := h
    exact ⟨rfl, rfl, rfl, rfl, rfl⟩
  | cons key rest ih =>
    unfold prepareLayer at h
    dsimp only at h
    split at h
    · cases h
    split at h
    · cases h
    rename_i node hnode
    split at h
    · cases h
    rename_i ps st₂ hps
    simp only [Except.ok.injEq, Prod.mk.injEq] at h
    obtain ⟨rfl, rfl⟩ := h
    obtain ⟨hkeys, hrest⟩ := ih hps
    exact ⟨by rw [List.map_cons, hkeys, hbyKey key node hnode], hrest⟩

variable {w w' : World}

/-- When all nodes of a layer succeed, exactly they leave the remaining
nodes. -/
theorem takeResults_ok {env : Env} (hload : Loaded es topo) {keys : List String}
    {results : List (Except WorkflowError (String × Json))}
    (hresults : List.Forall₂ ResultOf keys results) (hnodup : keys.Nodup)
    (hkeys : ∀ k ∈ keys, k ∈ st.remaining) (hinv : LayerInv es st)
    (h : (takeResults env topo results st).Runs w (.ok st') w') :
    LayerInv es st' ∧ st'.remaining = st.remaining.filter (fun k => decide (k ∉ keys)) ∧
      st'.layers = st.layers := by
  induction hresults generalizing st w with
  | nil =>
    obtain ⟨hst, -⟩ := Prog.runs_done_iff.mp h
    cases hst
    exact ⟨hinv, by simp, rfl⟩
  | @cons key r keys results hr _ ih =>
    cases r with
    | error e =>
      obtain ⟨hst, -⟩ := Prog.runs_done_iff.mp h
      cases hst
    | ok res =>
      obtain ⟨k, out⟩ := res
      obtain rfl : k = key := hr k out rfl
      obtain ⟨hoff, hrest⟩ := List.nodup_cons.mp hnodup
      obtain ⟨_, w₁, -, h⟩ := Prog.runs_bind_iff.mp h
      have hkey : k ∈ st.remaining := hkeys k (by simp)
      have hleft : ∀ x ∈ keys, x ∈ (finishNode topo st k out).remaining := by
        intro x hx
        have hne : x ≠ k := fun heq => hoff (heq ▸ hx)
        simpa [finishNode, hne] using hkeys x (by simp [hx])
      obtain ⟨hinv', hrem, hlayers⟩ :=
        ih hrest hleft (hinv.finishNode hload hkey out) h
      refine ⟨hinv', ?_, hlayers⟩
      rw [hrem]
      show (st.remaining.filter fun x => x ≠ k).filter _ = _
      rw [List.filter_filter]
      refine List.filter_congr fun x _ => ?_
      by_cases hx : x = k
      · simp [hx]
      · simp [hx]

/-- When all nodes of a layer succeed, exactly they get an output. -/
theorem takeResults_outputs {env : Env} {keys : List String}
    {results : List (Except WorkflowError (String × Json))}
    (hresults : List.Forall₂ ResultOf keys results)
    (h : (takeResults env topo results st).Runs w (.ok st') w') (y : String) :
    (st'.outputs.lookup y).isSome ↔ y ∈ keys ∨ (st.outputs.lookup y).isSome := by
  induction hresults generalizing st w with
  | nil =>
    cases (Prog.runs_done_iff.mp h).1
    simp
  | @cons key r keys results hr _ ih =>
    cases r with
    | error e => cases (Prog.runs_done_iff.mp h).1
    | ok res =>
      obtain ⟨k, out⟩ := res
      obtain rfl : k = key := hr k out rfl
      obtain ⟨_, w₁, -, h⟩ := Prog.runs_bind_iff.mp h
      rw [ih h, List.mem_cons]
      show y ∈ keys ∨ ((st.outputs.insert k out).lookup y).isSome ↔ _
      by_cases hy : y = k
      · subst hy
        simp
      · rw [AList.lookup_insert_ne hy]
        simp [hy]

/-- The next layer consists of the remaining nodes that have no predecessor
among them. -/
theorem mem_nextLayer (h : LayerInv es st) (rank : String → Nat) (x : String) :
    x ∈ nextLayer rank st ↔ x ∈ st.remaining ∧ ∀ y ∈ st.remaining, (y, x) ∉ es := by
  have hperm := hashOrder_perm rank st.remaining
  have hzero : (st.indegree.lookup x).getD 0 = 0 ↔ ∀ y ∈ st.remaining, (y, x) ∉ es := by
    have hdeg : (st.indegree.lookup x).getD 0 = inEdges es st.remaining x := h.deg x
    rw [hdeg, inEdges, List.countP_eq_zero]
    constructor
    · intro hnone y hy hedge
      simpa [hy] using hnone (y, x) hedge
    · intro hnone e he
      by_cases hdst : e.2 = x
      · subst hdst
        simpa using fun hsrc => hnone e.1 hsrc he
      · simp [hdst]
  unfold nextLayer
  rw [List.mem_filter, hperm.mem_iff, decide_eq_true_eq, hzero]

/-- **Scheduling.** On an acyclic graph, with fuel for every remaining node,
`run_layers` ends with a layering of the remaining nodes or with the failure of
a node. -/
theorem runLayers_runs (hload : Loaded es topo) (hacyclic : Acyclic fun x y => (x, y) ∈ es)
    {env : Env} {via : Via} {permissions : List String} {fuel : Nat} {r : LayerEnd}
    (hinv : LayerInv es st) (hfuel : st.remaining.length ≤ fuel)
    (h : (runLayers env via permissions topo ext fuel st).Runs w r w') :
    (∃ e, r = .nodeError e) ∨
      ∃ st' ls, r = .done st' ∧ st'.layers = st.layers ++ ls ∧
        IsLayering (fun x y => (x, y) ∈ es) ls st.remaining ∧
        ∀ y, (st'.outputs.lookup y).isSome ↔ y ∈ ls.flatten ∨ (st.outputs.lookup y).isSome := by
  induction fuel generalizing st w with
  | zero =>
    have hnil : st.remaining = [] := List.length_eq_zero_iff.mp (Nat.le_zero.mp hfuel)
    unfold runLayers at h
    rw [if_pos hnil] at h
    obtain ⟨rfl, -⟩ := Prog.runs_done_iff.mp h
    exact Or.inr ⟨st, [], rfl, by simp, hnil, by simp⟩
  | succ fuel ih =>
    unfold runLayers at h
    by_cases hnil : st.remaining = []
    · rw [if_pos hnil] at h
      obtain ⟨rfl, -⟩ := Prog.runs_done_iff.mp h
      exact Or.inr ⟨st, [], rfl, by simp, hnil, by simp⟩
    rw [if_neg hnil] at h
    obtain ⟨layer, w₁, hlayer, h⟩ := Prog.runs_bind_iff.mp h
    obtain ⟨m, rfl, -⟩ := Prog.runs_modify_iff.mp hlayer
    have hmem := mem_nextLayer hinv m.rank
    -- an acyclic graph has a source
    have hne : nextLayer m.rank st ≠ [] := by
      obtain ⟨x, hx, hsource⟩ := hacyclic.exists_source (s := {x | x ∈ st.remaining})
        st.remaining.finite_toSet ⟨_, List.head_mem hnil⟩
      exact List.ne_nil_of_mem ((hmem x).mpr ⟨hx, hsource⟩)
    rw [if_neg hne] at h
    obtain ⟨prepared, w₂, hprep, h⟩ := Prog.runs_bind_iff.mp h
    obtain ⟨m', rfl, -⟩ := Prog.runs_modify_iff.mp hprep
    have hnodup : (nextLayer m.rank st).Nodup :=
      ((hashOrder_perm m.rank st.remaining).nodup_iff.mpr hinv.nodup).filter _
    dsimp only at h
    split at h
    · obtain ⟨rfl, -⟩ := Prog.runs_done_iff.mp h
      exact Or.inl ⟨_, rfl⟩
    · rename_i nodes st₁ hok
      obtain ⟨hkeys, hrem, hdeg, hlayers, hout⟩ := prepareLayer_ok hload.byKey hok
      obtain ⟨results, w₃, hexec, h⟩ := Prog.runs_bind_iff.mp h
      have hresults := (returns_executeAll env via permissions nodes).runs hexec
      rw [hkeys] at hresults
      obtain ⟨taken, w₄, htake, h⟩ := Prog.runs_bind_iff.mp h
      cases taken with
      | error e =>
        obtain ⟨rfl, -⟩ := Prog.runs_done_iff.mp h
        exact Or.inl ⟨e, rfl⟩
      | ok st₂ =>
        have hinv₁ : LayerInv es { st₁ with layers := st₁.layers ++ [nextLayer m.rank st] } :=
          ⟨hrem ▸ hinv.nodup, fun k => by
            show Workflow.deg st₁.indegree k = inEdges es st₁.remaining k
            rw [hdeg, hrem, hinv.deg k]⟩
        obtain ⟨hinv₂, hrem₂, hlayers₂⟩ := takeResults_ok hload hresults hnodup
          (fun k hk => hrem ▸ ((hmem k).mp hk).1) hinv₁ htake
        replace hrem₂ : st₂.remaining =
            st.remaining.filter (fun k => decide (k ∉ nextLayer m.rank st)) := hrem ▸ hrem₂
        -- each layer leaves fewer nodes, so the fuel lasts
        have hless : st₂.remaining.length < st.remaining.length := by
          obtain ⟨x, hx⟩ := List.exists_mem_of_ne_nil _ hne
          rw [hrem₂]
          exact List.length_filter_lt_length_iff_exists.mpr
            ⟨x, ((hmem x).mp hx).1, by simpa using hx⟩
        rcases ih hinv₂ (by omega) h with hfail | ⟨st', ls, rfl, hls, hlay, houtputs⟩
        · exact Or.inl hfail
        · refine Or.inr ⟨st', nextLayer m.rank st :: ls, rfl, ?_,
            ⟨hne, hnodup, hmem, hrem₂ ▸ hlay⟩, fun y => ?_⟩
          · rw [hls, hlayers₂]
            show st₁.layers ++ [nextLayer m.rank st] ++ ls = _
            rw [hlayers, List.append_assoc]
            rfl
          · rw [houtputs, takeResults_outputs hresults htake, hout, List.flatten_cons,
              List.mem_append]
            tauto

-- ---
-- Saved workflows
-- ---

theorem StoredGraph.perm {nodes' : List WorkflowNode} {edges' : List WorkflowEdge}
    (h : StoredGraph nodes edges) (hn : nodes'.Perm nodes) (he : edges'.Perm edges) :
    StoredGraph nodes' edges' := by
  refine ⟨(hn.map _).nodup_iff.mpr h.keys_nodup, (hn.map _).nodup_iff.mpr h.ids_nodup,
    h.acyclic.mono ?_⟩
  rintro x y ⟨e, hemem, n, hnmem, m, hmmem, hends⟩
  exact ⟨e, he.mem_iff.mp hemem, n, hn.mem_iff.mp hnmem, m, hn.mem_iff.mp hmmem, hends⟩

theorem loaded_topologyOf (nodes : List WorkflowNode) (edges : List WorkflowEdge) :
    Loaded (loadedEdges nodes edges) (topologyOf nodes edges) := by
  refine ⟨fun k => ?_, fun k n hn => ?_⟩
  · have hsucc := (foldl_edges (loadedEdges nodes edges) (initialIndegree nodes) ∅ k).2
    have hnone : succs ∅ k = [] := by simp [succs]
    rw [hnone, List.nil_append] at hsucc
    exact hsucc
  · rcases lookup_foldl_insert WorkflowNode.nodeKey (fun n => n) nodes ∅ k hn with
      ⟨x, -, hkey, rfl⟩ | hnone
    · exact hkey
    · simp at hnone

theorem deg_initialIndegree (nodes : List WorkflowNode) (k : String) :
    deg (initialIndegree nodes) k = 0 := by
  unfold deg
  cases hk : (initialIndegree nodes).lookup k with
  | none => rfl
  | some d =>
    rcases lookup_foldl_insert WorkflowNode.nodeKey (fun _ => 0) nodes ∅ k hk with
      ⟨x, -, -, rfl⟩ | hnone
    · rfl
    · simp at hnone

theorem layerInv_initialState (h : StoredGraph nodes edges) :
    LayerInv (loadedEdges nodes edges) (initialState nodes edges) := by
  refine ⟨List.nodup_dedup _, fun k => ?_⟩
  have hdeg := (foldl_edges (loadedEdges nodes edges) (initialIndegree nodes) ∅ k).1
  rw [deg_initialIndegree, Nat.zero_add] at hdeg
  show deg (loadEdges (idToKey nodes) edges (initialIndegree nodes) ∅).1 k = _
  refine hdeg.trans (List.countP_congr fun e he => ?_)
  obtain ⟨_, _, n, hn, _, _, -, -, hkey, -⟩ := (mem_loadedEdges h.ids_nodup).mp he
  have hsrc : e.1 ∈ (initialState nodes edges).remaining :=
    List.mem_dedup.mpr (List.mem_map.mpr ⟨n, hn, hkey⟩)
  simp [hsrc]

theorem nodeRows_perm (m : Moment) (id : Int) :
    (nodeRows m id).Perm (m.store.workflowNodes.filter fun n => n.workflowId = id) :=
  List.perm_insertionSort _ _

theorem edgeRows_perm (m : Moment) (id : Int) :
    (edgeRows m id).Perm (m.store.workflowEdges.filter fun e => e.workflowId = id) :=
  List.perm_insertionSort _ _

/-- **Saved workflows.** Once `put_graph` has accepted a graph, `run_layers` on
the rows it stored, read in any order, with enough fuel and with node
executions that all succeed, ends; it has executed every stored node exactly
once, and every node in a later layer than all nodes with an edge into it, and
exactly the stored nodes have an output. -/
theorem putGraph_schedules {pf : Platform} {id : Int} {graph : GraphPut} {s s' : Store}
    {g : WorkflowGraph} (hput : (putGraph pf id graph).Runs s (.ok g) s') {mn me : Moment}
    (hmn : mn.store = s') (hme : me.store = s') (env : Env) (via : Via)
    (permissions : List String) (ext : Json) {fuel : Nat}
    (hfuel : (nodeRows mn id).length ≤ fuel) (ins : Nat → Moment) (w : World)
    (hok : ∀ e, ((runLayers env via permissions (topologyOf (nodeRows mn id) (edgeRows me id)) ext
      fuel (initialState (nodeRows mn id) (edgeRows me id))).exec ins w).1 ≠ .nodeError e) :
    ∃ st, ((runLayers env via permissions (topologyOf (nodeRows mn id) (edgeRows me id)) ext fuel
        (initialState (nodeRows mn id) (edgeRows me id))).exec ins w).1 = .done st ∧
      st.layers.flatten.Perm ((nodeRows mn id).map WorkflowNode.nodeKey) ∧
      (∀ pre layer post, st.layers = pre ++ layer :: post → ∀ x ∈ layer, ∀ y,
        KeyEdge (nodeRows mn id) (edgeRows me id) y x → y ∈ pre.flatten) ∧
      ∀ k, (st.outputs.lookup k).isSome ↔ k ∈ (nodeRows mn id).map WorkflowNode.nodeKey := by
  have hstored : StoredGraph (nodeRows mn id) (edgeRows me id) :=
    (putGraph_stored hput).perm (hmn ▸ nodeRows_perm mn id) (hme ▸ edgeRows_perm me id)
  have hedge : ∀ x y, (x, y) ∈ loadedEdges (nodeRows mn id) (edgeRows me id) ↔
      KeyEdge (nodeRows mn id) (edgeRows me id) x y := fun x y => mem_loadedEdges hstored.ids_nodup
  have hacyclic : Acyclic fun x y => (x, y) ∈ loadedEdges (nodeRows mn id) (edgeRows me id) :=
    hstored.acyclic.mono fun x y hxy => (hedge x y).mp hxy
  have hkeys : ((nodeRows mn id).map WorkflowNode.nodeKey).dedup =
      (nodeRows mn id).map WorkflowNode.nodeKey := hstored.keys_nodup.dedup
  have hlen : (initialState (nodeRows mn id) (edgeRows me id)).remaining.length ≤ fuel := by
    show ((nodeRows mn id).map WorkflowNode.nodeKey).dedup.length ≤ fuel
    rw [hkeys, List.length_map]
    exact hfuel
  rcases runLayers_runs (loaded_topologyOf _ _) hacyclic (layerInv_initialState hstored) hlen
    (Prog.runs_exec (runLayers env via permissions _ ext fuel _) ins w) with
    ⟨e, he⟩ | ⟨st, ls, hdone, hlayers, hlayering, houtputs⟩
  · exact absurd he (hok e)
  · obtain rfl : st.layers = ls := hlayers
    have hrem : (initialState (nodeRows mn id) (edgeRows me id)).remaining =
        (nodeRows mn id).map WorkflowNode.nodeKey := hkeys
    rw [hrem] at hlayering
    have honce := hlayering.flatten_perm hstored.keys_nodup
    refine ⟨st, hdone, honce, ?_, fun k => ?_⟩
    · rintro pre layer post hsplit x hx y hyx
      have hy : y ∈ (nodeRows mn id).map WorkflowNode.nodeKey := by
        obtain ⟨_, _, n, hn, _, _, -, -, hkey, -⟩ := hyx
        exact List.mem_map.mpr ⟨n, hn, hkey⟩
      exact hlayering.preds_earlier hsplit hx hy ((hedge y x).mpr hyx)
    · have hempty : ¬(((initialState (nodeRows mn id) (edgeRows me id)).outputs).lookup k).isSome := by
        show ¬((∅ : NodeValueMap).lookup k).isSome
        simp
      rw [houtputs, or_iff_left hempty, honce.mem_iff]

/-- A store with one empty workflow. -/
def emptyWorkflow : Store :=
  { workflows := [{ id := 1, identifier := "wf", name := "wf", timeoutMs := 180000
                    requiredCapabilities := none, inputSchema := none, startDescription := none
                    outputSchema := none, endDescription := none }] }

/-- Two answer nodes with two parallel edges, between the virtual nodes. -/
def chainGraph : GraphPut :=
  { nodes := [{ nodeKey := "start", nodeType := .startNode },
      { nodeKey := "b", nodeType := .generateAnswerNode },
      { nodeKey := "a", nodeType := .generateAnswerNode },
      { nodeKey := "end", nodeType := .endNode }]
    edges := [{ srcNodeKey := "start", dstNodeKey := "a", mapping := .obj [] },
      { srcNodeKey := "a", dstNodeKey := "b", mapping := .obj [] },
      { srcNodeKey := "a", dstNodeKey := "b", mapping := .obj [] },
      { srcNodeKey := "b", dstNodeKey := "end", mapping := .obj [] }] }

/-- No node of the graph has an input spec, so none is read. -/
def plainPlatform : Platform :=
  { mysql := .plain, rank := fun _ => 0, inputSource := fun _ => .error "missing field `kind`" }

/-- The store once the graph is saved. -/
@[irreducible] def savedChain : Store := ((putGraph plainPlatform 1 chainGraph).exec (fun _ => .at 0)
  emptyWorkflow).2

def chainRun : LayerEnd × World :=
  (runLayers .plain .invokeFunction []
    (topologyOf (nodeRows (.of savedChain) 1) (edgeRows (.of savedChain) 1)) (.obj []) 2
    (initialState (nodeRows (.of savedChain) 1) (edgeRows (.of savedChain) 1))).exec
      (fun _ => .of savedChain) { ctx := .new 0 "" ⟨"", none, none, 0, []⟩ .default, trace := [] }

def LayerEnd.failed : LayerEnd → Bool
  | .nodeError _ => true
  | _ => false

/-- The two nodes of the chain are executed one after the other. -/
theorem putGraph_schedules_chain :
    ∃ st, chainRun.1 = .done st ∧ st.layers.flatten.Perm ["b", "a"] := by
  have hput : (putGraph plainPlatform 1 chainGraph).Runs emptyWorkflow
      ((putGraph plainPlatform 1 chainGraph).exec (fun _ => .at 0) emptyWorkflow).1 savedChain := by
    unfold savedChain
    exact Service.runs_exec _ _ _
  have hsome : ((putGraph plainPlatform 1 chainGraph).exec (fun _ => .at 0)
      emptyWorkflow).1.toOption.isSome = true := by decide +kernel
  cases hres : ((putGraph plainPlatform 1 chainGraph).exec (fun _ => .at 0) emptyWorkflow).1 with
  | error e =>
    rw [hres] at hsome
    cases hsome
  | ok g =>
    rw [hres] at hput
    have hgood : chainRun.1.failed = false := by decide +kernel
    have hkeys : (nodeRows (.of savedChain) 1).map WorkflowNode.nodeKey = ["b", "a"] := by
      decide +kernel
    have hstore : (Moment.of savedChain).store = savedChain := rfl
    have hok : ∀ e, chainRun.1 ≠ .nodeError e := by
      intro e he
      rw [he] at hgood
      cases hgood
    obtain ⟨st, hdone, honce, -⟩ := @putGraph_schedules _ _ _ _ _ _ hput (.of savedChain)
      (.of savedChain) hstore hstore .plain .invokeFunction [] (.obj []) 2 (by decide +kernel)
      (fun _ => .of savedChain) _ hok
    exact ⟨st, hdone, hkeys ▸ honce⟩

end HiveClaw.Workflow
