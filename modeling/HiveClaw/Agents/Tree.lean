import HiveClaw.Agents.Forest

/-!
# `list_tree` over a forest

`list_tree` groups the rows by parent, takes the group of the roots out of the
map, then the group of each of their children, and so on. What is never taken
out is dropped without an error: the agents on a cycle and below one.

* `build_spec` — `build` moves rows from the map to the tree, loses none, and
  takes the group below every agent it puts into the tree;
* `treeOf_perm` — over a forest nothing stays in the map;
* `listTree_complete_of_notUnderDescendant` — after operations that meet
  `NotUnderDescendant` the agents form a forest and `list_tree` returns each
  of them exactly once.
-/

namespace HiveClaw.Agents

open Service Lib.Digraph Relation

/-! ## The agents of a tree -/

mutual

/-- The agents of a node and of everything below it. -/
def AgentTreeNode.agents : AgentTreeNode → List Agent
  | .node a children => a :: agentsOf children

/-- The agents of a list of nodes. -/
def agentsOf : List AgentTreeNode → List Agent
  | [] => []
  | n :: ns => n.agents ++ agentsOf ns

end

/-! ## The map -/

def rowsOf (map : ByParent) : List Agent := map.entries.flatMap fun e => e.2

/-- Every group holds children of its key only. -/
def Grouped (map : ByParent) : Prop :=
  ∀ ⦃k rs⦄, map.lookup k = some rs → ∀ a ∈ rs, a.parentAgentId = k

variable {p : Option Int} {rs : List Agent}

theorem entries_split {map : ByParent} (h : map.lookup p = some rs) :
    ∃ l₁ l₂, map.entries = l₁ ++ ⟨p, rs⟩ :: l₂ ∧
      (map.erase p).entries = l₁ ++ l₂ := by
  have hkey : p ∈ map.entries.keys := AList.lookup_isSome.mp (by rw [h]; rfl)
  obtain ⟨rs', l₁, l₂, -, hsplit, herase⟩ := List.exists_of_kerase hkey
  have hentry : (⟨p, rs'⟩ : Sigma fun _ : Option Int => List Agent) ∈ map.entries := by
    rw [hsplit]
    simp
  have hsame : map.lookup p = some rs' := AList.mem_lookup_iff.mpr hentry
  rw [h] at hsame
  obtain rfl := Option.some.inj hsame
  exact ⟨l₁, l₂, hsplit, herase⟩

theorem rowsOf_erase {map : ByParent} (h : map.lookup p = some rs) :
    (rowsOf map).Perm (rs ++ rowsOf (map.erase p)) := by
  obtain ⟨l₁, l₂, hsplit, herase⟩ := entries_split h
  unfold rowsOf
  rw [hsplit, herase, List.flatMap_append, List.flatMap_cons, List.flatMap_append]
  have hcomm : ((l₁.flatMap fun e => e.2) ++ rs).Perm (rs ++ l₁.flatMap fun e => e.2) :=
    List.perm_append_comm
  rw [← List.append_assoc, ← List.append_assoc]
  exact hcomm.append_right _

theorem length_erase {map : ByParent} (h : map.lookup p = some rs) :
    (map.erase p).entries.length + 1 = map.entries.length := by
  obtain ⟨l₁, l₂, hsplit, herase⟩ := entries_split h
  rw [hsplit, herase, List.length_append, List.length_append, List.length_cons]
  omega

theorem rowsOf_push (map : ByParent) (r : Agent) :
    (rowsOf (map.push r)).Perm (r :: rowsOf map) := by
  have hrows : rowsOf (map.push r) =
      ((map.lookup r.parentAgentId).getD [] ++ [r]) ++ rowsOf (map.erase r.parentAgentId) := by
    unfold ByParent.push rowsOf
    rw [AList.entries_insert]
    rfl
  rw [hrows]
  cases hlook : map.lookup r.parentAgentId with
  | none =>
    have hnone : r.parentAgentId ∉ map.entries.keys := AList.lookup_eq_none.mp hlook
    have herase : (map.erase r.parentAgentId).entries = map.entries :=
      List.kerase_of_notMem_keys hnone
    unfold rowsOf
    rw [herase]
    exact List.Perm.refl _
  | some rs =>
    show ((rs ++ [r]) ++ rowsOf (map.erase r.parentAgentId)).Perm (r :: rowsOf map)
    rw [List.append_assoc]
    exact List.perm_middle.trans ((rowsOf_erase hlook).symm.cons r)

theorem Grouped.push {map : ByParent} (h : Grouped map) (r : Agent) : Grouped (map.push r) := by
  intro k rs hk a ha
  unfold ByParent.push at hk
  by_cases hkey : k = r.parentAgentId
  · subst hkey
    rw [AList.lookup_insert] at hk
    obtain rfl := Option.some.inj hk
    rcases List.mem_append.mp ha with ha | ha
    · cases hlook : map.lookup r.parentAgentId with
      | none =>
        rw [hlook] at ha
        cases ha
      | some rs =>
        rw [hlook] at ha
        exact h hlook a ha
    · rw [List.mem_singleton.mp ha]
  · rw [AList.lookup_insert_ne hkey] at hk
    exact h hk a ha

theorem foldl_push (rows : List Agent) (map : ByParent) (h : Grouped map) :
    Grouped (rows.foldl ByParent.push map) ∧
      (rowsOf (rows.foldl ByParent.push map)).Perm (rows ++ rowsOf map) := by
  induction rows generalizing map with
  | nil => exact ⟨h, List.Perm.refl _⟩
  | cons r rest ih =>
    obtain ⟨hgrouped, hperm⟩ := ih (map.push r) (h.push r)
    refine ⟨hgrouped, hperm.trans ?_⟩
    exact ((rowsOf_push map r).append_left rest).trans List.perm_middle

/-! ## `build` -/

/-- What `build` and its loop do to the map: keys are taken out, never put in
or changed. -/
def Shrinks (map map' : ByParent) : Prop :=
  ∀ k, map'.lookup k = map.lookup k ∨ map'.lookup k = none

theorem Shrinks.refl (map : ByParent) : Shrinks map map := fun _ => Or.inl rfl

theorem Shrinks.trans {a b c : ByParent} (hab : Shrinks a b) (hbc : Shrinks b c) :
    Shrinks a c := by
  intro k
  rcases hbc k with hk | hk
  · rw [hk]
    exact hab k
  · exact Or.inr hk

variable {map' : ByParent}

theorem Shrinks.none {map : ByParent} (h : Shrinks map map') {k : Option Int}
    (hk : map.lookup k = none) : map'.lookup k = none := by
  rcases h k with h | h
  · rw [h, hk]
  · exact h

theorem shrinks_erase (map : ByParent) (p : Option Int) : Shrinks map (map.erase p) := by
  intro k
  by_cases hk : k = p
  · exact Or.inr (hk ▸ AList.lookup_erase p map)
  · exact Or.inl (AList.lookup_erase_ne hk)

/-- The result of a call: the rows `moved` out of the map are the agents of
the tree, and the group below each of them is taken. -/
structure Built (moved : List Agent) (map : ByParent) (tree : List AgentTreeNode)
    (map' : ByParent) : Prop where
  perm : (moved ++ rowsOf map).Perm (agentsOf tree ++ rowsOf map')
  shrinks : Shrinks map map'
  taken : ∀ a ∈ agentsOf tree, map'.lookup (some a.id) = none
  length : map'.entries.length ≤ map.entries.length

/-- The loop of `build`, from what each call does and that the calls have fuel
enough. -/
theorem buildRows_spec {fuel : Nat}
    (hrec : ∀ (parent : Option Int) (map : ByParent), map.entries.length < fuel →
      ∃ tree map', build fuel parent map = some (tree, map') ∧
        map'.lookup parent = none ∧ Built [] map tree map')
    (rs : List Agent) (map : ByParent) (hfuel : map.entries.length < fuel) :
    ∃ tree map', buildRows (build fuel) rs map = some (tree, map') ∧ Built rs map tree map' := by
  induction rs generalizing map with
  | nil =>
    exact ⟨[], map, rfl, List.Perm.refl _, .refl map, fun a ha => (by cases ha), Nat.le_refl _⟩
  | cons r rs ih =>
    obtain ⟨children, map₁, hbuild, hnone, hchildren⟩ := hrec (some r.id) map hfuel
    have hlen := hchildren.length
    obtain ⟨out, map₂, hrows, hout⟩ := ih map₁ (by omega)
    refine ⟨.node r children :: out, map₂, ?_, ?_, hchildren.shrinks.trans hout.shrinks, ?_, ?_⟩
    · simp only [buildRows, hbuild, hrows, Option.bind_eq_bind, Option.bind_some]
      rfl
    · -- rows: `r`, then those below it, then those of the rest
      show (r :: (rs ++ rowsOf map)).Perm
        ((r :: agentsOf children ++ agentsOf out) ++ rowsOf map₂)
      have h₁ : (rs ++ rowsOf map).Perm (agentsOf children ++ (rs ++ rowsOf map₁)) := by
        have hmoved : (rs ++ rowsOf map).Perm (rs ++ (agentsOf children ++ rowsOf map₁)) :=
          hchildren.perm.append_left rs
        refine hmoved.trans ?_
        rw [← List.append_assoc, ← List.append_assoc]
        exact List.perm_append_comm.append_right _
      have h₂ := hout.perm.append_left (agentsOf children)
      rw [List.cons_append, List.cons_append, List.append_assoc]
      exact (h₁.trans h₂).cons r
    · intro a ha
      have hmem : a = r ∨ a ∈ agentsOf children ∨ a ∈ agentsOf out := by
        have ha' : a ∈ r :: agentsOf children ++ agentsOf out := ha
        simpa [or_assoc] using ha'
      rcases hmem with rfl | ha | ha
      · exact hout.shrinks.none hnone
      · exact hout.shrinks.none (hchildren.taken a ha)
      · exact hout.taken a ha
    · exact Nat.le_trans hout.length hlen

/-- With more fuel than keys `build` returns; it takes the group of its
parent and of every agent below. -/
theorem build_spec (fuel : Nat) (parent : Option Int) (map : ByParent)
    (hfuel : map.entries.length < fuel) :
    ∃ tree map', build fuel parent map = some (tree, map') ∧
      map'.lookup parent = none ∧ Built [] map tree map' := by
  induction fuel generalizing parent map with
  | zero => omega
  | succ fuel ih =>
    rw [build]
    cases hlook : map.lookup parent with
    | none =>
      exact ⟨[], map, rfl, hlook, List.Perm.refl _, .refl map, fun a ha => (by cases ha),
        Nat.le_refl _⟩
    | some rs =>
      have hlen := length_erase hlook
      obtain ⟨tree, map', hrows, hbuilt⟩ := buildRows_spec ih rs (map.erase parent) (by omega)
      have hshrinks := shrinks_erase map parent
      refine ⟨tree, map', hrows, ?_, ?_, hshrinks.trans hbuilt.shrinks, hbuilt.taken, ?_⟩
      · exact hbuilt.shrinks.none (AList.lookup_erase parent map)
      · exact (rowsOf_erase hlook).trans hbuilt.perm
      · have := hbuilt.length
        omega

/-! ## The tree of a forest -/

/-- A row that stays in the map hangs below another one that stays there: its
group was never asked for. -/
theorem parent_mem_rowsOf {rows : List Agent} (hf : Forest rows) {map : ByParent}
    {tree : List AgentTreeNode} (hgrouped : Grouped map) (hperm : (rowsOf map).Perm rows)
    (hroots : map'.lookup none = none) (hbuilt : Built [] map tree map') {a : Agent}
    (ha : a ∈ rowsOf map') : ∃ b ∈ rowsOf map', a.parentAgentId = some b.id := by
  obtain ⟨⟨k, rs⟩, hentry, hars⟩ := List.mem_flatMap.mp ha
  have hlook : map'.lookup k = some rs := AList.mem_lookup_iff.mpr hentry
  have hold : map.lookup k = some rs := by
    rcases hbuilt.shrinks k with h | h
    · rw [← h, hlook]
    · rw [h] at hlook
      cases hlook
  have hparent := hgrouped hold a hars
  have hall : ∀ x, x ∈ rows ↔ x ∈ agentsOf tree ∨ x ∈ rowsOf map' := fun x => by
    rw [← hperm.mem_iff, ← List.mem_append]
    exact hbuilt.perm.mem_iff
  cases k with
  | none =>
    rw [hroots] at hlook
    cases hlook
  | some p =>
    obtain ⟨b, hb, rfl⟩ := hf.parentStored a ((hall a).mpr (Or.inr ha)) p hparent
    rcases (hall b).mp hb with htree | hrest
    · rw [hbuilt.taken b htree] at hlook
      cases hlook
    · exact ⟨b, hrest, hparent⟩

/-- Over a forest nothing stays in the map: the rows that did would contain
one without a parent among them. -/
theorem treeOf_perm {rows : List Agent} (hf : Forest rows) :
    ∃ tree, treeOf rows = some tree ∧ (agentsOf tree).Perm rows := by
  have hempty : Grouped ∅ := fun k rs h => by
    rw [AList.lookup_empty] at h
    cases h
  obtain ⟨hgrouped, hperm⟩ := foldl_push rows ∅ hempty
  have hrows : (rowsOf (rows.foldl ByParent.push ∅)).Perm rows :=
    hperm.trans (by rw [show rowsOf ∅ = [] from rfl, List.append_nil])
  obtain ⟨tree, map', hbuild, hroots, hbuilt⟩ :=
    build_spec _ none (rows.foldl ByParent.push ∅) (Nat.lt_succ_self _)
  refine ⟨tree, ?_, ?_⟩
  · exact congrArg (Option.map Prod.fst) hbuild
  have hrest : rowsOf map' = [] := by
    by_contra hne
    obtain ⟨a₀, ha₀⟩ := List.exists_mem_of_ne_nil _ hne
    have hfin : {x | ∃ a ∈ rowsOf map', a.id = x}.Finite := by
      refine Set.Finite.subset ((rowsOf map').map Agent.id).toFinset.finite_toSet ?_
      rintro x ⟨a, ha, rfl⟩
      simpa using ⟨a, ha, rfl⟩
    obtain ⟨x, ⟨a, ha, rfl⟩, hsource⟩ := hf.acyclic.exists_source hfin ⟨a₀.id, a₀, ha₀, rfl⟩
    obtain ⟨b, hb, hab⟩ := parent_mem_rowsOf hf hgrouped hrows hroots hbuilt ha
    have hmem : a ∈ rows := hrows.mem_iff.mp
      (hbuilt.perm.mem_iff.mpr (List.mem_append_right _ ha))
    exact hsource b.id ⟨b, hb, rfl⟩ ⟨a, hmem, rfl, hab⟩
  have hmoved := hbuilt.perm
  rw [hrest, List.append_nil, List.nil_append] at hmoved
  exact hmoved.symm.trans hrows

theorem listTree_perm {s : Store} (hf : Forest s.agents) (mysql : Mysql) (now : DateTime) :
    ∃ tree, ((listTree mysql).exec (fun _ => Input.at now) s).1 = .ok tree ∧
      (agentsOf tree).Perm s.agents := by
  have hsort := List.perm_insertionSort (fun a b => rowLe mysql a b) s.agents
  have hsorted : Forest (s.agents.insertionSort fun a b => rowLe mysql a b) := by
    refine ⟨fun a ha p hp => ?_, hf.acyclic.mono ?_⟩
    · obtain ⟨b, hb, hbp⟩ := hf.parentStored a (hsort.mem_iff.mp ha) p hp
      exact ⟨b, hsort.mem_iff.mpr hb, hbp⟩
    · rintro x y ⟨a, ha, hay, hax⟩
      exact ⟨a, hsort.mem_iff.mp ha, hay, hax⟩
  obtain ⟨tree, htree, hperm⟩ := treeOf_perm hsorted
  refine ⟨tree, ?_, hperm.trans hsort⟩
  unfold listTree
  rw [Service.exec_query_bind, htree]
  rfl

/-- **The agents form a forest.** Along every sequence of operations that
starts from an empty table and in which no update names a descendant of its
agent as the new parent, every parent is stored, no agent is its own ancestor,
and `list_tree` returns every stored agent exactly once. -/
theorem listTree_complete_of_notUnderDescendant {dep : Deployment} {s₀ s : Store}
    (hempty : s₀.agents = []) (h : Reach dep NotUnderDescendant s₀ s) (now : DateTime) :
    Forest s.agents ∧
      ∃ tree, ((listTree dep.mysql).exec (fun _ => Input.at now) s).1 = .ok tree ∧
        (agentsOf tree).Perm s.agents ∧ (s.agents.map Agent.id).Nodup := by
  obtain ⟨hkeys, hforest⟩ := h.forest hempty
  obtain ⟨tree, htree, hperm⟩ := listTree_perm hforest dep.mysql now
  exact ⟨hforest, tree, htree, hperm, hkeys.nodup⟩

/-- Three agents, the last of which moves from under the first to under the
second: `main ─ b ─ c`. -/
def chainOps : List (Op × DateTime) :=
  [(.create 3 { identifier := "main", name := "Main", systemPrompt := "" }, 1000000),
   (.create 3 { identifier := "b", name := "B", systemPrompt := "",
                parentAgentId := some 1 }, 2000000),
   (.create 3 { identifier := "c", name := "C", systemPrompt := "",
                parentAgentId := some 1 }, 3000000),
   (.update 3 3 { parentAgentId := some 2, updatedAt := 3000000 }, 4000000)]

theorem chainOps_notUnderDescendant :
    OpsMeet plainDeployment NotUnderDescendant chainOps {} := by
  refine ⟨trivial, trivial, trivial, ?_, trivial⟩
  intro pid _ hpath
  -- the moved agent has no children
  obtain ⟨c, ⟨a, ha, -, hparent⟩, -⟩ := TransGen.head'_iff.mp hpath
  revert a
  decide

theorem listTree_complete_chain :
    let s := runOps plainDeployment chainOps {}
    Forest s.agents ∧
      ∃ tree, ((listTree plainDeployment.mysql).exec (fun _ => Input.at 5000000) s).1 = .ok tree ∧
        (agentsOf tree).Perm s.agents ∧ (s.agents.map Agent.id).Nodup :=
  listTree_complete_of_notUnderDescendant rfl (reach_runOps chainOps_notUnderDescendant) 5000000

/-- An agent is created, a second one below it, and the first is moved under
the second. -/
def cycleOps : List (Op × DateTime) :=
  [(.create 3 { identifier := "main", name := "Main", systemPrompt := "" }, 1000000),
   (.create 3 { identifier := "b", name := "B", systemPrompt := "",
                parentAgentId := some 1 }, 2000000),
   (.update 3 1 { parentAgentId := some 2, updatedAt := 1000000 }, 3000000)]

/-- The move is accepted: each of the two agents becomes the parent of the
other, and `list_tree` returns neither. -/
theorem forest_broken_by_cycleOps :
    let s := runOps plainDeployment cycleOps {}
    Reach plainDeployment (fun _ _ => True) {} s ∧ ¬ Forest s.agents ∧
      s.agents.map Agent.id = [1, 2] ∧
      ((listTree plainDeployment.mysql).exec (fun _ => Input.at 4000000) s).1 = .ok [] := by
  refine ⟨reach_runOps ⟨trivial, trivial, trivial, trivial⟩, ?_, by decide, rfl⟩
  intro hf
  have h₁₂ : ParentOf (runOps plainDeployment cycleOps {}).agents 1 2 := by
    unfold ParentOf
    decide
  have h₂₁ : ParentOf (runOps plainDeployment cycleOps {}).agents 2 1 := by
    unfold ParentOf
    decide
  exact hf.acyclic 1 (.tail (.single h₁₂) h₂₁)

end HiveClaw.Agents
