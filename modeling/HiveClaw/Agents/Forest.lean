import HiveClaw.Lib.Digraph
import HiveClaw.Agents.Steps

/-!
# The agents form a forest

`update` compares the new parent with the agent itself and looks up its depth;
it does not ask whether the new parent lies below the agent. So the parent
relation stays a forest exactly as long as no update moves an agent under one
of its own descendants.

* `Forest` — every parent is stored and no agent is its own ancestor;
* `NotUnderDescendant` — the condition on one operation;
* `Forest.step` and `Reach.forest` — one such operation, and every sequence of
  them, keeps the forest.
-/

namespace HiveClaw.Agents

open Service Lib.Digraph Relation

/-! ## The parent relation -/

/-- Agent `p` is the parent of agent `c`. -/
def ParentOf (rows : List Agent) (p c : Int) : Prop :=
  ∃ a ∈ rows, a.id = c ∧ a.parentAgentId = some p

/-- Every parent is stored and no agent is its own ancestor. -/
structure Forest (rows : List Agent) : Prop where
  parentStored : ∀ a ∈ rows, ∀ p, a.parentAgentId = some p → ∃ b ∈ rows, b.id = p
  acyclic : Acyclic (ParentOf rows)

/-- `id BIGINT PRIMARY KEY AUTO_INCREMENT`: ids are unique and the counter is
ahead of them. -/
structure Keyed (s : Store) : Prop where
  nodup : (s.agents.map Agent.id).Nodup
  below : ∀ a ∈ s.agents, a.id < s.agentsAutoIncrement

theorem Forest.nil : Forest [] := by
  refine ⟨fun a ha => absurd ha (List.not_mem_nil), ?_⟩
  intro x hx
  obtain ⟨_, ⟨a, ha, -⟩, -⟩ := TransGen.head'_iff.mp hx
  exact absurd ha (List.not_mem_nil)

variable {s : Store} {a : Agent}

theorem Keyed.agent?_eq (hs : Keyed s) (ha : a ∈ s.agents) : s.agent? a.id = some a := by
  have hfind : ∀ rows : List Agent, (rows.map Agent.id).Nodup → a ∈ rows →
      rows.find? (fun b => b.id = a.id) = some a := by
    intro rows
    induction rows with
    | nil => intro _ h; cases h
    | cons b rest ih =>
      intro hnodup hmem
      rw [List.map_cons, List.nodup_cons] at hnodup
      rcases List.mem_cons.mp hmem with rfl | hrest
      · exact List.find?_cons_of_pos (by simp)
      · have hne : b.id ≠ a.id := fun h => hnodup.1 (h ▸ List.mem_map_of_mem hrest)
        rw [List.find?_cons_of_neg (by simpa using hne)]
        exact ih hnodup.2 hrest
  exact hfind s.agents hs.nodup ha

theorem mem_of_agent? {id : Int} (h : s.agent? id = some a) : a ∈ s.agents ∧ a.id = id := by
  refine ⟨List.mem_of_find?_eq_some h, ?_⟩
  simpa using List.find?_some h

/-! ## Updated rows -/

@[simp] theorem touch_id (now : DateTime) (a b : Agent) (h : b.id = a.id) :
    (touch now a b).id = a.id := by
  unfold touch
  split
  · rfl
  · exact h

theorem touch_parentAgentId (now : DateTime) (a b : Agent) :
    (touch now a b).parentAgentId = b.parentAgentId := by
  unfold touch
  split
  · rename_i h
    rw [h]
  · rfl

theorem touch_depth (now : DateTime) (a b : Agent) : (touch now a b).depth = b.depth := by
  unfold touch
  split
  · rename_i h
    rw [h]
  · rfl

/-- An updated row keeps its id; its parent and depth are the requested ones
where the request gives some. -/
structure Updated (req : UpdateMeta) (newDepth : Option Int) (a b : Agent) : Prop where
  id : b.id = a.id
  parentAgentId : b.parentAgentId = req.parentAgentId.or a.parentAgentId
  depth : b.depth = newDepth.getD a.depth

variable {req : UpdateMeta} {newDepth : Option Int} {now : DateTime}

/-- The rows after an update: those with the id updated, the others as they
were. -/
theorem mem_updatedRows {id : Int} {b : Agent} :
    b ∈ updatedRows id req newDepth now s →
      (b ∈ s.agents ∧ b.id ≠ id) ∨
        ∃ a ∈ s.agents, a.id = id ∧ Updated req newDepth a b := by
  intro hb
  obtain ⟨a, ha, rfl⟩ := List.mem_map.mp hb
  by_cases hid : a.id = id
  · rw [if_pos hid]
    exact Or.inr ⟨a, ha, hid, touch_id _ _ _ rfl, touch_parentAgentId _ _ _, touch_depth _ _ _⟩
  · rw [if_neg hid]
    exact Or.inl ⟨ha, hid⟩

theorem mem_updatedRows_of_ne {id : Int} (ha : a ∈ s.agents) (hne : a.id ≠ id) :
    a ∈ updatedRows id req newDepth now s :=
  List.mem_map.mpr ⟨a, ha, if_neg hne⟩

theorem exists_updated {id : Int} (req : UpdateMeta) (newDepth : Option Int) (now : DateTime)
    (ha : a ∈ s.agents) (hid : a.id = id) :
    ∃ b ∈ updatedRows id req newDepth now s, Updated req newDepth a b := by
  refine ⟨_, List.mem_map.mpr ⟨a, ha, if_pos hid⟩, ?_⟩
  exact ⟨touch_id _ _ _ rfl, touch_parentAgentId _ _ _, touch_depth _ _ _⟩

theorem map_id_updatedRows (id : Int) (req : UpdateMeta) (newDepth : Option Int)
    (now : DateTime) (s : Store) :
    (updatedRows id req newDepth now s).map Agent.id = s.agents.map Agent.id := by
  unfold updatedRows
  rw [List.map_map]
  refine List.map_congr_left fun a _ => ?_
  show (if a.id = id then touch now a (applyUpdate req newDepth a) else a).id = a.id
  split
  · exact touch_id _ _ _ rfl
  · rfl

/-! ## The keys -/

theorem Keyed.step {dep : Deployment} {op : Op} {s s' : Store} {r : Except Failure Unit}
    (hs : Keyed s) (h : (op.service dep).Runs s r s') : Keyed s' := by
  have hsame : Unchanged s s' → Keyed s' := by
    rintro ⟨hrows, hcount⟩
    refine ⟨hrows ▸ hs.nodup, fun a ha => ?_⟩
    rw [hrows] at ha
    exact Int.lt_of_lt_of_le (hs.below a ha) hcount
  cases op with
  | create actorRole req =>
    obtain ⟨_, h⟩ := runs_discard h
    rcases create_step h with hunch | ⟨row, htable, hid, -, -⟩
    · exact hsame hunch
    obtain ⟨hrows, hcount⟩ := Prod.mk.inj htable
    refine ⟨?_, fun a ha => ?_⟩
    · rw [hrows, List.map_append, List.nodup_append]
      refine ⟨hs.nodup, by simp, ?_⟩
      intro x hx y hy
      obtain ⟨a, ha, rfl⟩ := List.mem_map.mp hx
      have hlt := hs.below a ha
      simp only [List.map_cons, List.map_nil, List.mem_singleton] at hy
      omega
    · rw [hrows] at ha
      rw [hcount]
      rcases List.mem_append.mp ha with ha | ha
      · have hlt := hs.below a ha
        omega
      · rw [List.mem_singleton.mp ha, hid]
        omega
  | update actorRole id req =>
    obtain ⟨_, h⟩ := runs_discard h
    rcases update_step h with hunch | ⟨existing, newDepth, now, -, -, htable⟩
    · exact hsame hunch
    obtain ⟨hrows, hcount⟩ := Prod.mk.inj htable
    refine ⟨?_, fun a ha => ?_⟩
    · rw [hrows, map_id_updatedRows]
      exact hs.nodup
    · have hmem : a.id ∈ s.agents.map Agent.id := by
        rw [← map_id_updatedRows id req newDepth now s, ← hrows]
        exact List.mem_map_of_mem ha
      obtain ⟨b, hb, hba⟩ := List.mem_map.mp hmem
      rw [hcount, ← hba]
      exact hs.below b hb
  | delete id =>
    rcases delete_step h with hunch | ⟨-, htable⟩
    · exact hsame hunch
    obtain ⟨hrows, hcount⟩ := Prod.mk.inj htable
    refine ⟨?_, fun a ha => ?_⟩
    · rw [hrows]
      exact hs.nodup.sublist (List.filter_sublist.map _)
    · rw [hrows] at ha
      rw [hcount]
      exact hs.below a (List.mem_filter.mp ha).1

/-! ## The forest -/

/-- The condition on an operation: an update does not name a descendant of
its agent as the new parent. -/
def NotUnderDescendant (s : Store) : Op → Prop
  | .update _ id req =>
    ∀ pid, req.parentAgentId = some pid → ¬ TransGen (ParentOf s.agents) id pid
  | _ => True

/-- A new leaf: nothing is below a fresh id, so the new edge closes no
cycle. -/
theorem Forest.append (hs : Keyed s) (hf : Forest s.agents) {row : Agent}
    (hid : row.id = s.agentsAutoIncrement)
    (hparent : ∀ p, row.parentAgentId = some p → ∃ b ∈ s.agents, b.id = p) :
    Forest (s.agents ++ [row]) := by
  refine ⟨fun a ha p hp => ?_, ?_⟩
  · have hstored : ∃ b ∈ s.agents, b.id = p := by
      rcases List.mem_append.mp ha with ha | ha
      · exact hf.parentStored a ha p hp
      · rw [List.mem_singleton.mp ha] at hp
        exact hparent p hp
    obtain ⟨b, hb, hbp⟩ := hstored
    exact ⟨b, List.mem_append_left _ hb, hbp⟩
  · have hedges : ∀ x y, ParentOf (s.agents ++ [row]) x y →
        ParentOf s.agents x y ∨ (row.parentAgentId = some x ∧ y = row.id) := by
      rintro x y ⟨a, ha, rfl, hax⟩
      rcases List.mem_append.mp ha with ha | ha
      · exact Or.inl ⟨a, ha, rfl, hax⟩
      · rw [List.mem_singleton.mp ha] at hax ⊢
        exact Or.inr ⟨hax, rfl⟩
    cases hrow : row.parentAgentId with
    | none =>
      refine hf.acyclic.mono fun x y hxy => ?_
      rcases hedges x y hxy with hxy | ⟨hx, -⟩
      · exact hxy
      · rw [hrow] at hx
        cases hx
    | some pid =>
      have hadd : ∀ x y, ParentOf (s.agents ++ [row]) x y →
          ParentOf s.agents x y ∨ (x = pid ∧ y = row.id) := by
        intro x y hxy
        rcases hedges x y hxy with hxy | ⟨hx, hy⟩
        · exact Or.inl hxy
        · rw [hrow] at hx
          exact Or.inr ⟨(Option.some.inj hx).symm, hy⟩
      refine hf.acyclic.addEdge hadd fun hreach => ?_
      obtain ⟨b, hb, hbpid⟩ := hparent pid hrow
      have hlt := hs.below b hb
      rcases ReflTransGen.cases_head hreach with heq | ⟨c, ⟨a, ha, -, hparentId⟩, -⟩
      · omega
      · obtain ⟨d, hd, hdid⟩ := hf.parentStored a ha _ hparentId
        have hltd := hs.below d hd
        omega

theorem parentOf_updatedRows {id : Int} {x y : Int}
    (h : ParentOf (updatedRows id req newDepth now s) x y) :
    ParentOf s.agents x y ∨ (req.parentAgentId = some x ∧ y = id) := by
  obtain ⟨b, hb, rfl, hbx⟩ := h
  rcases mem_updatedRows hb with ⟨hmem, -⟩ | ⟨a, ha, rfl, hupd⟩
  · exact Or.inl ⟨b, hmem, rfl, hbx⟩
  · rw [hupd.parentAgentId] at hbx
    cases hreq : req.parentAgentId with
    | none =>
      rw [hreq, Option.none_or] at hbx
      exact Or.inl ⟨a, ha, hupd.id.symm, hbx⟩
    | some pid =>
      rw [hreq, Option.some_or] at hbx
      exact Or.inr ⟨hbx, hupd.id⟩

theorem NewDepth.parentStored {s : Store} {existing : Agent} {req : UpdateMeta}
    {newDepth : Option Int} (h : NewDepth s existing req newDepth) (hf : Forest s.agents)
    (hmem : existing ∈ s.agents) {p : Int} (hp : req.parentAgentId = some p) :
    ∃ b ∈ s.agents, b.id = p := by
  unfold NewDepth at h
  rw [hp] at h
  rcases h with ⟨hsame, -⟩ | ⟨-, -, d, -, row, hrow, -⟩
  · exact hf.parentStored existing hmem p hsame.symm
  · exact ⟨row, mem_of_agent? hrow⟩

theorem Forest.update (hf : Forest s.agents) {id : Int} {existing : Agent}
    (hex : s.agent? id = some existing) (hdepth : NewDepth s existing req newDepth)
    (hcond : ∀ pid, req.parentAgentId = some pid → ¬ TransGen (ParentOf s.agents) id pid) :
    Forest (updatedRows id req newDepth now s) := by
  obtain ⟨hmem, hexid⟩ := mem_of_agent? hex
  refine ⟨fun b hb p hp => ?_, ?_⟩
  · have hstored : ∃ c ∈ s.agents, c.id = p := by
      rcases parentOf_updatedRows ⟨b, hb, rfl, hp⟩ with ⟨a, ha, -, hap⟩ | ⟨hreq, -⟩
      · exact hf.parentStored a ha p hap
      · exact hdepth.parentStored hf hmem hreq
    obtain ⟨c, hc, rfl⟩ := hstored
    have hkey : c.id ∈ (updatedRows id req newDepth now s).map Agent.id := by
      rw [map_id_updatedRows]
      exact List.mem_map_of_mem hc
    exact List.mem_map.mp hkey
  · cases hreq : req.parentAgentId with
    | none =>
      refine hf.acyclic.mono fun x y hxy => ?_
      rcases parentOf_updatedRows hxy with hxy | ⟨hx, -⟩
      · exact hxy
      · rw [hreq] at hx
        cases hx
    | some pid =>
      refine hf.acyclic.addEdge (a := pid) (b := id) (fun x y hxy => ?_) fun hreach => ?_
      · rcases parentOf_updatedRows hxy with hxy | ⟨hx, hy⟩
        · exact Or.inl hxy
        · rw [hreq] at hx
          exact Or.inr ⟨(Option.some.inj hx).symm, hy⟩
      · rcases reflTransGen_iff_eq_or_transGen.mp hreach with rfl | hpath
        · -- the agent itself is refused as its parent, or was it already
          unfold NewDepth at hdepth
          rw [hreq] at hdepth
          rcases hdepth with ⟨hsame, -⟩ | ⟨-, hne, -⟩
          · exact hf.acyclic pid (.single ⟨existing, hmem, hexid, hsame.symm⟩)
          · exact hne hexid.symm
        · exact hcond pid hreq hpath

theorem Forest.filter (hf : Forest s.agents) {id : Int}
    (hleaf : ∀ a ∈ s.agents, a.parentAgentId ≠ some id) :
    Forest (s.agents.filter fun a => a.id ≠ id) := by
  refine ⟨fun a ha p hp => ?_, hf.acyclic.mono ?_⟩
  · have hmem := (List.mem_filter.mp ha).1
    obtain ⟨b, hb, rfl⟩ := hf.parentStored a hmem p hp
    refine ⟨b, List.mem_filter.mpr ⟨hb, ?_⟩, rfl⟩
    have hne : b.id ≠ id := fun hbid => hleaf a hmem (hbid ▸ hp)
    simpa using hne
  · rintro x y ⟨a, ha, hay, hax⟩
    exact ⟨a, (List.mem_filter.mp ha).1, hay, hax⟩

theorem Forest.step {dep : Deployment} {op : Op} {s s' : Store} {r : Except Failure Unit}
    (hs : Keyed s) (hf : Forest s.agents) (hcond : NotUnderDescendant s op)
    (h : (op.service dep).Runs s r s') : Forest s'.agents := by
  cases op with
  | create actorRole req =>
    obtain ⟨_, h⟩ := runs_discard h
    rcases create_step h with ⟨hrows, -⟩ | ⟨row, htable, hid, hparent, hdepth⟩
    · exact hrows ▸ hf
    rw [(Prod.mk.inj htable).1]
    refine hf.append hs hid fun p hp => ?_
    rw [← hparent, hp] at hdepth
    obtain ⟨b, hb, -⟩ := hdepth
    exact ⟨b, mem_of_agent? hb⟩
  | update actorRole id req =>
    obtain ⟨_, h⟩ := runs_discard h
    rcases update_step h with ⟨hrows, -⟩ | ⟨existing, newDepth, now, hex, hdepth, htable⟩
    · exact hrows ▸ hf
    rw [(Prod.mk.inj htable).1]
    exact hf.update hex hdepth hcond
  | delete id =>
    rcases delete_step h with ⟨hrows, -⟩ | ⟨hleaf, htable⟩
    · exact hrows ▸ hf
    rw [(Prod.mk.inj htable).1]
    exact hf.filter hleaf

theorem Reach.forest {dep : Deployment} {s₀ : Store} (hempty : s₀.agents = [])
    (h : Reach dep NotUnderDescendant s₀ s) : Keyed s ∧ Forest s.agents := by
  induction h with
  | start =>
    refine ⟨⟨?_, ?_⟩, ?_⟩
    · rw [hempty]
      exact List.nodup_nil
    · rw [hempty]
      exact fun a ha => absurd ha List.not_mem_nil
    · rw [hempty]
      exact Forest.nil
  | step _ hcond hrun ih => exact ⟨ih.1.step hrun, ih.2.step ih.1 hcond hrun⟩

end HiveClaw.Agents
