import HiveClaw.Agents.Forest

/-!
# The depth column

`depth` is stored with every agent. `create` and `update` compute it for the
row they write; an update that moves an agent to another level leaves the rows
below it as they were.

* `Depths` — roots have depth 0, every other agent is one deeper than its
  parent, and none is deeper than `MAX_DEPTH`;
* `KeepsLevel` — the condition on one operation: an update that changes the
  parent moves an agent without children, or moves it within its level;
* `depths_of_keepsLevel` — `Depths` holds in every store that operations
  meeting the condition reach from an empty table.
-/

namespace HiveClaw.Agents

open Service

structure Depths (s : Store) : Prop where
  root : ∀ a ∈ s.agents, a.parentAgentId = none → a.depth = 0
  child : ∀ a ∈ s.agents, ∀ p, a.parentAgentId = some p →
    ∃ b ∈ s.agents, b.id = p ∧ a.depth = b.depth + 1
  max : ∀ a ∈ s.agents, a.depth ≤ maxDepth

/-- The condition on an operation. An update that names another parent than
the agent's own moves a childless agent, or moves it below a parent that is
just as deep as the old one. -/
def KeepsLevel (s : Store) : Op → Prop
  | .update _ id req =>
    ∀ a pid, s.agent? id = some a → req.parentAgentId = some pid →
      a.parentAgentId ≠ some pid →
      (∀ b ∈ s.agents, b.parentAgentId ≠ some id) ∨
        ∃ p, s.agent? pid = some p ∧ p.depth + 1 = a.depth
  | _ => True

theorem Depths.append {s : Store} (hd : Depths s) {row : Agent}
    (hdepth : DepthBelow s row.parentAgentId row.depth) {rows : List Agent}
    (hrows : rows = s.agents ++ [row]) {s' : Store} (hs' : s'.agents = rows) : Depths s' := by
  have hmem : ∀ a, a ∈ s'.agents ↔ a ∈ s.agents ∨ a = row := by
    intro a
    rw [hs', hrows, List.mem_append, List.mem_singleton]
  refine ⟨fun a ha hroot => ?_, fun a ha p hp => ?_, fun a ha => ?_⟩
  · rcases (hmem a).mp ha with ha | rfl
    · exact hd.root a ha hroot
    · rw [hroot] at hdepth
      exact hdepth
  · rcases (hmem a).mp ha with ha | rfl
    · obtain ⟨b, hb, hbp, hab⟩ := hd.child a ha p hp
      exact ⟨b, (hmem b).mpr (Or.inl hb), hbp, hab⟩
    · rw [hp] at hdepth
      obtain ⟨b, hb, hab, -⟩ := hdepth
      obtain ⟨hbmem, hbid⟩ := mem_of_agent? hb
      exact ⟨b, (hmem b).mpr (Or.inl hbmem), hbid, hab⟩
  · rcases (hmem a).mp ha with ha | rfl
    · exact hd.max a ha
    · cases hparent : a.parentAgentId with
      | none =>
        rw [hparent] at hdepth
        have hzero : a.depth = 0 := hdepth
        unfold maxDepth
        omega
      | some pid =>
        rw [hparent] at hdepth
        obtain ⟨b, -, -, hmax⟩ := hdepth
        exact hmax

/-! ## Updates -/

section Update

variable {s : Store} {id : Int} {req : UpdateMeta} {existing : Agent} {newDepth : Option Int}
  {now : DateTime}

/-- An update either leaves parent and depth alone or puts its agent one below
another stored parent. -/
theorem updated_parent_depth (hdepth : NewDepth s existing req newDepth) {b : Agent}
    (hupd : Updated req newDepth existing b) :
    (b.parentAgentId = existing.parentAgentId ∧ b.depth = existing.depth) ∨
      ∃ pid p, req.parentAgentId = some pid ∧ existing.parentAgentId ≠ some pid ∧
        pid ≠ existing.id ∧ s.agent? pid = some p ∧ b.parentAgentId = some pid ∧
        b.depth = p.depth + 1 ∧ b.depth ≤ maxDepth := by
  obtain ⟨-, hparent, hb⟩ := hupd
  unfold NewDepth at hdepth
  cases hreq : req.parentAgentId with
  | none =>
    rw [hreq] at hdepth hparent
    rw [hdepth] at hb
    exact Or.inl ⟨hparent, hb⟩
  | some pid =>
    rw [hreq] at hdepth hparent
    rcases hdepth with ⟨hsame, hnone⟩ | ⟨hother, hself, d, hsome, p, hp, hd, hmax⟩
    · rw [hnone] at hb
      exact Or.inl ⟨hparent.trans hsame, hb⟩
    · rw [hsome] at hb
      have hbd : b.depth = d := hb
      exact Or.inr ⟨pid, p, rfl, fun h => hother h.symm, hself, hp, hparent, hbd.trans hd,
        hbd ▸ hmax⟩

theorem parent_row_kept (hd : Depths s) (hs : Keyed s) (hex : s.agent? id = some existing)
    (hdepth : NewDepth s existing req newDepth)
    (hcond : KeepsLevel s (.update 0 id req)) {a : Agent} (ha : a ∈ s.agents) {p : Int}
    (hp : a.parentAgentId = some p) :
    ∃ b ∈ updatedRows id req newDepth now s, b.id = p ∧ a.depth = b.depth + 1 := by
  obtain ⟨c, hc, hcp, hac⟩ := hd.child a ha p hp
  by_cases hpid : c.id = id
  · -- the parent is the updated agent: its depth does not change, since `a` is below it
    obtain ⟨b, hb, hupd⟩ := exists_updated req newDepth now hc hpid
    have hceq : c = existing := by
      have hfound := hs.agent?_eq hc
      rw [hpid, hex] at hfound
      exact (Option.some.inj hfound).symm
    subst hceq
    refine ⟨b, hb, hupd.id.trans hcp, ?_⟩
    rcases updated_parent_depth hdepth hupd with ⟨-, hsame⟩ |
      ⟨pid, q, hreq, hother, -, hq, -, hbq, -⟩
    · rw [hsame, hac]
    · rcases hcond c pid hex hreq hother with hleaf | ⟨q', hq', hlevel⟩
      · exact absurd (hp.trans (by rw [← hcp, hpid])) (hleaf a ha)
      · rw [hq] at hq'
        obtain rfl := Option.some.inj hq'
        rw [hbq, hlevel, hac]
  · exact ⟨c, mem_updatedRows_of_ne hc hpid, hcp, hac⟩

theorem Depths.update (hd : Depths s) (hs : Keyed s) (hex : s.agent? id = some existing)
    (hdepth : NewDepth s existing req newDepth) (hcond : KeepsLevel s (.update 0 id req))
    {s' : Store} (hrows : s'.agents = updatedRows id req newDepth now s) : Depths s' := by
  obtain ⟨hmem, hexid⟩ := mem_of_agent? hex
  -- an updated row comes from `existing`, the only row with the id
  have hfrom : ∀ b ∈ s'.agents, (b ∈ s.agents ∧ b.id ≠ id) ∨ Updated req newDepth existing b := by
    intro b hb
    rw [hrows] at hb
    rcases mem_updatedRows hb with hb | ⟨a, ha, hid, hupd⟩
    · exact Or.inl hb
    · have hfound := hs.agent?_eq ha
      rw [hid, hex] at hfound
      exact Or.inr (Option.some.inj hfound ▸ hupd)
  refine ⟨fun b hb hroot => ?_, fun b hb p hp => ?_, fun b hb => ?_⟩
  · rcases hfrom b hb with ⟨hb, -⟩ | hupd
    · exact hd.root b hb hroot
    · rcases updated_parent_depth hdepth hupd with ⟨hparent, hsame⟩ |
        ⟨pid, q, -, -, -, -, hparent, -⟩
      · rw [hsame]
        exact hd.root existing hmem (hparent ▸ hroot)
      · rw [hroot] at hparent
        cases hparent
  · rw [hrows]
    rcases hfrom b hb with ⟨hb, -⟩ | hupd
    · exact parent_row_kept hd hs hex hdepth hcond hb hp
    · rcases updated_parent_depth hdepth hupd with ⟨hparent, hsame⟩ |
        ⟨pid, q, -, -, hself, hq, hparent, hbq, -⟩
      · rw [hsame]
        exact parent_row_kept hd hs hex hdepth hcond hmem (hparent ▸ hp)
      · rw [hparent] at hp
        obtain rfl := Option.some.inj hp
        obtain ⟨hqmem, hqid⟩ := mem_of_agent? hq
        have hne : q.id ≠ id := fun h => hself (by rw [← hqid, h, hexid])
        exact ⟨q, mem_updatedRows_of_ne hqmem hne, hqid, hbq⟩
  · rcases hfrom b hb with ⟨hb, -⟩ | hupd
    · exact hd.max b hb
    · rcases updated_parent_depth hdepth hupd with ⟨-, hsame⟩ | ⟨_, _, -, -, -, -, -, -, hmax⟩
      · rw [hsame]
        exact hd.max existing hmem
      · exact hmax

end Update

/-! ## Runs -/

theorem Depths.step {dep : Deployment} {op : Op} {s s' : Store} {r : Except Failure Unit}
    (hs : Keyed s) (hd : Depths s) (hcond : KeepsLevel s op)
    (h : (op.service dep).Runs s r s') : Depths s' := by
  have hsame : Unchanged s s' → Depths s' := by
    rintro ⟨hrows, -⟩
    exact ⟨hrows ▸ hd.root, hrows ▸ hd.child, hrows ▸ hd.max⟩
  cases op with
  | create actorRole req =>
    obtain ⟨_, h⟩ := runs_discard h
    rcases create_step h with hunch | ⟨row, htable, -, hparent, hdepth⟩
    · exact hsame hunch
    · exact hd.append (hparent ▸ hdepth) rfl (Prod.mk.inj htable).1
  | update actorRole id req =>
    obtain ⟨_, h⟩ := runs_discard h
    rcases update_step h with hunch | ⟨existing, newDepth, now, hex, hdepth, htable⟩
    · exact hsame hunch
    · exact hd.update hs hex hdepth hcond (Prod.mk.inj htable).1
  | delete id =>
    rcases delete_step h with hunch | ⟨hleaf, htable⟩
    · exact hsame hunch
    have hmem : ∀ a, a ∈ s'.agents ↔ a ∈ s.agents ∧ a.id ≠ id := by
      intro a
      rw [(Prod.mk.inj htable).1, List.mem_filter, decide_eq_true_eq]
    refine ⟨fun a ha => hd.root a ((hmem a).mp ha).1, fun a ha p hp => ?_,
      fun a ha => hd.max a ((hmem a).mp ha).1⟩
    have ha' := ((hmem a).mp ha).1
    obtain ⟨b, hb, hbp, hab⟩ := hd.child a ha' p hp
    have hne : b.id ≠ id := fun h => hleaf a ha' (by rw [hp, ← hbp, h])
    exact ⟨b, (hmem b).mpr ⟨hb, hne⟩, hbp, hab⟩

/-- **Depths.** Along every sequence of operations that starts from an empty
table and in which an update that changes a parent moves a childless agent or
stays within the agent's level, roots have depth 0, every other agent is one
deeper than its parent, and no depth exceeds `MAX_DEPTH`. -/
theorem depths_of_keepsLevel {dep : Deployment} {s₀ s : Store} (hempty : s₀.agents = [])
    (h : Reach dep KeepsLevel s₀ s) : Depths s := by
  have hnone : ∀ a, a ∉ s₀.agents := by
    intro a ha
    rw [hempty] at ha
    cases ha
  suffices hinv : Keyed s ∧ Depths s from hinv.2
  induction h with
  | start =>
    refine ⟨⟨?_, fun a ha => absurd ha (hnone a)⟩, ⟨fun a ha => absurd ha (hnone a),
      fun a ha => absurd ha (hnone a), fun a ha => absurd ha (hnone a)⟩⟩
    rw [hempty]
    exact List.nodup_nil
  | step _ hcond hrun ih => exact ⟨ih.1.step hrun, ih.2.step ih.1 hcond hrun⟩

/-- A root, two agents below it, and one of these moved below the other. -/
def levelOps : List (Op × DateTime) :=
  [(.create 3 { identifier := "main", name := "Main", systemPrompt := "" }, 1000000),
   (.create 3 { identifier := "b", name := "B", systemPrompt := "",
                parentAgentId := some 1 }, 2000000),
   (.create 3 { identifier := "c", name := "C", systemPrompt := "",
                parentAgentId := some 1 }, 3000000),
   (.update 3 3 { parentAgentId := some 2, updatedAt := 3000000 }, 4000000)]

theorem depths_levelOps :
    (runOps plainDeployment levelOps {}).agents.map (fun a => (a.id, a.depth)) =
      [(1, 0), (2, 1), (3, 2)] ∧ Depths (runOps plainDeployment levelOps {}) := by
  refine ⟨by decide, @depths_of_keepsLevel plainDeployment {} _ rfl ?_⟩
  refine reach_runOps ⟨trivial, trivial, trivial, ?_, trivial⟩
  -- the moved agent has no children
  intro a pid _ _ _
  exact Or.inl (by decide)

/-- Two roots, an agent below the second, and the second root moved below the
first. -/
def staleOps : List (Op × DateTime) :=
  [(.create 3 { identifier := "main", name := "Main", systemPrompt := "" }, 1000000),
   (.create 3 { identifier := "b", name := "B", systemPrompt := "" }, 2000000),
   (.create 3 { identifier := "c", name := "C", systemPrompt := "",
                parentAgentId := some 2 }, 3000000),
   (.update 3 2 { parentAgentId := some 1, updatedAt := 2000000 }, 4000000)]

/-- The agent below the moved one keeps its old depth, that of its parent. -/
theorem depths_broken_by_staleOps :
    let s := runOps plainDeployment staleOps {}
    Reach plainDeployment (fun _ _ => True) {} s ∧
      s.agents.map (fun a => (a.id, a.parentAgentId, a.depth)) =
        [(1, none, 0), (2, some 1, 1), (3, some 2, 1)] ∧ ¬ Depths s := by
  refine ⟨reach_runOps ⟨trivial, trivial, trivial, trivial, trivial⟩, by decide, ?_⟩
  intro hd
  have hbad : ¬ ∀ a ∈ (runOps plainDeployment staleOps {}).agents, a.parentAgentId = some 2 →
      ∃ b ∈ (runOps plainDeployment staleOps {}).agents, b.id = 2 ∧ a.depth = b.depth + 1 := by
    decide
  exact hbad fun a ha hp => hd.child a ha 2 hp

end HiveClaw.Agents
