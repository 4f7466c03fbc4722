import HiveClaw.Agents.Service

/-!
# What an operation can do to the table of agents

One inversion lemma for each operation of `Agents.Service`: whatever the
database answers, a run of the operation either leaves the table alone or
makes exactly one change to it.

* `create_step` — one row more, under a fresh id, at the depth below its
  parent;
* `update_step` — the rows with the given id replaced by their updated ones,
  after the lookups `update` makes;
* `delete_step` — the rows with the given id gone, when no row refers to it.

`Op` and `Reach` are the sequences of operations, with a condition that every
step has to meet.
-/

namespace HiveClaw.Agents

open Service

/-! ## The parts that only read -/

section Reads

variable {γ : Type} {f : Store → γ}

theorem keeps_fetchDetail (id : Int) : Keeps f (fetchDetail id) :=
  keeps_bind (keeps_query _ _) fun _ =>
    keeps_bind (keeps_okOr _ _) fun _ =>
      keeps_bind (keeps_query _ _) fun _ =>
        keeps_bind (keeps_query _ _) fun _ =>
          keeps_bind (keeps_query _ _) fun _ => keeps_pure _

theorem keeps_childDepth (pid : Int) : Keeps f (childDepth pid) :=
  keeps_bind (keeps_query _ _) fun _ =>
    keeps_bind (keeps_okOr _ _) fun _ =>
      keeps_bind (keeps_failIf _ _) fun _ => keeps_pure _

theorem keeps_createDepth (parent : Option Int) : Keeps f (createDepth parent) := by
  cases parent with
  | none => exact keeps_pure _
  | some pid => exact keeps_childDepth pid

theorem keeps_updateDepth (existing : Agent) (req : UpdateMeta) :
    Keeps f (updateDepth existing req) := by
  unfold updateDepth
  split
  · split
    · split
      · exact keeps_fail _
      · exact keeps_bind (keeps_childDepth _) fun _ => keeps_pure _
    · exact keeps_pure _
  · exact keeps_pure _

end Reads

/-- `d` is the depth of an agent directly below `parent`, within the limit. -/
def DepthBelow (s : Store) (parent : Option Int) (d : Int) : Prop :=
  match parent with
  | none => d = 0
  | some pid => ∃ p, s.agent? pid = some p ∧ d = p.depth + 1 ∧ d ≤ maxDepth

variable {d : Int} {s s' : Store}

theorem runs_childDepth_ok {pid : Int} (h : (childDepth pid).Runs s (.ok d) s') :
    DepthBelow s (some pid) d := by
  rcases runs_bind_iff.mp h with ⟨e, -, he⟩ | ⟨p, s₁, hq, h⟩
  · cases he
  obtain ⟨rfl, rfl⟩ := runs_query_ok hq
  rcases runs_bind_iff.mp h with ⟨e, -, he⟩ | ⟨parentDepth, s₂, hok, h⟩
  · cases he
  have hp := runs_okOr_ok hok
  rcases runs_bind_iff.mp h with ⟨e, -, he⟩ | ⟨_, s₃, hfail, h⟩
  · cases he
  have hmax := runs_failIf_ok hfail
  obtain ⟨hd, -⟩ := runs_pure_iff.mp h
  obtain ⟨row, hrow, rfl⟩ := Option.map_eq_some_iff.mp hp
  cases hd
  exact ⟨row, hrow, rfl, by omega⟩

theorem runs_createDepth_ok {parent : Option Int} (h : (createDepth parent).Runs s (.ok d) s') :
    DepthBelow s parent d := by
  cases parent with
  | none =>
    obtain ⟨hd, -⟩ := runs_pure_iff.mp h
    exact Except.ok.inj hd
  | some pid => exact runs_childDepth_ok h

/-- What `update` finds out about the new parent: nothing if the request
names none or the old one. -/
def NewDepth (s : Store) (existing : Agent) (req : UpdateMeta) (newDepth : Option Int) : Prop :=
  match req.parentAgentId with
  | none => newDepth = none
  | some pid =>
    (some pid = existing.parentAgentId ∧ newDepth = none) ∨
      (some pid ≠ existing.parentAgentId ∧ pid ≠ existing.id ∧
        ∃ d, newDepth = some d ∧ DepthBelow s (some pid) d)

variable {req : UpdateMeta} {newDepth : Option Int}

theorem runs_updateDepth_ok {existing : Agent}
    (h : (updateDepth existing req).Runs s (.ok newDepth) s') :
    NewDepth s existing req newDepth := by
  unfold updateDepth at h
  unfold NewDepth
  cases hparent : req.parentAgentId with
  | none =>
    simp only [hparent] at h
    exact Except.ok.inj (runs_pure_iff.mp h).1
  | some pid =>
    simp only [hparent] at h
    by_cases hsame : some pid = existing.parentAgentId
    · rw [if_neg (not_not.mpr hsame)] at h
      exact Or.inl ⟨hsame, Except.ok.inj (runs_pure_iff.mp h).1⟩
    · rw [if_pos hsame] at h
      by_cases hself : pid = existing.id
      · rw [if_pos hself] at h
        exact absurd (runs_fail_iff.mp h).1 (by simp)
      · rw [if_neg hself] at h
        rcases runs_bind_iff.mp h with ⟨e, -, he⟩ | ⟨d, s₁, hd, h⟩
        · cases he
        have hnew := Except.ok.inj (runs_pure_iff.mp h).1
        exact Or.inr ⟨hsame, hself, d, hnew, runs_childDepth_ok hd⟩

/-! ## The parts that write -/

/-- The rows of the table and its counter. -/
def table (s : Store) : List Agent × Int := (s.agents, s.agentsAutoIncrement)

@[simp] theorem table_insertTool (id : Int) (s : Store) (toolId : Int) :
    table (insertTool id s toolId) = table s := by
  unfold insertTool
  split <;> rfl

@[simp] theorem table_insertSkill (id : Int) (s : Store) (skillId : Int) :
    table (insertSkill id s skillId) = table s := by
  unfold insertSkill
  split <;> rfl

@[simp] theorem table_insertPermission (mysql : Mysql) (id : Int) (s : Store) (c : String) :
    table (insertPermission mysql id s c) = table s := by
  unfold insertPermission
  split <;> rfl

variable {β : Type}

theorem table_foldl {f : Store → β → Store} (hf : ∀ s b, table (f s b) = table s) (bs : List β)
    (s : Store) : table (bs.foldl f s) = table s := by
  induction bs generalizing s with
  | nil => rfl
  | cons b bs ih => rw [List.foldl_cons, ih, hf]

theorem table_replaceTools (id : Int) (ids : List Int) (s : Store) :
    table (replaceTools id ids s) = table s :=
  table_foldl (table_insertTool id) ids _

theorem table_replaceSkills (id : Int) (ids : List Int) (s : Store) :
    table (replaceSkills id ids s) = table s :=
  table_foldl (table_insertSkill id) ids _

theorem table_replacePermissions (mysql : Mysql) (id : Int) (ps : List String) (s : Store) :
    table (replacePermissions mysql id ps s) = table s :=
  table_foldl (table_insertPermission mysql id) ps _

def CounterGrows (s s' : Store) : Prop := s.agentsAutoIncrement ≤ s'.agentsAutoIncrement

theorem CounterGrows.refl (s : Store) : CounterGrows s s := Int.le_refl _

theorem CounterGrows.trans {a b c : Store} (hab : CounterGrows a b) (hbc : CounterGrows b c) :
    CounterGrows a c := Int.le_trans hab hbc

theorem CounterGrows.of_table (h : table s' = table s) : CounterGrows s s' := by
  have hcount : s'.agentsAutoIncrement = s.agentsAutoIncrement := congrArg Prod.snd h
  exact Int.le_of_eq hcount.symm

variable {α : Type}

theorem counterGrows_bind {m : Tx α} {f : α → Tx β} (hm : Tx.Steps CounterGrows m)
    (hf : ∀ a, Tx.Steps CounterGrows (f a)) : Tx.Steps CounterGrows (m >>= f) :=
  Tx.steps_bind (R := CounterGrows) (fun _ _ _ hab hbc => hab.trans hbc) hm hf

theorem counterGrows_check (r : Except Failure α) : Tx.Steps CounterGrows (Tx.check r) :=
  Tx.steps_check CounterGrows.refl r

theorem createTx_counter (dep : Deployment) (req : CreateMeta) (depth : Int) (i : Input) :
    Tx.Steps CounterGrows (createTx dep req depth i) := by
  refine counterGrows_bind (counterGrows_check _) fun _ => ?_
  refine counterGrows_bind (Tx.steps_modifyGet fun s => ?_) fun id => ?_
  · show s.agentsAutoIncrement ≤ s.agentsAutoIncrement + 1
    omega
  refine counterGrows_bind (Tx.steps_get CounterGrows.refl) fun s => ?_
  refine counterGrows_bind (counterGrows_check _) fun _ => ?_
  refine counterGrows_bind (counterGrows_check _) fun _ => ?_
  refine counterGrows_bind (counterGrows_check _) fun _ => ?_
  refine counterGrows_bind (Tx.steps_modify fun s => CounterGrows.refl s) fun _ => ?_
  refine counterGrows_bind (counterGrows_check _) fun _ => ?_
  refine counterGrows_bind (Tx.steps_modify fun s => ?_) fun _ => ?_
  · exact .of_table (table_foldl (table_insertTool id) _ s)
  refine counterGrows_bind (counterGrows_check _) fun _ => ?_
  refine counterGrows_bind (Tx.steps_modify fun s => ?_) fun _ => ?_
  · exact .of_table (table_foldl (table_insertSkill id) _ s)
  refine counterGrows_bind (counterGrows_check _) fun _ => ?_
  refine counterGrows_bind (Tx.steps_modify fun s => ?_) fun _ => ?_
  · exact .of_table (table_foldl (table_insertPermission dep.mysql id) _ s)
  exact counterGrows_bind (counterGrows_check _) fun _ => Tx.steps_pure CounterGrows.refl _

variable {dep : Deployment} {i : Input}

theorem createTx_ok {req : CreateMeta} {depth id : Int}
    (h : (createTx dep req depth i).run s = (.ok id, s')) :
    ∃ row : Agent, table s' = (s.agents ++ [row], s.agentsAutoIncrement + 1) ∧
      row.id = s.agentsAutoIncrement ∧ row.parentAgentId = req.parentAgentId ∧
      row.depth = depth := by
  obtain ⟨_, -, k₁⟩ := Tx.run_bind_check_ok h
  obtain ⟨newId, s₁, hid, k₂⟩ := Tx.run_bind_ok_iff.mp k₁
  obtain ⟨rfl, rfl⟩ := Tx.run_modifyGet_ok_iff.mp hid
  obtain ⟨_, s₂, hget, k₃⟩ := Tx.run_bind_ok_iff.mp k₂
  obtain ⟨rfl, rfl⟩ := Tx.run_get_ok_iff.mp hget
  obtain ⟨_, -, k₄⟩ := Tx.run_bind_check_ok k₃
  obtain ⟨_, -, k₅⟩ := Tx.run_bind_check_ok k₄
  obtain ⟨_, -, k₆⟩ := Tx.run_bind_check_ok k₅
  obtain ⟨_, s₃, hrow, k₇⟩ := Tx.run_bind_ok_iff.mp k₆
  rw [Tx.run_modify_ok_iff] at hrow
  -- the row is in; what follows writes to the association tables
  obtain ⟨_, -, k₈⟩ := Tx.run_bind_check_ok k₇
  obtain ⟨_, s₄, htools, k₉⟩ := Tx.run_bind_ok_iff.mp k₈
  rw [Tx.run_modify_ok_iff] at htools
  obtain ⟨_, -, k₁₀⟩ := Tx.run_bind_check_ok k₉
  obtain ⟨_, s₅, hskills, k₁₁⟩ := Tx.run_bind_ok_iff.mp k₁₀
  rw [Tx.run_modify_ok_iff] at hskills
  obtain ⟨_, -, k₁₂⟩ := Tx.run_bind_check_ok k₁₁
  obtain ⟨_, s₆, hperms, k₁₃⟩ := Tx.run_bind_ok_iff.mp k₁₂
  rw [Tx.run_modify_ok_iff] at hperms
  obtain ⟨_, -, k₁₄⟩ := Tx.run_bind_check_ok k₁₃
  obtain ⟨-, hend⟩ := Tx.run_pure_ok_iff.mp k₁₄
  have htable : table s' = table s₃ := by
    rw [hend, hperms, table_foldl (table_insertPermission dep.mysql _), hskills,
      table_foldl (table_insertSkill _), htools, table_foldl (table_insertTool _)]
  rw [htable, hrow]
  exact ⟨_, rfl, rfl, rfl, rfl⟩

variable {a : Unit}

theorem onSome_table {o : Option β} {w₁ w₂ : String} {f : β → Store → Store}
    (hf : ∀ b s, table (f b s) = table s) (h : (Tx.onSome o fun b => do
      Tx.check (i.check w₁)
      Tx.check (i.check w₂)
      modify (f b)).run s = (.ok a, s')) : table s' = table s := by
  cases o with
  | none =>
    obtain ⟨-, rfl⟩ := Tx.run_pure_ok_iff.mp h
    rfl
  | some b =>
    obtain ⟨_, -, k₁⟩ := Tx.run_bind_check_ok h
    obtain ⟨_, -, k₂⟩ := Tx.run_bind_check_ok k₁
    rw [Tx.run_modify_ok_iff.mp k₂]
    exact hf b _

theorem updateTx_ok {id : Int} (h : (updateTx dep id req newDepth i).run s = (.ok a, s')) :
    table s' = (updatedRows id req newDepth i.now s, s.agentsAutoIncrement) := by
  obtain ⟨_, -, k₁⟩ := Tx.run_bind_check_ok h
  obtain ⟨_, -, k₂⟩ := Tx.run_bind_check_ok k₁
  obtain ⟨_, s₁, hget, k₃⟩ := Tx.run_bind_ok_iff.mp k₂
  obtain ⟨rfl, rfl⟩ := Tx.run_get_ok_iff.mp hget
  obtain ⟨_, -, k₄⟩ := Tx.run_bind_check_ok k₃
  obtain ⟨_, s₂, hrows, k₅⟩ := Tx.run_bind_ok_iff.mp k₄
  rw [Tx.run_modify_ok_iff] at hrows
  obtain ⟨_, s₃, htools, k₆⟩ := Tx.run_bind_ok_iff.mp k₅
  obtain ⟨_, s₄, hskills, k₇⟩ := Tx.run_bind_ok_iff.mp k₆
  obtain ⟨_, s₅, hperms, k₈⟩ := Tx.run_bind_ok_iff.mp k₇
  obtain ⟨-, hend⟩ := Tx.run_check_ok_iff.mp k₈
  rw [hend, onSome_table (table_replacePermissions dep.mysql id) hperms,
    onSome_table (table_replaceSkills id) hskills, onSome_table (table_replaceTools id) htools,
    hrows]
  rfl

theorem updateTx_counter (dep : Deployment) (id : Int) (req : UpdateMeta)
    (newDepth : Option Int) (i : Input) :
    Tx.Steps CounterGrows (updateTx dep id req newDepth i) := by
  have hassoc : ∀ {β : Type} (o : Option β) {w₁ w₂ : String} {f : β → Store → Store},
      (∀ b s, table (f b s) = table s) → Tx.Steps CounterGrows (Tx.onSome o fun b => do
        Tx.check (i.check w₁)
        Tx.check (i.check w₂)
        modify (f b)) := by
    intro β o w₁ w₂ f hf
    refine Tx.steps_onSome CounterGrows.refl o fun b => ?_
    refine counterGrows_bind (counterGrows_check _) fun _ => ?_
    refine counterGrows_bind (counterGrows_check _) fun _ => ?_
    exact Tx.steps_modify fun s => .of_table (hf b s)
  refine counterGrows_bind (counterGrows_check _) fun _ => ?_
  refine counterGrows_bind (counterGrows_check _) fun _ => ?_
  refine counterGrows_bind (Tx.steps_get CounterGrows.refl) fun s => ?_
  refine counterGrows_bind (counterGrows_check _) fun _ => ?_
  refine counterGrows_bind (Tx.steps_modify fun s => CounterGrows.refl s) fun _ => ?_
  refine counterGrows_bind (hassoc _ (table_replaceTools id)) fun _ => ?_
  refine counterGrows_bind (hassoc _ (table_replaceSkills id)) fun _ => ?_
  exact counterGrows_bind (hassoc _ (table_replacePermissions dep.mysql id)) fun _ =>
    counterGrows_check _

variable {r : Except Failure Unit}

/-- The `DELETE` leaves the store alone, or no row refers to the deleted
ones. -/
theorem deleteRow_cases {id : Int} {what : String} (h : (execute what (deleteRow id)).Runs s r s') :
    s' = s ∨ ((∀ a ∈ s.agents, a.parentAgentId ≠ some id) ∧
      table s' = (s.agents.filter (fun a => a.id ≠ id), s.agentsAutoIncrement)) := by
  obtain ⟨i, -, rfl⟩ := runs_execute_iff.mp h
  unfold deleteRow
  split
  · exact Or.inl rfl
  · split
    · exact Or.inl rfl
    · rename_i hnone
      refine Or.inr ⟨fun a ha hparent => hnone ?_, rfl⟩
      exact List.any_eq_true.mpr ⟨a, ha, by simpa using hparent⟩

/-! ## The three operations -/

/-- The table is left alone; at most ids have been burnt. -/
def Unchanged (s s' : Store) : Prop := s'.agents = s.agents ∧ CounterGrows s s'

theorem Unchanged.refl (s : Store) : Unchanged s s := ⟨rfl, .refl s⟩

theorem Unchanged.of_table {s s' : Store} (h : table s' = table s) : Unchanged s s' :=
  ⟨congrArg Prod.fst h, .of_table h⟩

theorem keeps_table_invalidate (pid : Int) : Keeps table (invalidateContentCache pid) :=
  keeps_invalidateContentCache pid fun _ => rfl

variable {actorRole : Int}

/-- **Creation.** The table is left alone or gets one row more: under the
counter's value, below the requested parent and one deeper than it. -/
theorem create_step {req : CreateMeta} {r : Except Failure AgentDetail}
    (h : (create dep actorRole req).Runs s r s') :
    Unchanged s s' ∨
      ∃ row : Agent, table s' = (s.agents ++ [row], s.agentsAutoIncrement + 1) ∧
        row.id = s.agentsAutoIncrement ∧ row.parentAgentId = req.parentAgentId ∧
        DepthBelow s req.parentAgentId row.depth := by
  rcases runs_bind_readOnly (keeps_lift _) h with ⟨rfl, -⟩ | ⟨_, -, k₁⟩
  · exact Or.inl (.refl _)
  rcases runs_bind_readOnly (keeps_lift _) k₁ with ⟨rfl, -⟩ | ⟨_, -, k₂⟩
  · exact Or.inl (.refl _)
  rcases runs_bind_readOnly (keeps_createDepth _) k₂ with ⟨rfl, -⟩ | ⟨depth, hdepth, k₃⟩
  · exact Or.inl (.refl _)
  rcases runs_bind_iff.mp k₃ with ⟨e, htx, -⟩ | ⟨newId, s₁, htx, k₄⟩
  · -- the transaction failed
    rcases runs_transaction htx with ⟨i, a, -, he⟩ | ⟨i, e', s₂, hbody, -, rfl⟩
    · cases he
    · have hcount := createTx_counter dep req depth i s
      rw [hbody] at hcount
      exact Or.inl ⟨rfl, hcount⟩
  · rcases runs_transaction htx with ⟨i, a, hbody, -⟩ | ⟨i, e', s₂, -, he, -⟩
    · obtain ⟨row, htable, hid, hparent, hrow⟩ := createTx_ok hbody
      have hrest : table s' = table s₁ :=
        keeps_bind (keeps_onSome _ keeps_table_invalidate) (fun _ => keeps_fetchDetail newId) k₄
      exact Or.inr ⟨row, hrest.trans htable, hid, hparent, hrow ▸ runs_createDepth_ok hdepth⟩
    · cases he

/-- **Update.** The table is left alone, or the rows with the given id are
replaced by their updated ones after the lookups have succeeded. -/
theorem update_step {id : Int} {r : Except Failure AgentDetail}
    (h : (update dep actorRole id req).Runs s r s') :
    Unchanged s s' ∨
      ∃ existing newDepth now, s.agent? id = some existing ∧
        NewDepth s existing req newDepth ∧
        table s' = (updatedRows id req newDepth now s, s.agentsAutoIncrement) := by
  rcases runs_bind_readOnly (keeps_query _ _) h with ⟨rfl, -⟩ | ⟨found, hfound, k₁⟩
  · exact Or.inl (.refl _)
  obtain ⟨rfl, -⟩ := runs_query_ok hfound
  rcases runs_bind_readOnly (keeps_okOr _ _) k₁ with ⟨rfl, -⟩ | ⟨existing, hex, k₂⟩
  · exact Or.inl (.refl _)
  rcases runs_bind_readOnly (keeps_failIf _ _) k₂ with ⟨rfl, -⟩ | ⟨_, -, k₃⟩
  · exact Or.inl (.refl _)
  rcases runs_bind_readOnly (keeps_lift _) k₃ with ⟨rfl, -⟩ | ⟨_, -, k₄⟩
  · exact Or.inl (.refl _)
  rcases runs_bind_readOnly (keeps_onSome _ fun _ => keeps_lift _) k₄ with
    ⟨rfl, -⟩ | ⟨_, -, k₅⟩
  · exact Or.inl (.refl _)
  rcases runs_bind_readOnly (keeps_updateDepth _ _) k₅ with ⟨rfl, -⟩ | ⟨newDepth, hdepth, k₆⟩
  · exact Or.inl (.refl _)
  have hlock : Keeps (fun s => s) (OptimisticLock.checkAndBump "agents" id
      (fun s => (s.agent? id).map Agent.updatedAt) req.updatedAt) :=
    fun _ _ _ hrun => OptimisticLock.runs_checkAndBump hrun
  rcases runs_bind_readOnly hlock k₆ with ⟨rfl, -⟩ | ⟨_, -, k₇⟩
  · exact Or.inl (.refl _)
  rcases runs_bind_iff.mp k₇ with ⟨e, htx, -⟩ | ⟨_, s₁, htx, k₈⟩
  · -- the transaction failed
    rcases runs_transaction htx with ⟨i, a, -, he⟩ | ⟨i, e', s₂, hbody, -, rfl⟩
    · cases he
    · have hcount := updateTx_counter dep id req newDepth i s
      rw [hbody] at hcount
      exact Or.inl ⟨rfl, hcount⟩
  · rcases runs_transaction htx with ⟨i, a, hbody, -⟩ | ⟨i, e', s₂, -, he, -⟩
    · have hrest : table s' = table s₁ := by
        refine keeps_bind (keeps_table_invalidate id) (fun _ => ?_) k₈
        split
        · exact keeps_bind (keeps_onSome _ keeps_table_invalidate) fun _ =>
            keeps_bind (keeps_onSome _ keeps_table_invalidate) fun _ => keeps_fetchDetail id
        · exact keeps_fetchDetail id
      exact Or.inr ⟨existing, newDepth, i.now, runs_okOr_ok hex, runs_updateDepth_ok hdepth,
        hrest.trans (updateTx_ok hbody)⟩
    · cases he

/-- **Deletion.** The table is left alone, or the rows with the given id are
gone and no row referred to it. -/
theorem delete_step {id : Int} (h : (delete id).Runs s r s') :
    Unchanged s s' ∨
      ((∀ a ∈ s.agents, a.parentAgentId ≠ some id) ∧
        table s' = (s.agents.filter (fun a => a.id ≠ id), s.agentsAutoIncrement)) := by
  rcases runs_bind_readOnly (keeps_query _ _) h with ⟨rfl, -⟩ | ⟨_, -, k₁⟩
  · exact Or.inl (.refl _)
  rcases runs_bind_readOnly (keeps_okOr _ _) k₁ with ⟨rfl, -⟩ | ⟨existing, -, k₂⟩
  · exact Or.inl (.refl _)
  rcases runs_bind_readOnly (keeps_failIf _ _) k₂ with ⟨rfl, -⟩ | ⟨_, -, k₃⟩
  · exact Or.inl (.refl _)
  rcases runs_bind_readOnly (keeps_query _ _) k₃ with ⟨rfl, -⟩ | ⟨cnt, -, k₄⟩
  · exact Or.inl (.refl _)
  rcases runs_bind_readOnly (keeps_failIf _ _) k₄ with ⟨rfl, -⟩ | ⟨_, -, k₅⟩
  · exact Or.inl (.refl _)
  rcases runs_bind_iff.mp k₅ with ⟨e, hdel, -⟩ | ⟨_, s₁, hdel, k₆⟩
  · rcases deleteRow_cases hdel with rfl | hgone
    · exact Or.inl (.refl _)
    · exact Or.inr hgone
  · have hrest : table s' = table s₁ :=
      keeps_bind (keeps_table_invalidate id) (fun _ => keeps_onSome _ keeps_table_invalidate) k₆
    rcases deleteRow_cases hdel with rfl | ⟨hchild, htable⟩
    · exact Or.inl (.of_table hrest)
    · exact Or.inr ⟨hchild, hrest.trans htable⟩

/-! ## Sequences of operations -/

/-- An operation on agents with the role of the admin who requests it. -/
inductive Op where
  | create (actorRole : Int) (req : CreateMeta)
  | update (actorRole id : Int) (req : UpdateMeta)
  | delete (id : Int)

/-- The request an operation makes, its answer apart. -/
def Op.service (dep : Deployment) : Op → Service Unit
  | .create actorRole req => do let _ ← Agents.create dep actorRole req
  | .update actorRole id req => do let _ ← Agents.update dep actorRole id req
  | .delete id => Agents.delete id

/-- `Reach dep P s s'`: a sequence of operations, each of which meets `P` in
the store it starts from, leads from `s` to `s'`, whatever the database and
the clock do meanwhile. -/
inductive Reach (dep : Deployment) (P : Store → Op → Prop) (s : Store) : Store → Prop
  | start : Reach dep P s s
  | step {s₁ s₂ : Store} {op : Op} {r : Except Failure Unit} :
      Reach dep P s s₁ → P s₁ op → (op.service dep).Runs s₁ r s₂ → Reach dep P s s₂

theorem runs_discard {m : Service α} (h : Service.Runs (do let _ ← m) s r s') :
    ∃ r', m.Runs s r' s' := by
  rcases runs_bind_iff.mp h with ⟨e, hrun, -⟩ | ⟨a, s₁, hrun, hend⟩
  · exact ⟨_, hrun⟩
  · obtain ⟨-, rfl⟩ := runs_pure_iff.mp hend
    exact ⟨_, hrun⟩

/-! ## Executing a sequence -/

/-- Runs the operations one after the other, each with its own clock reading
and without database errors. -/
def runOps (dep : Deployment) : List (Op × DateTime) → Store → Store
  | [], s => s
  | (op, now) :: ops, s =>
    runOps dep ops ((op.service dep).exec (fun _ => Input.at now) s).2

/-- Every operation of the sequence meets `P` in the store it starts from. -/
def OpsMeet (dep : Deployment) (P : Store → Op → Prop) : List (Op × DateTime) → Store → Prop
  | [], _ => True
  | (op, now) :: ops, s =>
    P s op ∧ OpsMeet dep P ops ((op.service dep).exec (fun _ => Input.at now) s).2

variable {P : Store → Op → Prop}

theorem Reach.trans {s₁ s₂ s₃ : Store} (h₁ : Reach dep P s₁ s₂) (h₂ : Reach dep P s₂ s₃) :
    Reach dep P s₁ s₃ := by
  induction h₂ with
  | start => exact h₁
  | step _ hP hrun ih => exact .step ih hP hrun

theorem reach_runOps {ops : List (Op × DateTime)} (h : OpsMeet dep P ops s) :
    Reach dep P s (runOps dep ops s) := by
  induction ops generalizing s with
  | nil => exact .start
  | cons o ops ih =>
    obtain ⟨hP, hrest⟩ := h
    have hfirst : Reach dep P s ((o.1.service dep).exec (fun _ => Input.at o.2) s).2 :=
      .step .start hP (runs_exec _ _ _)
    exact hfirst.trans (ih hrest)

/-- A deployment without LLM presets. -/
def plainDeployment : Deployment := { presets := [], mysql := Mysql.plain }

end HiveClaw.Agents
