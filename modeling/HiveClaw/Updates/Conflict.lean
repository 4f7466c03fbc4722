import HiveClaw.Agents.Steps
import HiveClaw.Updates.Protocol

/-!
# Lost updates

Two requests on one row that carry the same `updated_at`. The lock compares
whole seconds and the row's time stamp moves only when a column changes, so
both requests get through when the first write comes after the second check,
falls into the second the client carries, or touches nothing but association
rows.

* `agent_unchecked`, `tool_unchecked`, `hook_unchecked` — the three services
  follow the protocol of `Lib.Guard`;
* `atMostOne_updates_iff` — exactly when at most one request succeeds.
-/

namespace HiveClaw.Updates

open Lib Service

/-! ## Agents -/

section Agent

/-- The statements of a transaction that do not raise a conflict. -/
def TxCalm {α : Type} (m : Tx α) : Prop := ∀ s, Calm (m.run s).1

variable {β : Type}

theorem txCalm_bind {α : Type} {m : Tx α} {f : α → Tx β} (hm : TxCalm m) (hf : ∀ a, TxCalm (f a)) :
    TxCalm (m >>= f) := by
  intro s
  have hstep := hm s
  show Calm ((ExceptT.bindCont f (m.run s).1 : StateM Store _) (m.run s).2).1
  rcases hx : m.run s with ⟨x, s'⟩
  rw [hx] at hstep
  cases x with
  | error e => exact calm_error hstep
  | ok a => exact hf a s'

variable {i : Input}

theorem txCalm_check {what : String} : TxCalm (Tx.check (i.check what)) := by
  intro s
  exact calm_check i what

theorem calm_checkRow (what : String) (s : Store) (a : Agent) :
    Calm (Agents.checkRow what s a) := by
  unfold Agents.checkRow
  split
  · exact calm_failure fun _ => nofun
  · split
    · exact calm_failure fun _ => nofun
    · exact calm_ok ()

theorem calm_forM_checkRow (what : String) (s : Store) (rows : List Agent) :
    Calm (rows.forM (Agents.checkRow what s)) := by
  induction rows with
  | nil => exact calm_ok ()
  | cons a rest ih =>
    have hfirst := calm_checkRow what s a
    show Calm (Agents.checkRow what s a >>= fun _ => rest.forM (Agents.checkRow what s))
    cases hres : Agents.checkRow what s a with
    | error e =>
      rw [hres] at hfirst
      exact hfirst
    | ok u => exact ih

theorem txCalm_modify (f : Store → Store) : TxCalm (modify f : Tx PUnit) := fun _ => calm_ok _

theorem txCalm_onSome (o : Option β) {f : β → Tx Unit} (hf : ∀ b, TxCalm (f b)) :
    TxCalm (Tx.onSome o f) := by
  cases o with
  | none => exact fun _ => calm_ok ()
  | some b => exact hf b

theorem txCalm_updateTx (dep : Agents.Deployment) (id : Int) (req : Agents.UpdateMeta)
    (newDepth : Option Int) (i : Input) : TxCalm (Agents.updateTx dep id req newDepth i) := by
  refine txCalm_bind txCalm_check fun _ => txCalm_bind txCalm_check fun _ => ?_
  refine txCalm_bind (fun _ => calm_ok _) fun s => ?_
  refine txCalm_bind (fun _ => calm_forM_checkRow _ _ _) fun _ => ?_
  refine txCalm_bind (txCalm_modify _) fun _ => ?_
  refine txCalm_bind (txCalm_onSome _ fun _ => ?_) fun _ => ?_
  · exact txCalm_bind txCalm_check fun _ => txCalm_bind txCalm_check fun _ => txCalm_modify _
  refine txCalm_bind (txCalm_onSome _ fun _ => ?_) fun _ => ?_
  · exact txCalm_bind txCalm_check fun _ => txCalm_bind txCalm_check fun _ => txCalm_modify _
  refine txCalm_bind (txCalm_onSome _ fun _ => ?_) fun _ => txCalm_check
  exact txCalm_bind txCalm_check fun _ => txCalm_bind txCalm_check fun _ => txCalm_modify _

variable {s s' : Store}

theorem agent_row_update (id : Int) (req : Agents.UpdateMeta) (newDepth : Option Int)
    (now : DateTime) (hrows : s'.agents = Agents.updatedRows id req newDepth now s) :
    row (.agent id) s' = row (.agent id) s ∨
      (row (.agent id) s').map (fun x => x.updatedAt.timestamp) = some now.timestamp := by
  have hkey : ∀ a, (Agents.touch now a (Agents.applyUpdate req newDepth a)).id = a.id := by
    intro a
    unfold Agents.touch
    split <;> rfl
  have hfind : s'.agent? id =
      (s.agent? id).map fun a => Agents.touch now a (Agents.applyUpdate req newDepth a) := by
    unfold Store.agent?
    rw [hrows]
    exact find?_map_update Agent.id id _ hkey s.agents
  rw [row_agent, row_agent, hfind]
  cases s.agent? id with
  | none => exact Or.inl rfl
  | some a =>
    by_cases hsame : Agents.applyUpdate req newDepth a = a
    · left
      simp [Agents.touch, hsame]
    · right
      simp [Agents.touch, hsame, Row.updatedAt]

theorem updateTx_rows {dep : Agents.Deployment} {id : Int} {req : Agents.UpdateMeta}
    {newDepth : Option Int} {a : Unit}
    (h : (Agents.updateTx dep id req newDepth i).run s = (.ok a, s')) :
    s'.agents = Agents.updatedRows id req newDepth i.now s :=
  (Prod.mk.inj (Agents.updateTx_ok h)).1

variable {t : Target}

theorem readsCalmly_childDepth (pid : Int) : ReadsCalmly t (Agents.childDepth pid) := by
  refine readsCalmly_bind (readsCalmly_query _ _) fun _ => ?_
  refine readsCalmly_bind (readsCalmly_okOr _ (calm_failure fun _ => nofun)) fun _ => ?_
  refine readsCalmly_bind (readsCalmly_failIf _ (calm_failure fun _ => nofun)) fun _ => ?_
  exact readsCalmly_pure _

theorem readsCalmly_updateDepth (existing : Agent) (req : Agents.UpdateMeta) :
    ReadsCalmly t (Agents.updateDepth existing req) := by
  unfold Agents.updateDepth
  split
  · split
    · split
      · exact readsCalmly_throw (calm_failure fun _ => nofun)
      · exact readsCalmly_bind (readsCalmly_childDepth _) fun _ => readsCalmly_pure _
    · exact readsCalmly_pure _
  · exact readsCalmly_pure _

theorem readsCalmly_fetchDetail (id : Int) : ReadsCalmly t (Agents.fetchDetail id) := by
  refine readsCalmly_bind (readsCalmly_query _ _) fun _ => ?_
  refine readsCalmly_bind (readsCalmly_okOr _ (calm_failure fun _ => nofun)) fun _ => ?_
  refine readsCalmly_bind (readsCalmly_query _ _) fun _ => ?_
  refine readsCalmly_bind (readsCalmly_query _ _) fun _ => ?_
  refine readsCalmly_bind (readsCalmly_query _ _) fun _ => readsCalmly_pure _

theorem readsCalmly_checkModelPreset (dep : Agents.Deployment) (p : Option String) :
    ReadsCalmly t (lift (Agents.checkModelPreset dep p)) := by
  refine readsCalmly_lift fun e he => calm_failure fun m hm => ?_
  unfold Agents.checkModelPreset at he
  split at he
  · cases he
  · split at he
    · cases he
    · rw [hm] at he
      cases he

theorem readsCalmly_checkDangerousPermissions (ps : List String) (role : Int) :
    ReadsCalmly t (lift (Agents.checkDangerousPermissions ps role)) := by
  refine readsCalmly_lift fun e he => calm_failure fun m hm => ?_
  unfold Agents.checkDangerousPermissions at he
  split at he
  · rw [hm] at he
    cases he
  · split at he
    · rw [hm] at he
      cases he
    · cases he

/-- **Agents.** `agent::update` follows the protocol. -/
theorem agent_unchecked (dep : Agents.Deployment) (actorRole id : Int)
    (req : Agents.UpdateMeta) :
    (guard Agents.AgentDetail (.agent id) req.updatedAt).Unchecked
      (Agents.update dep actorRole id req).run := by
  refine unchecked_bind (readsCalmly_query _ _) fun _ => ?_
  refine unchecked_bind (readsCalmly_okOr _ (calm_failure fun _ => nofun)) fun existing => ?_
  refine unchecked_bind (readsCalmly_failIf _ (calm_failure fun _ => nofun)) fun _ => ?_
  refine unchecked_bind (readsCalmly_checkModelPreset dep _) fun _ => ?_
  refine unchecked_bind (readsCalmly_onSome _ fun ps =>
    readsCalmly_checkDangerousPermissions ps actorRole) fun _ => ?_
  refine unchecked_bind (readsCalmly_updateDepth existing req) fun newDepth => ?_
  refine unchecked_checkAndBump (t := .agent id) (fun s => ?_) (by rintro ⟨_, h⟩; cases h)
    fun _ => ?_
  · simp only [row_agent, Option.map_map]
    rfl
  -- the transaction is the write
  refine checked_write (t := .agent id) (by simp [rowWrites]) (fun i s => ?_) (fun i s => ?_)
    fun _ => ?_
  · rcases hbody : (Agents.updateTx dep id req newDepth i).run s with ⟨x, s'⟩
    cases x with
    | error e => exact Or.inl rfl
    | ok a => exact agent_row_update id req newDepth i.now (updateTx_rows hbody)
  · have hcalm := txCalm_updateTx dep id req newDepth i s
    rcases hbody : (Agents.updateTx dep id req newDepth i).run s with ⟨x, s'⟩
    rw [hbody] at hcalm
    cases x with
    | error e => exact hcalm
    | ok a => exact hcalm
  refine runsCalmly_bind (runsCalmly_invalidateContentCache id) fun _ => ?_
  split
  · refine runsCalmly_bind (runsCalmly_onSome _ runsCalmly_invalidateContentCache) fun _ => ?_
    refine runsCalmly_bind (runsCalmly_onSome _ runsCalmly_invalidateContentCache) fun _ => ?_
    exact (readsCalmly_fetchDetail id).runs
  · exact (readsCalmly_fetchDetail id).runs

end Agent

/-! ## Tools -/

section Tool

theorem tool_row_update (id : Int) (f : Tool → Tool) (hf : ∀ t, (f t).id = t.id)
    (now : DateTime) {s s' : Store}
    (hrows : s'.tools =
      s.tools.map fun t => if t.id = id then Tools.touch now t (f t) else t) :
    row (.tool id) s' = row (.tool id) s ∨
      (row (.tool id) s').map (fun x => x.updatedAt.timestamp) = some now.timestamp := by
  have hkey : ∀ t, (Tools.touch now t (f t)).id = t.id := by
    intro t
    unfold Tools.touch
    split
    · rfl
    · exact hf t
  have hfind : s'.tool? id = (s.tool? id).map fun t => Tools.touch now t (f t) := by
    unfold Store.tool?
    rw [hrows]
    exact find?_map_update Tool.id id _ hkey s.tools
  rw [row_tool, row_tool, hfind]
  cases s.tool? id with
  | none => exact Or.inl rfl
  | some t =>
    by_cases hsame : f t = t
    · left
      simp [Tools.touch, hsame]
    · right
      simp [Tools.touch, hsame, Row.updatedAt]

variable {t : Target}

theorem readsCalmly_fetchById (id : Int) : ReadsCalmly t (Tools.fetchById id) :=
  readsCalmly_bind (readsCalmly_query _ _) fun _ =>
    readsCalmly_okOr _ (calm_failure fun _ => nofun)

theorem readsCalmly_fetchToolWithTags (id : Int) : ReadsCalmly t (Tools.fetchToolWithTags id) := by
  refine readsCalmly_bind (readsCalmly_fetchById id) fun _ => ?_
  exact readsCalmly_bind (readsCalmly_query _ _) fun _ => readsCalmly_pure _

theorem readsCalmly_checkRequired (wfInput toolInput : Json) (fields : List Json) :
    ReadsCalmly t (lift (Tools.checkRequired wfInput toolInput fields)) := by
  refine readsCalmly_lift fun e he => calm_failure fun m hm => ?_
  subst hm
  induction fields with
  | nil => cases he
  | cons r rest ih =>
    unfold Tools.checkRequired at he
    split at he
    · exact ih he
    · dsimp only at he
      split at he
      · cases he
      · split at he
        · cases he
        · exact ih he

theorem readsCalmly_validateSchemas (existing : Tool) (req : Tools.UpdateMeta) :
    ReadsCalmly t (Tools.validateSchemas existing req) := by
  have hpanic : ∀ m : String, Calm (.error (.panic m) : Except Failure Unit) := by
    rintro m ⟨_, h⟩
    cases h
  unfold Tools.validateSchemas
  dsimp only
  split
  · split
    · split
      · refine readsCalmly_bind (readsCalmly_query _ _) fun _ => ?_
        refine readsCalmly_bind (readsCalmly_okOr _ (calm_failure fun _ => nofun)) fun _ => ?_
        refine readsCalmly_bind (readsCalmly_failIf _ (calm_failure fun _ => nofun)) fun _ => ?_
        exact readsCalmly_failIf _ (calm_failure fun _ => nofun)
      · exact readsCalmly_throw (hpanic _)
    · split
      · split
        · refine readsCalmly_bind (readsCalmly_query _ _) fun _ => ?_
          refine readsCalmly_bind (readsCalmly_okOr _ (calm_failure fun _ => nofun)) fun _ => ?_
          refine readsCalmly_bind (readsCalmly_okOr _ (calm_failure fun _ => nofun)) fun _ => ?_
          exact readsCalmly_checkRequired _ _ _
        · exact readsCalmly_throw (hpanic _)
      · exact readsCalmly_pure ()
  · exact readsCalmly_pure ()

theorem runsCalmly_insertTaggings (id : Int) (tags : List Int) :
    RunsCalmly (.tool id) (Tools.insertTaggings id tags) := by
  induction tags with
  | nil => exact (readsCalmly_pure ()).runs
  | cons tagId rest ih =>
    refine runsCalmly_bind (runsCalmly_execute (by simp [rowWrites]) ?_ ?_) fun _ => ih
    · intro i s
      split
      · rfl
      · split <;> rfl
    · intro i s
      have hcheck := calm_check i "tool tag insert"
      split
      · rename_i e he
        rw [he] at hcheck
        exact hcheck
      · split <;> exact calm_ok ()

theorem runsCalmly_replaceTags (id : Int) (tagIds : Option (List Int)) :
    RunsCalmly (.tool id) (Tools.replaceTags id tagIds) := by
  refine runsCalmly_onSome _ fun tags => ?_
  refine runsCalmly_bind (runsCalmly_execute (by simp [rowWrites]) ?_ ?_) fun _ =>
    runsCalmly_insertTaggings id tags
  · intro i s
    split <;> rfl
  · intro i s
    have hcheck := calm_check i "tag clear"
    split
    · rename_i e he
      rw [he] at hcheck
      exact hcheck
    · exact calm_ok ()

theorem checked_updateRow {id : Int} {u : DateTime} {what : String} {f : Tool → Tool}
    {k : Unit → Service Tools.ToolListItem} (hwhat : what ∈ rowWrites (.tool id))
    (hf : ∀ t, (f t).id = t.id) (hk : ∀ a, RunsCalmly (.tool id) (k a)) :
    (guard Tools.ToolListItem (.tool id) u).Checked (Tools.updateRow what id f >>= k).run := by
  refine checked_write (t := .tool id) hwhat (fun i s => ?_) (fun i s => ?_) hk
  · split
    · exact Or.inl rfl
    · exact tool_row_update id f hf i.now rfl
  · have hcheck := calm_check i what
    split
    · rename_i e he
      rw [he] at hcheck
      exact hcheck
    · exact calm_ok ()

/-- **Tools.** `tool::update` follows the protocol. -/
theorem tool_unchecked (mysql : Mysql) (id : Int) (req : Tools.UpdateMeta) :
    (guard Tools.ToolListItem (.tool id) req.updatedAt).Unchecked
      (Tools.update mysql id req).run := by
  have hrest : ∀ a : Unit, RunsCalmly (.tool id) (do
      Tools.replaceTags id req.tagIds
      Tools.fetchToolWithTags id) := fun _ =>
    runsCalmly_bind (runsCalmly_replaceTags id req.tagIds) fun _ =>
      (readsCalmly_fetchToolWithTags id).runs
  refine unchecked_checkAndBump (t := .tool id) (fun s => ?_) (by rintro ⟨_, h⟩; cases h)
    fun _ => ?_
  · simp only [row_tool, Option.map_map]
    rfl
  refine checked_bind (readsCalmly_fetchById id).runs fun existing => ?_
  split
  · refine checked_bind (readsCalmly_failIf _ (calm_failure (by simp))).runs fun _ => ?_
    exact checked_updateRow (by simp [rowWrites]) (fun _ => rfl) hrest
  · refine checked_bind (readsCalmly_validateSchemas existing req).runs fun _ => ?_
    exact checked_updateRow (by simp [rowWrites]) (fun _ => rfl) hrest

end Tool

/-! ## Hooks -/

section Hook

theorem hook_row_update (id : Int) (f : AgentHook → AgentHook) (hf : ∀ h, (f h).id = h.id)
    (now : DateTime) {s s' : Store}
    (hrows : s'.agentHooks =
      s.agentHooks.map fun h => if h.id = id then Hooks.touch now h (f h) else h) :
    row (.hook id) s' = row (.hook id) s ∨
      (row (.hook id) s').map (fun x => x.updatedAt.timestamp) = some now.timestamp := by
  have hkey : ∀ h, (Hooks.touch now h (f h)).id = h.id := by
    intro h
    unfold Hooks.touch
    split
    · rfl
    · exact hf h
  have hfind : s'.agentHook? id = (s.agentHook? id).map fun h => Hooks.touch now h (f h) := by
    unfold Store.agentHook?
    rw [hrows]
    exact find?_map_update AgentHook.id id _ hkey s.agentHooks
  rw [row_hook, row_hook, hfind]
  cases s.agentHook? id with
  | none => exact Or.inl rfl
  | some h =>
    by_cases hsame : f h = h
    · left
      simp [Hooks.touch, hsame]
    · right
      simp [Hooks.touch, hsame, Row.updatedAt]

variable {t : Target}

theorem readsCalmly_checkHookPermission (agentId actorRole : Int) :
    ReadsCalmly t (Hooks.checkHookPermission agentId actorRole) := by
  refine readsCalmly_bind (readsCalmly_query _ _) fun _ => ?_
  refine readsCalmly_bind (readsCalmly_okOr _ (calm_failure fun _ => nofun)) fun _ => ?_
  refine readsCalmly_bind (readsCalmly_failIf _ (calm_failure fun _ => nofun)) fun _ => ?_
  exact readsCalmly_failIf _ (calm_failure fun _ => nofun)

theorem readsCalmly_validateWebhookUrl (lower : String → String) (url : String) :
    ReadsCalmly t (lift (Hooks.validateWebhookUrl lower url)) := by
  refine readsCalmly_lift fun e he => calm_failure fun m hm => ?_
  subst hm
  unfold Hooks.validateWebhookUrl at he
  split at he
  · cases he
  · split at he
    · cases he
    · split at he
      · cases he
      · cases he

theorem readsCalmly_validateHookAction (lower : String → String) (actionType : String)
    (params : Option Json) : ReadsCalmly t (Hooks.validateHookAction lower actionType params) := by
  refine readsCalmly_onSome _ fun p => ?_
  split
  · refine readsCalmly_onSome _ fun fid => ?_
    refine readsCalmly_bind (readsCalmly_query _ _) fun _ => ?_
    exact readsCalmly_failIf _ (calm_failure fun _ => nofun)
  · split
    · refine readsCalmly_onSome _ fun wid => ?_
      refine readsCalmly_bind (readsCalmly_query _ _) fun _ => ?_
      exact readsCalmly_failIf _ (calm_failure fun _ => nofun)
    · split
      · exact readsCalmly_validateWebhookUrl lower _
      · exact readsCalmly_pure ()

theorem readsCalmly_checkTriggerLimit (mysql : Mysql) (agentId hookId : Int)
    (existing : AgentHook) (req : Hooks.UpdateHookRequest) :
    ReadsCalmly t (Hooks.checkTriggerLimit mysql agentId hookId existing req) := by
  unfold Hooks.checkTriggerLimit
  split
  · refine readsCalmly_bind (readsCalmly_query _ _) fun _ => ?_
    exact readsCalmly_failIf _ (calm_failure fun _ => nofun)
  · exact readsCalmly_pure ()

theorem calm_hook_checkValues (mysql : Mysql) (h : AgentHook) (what : String) :
    Calm (Hooks.checkValues mysql h what) := by
  unfold Hooks.checkValues
  dsimp only
  split
  · exact calm_failure fun _ => nofun
  · split
    · exact calm_failure fun _ => nofun
    · split
      · exact calm_failure fun _ => nofun
      · exact calm_ok ()

theorem calm_hook_checkRow (mysql : Mysql) (s : Store) (h : AgentHook) (what : String) :
    Calm (Hooks.checkRow mysql s h what) := by
  have hvalues := calm_hook_checkValues mysql h what
  unfold Hooks.checkRow
  split
  · next he =>
    rw [he] at hvalues
    exact hvalues
  · split
    · exact calm_failure fun _ => nofun
    · exact calm_ok ()

/-- The check of a hook update: every error is reported as a conflict, also
that of a database that does not answer. -/
theorem unchecked_checkLock {id : Int} {u : DateTime} {f : Unit → Service AgentHook}
    (hf : ∀ a, (guard AgentHook (.hook id) u).Checked (f a).run) :
    (guard AgentHook (.hook id) u).Unchecked (Hooks.checkLock id u >>= f).run := by
  refine .check rfl ?_ (fun _ _ => rfl) fun i s => ?_
  · rintro ⟨what, -, h⟩
    cases h
  have hrow : ((s.agentHook? id).map AgentHook.updatedAt).map DateTime.timestamp =
      (guard AgentHook (.hook id) u).ver (row (.hook id) s) := by
    rw [row_hook]
    show _ = ((s.agentHook? id).map Row.hook).map fun x => x.updatedAt.timestamp
    rw [Option.map_map, Option.map_map]
    rfl
  have hnotok : ∀ e, ¬ (guard AgentHook (.hook id) u).ok (.error e) := by
    rintro e ⟨a, ha⟩
    cases ha
  dsimp only
  rcases OptimisticLock.checkRead_cases "agent_hooks" id
    (fun s => (s.agentHook? id).map AgentHook.updatedAt) u i s with ⟨e, hfault, h⟩ |
    ⟨hfault, ⟨hver, ⟨m, h⟩ | ⟨m, h⟩⟩ | ⟨hver, h⟩⟩
  · rw [h]
    refine Or.inr (Or.inl ⟨_, rfl, hnotok _, ⟨_, rfl⟩, Or.inr ⟨⟨id, rfl⟩, ?_⟩⟩)
    rw [hfault]
    simp
  · rw [h]
    exact Or.inr (Or.inl ⟨_, rfl, hnotok _, ⟨_, rfl⟩, Or.inl (hrow ▸ hver)⟩)
  · rw [h]
    exact Or.inr (Or.inl ⟨_, rfl, hnotok _, ⟨_, rfl⟩, Or.inl (hrow ▸ hver)⟩)
  · rw [h]
    exact Or.inr (Or.inr ⟨hrow ▸ hver, fun hlost => hlost.2 hfault, hf ()⟩)

/-- **Hooks.** `agent_hook::update_hook` follows the protocol. -/
theorem hook_unchecked (mysql : Mysql) (lower : String → String) (agentId id actorRole : Int)
    (req : Hooks.UpdateHookRequest) :
    (guard AgentHook (.hook id) req.updatedAt).Unchecked
      (Hooks.updateHook mysql lower agentId id actorRole req).run := by
  refine unchecked_bind (readsCalmly_checkHookPermission agentId actorRole) fun _ => ?_
  refine unchecked_bind (readsCalmly_query _ _) fun _ => ?_
  refine unchecked_bind (readsCalmly_okOr _ (calm_failure fun _ => nofun)) fun existing => ?_
  refine unchecked_bind (readsCalmly_failIf _ (calm_failure fun _ => nofun)) fun _ => ?_
  refine unchecked_checkLock fun _ => ?_
  refine checked_bind (readsCalmly_onSome _ fun a =>
    readsCalmly_validateHookAction lower a _).runs fun _ => ?_
  refine checked_bind (readsCalmly_checkTriggerLimit mysql agentId id existing req).runs
    fun _ => ?_
  refine checked_write (t := .hook id) (by simp [rowWrites]) (fun i s => ?_) (fun i s => ?_)
    fun _ => ?_
  · unfold Hooks.updateRow
    split
    · exact Or.inl rfl
    · exact Or.inl rfl
    · split
      · exact Or.inl rfl
      · exact hook_row_update id (Hooks.merge mysql existing req) (fun _ => rfl) i.now rfl
  · have hcheck := calm_check i "hook update"
    unfold Hooks.updateRow
    split
    · rename_i e he
      rw [he] at hcheck
      exact hcheck
    · exact calm_failure fun _ => nofun
    · rename_i old _ _
      have hrow := calm_hook_checkRow mysql s (Hooks.merge mysql existing req old) "hook update"
      split
      · rename_i e he
        rw [he] at hrow
        exact hrow
      · exact calm_ok ()
  · refine runsCalmly_bind (readsCalmly_query _ _).runs fun _ => ?_
    exact (readsCalmly_okOr _ (calm_failure (by simp))).runs

end Hook

/-! ## Two requests on one row -/

theorem service_unchecked (dep : Agents.Deployment) (lower : String → String) (t : Target)
    (r : Request t) :
    (guard (Answer t) t (updatedAt t r)).Unchecked (service dep lower t r).run := by
  cases t with
  | agent id => exact agent_unchecked dep r.1 id r.2
  | tool id => exact tool_unchecked dep.mysql id r
  | hook id => exact hook_unchecked dep.mysql lower r.1 id r.2.1 r.2.2

/-- **Lost updates.** Two update requests on the same agent, tool or hook that
carry the same `updated_at`, in any interleaving of their statements in which
neither fails for another reason. At most one succeeds, and the other is
refused without having written anything, if and only if

* the row's second differed from the carried one before either started, or
* one request's `UPDATE` changed a column of the row, in another clock second
  than the carried one, before the other request's check, or
* the check of a hook update met a database error. -/
theorem atMostOne_updates_iff (dep : Agents.Deployment) (lower : String → String) (t : Target)
    (p q : Request t) (hsame : updatedAt t q = updatedAt t p) (s : Store)
    (sched : List (Bool × Input))
    (hend : ∀ who, ∃ r,
      ((Duo.init (service dep lower t p).run (service dep lower t q).run s).run sched).procs who =
        .done r ∧ ((∃ a, r = .ok a) ∨ IsConflict r)) :
    let G := guard (Answer t) t (updatedAt t p)
    let c := (Duo.init (service dep lower t p).run (service dep lower t q).run s).run sched
    G.AtMostOne c ↔
      (row t s).map (fun x => x.updatedAt.timestamp) ≠ some (updatedAt t p).timestamp ∨
        ∃ who, G.Overtaken c.trace who ∨ G.Lost c.trace who :=
  Guard.atMostOne_iff (service_unchecked dep lower t p)
    (hsame ▸ service_unchecked dep lower t q) s sched hend

/-- A store with the entry agent alone, last written at second 5. -/
def mainStore : Store :=
  { agents := [{ id := 1, identifier := "main", name := "Main", description := none,
                 systemPrompt := "", parentAgentId := none, depth := 0, modelPreset := none,
                 createdAt := 5000000, updatedAt := 5000000 }]
    agentsAutoIncrement := 2 }

/-- A Super admin renames agent 1. -/
def rename (name : String) : Request (.agent 1) :=
  (3, { name := some name, updatedAt := 5000000 })

/-- The statements of a rename that gets through, all at one time. -/
def renameAt (who : Bool) (now : DateTime) : List (Bool × Input) :=
  List.replicate 8 (who, .at now)

/-- Two renames of agent 1, one after the other, with what they carry read at
second 5. -/
def renames (first second : DateTime) :
    Duo Stmt Input Store (Except Failure (Answer (.agent 1))) :=
  (Duo.init (service Agents.plainDeployment id (.agent 1) (rename "A")).run
    (service Agents.plainDeployment id (.agent 1) (rename "B")).run mainStore).run
      (renameAt false first ++ renameAt true second)

/-- The second rename starts after the first has ended, two seconds after the
carried time stamp: it is refused. -/
theorem atMostOne_updates_later_second :
    (guard (Answer (.agent 1)) (.agent 1) 5000000).AtMostOne (renames 7000000 7500000) ∧
      (renames 7000000 7500000).store.agents.map Agent.name = ["A"] := by
  refine ⟨(atMostOne_updates_iff Agents.plainDeployment id (.agent 1) (rename "A") (rename "B")
    rfl mainStore (renameAt false 7000000 ++ renameAt true 7500000) ?_).mpr ?_, by decide⟩
  · intro who
    cases who with
    | false => exact ⟨_, rfl, Or.inl ⟨_, rfl⟩⟩
    | true => exact ⟨_, rfl, Or.inr ⟨_, rfl⟩⟩
  · -- the third statement of the first request precedes the second of the other
    refine Or.inr ⟨true, Or.inl ⟨(renames 7000000 7500000).trace.get ⟨2, by decide⟩,
      (renames 7000000 7500000).trace.get ⟨9, by decide⟩, ?_, rfl,
      ⟨⟨"agent update", by simp [rowWrites], rfl⟩, ?_, by decide⟩, rfl, rfl⟩⟩
    rotate_left
    · show row (.agent 1) ((renames 7000000 7500000).trace.get ⟨2, by decide⟩).after ≠
        row (.agent 1) ((renames 7000000 7500000).trace.get ⟨2, by decide⟩).before
      decide
    · show List.Sublist _ (renames 7000000 7500000).trace
      exact .cons _ (.cons _ (.cons_cons _ (.cons _ (.cons _ (.cons _ (.cons _ (.cons _ (.cons _
        (.cons_cons _ .slnil)))))))))

/-- Within the carried second both renames get through, and the first one is
overwritten. -/
theorem both_renames_succeed_same_second :
    ¬ (guard (Answer (.agent 1)) (.agent 1) 5000000).AtMostOne (renames 5200000 5700000) ∧
      (∀ who, ¬ (renames 5200000 5700000).WroteNothing who) ∧
      (renames 5200000 5700000).store.agents.map Agent.name = ["B"] := by
  refine ⟨fun h => h.1 ⟨⟨_, rfl, _, rfl⟩, ⟨_, rfl, _, rfl⟩⟩, fun who hnone => ?_, by decide⟩
  -- each of them has an `UPDATE` that changed the row
  cases who with
  | false =>
    have hsame := hnone ((renames 5200000 5700000).trace.get ⟨2, by decide⟩)
      (List.get_mem _ _) rfl
    exact absurd (congrArg Store.agents hsame) (by decide)
  | true =>
    have hsame := hnone ((renames 5200000 5700000).trace.get ⟨10, by decide⟩)
      (List.get_mem _ _) rfl
    exact absurd (congrArg Store.agents hsame) (by decide)

end HiveClaw.Updates
