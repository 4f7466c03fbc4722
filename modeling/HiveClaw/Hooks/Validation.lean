import HiveClaw.Hooks.Service

/-!
# What is known of a stored hook

`create_hook` looks at the action of the new hook: a referenced function or
workflow has to exist, the URL and the headers of a webhook have to pass their
checks. `update_hook` merges the request into the stored row and looks at the
action only if its type changes, and then only at the parameters of the request,
not at headers.

Here the requests come one after the other; each hook is remembered together with
the store as it was when the hook was last written.
-/

namespace HiveClaw.Hooks

open Service

/-! ## Valid actions -/

/-- The function or workflow an action names exists. -/
structure Refers (s : Store) (actionType : String) (params : Json) : Prop where
  function : actionType = "call_function" → ∀ fid,
    (params.get "function_id").bind Json.asI64 = some fid → s.function? fid ≠ none
  workflow : actionType = "call_workflow" → ∀ wid,
    (params.get "workflow_id").bind Json.asI64 = some wid → s.workflow? wid ≠ none

/-- What `validate_hook_action` looks at. -/
structure ActionChecked (lower : String → String) (s : Store) (actionType : String)
    (params : Json) : Prop extends Refers s actionType params where
  url : actionType = "http_webhook" →
    validateWebhookUrl lower ((params.getStr "webhook_url").getD "") = .ok ()

/-- What `create_hook` looks at. -/
structure ActionValid (lower : String → String) (s : Store) (actionType : String)
    (params : Json) : Prop extends ActionChecked lower s actionType params where
  headers : actionType = "http_webhook" → validateWebhookHeaders params = .ok ()

variable {params : Json}

theorem validateWebhookHeaders_eq_ok :
    validateWebhookHeaders params = .ok () ↔
      ∀ headers, (params.get "headers").bind Json.asObject = some headers →
        ∀ header ∈ headers, checkHeader header = .ok () := by
  unfold validateWebhookHeaders
  cases (params.get "headers").bind Json.asObject with
  | none => exact ⟨fun _ _ h => absurd h (by simp), fun _ => rfl⟩
  | some headers =>
    refine forM_eq_ok.trans ⟨fun h _ heq => Option.some.inj heq ▸ h, fun h => ?_⟩
    exact h headers rfl

section Normal

variable {mysql : Mysql} (hjson : mysql.KeepsJson)
include hjson

theorem get_asI64_jsonNormal (params : Json) (key : String) :
    ((mysql.jsonNormal params).get key).bind Json.asI64 = (params.get key).bind Json.asI64 := by
  rw [hjson.get]
  cases params.get key with
  | none => rfl
  | some v => exact hjson.asI64 v

variable {params : Json}

theorem validateWebhookHeaders_jsonNormal (h : validateWebhookHeaders params = .ok ()) :
    validateWebhookHeaders (mysql.jsonNormal params) = .ok () := by
  refine validateWebhookHeaders_eq_ok.mpr fun headers hheaders header hmem => ?_
  rw [hjson.get] at hheaders
  obtain ⟨w, hw, hobj⟩ := Option.bind_eq_some_iff.mp hheaders
  obtain ⟨v, hv, rfl⟩ := Option.map_eq_some_iff.mp hw
  obtain ⟨original, horiginal, hsub⟩ := hjson.asObject hobj
  obtain ⟨f, hf, rfl⟩ := List.mem_map.mp (hsub hmem)
  have hok := validateWebhookHeaders_eq_ok.mp h original
    (Option.bind_eq_some_iff.mpr ⟨v, hv, horiginal⟩) f hf
  simpa only [checkHeader, hjson.asStr] using hok

theorem ActionValid.jsonNormal {lower : String → String} {s : Store} {actionType : String}
    (h : ActionValid lower s actionType params) :
    ActionValid lower s actionType (mysql.jsonNormal params) where
  function ht fid hfid := h.function ht fid (get_asI64_jsonNormal hjson params _ ▸ hfid)
  workflow ht wid hwid := h.workflow ht wid (get_asI64_jsonNormal hjson params _ ▸ hwid)
  url ht := by
    rw [hjson.getStr]
    exact h.url ht
  headers ht := validateWebhookHeaders_jsonNormal hjson (h.headers ht)

end Normal

/-! ## What the calls check -/

variable {γ : Type}

theorem keeps_checkHookPermission {f : Store → γ} (agentId actorRole : Int) :
    Keeps f (checkHookPermission agentId actorRole) :=
  keeps_bind (keeps_query _ _) fun _ => keeps_bind (keeps_okOr _ _) fun _ =>
    keeps_bind (keeps_failIf _ _) fun _ => keeps_failIf _ _

theorem keeps_validateHookAction {f : Store → γ} (lower : String → String) (actionType : String)
    (params : Option Json) : Keeps f (validateHookAction lower actionType params) := by
  refine keeps_onSome _ fun p => ?_
  split
  · exact keeps_onSome _ fun _ => keeps_bind (keeps_query _ _) fun _ => keeps_failIf _ _
  · split
    · exact keeps_onSome _ fun _ => keeps_bind (keeps_query _ _) fun _ => keeps_failIf _ _
    · split
      · exact keeps_lift _
      · exact keeps_pure ()

theorem keeps_checkLock {f : Store → γ} (hookId : Int) (clientUpdatedAt : DateTime) :
    Keeps f (checkLock hookId clientUpdatedAt) := by
  intro s r s' h
  have hrun : (checkLock hookId clientUpdatedAt).Runs s r s' ↔ _ := Lib.Prog.runs_read_iff
  rw [(hrun.mp h).2]

theorem keeps_checkTriggerLimit {f : Store → γ} (mysql : Mysql) (agentId hookId : Int)
    (existing : AgentHook) (req : UpdateHookRequest) :
    Keeps f (checkTriggerLimit mysql agentId hookId existing req) := by
  unfold checkTriggerLimit
  split
  · exact keeps_bind (keeps_query _ _) fun _ => keeps_failIf _ _
  · exact keeps_pure ()

theorem keeps_validateNewAction {f : Store → γ} (lower : String → String) (actionType : String)
    (params : Json) : Keeps f (validateNewAction lower actionType params) := by
  unfold validateNewAction
  split
  · exact keeps_validateHookAction _ _ _
  · split
    · exact keeps_bind (keeps_validateHookAction _ _ _) fun _ => keeps_lift _
    · exact keeps_fail _

section Checks

variable {lower : String → String} {s s' : Store} {actionType : String} {u : Unit}

theorem lookup_ok {α : Type} {what : String} {e : AppError} {o : Option Int}
    {find : Store → Int → Option α}
    [∀ found : Option α, Decidable (found = none)]
    (h : (onSome o fun id => do
      let found ← query what fun s => find s id
      failIf (found = none) e).Runs s (.ok u) s') :
    ∀ id, o = some id → find s id ≠ none := by
  rintro id rfl
  obtain ⟨-, e, he⟩ | ⟨found, hquery, hif⟩ := runs_bind_readOnly (keeps_query _ _) h
  · cases he
  · obtain ⟨rfl, -⟩ := runs_query_ok hquery
    exact runs_failIf_ok hif

variable {params : Json}

theorem validateHookAction_ok
    (h : (validateHookAction lower actionType (some params)).Runs s (.ok u) s') :
    ActionChecked lower s actionType params := by
  unfold validateHookAction onSome at h
  dsimp only at h
  split at h
  case isTrue ht =>
    subst ht
    exact ⟨⟨fun _ => lookup_ok h, fun hne => absurd hne (by decide)⟩,
      fun hne => absurd hne (by decide)⟩
  case isFalse hfn =>
    split at h
    case isTrue ht =>
      subst ht
      exact ⟨⟨fun hne => absurd hne hfn, fun _ => lookup_ok h⟩, fun hne => absurd hne (by decide)⟩
    case isFalse hwf =>
      refine ⟨⟨fun hne => absurd hne hfn, fun hne => absurd hne hwf⟩, fun ht => ?_⟩
      rw [if_pos ht] at h
      exact runs_lift_ok h

theorem validateNewAction_ok (h : (validateNewAction lower actionType params).Runs s (.ok u) s') :
    ActionValid lower s actionType params := by
  unfold validateNewAction at h
  split at h
  case isTrue ht =>
    refine ⟨validateHookAction_ok h, fun hne => ?_⟩
    subst hne
    exact absurd ht (by decide)
  case isFalse hother =>
    split at h
    case isTrue ht =>
      obtain ⟨-, e, he⟩ | ⟨_, hchecked, hheaders⟩ :=
        runs_bind_readOnly (keeps_validateHookAction _ _ _) h
      · cases he
      · exact ⟨validateHookAction_ok hchecked, fun _ => runs_lift_ok hheaders⟩
    case isFalse => exact absurd (runs_fail_iff.mp h).1 (by simp)

end Checks

/-! ## What the calls write -/

theorem id_touch_merge (mysql : Mysql) (existing : AgentHook) (req : UpdateHookRequest)
    (now : DateTime) (h : AgentHook) : (touch now h (merge mysql existing req h)).id = h.id := by
  unfold touch
  split
  · rfl
  · rfl

theorem actionType_touch (now : DateTime) (old new : AgentHook) :
    (touch now old new).actionType = new.actionType := by
  unfold touch
  split
  · next heq => rw [heq]
  · rfl

theorem actionParams_touch (now : DateTime) (old new : AgentHook) :
    (touch now old new).actionParams = new.actionParams := by
  unfold touch
  split
  · next heq => rw [heq]
  · rfl

section Writes

variable {mysql : Mysql} {lower : String → String} {agentId hookId actorRole : Int} {s s' : Store}
  {hook : AgentHook}

theorem fetched_ok {what : String} {e : AppError} {id : Int}
    (h : (query what (fun s => s.agentHook? id) >>= fun row => okOr row e).Runs s (.ok hook) s') :
    hook.id = id ∧ s' = s := by
  obtain ⟨-, e, he⟩ | ⟨row, hquery, hrow⟩ := runs_bind_readOnly (keeps_query _ _) h
  · cases he
  · obtain ⟨rfl, -⟩ := runs_query_ok hquery
    have hfind := List.find?_some (runs_okOr_ok hrow)
    exact ⟨of_decide_eq_true hfind, keeps_okOr (f := fun s => s) _ _ hrow⟩

theorem createHook_ok {req : CreateHookRequest}
    (h : (createHook mysql lower agentId actorRole req).Runs s (.ok hook) s') :
    ActionValid lower s req.actionType req.actionParams ∧
      hook.id = s.agentHooksAutoIncrement ∧
      ∃ now, s' = { s with
        agentHooks := s.agentHooks ++ [newRow mysql agentId req s.agentHooksAutoIncrement now]
        agentHooksAutoIncrement := s.agentHooksAutoIncrement + 1 } := by
  obtain ⟨-, e, he⟩ | ⟨_, -, h⟩ := runs_bind_readOnly (keeps_checkHookPermission _ _) h
  · cases he
  obtain ⟨-, e, he⟩ | ⟨_, -, h⟩ := runs_bind_readOnly (keeps_query _ _) h
  · cases he
  obtain ⟨-, e, he⟩ | ⟨_, -, h⟩ := runs_bind_readOnly (keeps_failIf _ _) h
  · cases he
  obtain ⟨-, e, he⟩ | ⟨_, hvalid, h⟩ := runs_bind_readOnly (keeps_validateNewAction _ _ _) h
  · cases he
  obtain ⟨e, -, he⟩ | ⟨id, s₁, hinsert, hfetch⟩ := runs_bind_iff.mp h
  · cases he
  obtain ⟨hid, rfl⟩ := fetched_ok hfetch
  obtain ⟨i, hok, hstore⟩ := runs_execute_iff.mp hinsert
  refine ⟨validateNewAction_ok hvalid, ?_⟩
  unfold insertRow at hok hstore
  dsimp only at hok hstore
  split at hok
  · cases hok
  · cases hok
  · next hfault hvalues =>
    rw [hfault, hvalues] at hstore
    dsimp only at hstore
    split at hok
    · cases hok
    · cases hok
    · next hrow hagent =>
      rw [hrow, hagent] at hstore
      exact ⟨hid.trans (Except.ok.inj hok), i.now, hstore⟩

/-- An update writes the merged row; it has looked at the action if the request
has a new type and parameters. -/
theorem updateHook_ok {req : UpdateHookRequest}
    (h : (updateHook mysql lower agentId hookId actorRole req).Runs s (.ok hook) s') :
    hook.id = hookId ∧ ∃ existing, s.agentHook? hookId = some existing ∧
      (∀ t p, req.actionType.filter (fun t => t ≠ existing.actionType) = some t →
        req.actionParams = some p → ActionChecked lower s t p) ∧
      ∃ now, s' = { s with
        agentHooks := s.agentHooks.map fun h =>
          if h.id = hookId then touch now h (merge mysql existing req h) else h } := by
  obtain ⟨-, e, he⟩ | ⟨_, -, h⟩ := runs_bind_readOnly (keeps_checkHookPermission _ _) h
  · cases he
  obtain ⟨-, e, he⟩ | ⟨row, hrow, h⟩ := runs_bind_readOnly (keeps_query _ _) h
  · cases he
  obtain ⟨rfl, -⟩ := runs_query_ok hrow
  obtain ⟨-, e, he⟩ | ⟨existing, hexisting, h⟩ := runs_bind_readOnly (keeps_okOr _ _) h
  · cases he
  obtain ⟨-, e, he⟩ | ⟨_, -, h⟩ := runs_bind_readOnly (keeps_failIf _ _) h
  · cases he
  obtain ⟨-, e, he⟩ | ⟨_, -, h⟩ := runs_bind_readOnly (keeps_checkLock _ _) h
  · cases he
  obtain ⟨-, e, he⟩ | ⟨_, haction, h⟩ := runs_bind_readOnly
    (keeps_onSome _ fun t => keeps_validateHookAction lower t req.actionParams) h
  · cases he
  obtain ⟨-, e, he⟩ | ⟨_, -, h⟩ := runs_bind_readOnly (keeps_checkTriggerLimit _ _ _ _ _) h
  · cases he
  obtain ⟨e, -, he⟩ | ⟨_, s₁, hupdate, hfetch⟩ := runs_bind_iff.mp h
  · cases he
  obtain ⟨hid, rfl⟩ := fetched_ok hfetch
  obtain ⟨i, hok, hstore⟩ := runs_execute_iff.mp hupdate
  refine ⟨hid, existing, runs_okOr_ok hexisting, fun t p ht hp => ?_, i.now, ?_⟩
  · rw [ht, hp] at haction
    exact validateHookAction_ok haction
  · unfold updateRow at hok hstore
    split at hok
    · cases hok
    · cases hok
    · next hfault hold =>
      rw [hfault, hold] at hstore
      dsimp only at hstore
      split at hok
      · cases hok
      · next hrow =>
        rw [hrow] at hstore
        exact hstore

theorem deleteHook_ok {u : Unit} (h : (deleteHook agentId hookId actorRole).Runs s (.ok u) s') :
    s'.agentHooks ⊆ s.agentHooks ∧
      s'.agentHooksAutoIncrement = s.agentHooksAutoIncrement := by
  obtain ⟨-, e, he⟩ | ⟨_, -, h⟩ := runs_bind_readOnly (keeps_checkHookPermission _ _) h
  · cases he
  obtain ⟨i, -, rfl⟩ := runs_execute_iff.mp h
  unfold deleteRow
  split
  · exact ⟨fun _ hmem => hmem, rfl⟩
  · split
    · exact ⟨List.filter_subset_self _, rfl⟩
    · exact ⟨fun _ hmem => hmem, rfl⟩

end Writes

/-! ## Histories -/

/-- The store, and for each hook the store its last write left behind. -/
structure Hooked where
  store : Store
  lastWrite : Int → Store

/-- After a request that leaves the store `s` and returns the hook it has written. -/
def Hooked.wrote (t : Hooked) (hook : Option AgentHook) (s : Store) : Hooked :=
  { store := s
    lastWrite := fun id => if hook.map AgentHook.id = some id then s else t.lastWrite id }

/-- One event: a request on hooks that succeeds, or (`none`) something else that
happens to the store: it writes no hook, but functions and workflows may go and
ids may be taken. -/
inductive Hooked.Step (mysql : Mysql) (lower : String → String) :
    Hooked → Option HookRequest → Hooked → Prop
  | request {t : Hooked} {r : HookRequest} {hook : Option AgentHook} {s : Store} :
    (handle mysql lower r).Runs t.store (.ok hook) s → Step mysql lower t (some r) (t.wrote hook s)
  | elsewhere {t : Hooked} {s : Store} :
    s.agentHooks = t.store.agentHooks →
    t.store.agentHooksAutoIncrement ≤ s.agentHooksAutoIncrement →
    Step mysql lower t none { t with store := s }

/-- The unchecked half of an update is sound. New parameters for a new type have
only their headers unchecked; a type or parameters that come alone are not looked
at, so they have to fit what is stored; an update that leaves the action alone
writes its reference again. -/
def UncheckedSound (lower : String → String) (s : Store) (existing : AgentHook)
    (req : UpdateHookRequest) : Prop :=
  match req.actionType.filter (fun t => t ≠ existing.actionType), req.actionParams with
  | some t, some p => t = "http_webhook" → validateWebhookHeaders p = .ok ()
  | some t, none => ActionValid lower s t existing.actionParams
  | none, some p => ActionValid lower s existing.actionType p
  | none, none => Refers s existing.actionType existing.actionParams

/-- The condition on a request and the store it finds. -/
def Careful (lower : String → String) (s : Store) : Option HookRequest → Prop
  | some (.update _ hookId _ req) =>
    ∀ existing, s.agentHook? hookId = some existing → UncheckedSound lower s existing req
  | _ => True

/-- Events one after the other, each of them careful. -/
inductive Hooked.Reaches (mysql : Mysql) (lower : String → String) (t : Hooked) : Hooked → Prop
  | refl : Reaches mysql lower t t
  | step {t₁ t₂ : Hooked} {e : Option HookRequest} :
    Reaches mysql lower t t₁ → Step mysql lower t₁ e t₂ → Careful lower t₁.store e →
    Reaches mysql lower t t₂

/-- Every stored hook was valid when it was last written; new ids are new. -/
structure Hooked.Sound (lower : String → String) (t : Hooked) : Prop where
  valid : ∀ h ∈ t.store.agentHooks,
    ActionValid lower (t.lastWrite h.id) h.actionType h.actionParams
  below : ∀ h ∈ t.store.agentHooks, h.id < t.store.agentHooksAutoIncrement

variable {lower : String → String} {s₁ s₂ : Store} {actionType : String}

theorem ActionValid.of_refers (h : ActionValid lower s₁ actionType params)
    (hrefers : Refers s₂ actionType params) : ActionValid lower s₂ actionType params where
  function := hrefers.function
  workflow := hrefers.workflow
  url := h.url
  headers := h.headers

theorem Refers.of_tables (h : Refers s₁ actionType params)
    (hfunctions : s₂.functions = s₁.functions) (hworkflows : s₂.workflows = s₁.workflows) :
    Refers s₂ actionType params where
  function ht fid hfid := by
    rw [Store.function?, hfunctions]
    exact h.function ht fid hfid
  workflow ht wid hwid := by
    rw [Store.workflow?, hworkflows]
    exact h.workflow ht wid hwid

theorem merged_valid {s s₀ : Store} {existing : AgentHook} {req : UpdateHookRequest}
    (hvalid : ActionValid lower s₀ existing.actionType existing.actionParams)
    (hchecked : ∀ t p, req.actionType.filter (fun t => t ≠ existing.actionType) = some t →
      req.actionParams = some p → ActionChecked lower s t p)
    (hsound : UncheckedSound lower s existing req) :
    ActionValid lower s (req.actionType.getD existing.actionType)
      (req.actionParams.getD existing.actionParams) := by
  have htype : req.actionType.getD existing.actionType =
      (req.actionType.filter (fun t => t ≠ existing.actionType)).getD existing.actionType := by
    cases req.actionType with
    | none => rfl
    | some t =>
      by_cases ht : t = existing.actionType
      · simp [Option.filter, ht]
      · simp [Option.filter, ht]
  rw [htype]
  unfold UncheckedSound at hsound
  split at hsound
  · next t p ht hp =>
    rw [ht, hp]
    exact ⟨hchecked t p ht hp, hsound⟩
  · next t ht hp =>
    rw [ht, hp]
    exact hsound
  · next p ht hp =>
    rw [ht, hp]
    exact hsound
  · next ht hp =>
    rw [ht, hp]
    exact hvalid.of_refers hsound

section Sound

variable {mysql : Mysql} {lower : String → String} {t t' : Hooked}

variable {hook : AgentHook} {s : Store}

theorem Hooked.lastWrite_wrote_of_ne {id : Int} (hne : id ≠ hook.id) :
    (t.wrote (some hook) s).lastWrite id = t.lastWrite id :=
  if_neg fun h => hne (Option.some.inj h).symm

theorem Hooked.lastWrite_wrote_self : (t.wrote (some hook) s).lastWrite hook.id = s :=
  if_pos rfl

variable {actorRole agentId : Int}

theorem Hooked.Sound.create (ht : t.Sound lower) (hjson : mysql.KeepsJson)
    {req : CreateHookRequest}
    (h : (createHook mysql lower agentId actorRole req).Runs t.store (.ok hook) s) :
    (t.wrote (some hook) s).Sound lower := by
  obtain ⟨haction, hid, now, rfl⟩ := createHook_ok h
  constructor
  · intro h hmem
    rcases List.mem_append.mp hmem with hold | hnew
    · have hlt := ht.below h hold
      rw [Hooked.lastWrite_wrote_of_ne (by omega)]
      exact ht.valid h hold
    · obtain rfl := List.mem_singleton.mp hnew
      show ActionValid lower ((t.wrote (some hook) _).lastWrite t.store.agentHooksAutoIncrement) _ _
      rw [← hid, Hooked.lastWrite_wrote_self]
      exact (haction.jsonNormal hjson).of_refers
        ((haction.jsonNormal hjson).toRefers.of_tables rfl rfl)
  · intro h hmem
    show h.id < t.store.agentHooksAutoIncrement + 1
    rcases List.mem_append.mp hmem with hold | hnew
    · have hlt := ht.below h hold
      omega
    · obtain rfl := List.mem_singleton.mp hnew
      show t.store.agentHooksAutoIncrement < _
      omega

theorem Hooked.Sound.update (ht : t.Sound lower) (hjson : mysql.KeepsJson) {hookId : Int}
    {req : UpdateHookRequest}
    (h : (updateHook mysql lower agentId hookId actorRole req).Runs t.store (.ok hook) s)
    (hcareful : ∀ existing, t.store.agentHook? hookId = some existing →
      UncheckedSound lower t.store existing req) : (t.wrote (some hook) s).Sound lower := by
  obtain ⟨rfl, existing, hexisting, hchecked, now, rfl⟩ := updateHook_ok h
  have hmerged := merged_valid
    (ht.valid existing (List.mem_of_find?_eq_some hexisting)) hchecked (hcareful _ hexisting)
  constructor
  · intro h hmem
    obtain ⟨g, hg, rfl⟩ := List.mem_map.mp hmem
    by_cases hid : g.id = hook.id
    · rw [if_pos hid, id_touch_merge, actionType_touch, actionParams_touch, hid,
        Hooked.lastWrite_wrote_self]
      exact (hmerged.jsonNormal hjson).of_refers
        ((hmerged.jsonNormal hjson).toRefers.of_tables rfl rfl)
    · rw [if_neg hid, Hooked.lastWrite_wrote_of_ne hid]
      exact ht.valid g hg
  · intro h hmem
    obtain ⟨g, hg, rfl⟩ := List.mem_map.mp hmem
    show _ < t.store.agentHooksAutoIncrement
    have hlt := ht.below g hg
    split
    · rw [id_touch_merge]
      exact hlt
    · exact hlt

theorem Hooked.Sound.step (ht : t.Sound lower) (hjson : mysql.KeepsJson) {e : Option HookRequest}
    (h : Hooked.Step mysql lower t e t') (hcareful : Careful lower t.store e) : t'.Sound lower := by
  cases h with
  | elsewhere hhooks hnext =>
    constructor
    · intro h hmem
      exact ht.valid h (hhooks ▸ hmem)
    · intro h hmem
      exact (ht.below h (hhooks ▸ hmem)).trans_le hnext
  | @request r hook s hrun =>
    cases r with
    | create agentId actorRole req =>
      obtain ⟨hook, hcall, rfl⟩ := Lib.Prog.runsE_map_ok hrun
      exact ht.create hjson hcall
    | update agentId hookId actorRole req =>
      obtain ⟨hook, hcall, rfl⟩ := Lib.Prog.runsE_map_ok hrun
      exact ht.update hjson hcall hcareful
    | delete agentId hookId actorRole =>
      obtain ⟨e, -, he⟩ | ⟨_, s₁, hdelete, hdone⟩ := runs_bind_iff.mp hrun
      · cases he
      obtain ⟨hnone, rfl⟩ := runs_pure_iff.mp hdone
      obtain rfl := Except.ok.inj hnone
      obtain ⟨hsub, hnext⟩ := deleteHook_ok hdelete
      constructor
      · intro h hmem
        exact ht.valid h (hsub hmem)
      · intro h hmem
        exact hnext ▸ ht.below h (hsub hmem)

/-- As long as no update lets something through that it does not look at, every
stored hook was valid when it was last written. -/
theorem stored_hooks_valid (hjson : mysql.KeepsJson) (ht : t.Sound lower)
    (hrun : Hooked.Reaches mysql lower t t') {h : AgentHook} (hmem : h ∈ t'.store.agentHooks) :
    ActionValid lower (t'.lastWrite h.id) h.actionType h.actionParams := by
  have hsound : t'.Sound lower := by
    clear hmem
    induction hrun with
    | refl => exact ht
    | step _ hstep hcareful ih => exact ih.step hjson hstep hcareful
  exact hsound.valid h hmem

end Sound

/-! ## A webhook into the private network -/

/-- What a request that is served alone and without errors makes of the store. -/
def Hooked.serve (mysql : Mysql) (lower : String → String) (t : Hooked) (r : HookRequest) :
    Hooked :=
  let (result, s) := (handle mysql lower r).exec (fun _ => Input.at 0) t.store
  t.wrote (result.toOption.getD none) s

theorem Hooked.step_serve (mysql : Mysql) (lower : String → String) (t : Hooked) (r : HookRequest)
    (h : ((handle mysql lower r).exec (fun _ => Input.at 0) t.store).1.isOk = true) :
    Hooked.Step mysql lower t (some r) (t.serve mysql lower r) := by
  have hruns := runs_exec (handle mysql lower r) (fun _ => Input.at 0) t.store
  unfold Hooked.serve
  rcases hexec : (handle mysql lower r).exec (fun _ => Input.at 0) t.store with ⟨result, s⟩
  rw [hexec] at h hruns
  cases result with
  | error e => cases h
  | ok hook => exact .request hruns

def bareAgent : Hooked :=
  { store :=
      { agents := [{ id := 1, identifier := "sales", name := "sales", description := none
                     systemPrompt := "", parentAgentId := none, depth := 1, modelPreset := none
                     createdAt := 0, updatedAt := 0 }] }
    lastWrite := fun _ => {} }

/-- A webhook at a public address. -/
def createWebhook : HookRequest :=
  .create 1 2
    { name := "notify", triggerPoint := "after_agent_end", actionType := "http_webhook"
      actionParams := .obj [("webhook_url", .str "https://hooks.example.com/notify")] }

/-- New parameters for it; the type stays. -/
def redirectWebhook : HookRequest :=
  .update 1 1 2
    { actionParams := some (.obj
        [("webhook_url", .str "http://127.0.0.1/admin"),
         ("headers", .obj [("X-Token", .str "a\r\nHost: internal")])])
      updatedAt := 0 }

def renameWebhook : HookRequest := .update 1 1 2 { name := some "notify sales", updatedAt := 0 }

/-- Two requests that succeed leave a webhook whose URL and headers both fail
their checks. -/
theorem unchecked_webhook_stored :
    ∃ t₁ t₂ : Hooked, bareAgent.store.agentHooks = [] ∧
      Hooked.Step Mysql.plain id bareAgent (some createWebhook) t₁ ∧
      Hooked.Step Mysql.plain id t₁ (some redirectWebhook) t₂ ∧
      ∃ h ∈ t₂.store.agentHooks, h.actionType = "http_webhook" ∧
        validateWebhookUrl id ((h.actionParams.getStr "webhook_url").getD "") ≠ .ok () ∧
        validateWebhookHeaders h.actionParams ≠ .ok () := by
  refine ⟨_, _, rfl, Hooked.step_serve _ _ _ _ (by decide +kernel),
    Hooked.step_serve _ _ _ _ (by decide +kernel),    ?_⟩
  decide +kernel

/-- Creating the webhook and renaming it is careful. -/
theorem stored_hooks_valid_renamed :
    ∃ t : Hooked, Hooked.Reaches Mysql.plain id bareAgent t ∧
      ∃ h ∈ t.store.agentHooks, h.name = "notify sales" ∧
        ActionValid id (t.lastWrite h.id) h.actionType h.actionParams := by
  have hsound : bareAgent.Sound id :=
    ⟨fun h hmem => absurd hmem List.not_mem_nil, fun h hmem => absurd hmem List.not_mem_nil⟩
  have hcreate := Hooked.step_serve Mysql.plain id bareAgent createWebhook (by decide +kernel)
  have hrename := Hooked.step_serve Mysql.plain id (bareAgent.serve Mysql.plain id createWebhook)
    renameWebhook (by decide +kernel)
  have hcareful : Careful id (bareAgent.serve Mysql.plain id createWebhook).store
      (some renameWebhook) := by
    intro existing hexisting
    have htype : existing.actionType = "http_webhook" := by
      have hmap := congrArg (Option.map AgentHook.actionType) hexisting
      rw [Option.map_some] at hmap
      exact Option.some.inj (hmap.symm.trans (by decide +kernel))
    exact ⟨fun h => absurd (htype.symm.trans h) (by decide),
      fun h => absurd (htype.symm.trans h) (by decide)⟩
  have hreach := (Hooked.Reaches.refl.step hcreate trivial).step hrename hcareful
  refine ⟨_, hreach, ?_⟩
  have hstored : ∃ h ∈ ((bareAgent.serve Mysql.plain id createWebhook).serve Mysql.plain id
      renameWebhook).store.agentHooks, h.name = "notify sales" := by
    decide +kernel
  obtain ⟨h, hmem, hname⟩ := hstored
  exact ⟨h, hmem, hname, stored_hooks_valid Mysql.keepsJson_plain hsound hreach hmem⟩

end HiveClaw.Hooks
