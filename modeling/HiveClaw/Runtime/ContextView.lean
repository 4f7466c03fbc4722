import HiveClaw.Lib.Commuting
import HiveClaw.Runtime.ContextUpdates

/-!
# What can be seen of a context

Workflow nodes read a context by category and key, by the id of an extension and by the key of
a metadata entry; they see neither the order of the records, nor their time stamps, nor the
order of a hash map. `ContextView` is what is left, and an entry of `_agent_context_updates`
is a write to it at one `Target`.

* `view_apply` — an operation on the context is a write to its view.
-/

namespace HiveClaw.Runtime

open Context Lib.Commuting

-- ---
-- Targets
-- ---

inductive Target where
  | record (category : Category) (key : String)
  | extension (id : String)
  | metadata (key : String)
deriving DecidableEq

def ContextEntry.target : ContextEntry → Target
  | .record category key _ _ _ => .record category key
  | .extension id _ => .extension id
  | .metadata key _ => .metadata key

/-- What is seen at a target: the records under one key, each with its value, its source and its
iteration; an extension; a metadata entry. -/
inductive Seen where
  | records (rs : List (Json × String × Nat))
  | extension (content : Option ExtensionContent)
  | metadata (value : Option String)

/-- The first record is replaced; without one a record is added. -/
def replaceFirst {α : Type} (r : α) : List α → List α
  | [] => [r]
  | _ :: rest => r :: rest

/-- What is seen after an entry has been written over what was seen before. -/
def ContextEntry.over : ContextEntry → Seen → Seen
  | .record _ _ value source iteration, .records rs =>
    .records (replaceFirst (value, source, iteration) rs)
  | .record .., s => s
  | .extension _ content, _ => .extension (some content)
  | .metadata _ value, _ => .metadata (some value)

-- ---
-- Views
-- ---

@[ext] structure ContextView where
  /-- the context without what entries write -/
  rest : AgentContext
  seen : Target → Seen

/-- The part of a context that no entry changes. -/
def restOf (ctx : AgentContext) : AgentContext :=
  { ctx with
    categories := fun _ => CategoryStore.new 0
    extensions := ∅
    auditLog := []
    metadata := ∅ }

/-- The records under one key, in their order. -/
def recordsAt (records : List RecordEntry) (key : String) : List (Json × String × Nat) :=
  (records.filter fun r => r.key = key).map fun r => (r.value, r.source, r.iteration)

def view (ctx : AgentContext) : ContextView :=
  { rest := restOf ctx
    seen := fun
      | .record category key => .records (recordsAt (ctx.getCategory category) key)
      | .extension id => .extension (ctx.extensions.lookup id)
      | .metadata key => .metadata (ctx.metadata.lookup key) }

/-- The view after an entry; an entry that the context refuses leaves it as it is. -/
def ContextView.write (lower : String → String) (v : ContextView) (entry : ContextEntry) :
    ContextView :=
  match entry.apply lower 0 v.rest with
  | .error _ => v
  | .ok _ =>
    { v with seen := Function.update v.seen entry.target (entry.over (v.seen entry.target)) }

theorem recordsAt_upsert (entry : RecordEntry) (records : List RecordEntry) (key : String) :
    recordsAt (AgentContext.upsert entry records) key =
      if key = entry.key then
        replaceFirst (entry.value, entry.source, entry.iteration) (recordsAt records key)
      else recordsAt records key := by
  unfold recordsAt
  induction records with
  | nil =>
    by_cases hkey : key = entry.key
    · simp [AgentContext.upsert, hkey, replaceFirst]
    · simp [AgentContext.upsert, Ne.symm hkey, hkey]
  | cons r rest ih =>
    unfold AgentContext.upsert
    by_cases hr : r.key = entry.key
    · rw [if_pos hr]
      by_cases hkey : key = entry.key
      · simp [hr, hkey, replaceFirst]
      · simp [hr, hkey, Ne.symm hkey]
    · rw [if_neg hr, List.filter_cons, List.filter_cons]
      by_cases hkey : r.key = key
      · have hne : key ≠ entry.key := fun h => hr (hkey.trans h)
        simp only [hkey, decide_true, if_true, List.map_cons, ih, if_neg hne]
      · simp only [hkey, decide_false, Bool.false_eq_true, if_false, ih]

theorem accepts_restOf (lower : String → String) (now : DateTime) (ctx : AgentContext)
    (entry : ContextEntry) :
    entry.Accepts lower now ctx ↔ entry.Accepts lower 0 (restOf ctx) := by
  rw [ContextEntry.accepts_iff, ContextEntry.accepts_iff]
  cases entry <;> exact Iff.rfl

variable {v : ContextView}

theorem seen_kept {v' : ContextView} {t t' : Target} {s : Seen} (hne : t ≠ t')
    (h : v'.seen t = v.seen t) : v'.seen t = Function.update v.seen t' s t := by
  rw [h, Function.update_of_ne hne]

variable {lower : String → String}

theorem view_of_accepted {now : DateTime} {ctx ctx' : AgentContext} {entry : ContextEntry}
    (h : entry.apply lower now ctx = .ok ctx') :
    view ctx' =
      { view ctx with
        seen := Function.update (view ctx).seen entry.target
          (entry.over ((view ctx).seen entry.target)) } := by
  have haccepts := (ContextEntry.accepts_iff lower now ctx entry).mp ⟨ctx', h⟩
  cases entry with
  | record category key value source iteration =>
    obtain ⟨hw, hb, hs⟩ := haccepts
    simp only [ContextEntry.apply, AgentContext.setRecord, hw, hb, hs] at h
    cases h
    refine ContextView.ext rfl (funext fun t => ?_)
    dsimp only
    -- the record that was set, and all other places
    cases t with
    | record category' key' =>
      simp only [view, AgentContext.getCategory, AgentContext.withStore, ContextEntry.target,
        ContextEntry.over, Function.update_apply, Target.record.injEq]
      by_cases hcategory : category' = category
      · subst hcategory
        by_cases hkey : key' = key
        · simp [hkey, recordsAt_upsert]
        · simp [hkey, recordsAt_upsert]
      · simp [hcategory]
    | extension id =>
      refine seen_kept ?_ ?_
      · simp [ContextEntry.target]
      · rfl
    | metadata key' =>
      refine seen_kept ?_ ?_
      · simp [ContextEntry.target]
      · rfl
  | extension id content =>
    simp only [ContextEntry.apply, AgentContext.addExtension, haccepts] at h
    cases h
    refine ContextView.ext rfl (funext fun t => ?_)
    dsimp only
    -- likewise for an extension
    cases t with
    | extension id' =>
      simp only [view, ContextEntry.target, ContextEntry.over, Function.update_apply,
        Target.extension.injEq, HashMap.lookup_insert_ite]
      by_cases hid : id' = id <;> simp [hid]
    | record category key =>
      refine seen_kept ?_ ?_
      · simp [ContextEntry.target]
      · rfl
    | metadata key =>
      refine seen_kept ?_ ?_
      · simp [ContextEntry.target]
      · rfl
  | metadata key value =>
    cases h
    refine ContextView.ext rfl (funext fun t => ?_)
    dsimp only
    -- likewise for a metadatum
    cases t with
    | metadata key' =>
      simp only [view, ContextEntry.target, ContextEntry.over, Function.update_apply,
        Target.metadata.injEq, HashMap.lookup_insert_ite]
      by_cases hkey : key' = key <;> simp [hkey]
    | record category key' =>
      refine seen_kept ?_ ?_
      · simp [ContextEntry.target]
      · rfl
    | extension id =>
      refine seen_kept ?_ ?_
      · simp [ContextEntry.target]
      · rfl

/-- **Writes.** An operation on the context is a write to its view. -/
theorem view_apply (lower : String → String) (now : DateTime) (ctx : AgentContext)
    (entry : ContextEntry) :
    view (ctx.ignoring (entry.apply lower now ctx)) = (view ctx).write lower entry := by
  have haccepts := accepts_restOf lower now ctx entry
  unfold ContextView.write
  cases happly : entry.apply lower now ctx with
  | error e =>
    split
    · rfl
    · next c hc =>
      obtain ⟨ctx', hok⟩ := haccepts.mpr ⟨c, hc⟩
      cases happly.symm.trans hok
  | ok ctx' =>
    obtain ⟨c, hc⟩ := haccepts.mp ⟨ctx', happly⟩
    split
    · next e he => cases hc.symm.trans he
    · exact view_of_accepted happly

/-- Writes to different targets commute. -/
theorem independent_write (lower : String → String) :
    Independent (ContextView.write lower) ContextEntry.target := by
  intro v a b hab
  unfold ContextView.write
  cases ha : a.apply lower 0 v.rest with
  | error e => cases b.apply lower 0 v.rest <;> simp only [ha]
  | ok c =>
    cases b.apply lower 0 v.rest with
    | error e => simp only [ha]
    | ok c' =>
      simp only [ha, Function.update_of_ne hab, Function.update_of_ne hab.symm,
        Function.update_comm hab]

-- ---
-- Extensions under their own id
-- ---

/-- Every extension is stored under its own id. -/
def ContextView.Keyed (v : ContextView) : Prop :=
  ∀ id content, v.seen (.extension id) = .extension (some content) → content.id = id

theorem contextEntries_keyed {output : Json} {id : String} {content : ExtensionContent}
    (h : .extension id content ∈ contextEntries output) : content.id = id := by
  unfold contextEntries at h
  split at h
  · cases h
  rw [List.mem_append, List.mem_append] at h
  rcases h with (hrecord | hextension) | hmetadata
  · obtain ⟨record, -, hrecord⟩ := List.mem_filterMap.mp hrecord
    obtain ⟨_, -, hne⟩ := Option.map_eq_some_iff.mp hrecord
    cases hne
  · obtain ⟨ext, -, hext⟩ := List.mem_filterMap.mp hextension
    obtain ⟨_, -, heq⟩ := Option.map_eq_some_iff.mp hext
    cases heq
    rfl
  · obtain ⟨field, -, hfield⟩ := List.mem_filterMap.mp hmetadata
    obtain ⟨_, -, hne⟩ := Option.map_eq_some_iff.mp hfield
    cases hne

theorem ContextView.Keyed.write {lower : String → String} {v : ContextView} (h : v.Keyed)
    {entry : ContextEntry}
    (hentry : ∀ id content, entry = .extension id content → content.id = id) :
    (v.write lower entry).Keyed := by
  unfold ContextView.write
  split
  · exact h
  intro id content hseen
  dsimp only at hseen
  by_cases hid : Target.extension id = entry.target
  · rw [← hid, Function.update_self] at hseen
    cases entry with
    | extension id' content' =>
      cases hid
      cases hseen
      exact hentry id content rfl
    | record category key value source iteration => cases hid
    | metadata key value => cases hid
  · rw [Function.update_of_ne hid] at hseen
    exact h id content hseen

theorem ContextView.Keyed.contextEntries (h : v.Keyed) (output : Json) :
    ((Runtime.contextEntries output).foldl (ContextView.write lower) v).Keyed := by
  have hfold : ∀ (entries : List ContextEntry) (v : ContextView), v.Keyed →
      (∀ id content, .extension id content ∈ entries → content.id = id) →
        (entries.foldl (ContextView.write lower) v).Keyed := by
    intro entries
    induction entries with
    | nil => exact fun v hv _ => hv
    | cons entry rest ih =>
      intro v hv hentries
      refine ih _ (hv.write fun id content heq => ?_) fun id content hmem => ?_
      · exact hentries id content (heq ▸ List.mem_cons_self)
      · exact hentries id content (List.mem_cons_of_mem entry hmem)
  exact hfold _ v h fun id content hmem => contextEntries_keyed hmem

end HiveClaw.Runtime
