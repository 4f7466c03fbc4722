import HiveClaw.Context.Merge

/-!
# Snapshots of a context

Model of `crates/agent/src/context/serialize.rs`. `snapshot` copies the parts
of a context; `from_json` makes a new context and writes the records of a
snapshot into it, one `set_record` after the other, so that the guard is asked
again and a later record overwrites an earlier one with its key. The text of a
snapshot is read by `serde_json`, which is the argument `parse`.
-/

namespace HiveClaw

namespace Context

-- ---
-- Model
-- ---

-- `ContextSnapshot`
structure ContextSnapshot where
  schemaVersion : String
  contextId : String
  userInput : UserInput
  categories : HashMap Category (List RecordEntry)
  extensions : List (String × ExtensionContent)
  auditLog : List AuditRecord
  responsePayload : Option ResponsePayload
  lifecycleState : LifecycleState
  createdAt : Int
  snapshotAt : Int
  metadata : HashMap String String
  blacklistedCategories : Option (List Category)
  subagentId : Option String
  delegationChain : String

namespace AgentContext

-- `snapshot`
def snapshot (now : Int) (ctx : AgentContext) : ContextSnapshot :=
  { schemaVersion := ctx.config.schemaVersion
    contextId := ctx.contextId
    userInput := ctx.userInput
    categories := HashMap.collect (copiedCategories.map fun c => (c, ctx.getCategory c))
    extensions := ctx.extensions.entries.map fun e => (e.1, e.2)
    auditLog := ctx.auditLog
    responsePayload := ctx.responsePayload
    lifecycleState := ctx.lifecycleState
    createdAt := ctx.createdAt
    snapshotAt := now
    metadata := ctx.metadata
    blacklistedCategories := ctx.blacklistedCategories
    subagentId := ctx.subagentId
    delegationChain := ctx.delegationChain }

/-- The write of one record of a snapshot; an error is thrown away. -/
def rewriteRecord (lower : String → String) (now : Int) (category : Category)
    (ctx : AgentContext) (record : RecordEntry) : AgentContext :=
  ctx.ignoring
    (ctx.setRecord lower now category record.key record.value record.source record.iteration)

def rewriteRecords (lower : String → String) (now : Int) (ctx : AgentContext)
    (category : Category) (records : List RecordEntry) : AgentContext :=
  records.foldl (rewriteRecord lower now category) ctx

/-- The new context of `from_json` before anything is restored. -/
def blank (now : Int) (snapshot : ContextSnapshot) : AgentContext :=
  .new now snapshot.contextId snapshot.userInput
    { ContextConfig.default with schemaVersion := snapshot.schemaVersion }

def restoreCategories (lower : String → String) (now : Int) (snapshot : ContextSnapshot)
    (ctx : AgentContext) : AgentContext :=
  snapshot.categories.entries.foldl (fun ctx e => rewriteRecords lower now ctx e.1 e.2) ctx

/-- `from_json` behind the parser. The sub-agent fields are private to another module and are
not restored. -/
def restore (lower : String → String) (now : Int) (snapshot : ContextSnapshot)
    (expectedSchemaVersion : String) : Except ContextError AgentContext :=
  if snapshot.schemaVersion ≠ expectedSchemaVersion then
    .error (.schemaVersionMismatch expectedSchemaVersion snapshot.schemaVersion)
  else
    let ctx := restoreCategories lower now snapshot (blank now snapshot)
    .ok { ctx with
      extensions := snapshot.extensions.foldl (fun m e => m.insert e.1 e.2) ctx.extensions
      auditLog := snapshot.auditLog
      responsePayload := snapshot.responsePayload.or ctx.responsePayload
      lifecycleState := snapshot.lifecycleState
      metadata := snapshot.metadata }

-- `from_json`
def fromJson (parse : String → Except String ContextSnapshot) (lower : String → String)
    (now : Int) (json expectedSchemaVersion : String) : Except ContextError AgentContext :=
  match parse json with
  | .error e => .error (.mergeFailed s!"JSON deserialization failed: {e}")
  | .ok snapshot => restore lower now snapshot expectedSchemaVersion

-- ---
-- Records written one after the other
-- ---

/-- The guard of a write lets the record through. -/
def admits (lower : String → String) (r : RecordEntry) : Bool :=
  !isSensitiveKey lower r.key && !isSensitiveValue lower r.value

theorem checkSensitiveData_eq_ok_iff (lower : String → String) (r : RecordEntry) :
    checkSensitiveData lower r.key r.value = .ok () ↔ admits lower r = true := by
  unfold checkSensitiveData admits
  cases isSensitiveKey lower r.key <;> cases isSensitiveValue lower r.value <;> simp

/-- The last record with the key that the guard lets through. -/
def lastAdmitted (lower : String → String) (key : String) (records : List RecordEntry) :
    Option RecordEntry :=
  (records.filter fun r => decide (r.key = key) && admits lower r).getLast?

theorem lastAdmitted_cons (lower : String → String) (key : String) (r : RecordEntry)
    (rest : List RecordEntry) :
    lastAdmitted lower key (r :: rest) =
      (lastAdmitted lower key rest).or
        (if r.key = key ∧ admits lower r = true then some r else none) := by
  unfold lastAdmitted
  rw [List.filter_cons]
  by_cases h : r.key = key ∧ admits lower r = true
  · rw [if_pos (by simpa using h), if_pos h, List.getLast?_cons]
    cases (rest.filter fun r => decide (r.key = key) && admits lower r).getLast? <;> rfl
  · rw [if_neg (by simpa using h), if_neg h, Option.or_none]

/-- No key occurs twice in a category. -/
def KeysOnce (ctx : AgentContext) : Prop :=
  ∀ category, ((ctx.getCategory category).map RecordEntry.key).Nodup

theorem keys_upsert (entry : RecordEntry) (records : List RecordEntry) :
    (upsert entry records).map RecordEntry.key =
      if entry.key ∈ records.map RecordEntry.key then records.map RecordEntry.key
      else records.map RecordEntry.key ++ [entry.key] := by
  induction records with
  | nil => rfl
  | cons r rest ih =>
    rw [upsert]
    by_cases hr : r.key = entry.key
    · simp [hr]
    · have hne : ¬entry.key = r.key := fun h => hr h.symm
      rw [if_neg hr, List.map_cons, ih]
      by_cases hmem : entry.key ∈ rest.map RecordEntry.key
      · rw [if_pos hmem, if_pos (by simp only [List.map_cons, List.mem_cons, hmem, or_true]),
          List.map_cons]
      · rw [if_neg hmem, if_neg (by simp only [List.map_cons, List.mem_cons, hne, hmem, or_false,
          not_false_eq_true]), List.map_cons, List.cons_append]

variable {records : List RecordEntry}

theorem nodup_upsert {entry : RecordEntry} (h : (records.map RecordEntry.key).Nodup) :
    ((upsert entry records).map RecordEntry.key).Nodup := by
  rw [keys_upsert]
  split
  · exact h
  · next hnew =>
    rw [List.nodup_append]
    refine ⟨h, List.nodup_singleton _, fun a ha b hb => ?_⟩
    rw [List.mem_singleton] at hb
    exact fun hab => hnew (hb ▸ hab ▸ ha)

theorem readValue_of_mem (h : (records.map RecordEntry.key).Nodup) {r : RecordEntry}
    (hr : r ∈ records) : readValue r.key records = some r.value := by
  induction records with
  | nil => exact absurd hr List.not_mem_nil
  | cons r' rest ih =>
    obtain ⟨hnew, hrest⟩ := List.nodup_cons.mp h
    rw [readValue_cons]
    rcases List.mem_cons.mp hr with rfl | hr
    · exact if_pos rfl
    · have hne : ¬r'.key = r.key := fun hk => hnew (hk ▸ List.mem_map_of_mem hr)
      rw [if_neg hne, ih hrest hr]

theorem mem_of_readValue {key : String} {value : Json} (h : readValue key records = some value) :
    ∃ r ∈ records, r.key = key ∧ r.value = value := by
  obtain ⟨r, hfind, hvalue⟩ := Option.map_eq_some_iff.mp h
  exact ⟨r, List.mem_of_find?_eq_some hfind, by simpa using List.find?_some hfind, hvalue⟩

section Rewrite

variable (lower : String → String) (now : Int)

/-- What the writes keep, and which value a key has after them. -/
structure Rewritten (ctx ctx' : AgentContext) (written : Category → String → Option Json) :
    Prop where
  isOpen : Open ctx'
  once : KeysOnce ctx'
  value : ∀ c key, readValue key (ctx'.getCategory c) =
    (written c key).or (readValue key (ctx.getCategory c))

variable {ctx : AgentContext}

theorem rewriteRecord_spec (hopen : Open ctx) (honce : KeysOnce ctx) (category : Category)
    (r : RecordEntry) :
    Rewritten ctx (rewriteRecord lower now category ctx r) fun c key =>
      if c = category ∧ r.key = key ∧ admits lower r = true then some r.value else none := by
  by_cases hadmits : admits lower r = true
  · have hguard := (checkSensitiveData_eq_ok_iff lower r).mpr hadmits
    obtain ⟨ctx', hset, hopen'⟩ :=
      setRecord_of_open lower now hopen category r.source r.iteration hguard
    have hcategory := (setRecord_eq_ok hset).2
    have hstep : rewriteRecord lower now category ctx r = ctx' := by
      unfold rewriteRecord
      rw [hset]
      rfl
    rw [hstep]
    refine ⟨hopen', fun c => ?_, fun c key => ?_⟩
    · rw [hcategory c]
      split
      · exact nodup_upsert (honce category)
      · exact honce c
    · rw [hcategory c]
      by_cases hc : c = category
      · subst hc
        rw [if_pos rfl, readValue_upsert]
        by_cases hkey : r.key = key
        · simp [hkey, hadmits]
        · simp [hkey]
      · simp [hc]
  · have hguard : checkSensitiveData lower r.key r.value ≠ .ok () :=
      mt (checkSensitiveData_eq_ok_iff lower r).mp hadmits
    have hstep : rewriteRecord lower now category ctx r = ctx := by
      unfold rewriteRecord ignoring
      split
      · next hset => exact absurd (setRecord_eq_ok hset).1 hguard
      · rfl
    rw [hstep]
    refine ⟨hopen, honce, fun c key => ?_⟩
    rw [if_neg (fun h => hadmits h.2.2)]
    rfl

theorem rewriteRecords_spec (hopen : Open ctx) (honce : KeysOnce ctx) (category : Category)
    (records : List RecordEntry) :
    Rewritten ctx (rewriteRecords lower now ctx category records) fun c key =>
      if c = category then (lastAdmitted lower key records).map RecordEntry.value else none := by
  induction records generalizing ctx with
  | nil =>
    refine ⟨hopen, honce, fun c key => ?_⟩
    show _ = Option.or (if c = category then none else none) _
    rw [ite_self]
    rfl
  | cons r rest ih =>
    obtain ⟨hopen₁, honce₁, hvalue₁⟩ := rewriteRecord_spec lower now hopen honce category r
    obtain ⟨hopen₂, honce₂, hvalue₂⟩ := ih hopen₁ honce₁
    refine ⟨hopen₂, honce₂, fun c key => ?_⟩
    rw [lastAdmitted_cons]
    show readValue key ((rewriteRecords lower now (rewriteRecord lower now category ctx r)
      category rest).getCategory c) = _
    rw [hvalue₂, hvalue₁]
    by_cases hc : c = category
    · by_cases hr : r.key = key ∧ admits lower r = true
      · cases lastAdmitted lower key rest <;> simp [hc, hr]
      · cases lastAdmitted lower key rest <;> simp [hc, hr]
    · simp [hc]

/-- The records of all categories, each of which the map has once. -/
theorem rewriteAll_spec (hopen : Open ctx) (honce : KeysOnce ctx)
    {entries : List (Sigma fun _ : Category => List RecordEntry)} (hnodup : entries.NodupKeys) :
    Rewritten ctx (entries.foldl (fun ctx e => rewriteRecords lower now ctx e.1 e.2) ctx)
      fun c key =>
        (entries.dlookup c).bind fun records =>
          (lastAdmitted lower key records).map RecordEntry.value := by
  induction entries generalizing ctx with
  | nil => exact ⟨hopen, honce, fun c key => rfl⟩
  | cons e rest ih =>
    obtain ⟨hnew, hrest⟩ := List.nodupKeys_cons.mp hnodup
    obtain ⟨hopen₁, honce₁, hvalue₁⟩ := rewriteRecords_spec lower now hopen honce e.1 e.2
    obtain ⟨hopen₂, honce₂, hvalue₂⟩ := ih hopen₁ honce₁ hrest
    refine ⟨hopen₂, honce₂, fun c key => ?_⟩
    rw [List.foldl_cons, hvalue₂, hvalue₁]
    by_cases hc : c = e.1
    · subst hc
      have hnone : rest.dlookup e.1 = none := List.dlookup_eq_none.mpr hnew
      rw [hnone, List.dlookup_cons_eq]
      simp
    · have hne : e.1 ≠ c := fun h => hc h.symm
      rw [List.dlookup_cons_ne _ _ hc, if_neg hc, Option.none_or]

end Rewrite

theorem sameExtras_rewriteRecords (lower : String → String) (now : Int) (ctx : AgentContext)
    (category : Category) (records : List RecordEntry) :
    SameExtras ctx (rewriteRecords lower now ctx category records) := by
  unfold rewriteRecords
  refine sameExtras_foldl (fun ctx r => ?_) records ctx
  unfold rewriteRecord
  exact sameExtras_setRecord lower now ctx category r.key r.value r.source r.iteration

theorem sameExtras_restoreCategories (lower : String → String) (now : Int)
    (snapshot : ContextSnapshot) (ctx : AgentContext) :
    SameExtras ctx (restoreCategories lower now snapshot ctx) := by
  unfold restoreCategories
  exact sameExtras_foldl (fun ctx e => sameExtras_rewriteRecords lower now ctx e.1 e.2)
    snapshot.categories.entries ctx

/-- The records of a restored context: for each key the last one that the guard lets through. -/
theorem restore_eq_ok {lower : String → String} {now : Int} {snapshot : ContextSnapshot}
    {expected : String} {ctx : AgentContext}
    (h : restore lower now snapshot expected = .ok ctx) :
    KeysOnce ctx ∧
      (∀ c key, readValue key (ctx.getCategory c) =
        (snapshot.categories.lookup c).bind fun records =>
          (lastAdmitted lower key records).map RecordEntry.value) ∧
      (ctx.extensions = HashMap.collect snapshot.extensions ∧
        ctx.metadata = snapshot.metadata) := by
  unfold restore at h
  split at h
  · cases h
  · cases h
    have hblank : KeysOnce (blank now snapshot) := fun _ => List.nodup_nil
    have hrewritten :=
      rewriteAll_spec lower now ⟨rfl, rfl⟩ hblank snapshot.categories.nodupKeys
    refine ⟨hrewritten.once, fun c key => ?_, ?_, rfl⟩
    · exact (hrewritten.value c key).trans Option.or_none
    · exact congrArg (fun m => snapshot.extensions.foldl (fun m e => m.insert e.1 e.2) m)
        (sameExtras_restoreCategories lower now snapshot (blank now snapshot)).1

end AgentContext

end Context

end HiveClaw
