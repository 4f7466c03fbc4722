import HiveClaw.Context.Snapshot

/-!
# Credentials in a context

A context is to refuse data with credential fields. `check_sensitive_data`
looks at the key of a record and at the top-level keys of its value; nothing
looks at the keys below them, inside arrays, in the data of an extension or in
the metadata, and a snapshot is restored with its extensions and its metadata
as they are.

* `secretFree_iff` — no context ever holds a sensitive key exactly if no write
  hands one over where the guard does not look.
-/

namespace HiveClaw

/-! ## The keys of a value -/

mutual

/-- The keys of all objects in a value, at any depth. -/
def Json.allKeys : Json → List String
  | .arr items => Json.allKeysItems items
  | .obj fields => Json.allKeysFields fields
  | _ => []

def Json.allKeysItems : List Json → List String
  | [] => []
  | v :: rest => v.allKeys ++ Json.allKeysItems rest

/-- The keys of the fields and the keys in their values. -/
def Json.allKeysFields : List (String × Json) → List String
  | [] => []
  | (k, v) :: rest => k :: (v.allKeys ++ Json.allKeysFields rest)
end

namespace Context

namespace AgentContext

-- ---
-- What is stored
-- ---

/-- No key of the value, at any depth, matches the patterns. -/
def Harmless (lower : String → String) (value : Json) : Prop :=
  ∀ key ∈ value.allKeys, isSensitiveKey lower key = false

/-- Nothing sensitive is stored: in no record, in no extension, in no metadata entry. -/
structure SecretFree (lower : String → String) (ctx : AgentContext) : Prop where
  records : ∀ category, ∀ r ∈ ctx.getCategory category, Harmless lower r.value
  extensions : ∀ id content, ctx.extensions.lookup id = some content →
    Harmless lower content.data
  metadata : ∀ key value, ctx.metadata.lookup key = some value → isSensitiveKey lower key = false

theorem SecretFree.of_same {lower : String → String} {ctx ctx' : AgentContext}
    (h : SecretFree lower ctx) (hextras : SameExtras ctx ctx')
    (hrecords : ∀ c, ∀ r ∈ ctx'.getCategory c, r ∈ ctx.getCategory c ∨ Harmless lower r.value) :
    SecretFree lower ctx' := by
  obtain ⟨hextensions, hmetadata⟩ := hextras
  refine ⟨fun c r hr => ?_, fun id content hlookup => ?_, fun key value hlookup => ?_⟩
  · rcases hrecords c r hr with hold | hnew
    · exact h.records c r hold
    · exact hnew
  · rw [hextensions] at hlookup
    exact h.extensions id content hlookup
  · rw [hmetadata] at hlookup
    exact h.metadata key value hlookup

-- ---
-- What is handed over
-- ---

/-- What a caller hands to the operations that store data. -/
inductive Write where
  | record (key : String) (value : Json)
  | extension (data : Json)
  | metadata (key : String)
  | snapshot (json : String)

/-- A snapshot without a sensitive key in what of it is restored: the last record of each key
that the guard lets through, the last extension of each id, the metadata. -/
structure ContextSnapshotClean (lower : String → String) (snapshot : ContextSnapshot) : Prop where
  records : ∀ category records key r, snapshot.categories.lookup category = some records →
    lastAdmitted lower key records = some r → Harmless lower r.value
  extensions : ∀ id content, (HashMap.collect snapshot.extensions).lookup id = some content →
    Harmless lower content.data
  metadata : ∀ key value, snapshot.metadata.lookup key = some value →
    isSensitiveKey lower key = false

section Runs

variable (parse : String → Except String ContextSnapshot) (lower : String → String)

/-- A write hands over no sensitive key where the guard does not look. -/
def Write.Clean : Write → Prop
  | .record key value => checkSensitiveData lower key value = .ok () → Harmless lower value
  | .extension data => Harmless lower data
  | .metadata key => isSensitiveKey lower key = false
  | .snapshot json => ∀ snapshot, parse json = .ok snapshot → ContextSnapshotClean lower snapshot

/-- The operations that store neither records nor extensions nor metadata. -/
inductive Quiet : AgentContext → AgentContext → Prop
  | setLifecycleState {ctx ctx' : AgentContext} {target : LifecycleState}
      (h : ctx.setLifecycleState target = .ok ctx') : Quiet ctx ctx'
  | setResponsePayload {ctx ctx' : AgentContext} {payload : ResponsePayload}
      (h : ctx.setResponsePayload payload = .ok ctx') : Quiet ctx ctx'
  | setMessages {ctx ctx' : AgentContext} {messages : List Json}
      (h : ctx.setMessages messages = .ok ctx') : Quiet ctx ctx'
  | recordToolCall {ctx ctx' : AgentContext} {toolName : String} {arguments : Json}
      {result : Option Json} {status : ToolCallStatus} {startedAt : Int}
      {completedAt : Option Int}
      (h : ctx.recordToolCall toolName arguments result status startedAt completedAt = .ok ctx') :
      Quiet ctx ctx'
  | recordSkillExecution {ctx ctx' : AgentContext} {skillName : String} {input : Json}
      {output : Option Json} {status : SkillExecutionStatus} {startedAt : Int}
      {completedAt : Option Int}
      (h : ctx.recordSkillExecution skillName input output status startedAt completedAt =
        .ok ctx') : Quiet ctx ctx'
  | recordDelegation {ctx ctx' : AgentContext} {subagentId delegationChain : String}
      {input : Json} {output : Option Json} {success : Bool} {startedAt : Int}
      {completedAt : Option Int}
      (h : ctx.recordDelegation subagentId delegationChain input output success startedAt
        completedAt = .ok ctx') : Quiet ctx ctx'

/-- The contexts that a program can have, if what it hands over is `ok`. -/
inductive Reached (ok : Write → Prop) : AgentContext → Prop
  | new (now : Int) (contextId : String) (userInput : UserInput) (config : ContextConfig) :
      Reached ok (.new now contextId userInput config)
  | setRecord {ctx ctx' : AgentContext} {now : Int} {category : Category} {key : String}
      {value : Json} {source : String} {iteration : Nat} (hctx : Reached ok ctx)
      (hok : ok (.record key value))
      (h : ctx.setRecord lower now category key value source iteration = .ok ctx') :
      Reached ok ctx'
  | appendRecord {ctx ctx' : AgentContext} {now : Int} {category : Category} {key : String}
      {value : Json} {source : String} {iteration : Nat} (hctx : Reached ok ctx)
      (hok : ok (.record key value))
      (h : ctx.appendRecord lower now category key value source iteration = .ok ctx') :
      Reached ok ctx'
  | addExtension {ctx ctx' : AgentContext} {id : String} {content : ExtensionContent}
      (hctx : Reached ok ctx) (hok : ok (.extension content.data))
      (h : ctx.addExtension id content = .ok ctx') : Reached ok ctx'
  | setMetadata {ctx ctx' : AgentContext} {key value : String} (hctx : Reached ok ctx)
      (hok : ok (.metadata key)) (h : ctx.setMetadata key value = .ok ctx') : Reached ok ctx'
  | quiet {ctx ctx' : AgentContext} (hctx : Reached ok ctx) (h : Quiet ctx ctx') :
      Reached ok ctx'
  | fork {ctx : AgentContext} {now : Int} {subagentId : String} {blacklist : List Category}
      {child : SubagentContext} (hctx : Reached ok ctx)
      (h : ctx.forkForSubagent lower now subagentId blacklist = .ok child) :
      Reached ok child.context
  | merge {ctx ctx' : AgentContext} {now : Int} {subagent : SubagentContext}
      (hctx : Reached ok ctx) (hchild : Reached ok subagent.context)
      (h : ctx.mergeSubagentContext lower now subagent = .ok ctx') : Reached ok ctx'
  | fromJson {ctx : AgentContext} {now : Int} {json expected : String}
      (hok : ok (.snapshot json))
      (h : AgentContext.fromJson parse lower now json expected = .ok ctx) : Reached ok ctx

-- ---
-- One operation
-- ---

variable {parse lower} {ctx ctx' : AgentContext}

theorem SecretFree.new (now : Int) (contextId : String) (userInput : UserInput)
    (config : ContextConfig) : SecretFree lower (.new now contextId userInput config) :=
  ⟨fun _ _ hr => absurd hr List.not_mem_nil, fun _ _ h => absurd h (by simp [AgentContext.new]),
    fun _ _ h => absurd h (by simp [AgentContext.new])⟩

-- an operation that asks whether the context is open and then does something else
theorem of_guarded {d : AgentContext}
    (h : (do ctx.checkWriteAllowed; pure d : Except ContextError AgentContext) = .ok ctx') :
    ctx' = d := by
  simp only [bind, Except.bind, pure, Except.pure] at h
  split at h
  · cases h
  · exact (Except.ok.inj h).symm

theorem Quiet.same (h : Quiet ctx ctx') :
    ctx'.categories = ctx.categories ∧ SameExtras ctx ctx' := by
  cases h with
  | setLifecycleState h =>
    unfold AgentContext.setLifecycleState at h
    split at h
    · cases h
      exact ⟨rfl, rfl, rfl⟩
    · cases h
  | setMessages h =>
    cases h
    exact ⟨rfl, rfl, rfl⟩
  | setResponsePayload h | recordToolCall h | recordSkillExecution h | recordDelegation h =>
    rw [of_guarded h]
    exact ⟨rfl, rfl, rfl⟩

variable {now : Int} {category : Category} {key source : String} {value : Json} {iteration : Nat}

theorem secretFree_setRecord (hctx : SecretFree lower ctx)
    (hclean : checkSensitiveData lower key value = .ok () → Harmless lower value) :
    SecretFree lower
      (ctx.ignoring (ctx.setRecord lower now category key value source iteration)) := by
  refine hctx.of_same (sameExtras_setRecord lower now ctx category key value source iteration)
    fun c r hr => ?_
  rcases mem_setRecord lower now ctx category key value source iteration hr with
    hold | ⟨hguard, rfl⟩
  · exact Or.inl hold
  · exact Or.inr (hclean hguard)

theorem secretFree_appendRecord (hctx : SecretFree lower ctx)
    (hclean : checkSensitiveData lower key value = .ok () → Harmless lower value)
    (h : ctx.appendRecord lower now category key value source iteration = .ok ctx') :
    SecretFree lower ctx' := by
  obtain ⟨hguard, hcategory⟩ := appendRecord_eq_ok h
  have hextras : SameExtras ctx ctx' := by
    simp only [appendRecord, bind, Except.bind, pure, Except.pure] at h
    split at h
    · cases h
    split at h
    · cases h
    split at h
    · cases h
    · cases h
      exact ⟨rfl, rfl⟩
  refine hctx.of_same hextras fun c r hr => ?_
  rw [hcategory c] at hr
  split at hr
  · next hc =>
    subst hc
    rcases List.mem_append.mp hr with hold | hnew
    · exact Or.inl hold
    · obtain rfl := List.mem_singleton.mp hnew
      exact Or.inr (hclean hguard)
  · exact Or.inl hr

theorem secretFree_addExtension {id : String} {content : ExtensionContent}
    (hctx : SecretFree lower ctx) (hclean : Harmless lower content.data)
    (h : ctx.addExtension id content = .ok ctx') : SecretFree lower ctx' := by
  rw [of_guarded h]
  refine ⟨hctx.records, fun id' content' hlookup => ?_, hctx.metadata⟩
  rw [HashMap.lookup_insert_ite] at hlookup
  split at hlookup
  · obtain rfl := Option.some.inj hlookup
    exact hclean
  · exact hctx.extensions id' content' hlookup

theorem secretFree_setMetadata {value : String} (hctx : SecretFree lower ctx)
    (hclean : isSensitiveKey lower key = false) (h : ctx.setMetadata key value = .ok ctx') :
    SecretFree lower ctx' := by
  cases h
  refine ⟨hctx.records, hctx.extensions, fun key' value' hlookup => ?_⟩
  rw [HashMap.lookup_insert_ite] at hlookup
  split at hlookup
  · next hkey => rw [hkey, hclean]
  · exact hctx.metadata key' value' hlookup

theorem secretFree_fork {subagentId : String} {blacklist : List Category}
    {child : SubagentContext} (hctx : SecretFree lower ctx)
    (h : ctx.forkForSubagent lower now subagentId blacklist = .ok child) :
    SecretFree lower child.context := by
  unfold forkForSubagent at h
  split at h
  · cases h
  · cases h
    suffices hcopied : SecretFree lower (copyCategories lower now ctx copiedCategories
        (.new now s!"{ctx.contextId}-fork" ctx.userInput ctx.config)) from
      ⟨hcopied.records, hcopied.extensions, hcopied.metadata⟩
    have hcopy : ∀ (source : String) (category : Category) (records : List RecordEntry)
        (child : AgentContext), (∀ r ∈ records, Harmless lower r.value) →
        SecretFree lower child →
          SecretFree lower (copyRecords lower now source category records child) := by
      intro source category records
      induction records with
      | nil => exact fun child _ hchild => hchild
      | cons r rest ih =>
        intro child hrecords hchild
        refine ih _ (fun r' hr' => hrecords r' (List.mem_cons_of_mem _ hr')) ?_
        exact secretFree_setRecord hchild fun _ => hrecords r List.mem_cons_self
    have hcategories : ∀ (categories : List Category) (child : AgentContext),
        SecretFree lower child →
          SecretFree lower (copyCategories lower now ctx categories child) := by
      intro categories
      induction categories with
      | nil => exact fun child hchild => hchild
      | cons c rest ih =>
        intro child hchild
        exact ih _ (hcopy _ c _ child (hctx.records c) hchild)
    exact hcategories _ _ (.new _ _ _ _)

theorem secretFree_merge {subagent : SubagentContext} (hctx : SecretFree lower ctx)
    (hchild : SecretFree lower subagent.context)
    (h : ctx.mergeSubagentContext lower now subagent = .ok ctx') : SecretFree lower ctx' := by
  refine hctx.of_same (sameExtras_merge h) fun c r hr => ?_
  rcases mem_merge h hr with hold | ⟨category, r', hr', hvalue⟩
  · exact Or.inl hold
  · exact Or.inr (hvalue ▸ hchild.records category r' hr')

theorem secretFree_restore_iff {snapshot : ContextSnapshot} {expected : String}
    (h : restore lower now snapshot expected = .ok ctx) :
    SecretFree lower ctx ↔ ContextSnapshotClean lower snapshot := by
  obtain ⟨honce, hvalue, hextensions, hmetadata⟩ := restore_eq_ok h
  constructor
  · intro hfree
    refine ⟨fun category records key r hlookup hlast => ?_, hextensions ▸ hfree.extensions,
      hmetadata ▸ hfree.metadata⟩
    have hread : readValue key (ctx.getCategory category) = some r.value := by
      rw [hvalue, hlookup, Option.bind_some, hlast, Option.map_some]
    obtain ⟨r', hr', -, hsame⟩ := mem_of_readValue hread
    exact hsame ▸ hfree.records category r' hr'
  · intro hclean
    refine ⟨fun category r hr => ?_, hextensions ▸ hclean.extensions,
      hmetadata ▸ hclean.metadata⟩
    have hread := readValue_of_mem (honce category) hr
    rw [hvalue] at hread
    obtain ⟨records, hlookup, hmap⟩ := Option.bind_eq_some_iff.mp hread
    obtain ⟨r', hlast, hsame⟩ := Option.map_eq_some_iff.mp hmap
    exact hsame ▸ hclean.records category records r.key r' hlookup hlast

-- ---
-- Every context
-- ---

theorem Reached.secretFree {ok : Write → Prop} (hok : ∀ w, ok w → w.Clean parse lower)
    (h : Reached parse lower ok ctx) : SecretFree lower ctx := by
  induction h with
  | new => exact .new _ _ _ _
  | @setRecord ctx ctx' now category key value source iteration _ hw hset ih =>
    have hfree : SecretFree lower
        (ctx.ignoring (ctx.setRecord lower now category key value source iteration)) :=
      secretFree_setRecord ih (hok _ hw)
    rwa [hset] at hfree
  | appendRecord _ hw happend ih => exact secretFree_appendRecord ih (hok _ hw) happend
  | addExtension _ hw hadd ih => exact secretFree_addExtension ih (hok _ hw) hadd
  | setMetadata _ hw hset ih => exact secretFree_setMetadata ih (hok _ hw) hset
  | quiet _ hquiet ih =>
    obtain ⟨hcategories, hextras⟩ := hquiet.same
    refine ih.of_same hextras fun c r hr => Or.inl ?_
    rwa [getCategory, ← hcategories]
  | fork _ hfork ih => exact secretFree_fork ih hfork
  | merge _ _ hmerge ih ihchild => exact secretFree_merge ih ihchild hmerge
  | @fromJson ctx now json expected hw hread =>
    unfold AgentContext.fromJson at hread
    split at hread
    · cases hread
    · next snapshot hparse =>
      exact (secretFree_restore_iff hread).mpr (hok _ hw snapshot hparse)

theorem clean_of_secretFree {ok : Write → Prop}
    (hfree : ∀ ctx, Reached parse lower ok ctx → SecretFree lower ctx) {w : Write} (hw : ok w) :
    w.Clean parse lower := by
  have hfresh : Reached parse lower ok fresh := .new _ _ _ _
  cases w with
  | record key value =>
    intro hguard
    have hopen : Open fresh := ⟨rfl, rfl⟩
    obtain ⟨ctx', hset, -⟩ := setRecord_of_open lower 0 hopen .entities "" 0 hguard
    refine (hfree ctx' (hfresh.setRecord hw hset)).records .entities
      ⟨key, value, "", 0, 0⟩ ?_
    rw [(setRecord_eq_ok hset).2, if_pos rfl]
    exact List.mem_singleton_self _
  | extension data =>
    have hadd : fresh.addExtension "" (.new "" .card none data) =
        .ok { fresh with extensions := fresh.extensions.insert "" (.new "" .card none data) } :=
      rfl
    exact (hfree _ (hfresh.addExtension hw hadd)).extensions "" (.new "" .card none data)
      (AList.lookup_insert _)
  | metadata key =>
    have hset : fresh.setMetadata key "" =
        .ok { fresh with metadata := fresh.metadata.insert key "" } := rfl
    exact (hfree _ (hfresh.setMetadata hw hset)).metadata key "" (AList.lookup_insert _)
  | snapshot json =>
    intro snapshot hparse
    obtain ⟨ctx', hrestore⟩ :
        ∃ ctx', restore lower 0 snapshot snapshot.schemaVersion = .ok ctx' :=
      ⟨_, if_neg (not_not.mpr rfl)⟩
    have hread : AgentContext.fromJson parse lower 0 json snapshot.schemaVersion = .ok ctx' := by
      rw [AgentContext.fromJson, hparse]
      exact hrestore
    exact (secretFree_restore_iff hrestore).mp (hfree ctx' (.fromJson hw hread))

/-- No context holds a sensitive key exactly if no write hands one over unguarded. -/
theorem secretFree_iff (parse : String → Except String ContextSnapshot)
    (lower : String → String) (ok : Write → Prop) :
    (∀ ctx, Reached parse lower ok ctx → SecretFree lower ctx) ↔
      ∀ w, ok w → w.Clean parse lower :=
  ⟨fun hfree _ hw => clean_of_secretFree hfree hw, fun hok _ h => h.secretFree hok⟩

end Runs

/-- A tool result whose `data` holds an API key is stored: the guard sees the key `data` only. -/
theorem nested_secret_stored :
    ∃ ctx, fresh.setRecord id 1 .toolResults "lookup"
        (.obj [("data", .obj [("api_key", .str "sk-1")])]) "tool" 1 = .ok ctx ∧
      Reached (fun _ => .error "") id (fun _ => True) ctx ∧ ¬SecretFree id ctx := by
  obtain ⟨ctx, hset⟩ : ∃ ctx, fresh.setRecord id 1 .toolResults "lookup"
      (.obj [("data", .obj [("api_key", .str "sk-1")])]) "tool" 1 = .ok ctx := ⟨_, rfl⟩
  have hfresh : Reached (fun _ => .error "") id (fun _ => True) fresh := .new _ _ _ _
  refine ⟨ctx, hset, hfresh.setRecord trivial hset, fun hfree => ?_⟩
  have hkey := hfree.records .toolResults ⟨"lookup",
    .obj [("data", .obj [("api_key", .str "sk-1")])], "tool", 1, 1⟩
    (by rw [(setRecord_eq_ok hset).2, if_pos rfl]; exact List.mem_cons_self)
    "api_key" (by decide)
  exact absurd hkey (by decide)

end AgentContext

end Context

end HiveClaw
