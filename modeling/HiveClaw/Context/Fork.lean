import HiveClaw.Context.Definitions

/-!
# Forking a context for a subagent

`fork_for_subagent` of `crates/agent/src/context/merge.rs` gives a subagent a
new context and writes the records of the parent into it, category by
category. Reading a key takes the first record that has it; `set_record`,
with which the copy is made, overwrites the first record that has it. So the
copy ends with the value of the last record of a key.

* `read_fork_iff` — when it is what a read on the parent finds.
-/

namespace HiveClaw

namespace Context

namespace AgentContext

-- ---
-- Model
-- ---

/-- The categories that are copied, in the order of the source. -/
def copiedCategories : List Category :=
  [.entities, .intentions, .toolResults, .queryResults, .workflowResults, .reasoningResults,
    .extensions, .stateChanges, .subagentResults]

/-- The loop over the records of one category; an error is thrown away. -/
def copyRecords (lower : String → String) (now : Int) (source : String) (category : Category)
    (records : List RecordEntry) (child : AgentContext) : AgentContext :=
  records.foldl (fun child record =>
    child.ignoring
      (child.setRecord lower now category record.key record.value source record.iteration)) child

def copyCategories (lower : String → String) (now : Int) (parent : AgentContext)
    (categories : List Category) (child : AgentContext) : AgentContext :=
  categories.foldl (fun child category =>
    copyRecords lower now s!"fork-from-parent-{parent.contextId}" category
      (parent.getCategory category) child) child

end AgentContext

-- `SubagentContext`
structure SubagentContext where
  context : AgentContext
  subagentId : String
  blacklist : List Category
  delegationChain : String

namespace AgentContext

/-- The chain of a subagent of `ctx`. -/
def forkChain (ctx : AgentContext) (subagentId : String) : String :=
  if ctx.delegationChain = "" then s!"{subagentId}/"
  else s!"{ctx.delegationChain}{subagentId}/"

-- `fork_for_subagent`
def forkForSubagent (lower : String → String) (now : Int) (ctx : AgentContext)
    (subagentId : String) (blacklist : List Category) : Except ContextError SubagentContext :=
  if .subagentResults ∈ blacklist then
    .error (.invalidBlacklist .subagentResults
      "SubagentResults cannot be blacklisted; sub-agent must write its own results")
  else
    let child := copyCategories lower now ctx copiedCategories
      (.new now s!"{ctx.contextId}-fork" ctx.userInput ctx.config)
    .ok
      { context :=
          { child with
            delegationChain := ctx.forkChain subagentId
            subagentId := some subagentId
            blacklistedCategories := some blacklist }
        subagentId := subagentId
        blacklist := blacklist
        delegationChain := ctx.forkChain subagentId }

-- ---
-- Contexts as they are built
-- ---

/-- The contexts that programs can have, as far as records go. Merging, restoring from a
snapshot and forking write records with `set_record`; no other operation touches them. -/
inductive Built (lower : String → String) : AgentContext → Prop
  | new (now : Int) (contextId : String) (userInput : UserInput) (config : ContextConfig) :
      Built lower (.new now contextId userInput config)
  | setRecord {ctx ctx' : AgentContext} {now : Int} {category : Category} {key : String}
      {value : Json} {source : String} {iteration : Nat} (hctx : Built lower ctx)
      (h : ctx.setRecord lower now category key value source iteration = .ok ctx') :
      Built lower ctx'
  | appendRecord {ctx ctx' : AgentContext} {now : Int} {category : Category} {key : String}
      {value : Json} {source : String} {iteration : Nat} (hctx : Built lower ctx)
      (h : ctx.appendRecord lower now category key value source iteration = .ok ctx') :
      Built lower ctx'
  | other {ctx ctx' : AgentContext} (hctx : Built lower ctx)
      (h : ctx'.categories = ctx.categories) : Built lower ctx'

/-- Every record has passed the guard against sensitive data. -/
def Clean (lower : String → String) (ctx : AgentContext) : Prop :=
  ∀ category, ∀ r ∈ ctx.getCategory category, checkSensitiveData lower r.key r.value = .ok ()

-- a write that succeeds has passed the guard and changes the records of one category
variable {lower : String → String} {now : Int} {ctx ctx' : AgentContext} {category : Category}
  {key source : String} {value : Json} {iteration : Nat}

theorem setRecord_eq_ok
    (h : ctx.setRecord lower now category key value source iteration = .ok ctx') :
    checkSensitiveData lower key value = .ok () ∧
      ∀ c, ctx'.getCategory c =
        if c = category then upsert ⟨key, value, source, now, iteration⟩ (ctx.getCategory category)
        else ctx.getCategory c := by
  simp only [setRecord, bind, Except.bind, pure, Except.pure] at h
  split at h
  · cases h
  split at h
  · cases h
  split at h
  · cases h
  · next hguard =>
    cases h
    refine ⟨hguard, fun c => ?_⟩
    by_cases hc : c = category
    · subst hc
      simp [getCategory, withStore]
    · simp [getCategory, withStore, hc]

theorem appendRecord_eq_ok
    (h : ctx.appendRecord lower now category key value source iteration = .ok ctx') :
    checkSensitiveData lower key value = .ok () ∧
      ∀ c, ctx'.getCategory c =
        if c = category then ctx.getCategory category ++ [⟨key, value, source, now, iteration⟩]
        else ctx.getCategory c := by
  simp only [appendRecord, bind, Except.bind, pure, Except.pure] at h
  split at h
  · cases h
  split at h
  · cases h
  split at h
  · cases h
  · next hguard =>
    cases h
    refine ⟨hguard, fun c => ?_⟩
    by_cases hc : c = category
    · subst hc
      simp [getCategory, withStore]
    · simp [getCategory, withStore, hc]

variable {records : List RecordEntry}

theorem mem_upsert {entry r : RecordEntry} (h : r ∈ upsert entry records) : r = entry ∨ r ∈ records := by
  induction records with
  | nil => exact Or.inl (List.mem_singleton.mp h)
  | cons r' rest ih =>
    rw [upsert] at h
    split at h
    · exact (List.mem_cons.mp h).imp_right (List.mem_cons_of_mem _)
    · rcases List.mem_cons.mp h with rfl | h
      · exact Or.inr List.mem_cons_self
      · exact (ih h).imp_right (List.mem_cons_of_mem _)

theorem Built.clean (h : Built lower ctx) : Clean lower ctx := by
  induction h with
  | new => exact fun _ _ hr => absurd hr List.not_mem_nil
  | @setRecord ctx ctx' now category key value source iteration _ hset ih =>
    obtain ⟨hguard, hcategory⟩ := setRecord_eq_ok hset
    intro c r hr
    rw [hcategory c] at hr
    split at hr
    · rcases mem_upsert hr with rfl | hr
      · exact hguard
      · exact ih _ r hr
    · exact ih _ r hr
  | @appendRecord ctx ctx' now category key value source iteration _ happend ih =>
    obtain ⟨hguard, hcategory⟩ := appendRecord_eq_ok happend
    intro c r hr
    rw [hcategory c] at hr
    split at hr
    · rcases List.mem_append.mp hr with hr | hr
      · exact ih _ r hr
      · obtain rfl := List.mem_singleton.mp hr
        exact hguard
    · exact ih _ r hr
  | other _ hsame ih =>
    intro c r hr
    refine ih c r ?_
    rwa [getCategory, ← hsame]

-- ---
-- The copy
-- ---

/-- The value that a read of a key finds among records. -/
def readValue (key : String) (records : List RecordEntry) : Option Json :=
  (records.find? fun r => r.key = key).map RecordEntry.value

theorem readValue_cons (key : String) (r : RecordEntry) (rest : List RecordEntry) :
    readValue key (r :: rest) = if r.key = key then some r.value else readValue key rest := by
  unfold readValue
  rw [List.find?_cons]
  by_cases hr : r.key = key
  · simp [hr]
  · simp [hr]

theorem readValue_upsert (key : String) (entry : RecordEntry) (records : List RecordEntry) :
    readValue key (upsert entry records) =
      if entry.key = key then some entry.value else readValue key records := by
  induction records with
  | nil => rw [upsert, readValue_cons]
  | cons r rest ih =>
    rw [upsert]
    split
    · next hkey =>
      rw [readValue_cons, readValue_cons, hkey]
      split <;> rfl
    · next hkey =>
      rw [readValue_cons, readValue_cons, ih]
      split
      · next hr => rw [if_neg (fun he => hkey (hr.trans he.symm))]
      · rfl

/-- A context that takes every record that passes the guard. -/
def Open (ctx : AgentContext) : Prop :=
  ctx.lifecycleState = .active ∧ ctx.blacklistedCategories = none

theorem setRecord_of_open (lower : String → String) (now : Int) (hopen : Open ctx)
    (category : Category) (source : String) (iteration : Nat)
    (hguard : checkSensitiveData lower key value = .ok ()) :
    ∃ ctx', ctx.setRecord lower now category key value source iteration = .ok ctx' ∧
      Open ctx' := by
  obtain ⟨hactive, hfree⟩ := hopen
  have hwrite : ctx.checkWriteAllowed = .ok () := by simp [checkWriteAllowed, hactive]
  have hblack : ctx.checkBlacklist category = .ok () := by simp [checkBlacklist, hfree]
  simp only [setRecord, hwrite, hblack, hguard, bind, Except.bind, pure, Except.pure]
  exact ⟨_, rfl, hactive, hfree⟩

variable {child : AgentContext}

/-- Copying the records of a category writes the last value of every key, and nothing to the
other categories. -/
theorem copyRecords_spec (lower : String → String) (now : Int) (source : String)
    (category : Category)
    (hclean : ∀ r ∈ records, checkSensitiveData lower r.key r.value = .ok ()) (hopen : Open child) :
    Open (copyRecords lower now source category records child) ∧
      (∀ key, readValue key ((copyRecords lower now source category records child).getCategory
          category) =
        (readValue key records.reverse).or (readValue key (child.getCategory category))) ∧
      ∀ c, c ≠ category → (copyRecords lower now source category records child).getCategory c =
        child.getCategory c := by
  induction records generalizing child with
  | nil => exact ⟨hopen, fun key => rfl, fun c _ => rfl⟩
  | cons r rest ih =>
    obtain ⟨child', hset, hopen'⟩ := setRecord_of_open lower now hopen category source r.iteration
      (hclean r List.mem_cons_self)
    have hcategory := (setRecord_eq_ok hset).2
    have hstep : copyRecords lower now source category (r :: rest) child =
        copyRecords lower now source category rest child' := by
      unfold copyRecords
      rw [List.foldl_cons, hset]
      rfl
    obtain ⟨hopen'', hread, hother⟩ := ih (fun r' hr' => hclean r' (List.mem_cons_of_mem _ hr'))
      hopen'
    rw [hstep]
    refine ⟨hopen'', fun key => ?_, fun c hc => ?_⟩
    · rw [hread key, hcategory category, if_pos rfl, readValue_upsert, List.reverse_cons]
      have happend : readValue key (rest.reverse ++ [r]) =
          (readValue key rest.reverse).or (if r.key = key then some r.value else none) := by
        unfold readValue
        rw [List.find?_append]
        cases rest.reverse.find? fun r => r.key = key with
        | some r' => rfl
        | none =>
          by_cases hr : r.key = key
          · simp [hr]
          · simp [hr]
      rw [happend]
      cases readValue key rest.reverse with
      | some v => rfl
      | none =>
        rw [Option.none_or, Option.none_or]
        split <;> rfl
    · rw [hother c hc, hcategory c, if_neg hc]

theorem copyCategories_spec (lower : String → String) (now : Int) {parent : AgentContext}
    (hclean : Clean lower parent) {categories : List Category} (hnodup : categories.Nodup)
    (hopen : Open child) (category : Category) :
    (category ∈ categories → child.getCategory category = [] → ∀ key,
      readValue key ((copyCategories lower now parent categories child).getCategory category) =
        readValue key (parent.getCategory category).reverse) ∧
      (category ∉ categories →
        (copyCategories lower now parent categories child).getCategory category =
          child.getCategory category) := by
  induction categories generalizing child with
  | nil => exact ⟨fun h => absurd h List.not_mem_nil, fun _ => rfl⟩
  | cons c rest ih =>
    obtain ⟨hnew, hrest⟩ := List.nodup_cons.mp hnodup
    obtain ⟨hopen', hread, hother⟩ := copyRecords_spec lower now
      s!"fork-from-parent-{parent.contextId}" c (hclean c) hopen
    obtain ⟨hin, hout⟩ := ih hrest hopen'
    constructor
    · intro hmem hempty key
      show readValue key ((copyCategories lower now parent rest _).getCategory category) = _
      rcases List.mem_cons.mp hmem with rfl | hmem
      · rw [hout hnew, hread key, hempty]
        exact Option.or_none
      · have hne : category ≠ c := fun h => hnew (h ▸ hmem)
        exact hin hmem (by rw [hother category hne, hempty]) key
    · intro hmem
      have hne : category ≠ c := fun h => hmem (h ▸ List.mem_cons_self)
      show (copyCategories lower now parent rest _).getCategory category = _
      rw [hout fun h => hmem (List.mem_cons_of_mem _ h), hother category hne]

/-! ## Reads on the child -/

theorem mem_copiedCategories (category : Category) : category ∈ copiedCategories := by
  cases category <;> decide

/-- What a read on the child finds. -/
theorem getRecord_fork {parent : AgentContext} (hparent : Built lower parent)
    {subagentId : String} {blacklist : List Category} {child : SubagentContext}
    (h : parent.forkForSubagent lower now subagentId blacklist = .ok child) (category : Category)
    (key : String) :
    (child.context.getRecord category key).map RecordEntry.value =
      ((parent.getCategory category).reverse.find? fun r => r.key = key).map
        RecordEntry.value := by
  unfold forkForSubagent at h
  split at h
  · cases h
  · cases h
    exact (copyCategories_spec lower now hparent.clean (by decide) ⟨rfl, rfl⟩ category).1
      (mem_copiedCategories category) rfl key

/-- A read on the child finds what a read on the parent finds. -/
def ReadsAlike (parent child : AgentContext) (category : Category) (key : String) : Prop :=
  (child.getRecord category key).map RecordEntry.value =
    (parent.getRecord category key).map RecordEntry.value

/-- The first and the last record of the key hold the same value, or there is none. -/
def Settled (ctx : AgentContext) (category : Category) (key : String) : Prop :=
  ((ctx.getCategory category).find? fun r => r.key = key).map RecordEntry.value =
    ((ctx.getCategory category).reverse.find? fun r => r.key = key).map RecordEntry.value

/-- A key reads alike on parent and child where the parent's first and last record of it do
not differ. -/
theorem read_fork_iff {lower : String → String} {now : Int} {parent : AgentContext}
    (hparent : Built lower parent) {subagentId : String} {blacklist : List Category}
    {child : SubagentContext}
    (h : parent.forkForSubagent lower now subagentId blacklist = .ok child) (category : Category)
    (key : String) :
    ReadsAlike parent child.context category key ↔ Settled parent category key := by
  unfold ReadsAlike Settled
  rw [getRecord_fork hparent h category key]
  exact eq_comm

-- ---
-- A key that was appended twice
-- ---

def fresh : AgentContext :=
  .new 0 "ctx" { rawText := "hello", sessionId := none, messageId := none, timestamp := 0
                 metadata := [] } .default

/-- It with two results of the tool `search`. -/
def searchedTwice : AgentContext :=
  let once := fresh.ignoring (fresh.appendRecord id 1 .toolResults "search" (.str "old") "tool" 1)
  once.ignoring (once.appendRecord id 2 .toolResults "search" (.str "new") "tool" 2)

theorem built_searchedTwice : Built id searchedTwice := by
  have hfresh : Built id fresh := .new _ _ _ _
  have honce : fresh.appendRecord id 1 .toolResults "search" (.str "old") "tool" 1 =
      .ok (fresh.ignoring
        (fresh.appendRecord id 1 .toolResults "search" (.str "old") "tool" 1)) := rfl
  refine .appendRecord (.appendRecord hfresh honce) (?_ : AgentContext.appendRecord id 2 _
    .toolResults "search" (.str "new") "tool" 2 = .ok searchedTwice)
  rfl

/-- The parent reads the first result, its child the second. -/
theorem read_fork_repeated :
    ∃ child, searchedTwice.forkForSubagent id 3 "helper" [] = .ok child ∧
      ¬ReadsAlike searchedTwice child.context .toolResults "search" :=
  ⟨_, rfl, by unfold ReadsAlike; decide +kernel⟩

/-- A key without records reads alike. -/
theorem read_fork_absent :
    ∃ child, searchedTwice.forkForSubagent id 3 "helper" [] = .ok child ∧
      ReadsAlike searchedTwice child.context .toolResults "fetch" := by
  obtain ⟨child, hfork⟩ : ∃ child,
      searchedTwice.forkForSubagent id 3 "helper" [] = .ok child := ⟨_, rfl⟩
  exact ⟨child, hfork, (read_fork_iff built_searchedTwice hfork .toolResults "fetch").mpr rfl⟩

end AgentContext

end Context

end HiveClaw
