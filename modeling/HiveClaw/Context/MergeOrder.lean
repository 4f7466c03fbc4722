import HiveClaw.Context.Snapshot

/-!
# Merging several subagents

Every key that a merge writes begins with the delegation chain of the child. So a merge cannot
change a record whose key begins otherwise, and children with chains apart cannot disturb each
other.

* `merges_frame` — what any number of merges leaves as it was.
* `merge_value` — what is found under a key after a merge.
* `merge_delivers` — when every record that the parent takes is found again.
* `merge_comm` — when the order of two merges does not matter.
-/

namespace HiveClaw

namespace Context

namespace AgentContext

variable {lower : String → String} {now : Int}

-- ---
-- Keys under a chain
-- ---

/-- The key begins with the chain of the child. -/
def Under (subagent : SubagentContext) (key : String) : Prop :=
  subagent.delegationChain.toList <+: key.toList

instance (subagent : SubagentContext) (key : String) : Decidable (Under subagent key) :=
  inferInstanceAs (Decidable (_ <+: _))

theorem under_namespacedKey (subagent : SubagentContext) (category : Category) (ctx : AgentContext)
    (key : String) : Under subagent (namespacedKey subagent category ctx key) := by
  have happend : ∀ rest : String,
      subagent.delegationChain.toList <+: (subagent.delegationChain ++ rest).toList := by
    intro rest
    rw [String.toList_append]
    exact List.prefix_append _ _
  unfold namespacedKey Under
  split
  · show _ <+: (subagent.delegationChain ++ category.toString ++ "/" ++ key ++ "/" ++
      subagent.subagentId).toList
    simp only [String.append_assoc]
    exact happend _
  · exact happend key

-- ---
-- One record
-- ---

/-- The guards of a write let the record through. -/
def takes (lower : String → String) (ctx : AgentContext) (category : Category) (key : String)
    (value : Json) : Bool :=
  ctx.checkWriteAllowed.isOk && (ctx.checkBlacklist category).isOk &&
    (checkSensitiveData lower key value).isOk

/-- What the guards look at is the same. -/
def SameGuards (ctx ctx' : AgentContext) : Prop :=
  ctx'.lifecycleState = ctx.lifecycleState ∧
    ctx'.blacklistedCategories = ctx.blacklistedCategories ∧ ctx'.subagentId = ctx.subagentId

theorem SameGuards.refl (ctx : AgentContext) : SameGuards ctx ctx := ⟨rfl, rfl, rfl⟩

theorem SameGuards.trans {a b c : AgentContext} (h : SameGuards a b) (h' : SameGuards b c) :
    SameGuards a c :=
  ⟨h'.1.trans h.1, h'.2.1.trans h.2.1, h'.2.2.trans h.2.2⟩

theorem SameGuards.takes {ctx ctx' : AgentContext} (h : SameGuards ctx ctx') (category : Category)
    (key : String) (value : Json) :
    takes lower ctx' category key value = takes lower ctx category key value := by
  unfold AgentContext.takes checkWriteAllowed checkBlacklist
  rw [h.1, h.2.1, h.2.2]

theorem ignoring_setRecord (ctx : AgentContext) (category : Category) (key : String) (value : Json)
    (source : String) (iteration : Nat) :
    SameGuards ctx
        (ctx.ignoring (ctx.setRecord lower now category key value source iteration)) ∧
      ∀ c, (ctx.ignoring
          (ctx.setRecord lower now category key value source iteration)).getCategory c =
        if c = category ∧ takes lower ctx category key value = true then
          upsert ⟨key, value, source, now, iteration⟩ (ctx.getCategory c)
        else ctx.getCategory c := by
  unfold takes
  simp only [setRecord, bind, Except.bind, pure, Except.pure]
  cases ctx.checkWriteAllowed with
  | error e => exact ⟨.refl ctx, fun c => by simp [Except.isOk, Except.toBool, ignoring]⟩
  | ok _ =>
    cases ctx.checkBlacklist category with
    | error e => exact ⟨.refl ctx, fun c => by simp [Except.isOk, Except.toBool, ignoring]⟩
    | ok _ =>
      cases checkSensitiveData lower key value with
      | error e => exact ⟨.refl ctx, fun c => by simp [Except.isOk, Except.toBool, ignoring]⟩
      | ok _ =>
        refine ⟨⟨rfl, rfl, rfl⟩, fun c => ?_⟩
        by_cases hc : c = category
        · subst hc
          simp [Except.isOk, Except.toBool, ignoring, getCategory, withStore]
        · simp [hc, ignoring, getCategory, withStore]

-- ---
-- What merges leave alone
-- ---

/-- The records whose keys begin with none of the chains. -/
def untouched (children : List SubagentContext) (records : List RecordEntry) :
    List RecordEntry :=
  records.filter fun r => ∀ child ∈ children, ¬Under child r.key

variable {children : List SubagentContext} {child : SubagentContext}

theorem untouched_upsert {entry : RecordEntry} (hchild : child ∈ children)
    (hunder : Under child entry.key) (records : List RecordEntry) :
    untouched children (upsert entry records) = untouched children records := by
  have hentry : ¬∀ child ∈ children, ¬Under child entry.key := fun h => h child hchild hunder
  unfold untouched
  induction records with
  | nil => exact List.filter_cons_of_neg (by simpa using hentry)
  | cons r rest ih =>
    rw [upsert]
    split
    · next hkey =>
      rw [List.filter_cons_of_neg (by simpa using hentry),
        List.filter_cons_of_neg (by simpa [hkey] using hentry)]
    · rw [List.filter_cons, List.filter_cons, ih]

theorem mergeRecord_frame (hchild : child ∈ children) (category : Category) (ctx : AgentContext)
    (r : RecordEntry) (c : Category) :
    untouched children ((mergeRecord lower now child category ctx r).getCategory c) =
      untouched children (ctx.getCategory c) := by
  unfold mergeRecord
  rw [(ignoring_setRecord ctx category _ _ _ _).2 c]
  split
  · refine untouched_upsert hchild ?_ _
    exact under_namespacedKey child category ctx r.key
  · rfl

variable {ctx ctx' : AgentContext}

theorem merge_frame (hchild : child ∈ children)
    (h : ctx.mergeSubagentContext lower now child = .ok ctx') (c : Category) :
    untouched children (ctx'.getCategory c) = untouched children (ctx.getCategory c) := by
  have hcategory : ∀ (category : Category) (records : List RecordEntry) (ctx : AgentContext),
      untouched children
          ((records.foldl (mergeRecord lower now child category) ctx).getCategory c) =
        untouched children (ctx.getCategory c) := by
    intro category records
    induction records with
    | nil => exact fun _ => rfl
    | cons r rest ih =>
      intro ctx
      rw [List.foldl_cons, ih, mergeRecord_frame hchild]
  have hall : ∀ (categories : List Category) (ctx : AgentContext),
      untouched children ((categories.foldl (mergeCategory lower now child) ctx).getCategory c) =
        untouched children (ctx.getCategory c) := by
    intro categories
    induction categories with
    | nil => exact fun _ => rfl
    | cons category rest ih =>
      intro ctx
      rw [List.foldl_cons, ih]
      exact hcategory category _ ctx
  unfold mergeSubagentContext at h
  split at h
  · cases h
  · cases h
    exact hall mergedCategories ctx

/-- Merges one after the other, each at its own time. -/
def mergeAll (lower : String → String) (ctx : AgentContext) :
    List (Int × SubagentContext) → Except ContextError AgentContext
  | [] => .ok ctx
  | (now, child) :: rest =>
    match ctx.mergeSubagentContext lower now child with
    | .error e => .error e
    | .ok ctx' => mergeAll lower ctx' rest

/-- **Frame.** After any number of merges the records whose keys begin with no chain of a child are
the same, in the same order, with their time stamps and sources. -/
theorem merges_frame {ctx ctx' : AgentContext} {merges : List (Int × SubagentContext)}
    (h : mergeAll lower ctx merges = .ok ctx') (c : Category) :
    untouched (merges.map Prod.snd) (ctx'.getCategory c) =
      untouched (merges.map Prod.snd) (ctx.getCategory c) := by
  have hsub : ∀ (children : List SubagentContext) (merges : List (Int × SubagentContext))
      (ctx : AgentContext), (∀ m ∈ merges, m.2 ∈ children) →
        mergeAll lower ctx merges = .ok ctx' →
          untouched children (ctx'.getCategory c) = untouched children (ctx.getCategory c) := by
    intro children merges
    induction merges with
    | nil =>
      intro ctx _ h
      cases h
      rfl
    | cons m rest ih =>
      intro ctx hmem h
      rw [mergeAll] at h
      split at h
      · cases h
      · next ctx₁ hmerge =>
        rw [ih ctx₁ (fun m' hm' => hmem m' (List.mem_cons_of_mem _ hm')) h,
          merge_frame (hmem m List.mem_cons_self) hmerge]
  exact hsub _ merges ctx (fun m hm => List.mem_map_of_mem hm) h

-- ---
-- What a merge writes
-- ---

/-- The child has written nothing under the chain, neither before it was forked nor after. -/
def Clear (chain child : SubagentContext) : Prop :=
  ∀ category, ∀ r ∈ child.context.getCategory category, ¬Under chain r.key

/-- The records of the child that the parent takes under a key. -/
def mergedAs (lower : String → String) (child : SubagentContext) (ctx : AgentContext)
    (category : Category) (key : String) : List RecordEntry :=
  (child.context.getCategory category).filter fun r =>
    namespacedKey child category ctx r.key = key && takes lower ctx category key r.value

/-- The value that a merge puts under a key: the last one. -/
def written (lower : String → String) (child : SubagentContext) (ctx : AgentContext)
    (category : Category) (key : String) : Option Json :=
  if category ∈ mergedCategories then
    (mergedAs lower child ctx category key).getLast?.map RecordEntry.value
  else none

theorem getRecord_isSome (ctx : AgentContext) (category : Category) (key : String) :
    (ctx.getRecord category key).isSome = (readValue key (ctx.getCategory category)).isSome :=
  Option.isSome_map.symm

/-- The context knows the keys of a category that another one knows, as far as the child has
them. -/
def KnowsSame (child : SubagentContext) (category : Category) (ctx ctx' : AgentContext) : Prop :=
  ∀ r ∈ child.context.getCategory category,
    (ctx'.getRecord category r.key).isSome = (ctx.getRecord category r.key).isSome

theorem KnowsSame.namespacedKey {child : SubagentContext} {category : Category}
    {ctx ctx' : AgentContext} (h : KnowsSame child category ctx ctx') {r : RecordEntry}
    (hr : r ∈ child.context.getCategory category) :
    namespacedKey child category ctx' r.key = namespacedKey child category ctx r.key := by
  unfold AgentContext.namespacedKey
  rw [h r hr]

theorem mergeRecords_value {child : SubagentContext} (hclear : Clear child child)
    {category : Category} {ctx₀ ctx : AgentContext} (hguards : SameGuards ctx₀ ctx)
    (hknows : KnowsSame child category ctx₀ ctx) {records : List RecordEntry}
    (hsub : ∀ r ∈ records, r ∈ child.context.getCategory category) :
    SameGuards ctx₀ (records.foldl (mergeRecord lower now child category) ctx) ∧
      ∀ c key, readValue key
          ((records.foldl (mergeRecord lower now child category) ctx).getCategory c) =
        (if c = category then
          (records.filter fun r => namespacedKey child category ctx₀ r.key = key &&
            takes lower ctx₀ category key r.value).getLast?.map RecordEntry.value
          else none).or (readValue key (ctx.getCategory c)) := by
  -- on the records; `ctx₀` is the context before the first of them
  induction records generalizing ctx with
  | nil =>
    refine ⟨hguards, fun c key => ?_⟩
    rw [List.filter_nil, List.getLast?_nil, Option.map_none, ite_self, Option.none_or]
    rfl
  | cons r rest ih =>
    have hr := hsub r List.mem_cons_self
    have hkey := hknows.namespacedKey hr
    obtain ⟨hsame, hcategory⟩ := @ignoring_setRecord lower now ctx category
      (namespacedKey child category ctx r.key) r.value s!"subagent-{child.subagentId}" r.iteration
    rw [hkey, hguards.takes] at hcategory
    -- what the first record does to every value
    have hvalue : ∀ c key,
        readValue key ((mergeRecord lower now child category ctx r).getCategory c) =
        if c = category ∧ namespacedKey child category ctx₀ r.key = key ∧
            takes lower ctx₀ category key r.value = true then some r.value
        else readValue key (ctx.getCategory c) := by
      intro c key
      unfold mergeRecord
      rw [hkey, hcategory c]
      by_cases hk : namespacedKey child category ctx₀ r.key = key
      · subst hk
        by_cases hwrite : c = category ∧
            takes lower ctx₀ category (namespacedKey child category ctx₀ r.key) r.value = true
        · rw [if_pos hwrite, readValue_upsert, if_pos rfl, if_pos ⟨hwrite.1, rfl, hwrite.2⟩]
        · rw [if_neg hwrite, if_neg]
          rintro ⟨hc, -, htakes⟩
          exact hwrite ⟨hc, htakes⟩
      · rw [if_neg (fun h : _ ∧ _ ∧ _ => hk h.2.1)]
        split
        · rw [readValue_upsert, if_neg hk]
        · rfl
    -- no written key looks like a record of the child, so the names stay as they are
    have hknows₁ : KnowsSame child category ctx₀ (mergeRecord lower now child category ctx r) := by
      intro r' hr'
      rw [getRecord_isSome, hvalue, ← hknows r' hr', getRecord_isSome, if_neg]
      rintro ⟨-, hkey', -⟩
      exact hclear category r' hr' (hkey' ▸ under_namespacedKey child category ctx₀ r.key)
    have hguards₁ : SameGuards ctx₀ (mergeRecord lower now child category ctx r) :=
      hguards.trans hsame
    obtain ⟨hguards₂, hrest⟩ := ih hguards₁ hknows₁
      fun r' hr' => hsub r' (List.mem_cons_of_mem _ hr')
    refine ⟨hguards₂, fun c key => ?_⟩
    rw [List.foldl_cons, hrest, hvalue]
    by_cases hc : c = category
    · rw [if_pos hc, if_pos hc, List.filter_cons]
      by_cases hw : namespacedKey child category ctx₀ r.key = key ∧
          takes lower ctx₀ category key r.value = true
      · rw [if_pos ⟨hc, hw⟩, if_pos (by simpa using hw), List.getLast?_cons]
        cases (rest.filter _).getLast? <;> rfl
      · rw [if_neg (fun h : _ ∧ _ => hw h.2), if_neg (by simpa using hw)]
    · rw [if_neg hc, if_neg hc, if_neg (fun h : _ ∧ _ => hc h.1)]

/-- **One merge.** What is found under a key afterwards. -/
theorem merge_value (hclear : Clear child child)
    (h : ctx.mergeSubagentContext lower now child = .ok ctx') :
    SameGuards ctx ctx' ∧ ∀ c key, readValue key (ctx'.getCategory c) =
      (written lower child ctx c key).or (readValue key (ctx.getCategory c)) := by
  have hall : ∀ (categories : List Category) (ctx₁ : AgentContext), categories.Nodup →
      SameGuards ctx ctx₁ →
      (∀ c ∈ categories, ∀ key,
        readValue key (ctx₁.getCategory c) = readValue key (ctx.getCategory c)) →
      SameGuards ctx (categories.foldl (mergeCategory lower now child) ctx₁) ∧ ∀ c key,
        readValue key ((categories.foldl (mergeCategory lower now child) ctx₁).getCategory c) =
          (if c ∈ categories then
            (mergedAs lower child ctx c key).getLast?.map RecordEntry.value
          else none).or (readValue key (ctx₁.getCategory c)) := by
    intro categories
    induction categories with
    | nil => exact fun ctx₁ _ hguards _ => ⟨hguards, fun c key => rfl⟩
    | cons category rest ih =>
      intro ctx₁ hnodup hguards hsame
      obtain ⟨hnew, hrest⟩ := List.nodup_cons.mp hnodup
      have hknows : KnowsSame child category ctx ctx₁ := by
        intro r _
        rw [getRecord_isSome, getRecord_isSome, hsame category List.mem_cons_self]
      obtain ⟨hguards₁, hvalue⟩ :=
        @mergeRecords_value lower now child hclear category ctx ctx₁ hguards hknows
          (child.context.getCategory category) fun _ hr => hr
      have hsame₁ : ∀ c ∈ rest, ∀ key,
          readValue key ((mergeCategory lower now child ctx₁ category).getCategory c) =
            readValue key (ctx.getCategory c) := by
        intro c hc key
        have hne : c ≠ category := fun heq => hnew (heq ▸ hc)
        rw [mergeCategory, hvalue, if_neg hne, Option.none_or,
          hsame c (List.mem_cons_of_mem _ hc)]
      obtain ⟨hguards₂, hvalue₂⟩ := ih (mergeCategory lower now child ctx₁ category) hrest
        hguards₁ hsame₁
      refine ⟨hguards₂, fun c key => ?_⟩
      rw [List.foldl_cons, hvalue₂, mergeCategory, hvalue]
      by_cases hc : c = category
      · subst hc
        rw [if_neg hnew, Option.none_or, if_pos rfl, if_pos List.mem_cons_self]
        rfl
      · simp only [List.mem_cons, hc, false_or, if_false, Option.none_or]
  unfold mergeSubagentContext at h
  split at h
  · cases h
  · cases h
    exact hall mergedCategories ctx (by decide) (.refl ctx) fun _ _ _ => rfl

variable {c : Category} {key : String}

theorem under_of_written {value : Json} (h : written lower child ctx c key = some value) :
    Under child key := by
  unfold written at h
  split at h
  · obtain ⟨r, hlast, -⟩ := Option.map_eq_some_iff.mp h
    obtain ⟨-, hr⟩ := List.mem_filter.mp (List.mem_of_getLast? hlast)
    rw [Bool.and_eq_true, decide_eq_true_iff] at hr
    exact hr.1 ▸ under_namespacedKey child c ctx r.key
  · cases h

-- ---
-- Merges in any order
-- ---

/-- Neither chain begins with the other. -/
def ChainsApart (a b : SubagentContext) : Prop :=
  ¬a.delegationChain.toList <+: b.delegationChain.toList ∧
    ¬b.delegationChain.toList <+: a.delegationChain.toList

variable {a b : SubagentContext}

theorem ChainsApart.not_under (h : ChainsApart a b) (ha : Under a key) : ¬Under b key := by
  intro hb
  rcases List.prefix_or_prefix_of_prefix ha hb with hab | hba
  · exact h.1 hab
  · exact h.2 hba

theorem ChainsApart.symm (h : ChainsApart a b) : ChainsApart b a :=
  ⟨h.2, h.1⟩

theorem written_or_comm (h : ChainsApart a b) (ctx : AgentContext) (c : Category) (key : String)
    (v : Option Json) :
    (written lower b ctx c key).or ((written lower a ctx c key).or v) =
      (written lower a ctx c key).or ((written lower b ctx c key).or v) := by
  cases ha : written lower a ctx c key with
  | none => rw [Option.none_or, Option.none_or]
  | some x =>
    cases hb : written lower b ctx c key with
    | none => rw [Option.none_or, Option.none_or]
    | some y => exact absurd (under_of_written hb) (h.not_under (under_of_written ha))

theorem written_merge (haa : Clear a a) (hba : Clear a b)
    (h : ctx.mergeSubagentContext lower now a = .ok ctx') :
    written lower b ctx' = written lower b ctx := by
  obtain ⟨hguards, hvalue⟩ := merge_value haa h
  funext c key
  unfold written mergedAs
  have hknows : KnowsSame b c ctx ctx' := by
    intro r hr
    rw [getRecord_isSome, getRecord_isSome, hvalue]
    cases hwritten : written lower a ctx c r.key with
    | none => rw [Option.none_or]
    | some value => exact absurd (under_of_written hwritten) (hba c r hr)
  have hfilter : ((b.context.getCategory c).filter fun r =>
      namespacedKey b c ctx' r.key = key && takes lower ctx' c key r.value) =
      (b.context.getCategory c).filter fun r =>
        namespacedKey b c ctx r.key = key && takes lower ctx c key r.value := by
    refine List.filter_congr fun r hr => ?_
    rw [hknows.namespacedKey hr, hguards.takes]
  rw [hfilter]

/-- **Runs.** What is found under a key after any number of merges. -/
theorem mergeAll_value {merges : List (Int × SubagentContext)}
    (hclear : ∀ m ∈ merges, ∀ m' ∈ merges, Clear m.2 m'.2)
    (h : mergeAll lower ctx merges = .ok ctx') (c : Category) (key : String) :
    readValue key (ctx'.getCategory c) =
      (merges.map Prod.snd).foldl (fun v child => (written lower child ctx c key).or v)
        (readValue key (ctx.getCategory c)) := by
  induction merges generalizing ctx with
  | nil =>
    cases h
    rfl
  | cons m rest ih =>
    rw [mergeAll] at h
    split at h
    · cases h
    · next ctx₁ hmerge =>
      have hm := hclear m List.mem_cons_self
      have hrest := ih (fun a ha b hb => hclear a (List.mem_cons_of_mem _ ha) b
        (List.mem_cons_of_mem _ hb)) h
      rw [hrest, List.map_cons, List.foldl_cons,
        (merge_value (hm m List.mem_cons_self) hmerge).2]
      refine List.foldl_ext _ _ _ fun v child hchild => ?_
      obtain ⟨m', hm', rfl⟩ := List.mem_map.mp hchild
      rw [written_merge (hm m List.mem_cons_self) (hm m' (List.mem_cons_of_mem _ hm')) hmerge]

/-- No record of the child that the parent does not know has the key under which a known one is
stored. -/
def NoClash (ctx : AgentContext) (child : SubagentContext) (category : Category) : Prop :=
  ∀ r ∈ child.context.getCategory category, ∀ r' ∈ child.context.getCategory category,
    (ctx.getRecord category r.key).isSome → ¬(ctx.getRecord category r'.key).isSome →
      r'.key ≠ s!"{category.toString}/{r.key}/{child.subagentId}"

theorem append_right_inj {a b c : String} (h : a ++ b = a ++ c) : b = c := by
  have hlist := congrArg String.toList h
  rw [String.toList_append, String.toList_append] at hlist
  exact String.toList_inj.mp (List.append_cancel_left hlist)

theorem append_left_inj {a b c : String} (h : a ++ c = b ++ c) : a = b := by
  have hlist := congrArg String.toList h
  rw [String.toList_append, String.toList_append] at hlist
  exact String.toList_inj.mp (List.append_cancel_right hlist)

variable {r : RecordEntry}

theorem namespacedKey_inj {category : Category} (hclash : NoClash ctx child category)
    {r' : RecordEntry} (hr : r ∈ child.context.getCategory category)
    (hr' : r' ∈ child.context.getCategory category)
    (h : namespacedKey child category ctx r.key = namespacedKey child category ctx r'.key) :
    r.key = r'.key := by
  have hknown : ∀ key : String,
      s!"{child.delegationChain}{category.toString}/{key}/{child.subagentId}" =
        child.delegationChain ++ s!"{category.toString}/{key}/{child.subagentId}" := by
    intro key
    show child.delegationChain ++ category.toString ++ "/" ++ key ++ "/" ++ child.subagentId =
      child.delegationChain ++ (category.toString ++ "/" ++ key ++ "/" ++ child.subagentId)
    simp only [String.append_assoc]
  unfold namespacedKey at h
  rw [hknown, hknown] at h
  by_cases hk : (ctx.getRecord category r.key).isSome
  · by_cases hk' : (ctx.getRecord category r'.key).isSome
    · rw [if_pos hk, if_pos hk'] at h
      have htail : category.toString ++ "/" ++ r.key ++ "/" ++ child.subagentId =
          category.toString ++ "/" ++ r'.key ++ "/" ++ child.subagentId := append_right_inj h
      exact append_right_inj (append_left_inj (append_left_inj htail))
    · rw [if_pos hk, if_neg hk'] at h
      exact absurd (append_right_inj h).symm (hclash r hr r' hr' hk hk')
  · by_cases hk' : (ctx.getRecord category r'.key).isSome
    · rw [if_neg hk, if_pos hk'] at h
      exact absurd (append_right_inj h) (hclash r' hr' r hr hk' hk)
    · rw [if_neg hk, if_neg hk'] at h
      exact append_right_inj h

theorem written_of_takes (hc : c ∈ mergedCategories)
    (honce : ((child.context.getCategory c).map RecordEntry.key).Nodup)
    (hclash : NoClash ctx child c) (hr : r ∈ child.context.getCategory c)
    (htakes : takes lower ctx c (namespacedKey child c ctx r.key) r.value = true) :
    written lower child ctx c (namespacedKey child c ctx r.key) = some r.value := by
  have hmem : r ∈ mergedAs lower child ctx c (namespacedKey child c ctx r.key) :=
    List.mem_filter.mpr ⟨hr, by simpa using htakes⟩
  have honly : ∀ r' ∈ mergedAs lower child ctx c (namespacedKey child c ctx r.key), r' = r := by
    intro r' hr'
    obtain ⟨hin, hkey⟩ := List.mem_filter.mp hr'
    rw [Bool.and_eq_true, decide_eq_true_iff] at hkey
    exact List.inj_on_of_nodup_map honce hin hr (namespacedKey_inj hclash hin hr hkey.1)
  rw [written, if_pos hc, List.getLast?_eq_some_getLast (List.ne_nil_of_mem hmem),
    honly _ (List.getLast_mem _)]
  rfl

/-- **Any order.** Children with chains apart, none of which wrote under a chain of them, are
merged: another order of the merges, at other times, leads to the same values under the same keys.
Every record that the parent takes is found under a key that begins with the chain of its
child. -/
theorem merges_any_order {ctx ctx₁ : AgentContext} {merges : List (Int × SubagentContext)}
    (h : mergeAll lower ctx merges = .ok ctx₁)
    (hclear : ∀ m ∈ merges, ∀ m' ∈ merges, Clear m.2 m'.2)
    (hapart : (merges.map Prod.snd).Pairwise ChainsApart) :
    (∀ merges' ctx₂, (merges'.map Prod.snd).Perm (merges.map Prod.snd) →
      mergeAll lower ctx merges' = .ok ctx₂ →
        ∀ c key, readValue key (ctx₂.getCategory c) = readValue key (ctx₁.getCategory c)) ∧
      ∀ m ∈ merges, ∀ c ∈ mergedCategories,
        ((m.2.context.getCategory c).map RecordEntry.key).Nodup → NoClash ctx m.2 c →
          ∀ r ∈ m.2.context.getCategory c,
            takes lower ctx c (namespacedKey m.2 c ctx r.key) r.value = true →
              Under m.2 (namespacedKey m.2 c ctx r.key) ∧
                readValue (namespacedKey m.2 c ctx r.key) (ctx₁.getCategory c) = some r.value := by
  have hpair : ∀ a ∈ merges.map Prod.snd, ∀ b ∈ merges.map Prod.snd, a = b ∨ ChainsApart a b := by
    refine List.Pairwise.forall_of_forall_of_flip (fun _ _ => Or.inl rfl) ?_ ?_
    · exact hapart.imp fun hab => Or.inr hab
    · exact hapart.imp fun hab => Or.inr hab.symm
  have hswap : ∀ c key, ∀ a ∈ merges.map Prod.snd, ∀ b ∈ merges.map Prod.snd, ∀ v,
      (written lower b ctx c key).or ((written lower a ctx c key).or v) =
        (written lower a ctx c key).or ((written lower b ctx c key).or v) := by
    intro c key a ha b hb v
    rcases hpair a ha b hb with rfl | hab
    · rfl
    · exact written_or_comm hab ctx c key v
  refine ⟨fun merges' ctx₂ hperm h' c key => ?_, fun m hm c hc honce hclash r hr htakes => ?_⟩
  · have hclear' : ∀ m ∈ merges', ∀ m' ∈ merges', Clear m.2 m'.2 := by
      intro m hm m' hm'
      obtain ⟨n, hn, hmn⟩ := List.mem_map.mp (hperm.mem_iff.mp (List.mem_map_of_mem hm))
      obtain ⟨n', hn', hmn'⟩ := List.mem_map.mp (hperm.mem_iff.mp (List.mem_map_of_mem hm'))
      rw [← hmn, ← hmn']
      exact hclear n hn n' hn'
    rw [mergeAll_value hclear' h', mergeAll_value hclear h]
    exact (hperm.symm.foldl_eq' (hswap c key) _).symm
  · refine ⟨under_namespacedKey m.2 c ctx r.key, ?_⟩
    rw [mergeAll_value hclear h]
    have hwritten := written_of_takes hc honce hclash hr htakes
    generalize namespacedKey m.2 c ctx r.key = key at hwritten ⊢
    -- the value is there once the child is merged, and stays
    have hstays : ∀ children : List SubagentContext, (∀ b ∈ children, b ∈ merges.map Prod.snd) →
        ∀ v, (m.2 ∈ children ∨ v = some r.value) →
          children.foldl (fun v child => (written lower child ctx c key).or v) v =
            some r.value := by
      intro children
      induction children with
      | nil =>
        rintro - v (hin | rfl)
        · cases hin
        · rfl
      | cons b rest ih =>
        intro hsub v hv
        refine ih (fun b' hb' => hsub b' (List.mem_cons_of_mem _ hb')) _ ?_
        dsimp only
        rcases hpair b (hsub b List.mem_cons_self) m.2 (List.mem_map_of_mem hm) with rfl | hapart
        · right
          rw [hwritten]
          rfl
        · have hnone : written lower b ctx c key = none := by
            cases hb : written lower b ctx c key with
            | none => rfl
            | some y =>
              exact absurd (under_of_written hwritten) (hapart.not_under (under_of_written hb))
          rw [hnone, Option.none_or]
          refine hv.imp_left fun hin => ?_
          rcases List.mem_cons.mp hin with heq | hrest
          · exact absurd List.prefix_rfl (heq ▸ hapart).1
          · exact hrest
    exact hstays (merges.map Prod.snd) (fun b hb => hb) _ (Or.inl (List.mem_map_of_mem hm))

def caller : AgentContext :=
  fresh.ignoring (fresh.setRecord id 1 .entities "city" (.str "Oslo") "tool" 1)

/-- Its child of this name, which has written a record of its own. -/
@[irreducible] def helper (name : String) : SubagentContext :=
  match caller.forkForSubagent id 2 name [] with
  | .ok child =>
    { child with
      context := child.context.ignoring
        (child.context.setRecord id 3 .entities "found" (.str name) "tool" 1) }
  | .error _ => ⟨caller, name, [], ""⟩

/-- The parent after the merges of two children. -/
@[irreducible] def called : AgentContext :=
  match mergeAll id caller [(4, helper "a"), (5, helper "b")] with
  | .ok ctx => ctx
  | .error _ => caller

theorem mergeAll_called :
    mergeAll id caller [(4, helper "a"), (5, helper "b")] = .ok called := by
  have hok : (mergeAll id caller [(4, helper "a"), (5, helper "b")]).isOk = true := by
    decide +kernel
  unfold called
  cases hmerge : mergeAll id caller [(4, helper "a"), (5, helper "b")] with
  | ok ctx => rfl
  | error e =>
    rw [hmerge] at hok
    cases hok

/-- The record of the parent is as it was. -/
theorem merges_frame_called :
    untouched [helper "a", helper "b"] (called.getCategory .entities) =
      untouched [helper "a", helper "b"] (caller.getCategory .entities) :=
  merges_frame mergeAll_called .entities

theorem clear_helpers :
    ∀ a ∈ [helper "a", helper "b"], ∀ b ∈ [helper "a", helper "b"], Clear a b := by
  have hclear : ∀ category ∈ copiedCategories, ∀ a ∈ [helper "a", helper "b"],
      ∀ b ∈ [helper "a", helper "b"], ∀ r ∈ b.context.getCategory category, ¬Under a r.key := by
    decide +kernel
  exact fun a ha b hb category => hclear category (mem_copiedCategories category) a ha b hb

/-- The records that both children found are there, each under its own chain, also if the second
child is merged first. -/
theorem merges_any_order_called :
    readValue "a/found" (called.getCategory .entities) = some (.str "a") ∧
      ∀ ctx₂, mergeAll id caller [(4, helper "b"), (6, helper "a")] = .ok ctx₂ → ∀ c key,
        readValue key (ctx₂.getCategory c) = readValue key (called.getCategory c) := by
  have hclear : ∀ m ∈ [((4 : Int), helper "a"), (5, helper "b")],
      ∀ m' ∈ [((4 : Int), helper "a"), (5, helper "b")], Clear m.2 m'.2 := fun m hm m' hm' =>
    clear_helpers m.2 (List.mem_map_of_mem hm) m'.2 (List.mem_map_of_mem hm')
  have hapart : [helper "a", helper "b"].Pairwise ChainsApart := by
    refine .cons (List.forall_mem_singleton.mpr ?_) (List.pairwise_singleton _ _)
    exact ⟨by decide +kernel, by decide +kernel⟩
  obtain ⟨horder, hfound⟩ := merges_any_order mergeAll_called hclear hapart
  refine ⟨?_, fun ctx₂ h =>
    horder [(4, helper "b"), (6, helper "a")] ctx₂ (List.Perm.swap (helper "a") (helper "b") []) h⟩
  have hread : readValue "found" ((helper "a").context.getCategory .entities) =
      some (.str "a") := by decide +kernel
  obtain ⟨r, hr, hkey, hvalue⟩ := mem_of_readValue hread
  have hclash : NoClash caller (helper "a") .entities := by
    unfold NoClash
    decide +kernel
  have hresult := hfound (4, helper "a") List.mem_cons_self .entities (by decide)
    (by decide +kernel) hclash r hr
  have hname : namespacedKey (helper "a") .entities caller "found" = "a/found" := by
    decide +kernel
  rw [hkey, hvalue, hname] at hresult
  exact (hresult (by decide +kernel)).2

end AgentContext

end Context

end HiveClaw
