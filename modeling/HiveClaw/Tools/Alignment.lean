import HiveClaw.Tools.Catalog
import HiveClaw.Tools.DeepEqual

/-!
# Tools and functions with one schema

Whether the schemas of a tool that wraps a function are those of the function,
along every sequence of requests that succeed. The tool's side compares them on
every write; the function's side does not look at the tools.

Every service has one lemma that says what its success does to the two tables
(`createCustom_ok`, `updateFunction_ok`, `createTool_ok`, `updateTool_ok`); from
these the step of a run follows (`step_aligned`).
-/

namespace HiveClaw.Catalog

open Lib PluginBinding Tools

/-! ## Runs of the services -/

section Runs

variable {α β : Type} {c c' : CatalogStore}

/-- The tables of the functions and the tools are as before. -/
structure SameRows (c c' : CatalogStore) : Prop where
  functions : c'.store.functions = c.store.functions
  tools : c'.store.tools = c.store.tools
  counter : c'.toolsAutoIncrement = c.toolsAutoIncrement

theorem SameRows.refl (c : CatalogStore) : SameRows c c := ⟨rfl, rfl, rfl⟩

theorem SameRows.trans {c₁ c₂ c₃ : CatalogStore} (h : SameRows c₁ c₂) (h' : SameRows c₂ c₃) :
    SameRows c₁ c₃ :=
  ⟨h'.functions.trans h.functions, h'.tools.trans h.tools, h'.counter.trans h.counter⟩

/-- Every run of `m` leaves the two tables as they are. -/
def Frames (m : CatalogM α) : Prop := ∀ ⦃c r c'⦄, Prog.RunsE m c r c' → SameRows c c'

variable {m : Service α} {r : Except Failure α}

theorem runs_onStore (h : Prog.RunsE (onStore m) c r c') :
    ∃ s', m.Runs c.store r s' ∧ c' = { c with store := s' } := by
  have hzoom : (m.run.zoom CatalogStore.store fun s c => { c with store := s }).Runs c r c' := h
  refine Prog.Runs.of_zoom ?_ ?_ ?_ hzoom
  · exact fun _ => rfl
  · exact fun _ _ => rfl
  · exact fun _ _ _ => rfl

theorem frames_onStore (hm : Service.Keeps (fun s => (s.functions, s.tools)) m) :
    Frames (onStore m) := by
  intro c r c' h
  obtain ⟨s', hs, rfl⟩ := runs_onStore h
  obtain ⟨hfunctions, htools⟩ := Prod.mk.inj (hm hs)
  exact ⟨hfunctions, htools, rfl⟩

theorem frames_pure (a : α) : Frames (pure a) := by
  intro c r c' h
  obtain ⟨-, rfl⟩ := Prog.runsE_pure_iff.mp h
  exact .refl _

theorem frames_bind {m : CatalogM α} {f : α → CatalogM β} (hm : Frames m)
    (hf : ∀ a, Frames (f a)) : Frames (m >>= f) := by
  intro c r c' h
  rcases Prog.runsE_bind_iff.mp h with ⟨e, hrun, -⟩ | ⟨a, c₁, hrun, hrest⟩
  · exact hm hrun
  · exact (hm hrun).trans (hf a hrest)

variable {what : String} {f : Input → CatalogStore → Except Failure α × CatalogStore}

theorem runs_execute (h : Prog.RunsE (execute what f) c r c') : ∃ i, r = (f i c).1 ∧ c' = (f i c).2 :=
  Prog.runs_modify_iff.mp h

theorem frames_execute (hf : ∀ i c, SameRows c (f i c).2) : Frames (execute what f) := by
  intro c r c' h
  obtain ⟨i, -, rfl⟩ := runs_execute h
  exact hf i c

theorem frames_failIf (p : Prop) [Decidable p] (e : AppError) : Frames (failIf p e) :=
  frames_onStore (Service.keeps_failIf p e)

theorem frames_check (r : Except AppError α) : Frames (check r) :=
  frames_onStore (Service.keeps_lift r)

theorem frames_checkAndBump (id : Int) (t : DateTime) : Frames (checkAndBump id t) := by
  intro c r c' h
  have hrun : Prog.RunsE (checkAndBump id t) c r c' ↔ _ := Prog.runs_read_iff
  rw [(hrun.mp h).2]
  exact .refl c

theorem runs_fetchFunction {id : Int} {f : Function}
    (h : Prog.RunsE (fetchFunction id) c (.ok f) c') : c.store.function? id = some f ∧ c' = c := by
  obtain ⟨s', hs, rfl⟩ := runs_onStore h
  obtain ⟨row, s₁, hquery, hrest⟩ := Prog.runsE_bind_ok hs
  obtain ⟨hrow, hs₁⟩ := Service.runs_query_ok hquery
  subst hs₁
  have hkeeps : s' = c.store := Service.keeps_okOr (f := fun s => s) _ _ hrest
  rw [← hrow, hkeeps]
  exact ⟨Service.runs_okOr_ok hrest, rfl⟩

variable {p : Prop} {e : AppError}

theorem runs_failIf [Decidable p] {u : Unit} (h : Prog.RunsE (failIf p e) c (.ok u) c') :
    ¬ p ∧ c' = c := by
  obtain ⟨s', hs, rfl⟩ := runs_onStore h
  have hkeeps : s' = c.store := Service.keeps_failIf (f := fun s => s) p e hs
  rw [hkeeps]
  exact ⟨Service.runs_failIf_ok hs, rfl⟩

theorem runs_failIf_bind [Decidable p] {f : Unit → CatalogM β} {b : β}
    (h : Prog.RunsE (failIf p e >>= f) c (.ok b) c') : ¬ p ∧ Prog.RunsE (f ()) c (.ok b) c' := by
  obtain ⟨_, c₁, hp, hrest⟩ := Prog.runsE_bind_ok h
  obtain ⟨hnot, rfl⟩ := runs_failIf hp
  exact ⟨hnot, hrest⟩

end Runs

/-! ## Functions -/

theorem insertTagging_rows (s : Store) (t : Tagging) :
    (insertTagging s t).functions = s.functions ∧ (insertTagging s t).tools = s.tools := by
  unfold insertTagging
  split
  · exact ⟨rfl, rfl⟩
  · exact ⟨rfl, rfl⟩

theorem foldl_insertTagging_rows (ts : List Tagging) (s : Store) :
    (ts.foldl insertTagging s).functions = s.functions ∧
      (ts.foldl insertTagging s).tools = s.tools := by
  induction ts generalizing s with
  | nil => exact ⟨rfl, rfl⟩
  | cons t rest ih =>
    obtain ⟨hf, ht⟩ := insertTagging_rows s t
    obtain ⟨hf', ht'⟩ := ih (insertTagging s t)
    exact ⟨hf'.trans hf, ht'.trans ht⟩

variable {cfg : BindingConfig} {c c' : CatalogStore} {f : Function}

theorem createCustom_ok {req : CreateMeta} (h : Prog.RunsE (createCustom cfg req) c (.ok f) c') :
    (∃ row, c'.store.functions = c.store.functions ++ [row]) ∧
      c'.store.tools = c.store.tools ∧ c'.toolsAutoIncrement = c.toolsAutoIncrement := by
  unfold createCustom at h
  obtain ⟨_, c₁, hin, h⟩ := Prog.runsE_bind_ok h
  obtain ⟨_, c₂, hout, h⟩ := Prog.runsE_bind_ok h
  obtain ⟨id, c₃, hbind, hfetch⟩ := Prog.runsE_bind_ok h
  have hsame : SameRows c c₂ := (frames_check _ hin).trans (frames_check _ hout)
  obtain ⟨-, rfl⟩ := runs_fetchFunction hfetch
  obtain ⟨i, hr, rfl⟩ := runs_execute hbind
  cases hrefusal : refusal cfg req i c₂ with
  | some e => simp [hrefusal] at hr
  | none =>
    simp only [addFunction]
    obtain ⟨hf, ht⟩ := foldl_insertTagging_rows
      (req.tagIds.map fun tagId => ⟨tagId, "function", c₂.functionsAutoIncrement⟩)
      { c₂.store with functions := c₂.store.functions ++
        [newFunction cfg.mysql req c₂.functionsAutoIncrement] }
    rw [hf, ht]
    exact ⟨⟨_, by rw [← hsame.functions]⟩, hsame.tools, hsame.counter⟩

theorem frames_replaceFunctionTags (id : Int) (tagIds : Option (List Int)) :
    Frames (replaceFunctionTags id tagIds) := by
  have hloop : ∀ tags, Frames (insertFunctionTags id tags) := by
    intro tags
    induction tags with
    | nil => exact frames_pure ()
    | cons tagId rest ih =>
      refine frames_bind (frames_execute fun i c => ?_) fun _ => ih
      split
      · exact .refl c
      · obtain ⟨hf, ht⟩ := insertTagging_rows c.store ⟨tagId, "function", id⟩
        exact ⟨hf, ht, rfl⟩
  cases tagIds with
  | none => exact frames_pure ()
  | some tags =>
    refine frames_bind (frames_execute fun i c => ?_) fun _ => hloop tags
    split
    · exact .refl c
    · exact ⟨rfl, rfl, rfl⟩

variable {u : Unit}

theorem runs_updateFunctionRow {id : Int} {categoryId : Option Int} {g : Function → Function}
    (h : Prog.RunsE (updateFunctionRow id categoryId g) c (.ok u) c') :
    c'.store.functions = (c.store.functions.map fun f => if f.id = id then g f else f) ∧
      c'.store.tools = c.store.tools ∧ c'.toolsAutoIncrement = c.toolsAutoIncrement := by
  obtain ⟨i, hr, rfl⟩ := runs_execute h
  cases hcheck : i.check "function update" with
  | error e => simp [hcheck] at hr
  | ok u => exact ⟨rfl, rfl, rfl⟩

theorem frames_validateGiven (cfg : BindingConfig) (schema : Option Json) (label : String) :
    Frames (validateGiven cfg schema label) := by
  cases schema with
  | none => exact frames_pure ()
  | some s => exact frames_check _

/-- An update of a function changes its row only, and of the schemas those the request
gives. -/
theorem updateFunction_ok {id : Int} {req : FunctionUpdateMeta}
    (h : Prog.RunsE (updateFunction cfg id req) c (.ok f) c') :
    ∃ g : Function → Function,
      (∀ f, (g f).id = f.id ∧
        (g f).inputSchema = (req.inputSchema.map cfg.mysql.jsonNormal).getD f.inputSchema ∧
        (g f).outputSchema = (req.outputSchema.map cfg.mysql.jsonNormal).getD f.outputSchema) ∧
      c'.store.functions = (c.store.functions.map fun f => if f.id = id then g f else f) ∧
      c'.store.tools = c.store.tools ∧ c'.toolsAutoIncrement = c.toolsAutoIncrement := by
  unfold updateFunction at h
  obtain ⟨existing, c₁, hfetch, h1⟩ := Prog.runsE_bind_ok h
  obtain ⟨-, hc⟩ := runs_fetchFunction hfetch
  obtain ⟨-, h2⟩ := runs_failIf_bind h1
  obtain ⟨-, h3⟩ := runs_failIf_bind h2
  obtain ⟨hinput, h4⟩ := runs_failIf_bind h3
  obtain ⟨houtput, h5⟩ := runs_failIf_bind h4
  obtain ⟨-, h6⟩ := runs_failIf_bind h5
  obtain ⟨_, c₇, hlock, h7⟩ := Prog.runsE_bind_ok h6
  have hsame := frames_checkAndBump _ _ hlock
  rw [hc] at hsame
  split at h7
  · rename_i hbuiltin
    obtain ⟨_, c₈, hrow, h8⟩ := Prog.runsE_bind_ok h7
    obtain ⟨_, c₉, htags, h9⟩ := Prog.runsE_bind_ok h8
    obtain ⟨-, rfl⟩ := runs_fetchFunction h9
    obtain ⟨hf, ht, hn⟩ := runs_updateFunctionRow hrow
    have hsame' := frames_replaceFunctionTags _ _ htags
    have hin : req.inputSchema = none := by
      cases hs : req.inputSchema with
      | none => rfl
      | some v => exact absurd ⟨hbuiltin, by simp [hs]⟩ hinput
    have hout : req.outputSchema = none := by
      cases hs : req.outputSchema with
      | none => rfl
      | some v => exact absurd ⟨hbuiltin, by simp [hs]⟩ houtput
    refine ⟨fun f => f, fun f => ⟨rfl, ?_, ?_⟩, ?_, ?_, ?_⟩
    · rw [hin]; rfl
    · rw [hout]; rfl
    · rw [hsame'.functions, hf, hsame.functions]
    · rw [hsame'.tools, ht, hsame.tools]
    · rw [hsame'.counter, hn, hsame.counter]
  · obtain ⟨_, c₈, hvalidIn, h8⟩ := Prog.runsE_bind_ok h7
    obtain ⟨_, c₉, hvalidOut, h9⟩ := Prog.runsE_bind_ok h8
    obtain ⟨_, c₁₀, hrow, h10⟩ := Prog.runsE_bind_ok h9
    obtain ⟨_, c₁₁, htags, h11⟩ := Prog.runsE_bind_ok h10
    obtain ⟨-, rfl⟩ := runs_fetchFunction h11
    obtain ⟨hf, ht, hn⟩ := runs_updateFunctionRow hrow
    have hsame' := frames_replaceFunctionTags _ _ htags
    have hbefore : SameRows c c₉ :=
      (hsame.trans (frames_validateGiven _ _ _ hvalidIn)).trans (frames_validateGiven _ _ _ hvalidOut)
    refine ⟨applyFunctionUpdate cfg.mysql req, fun f => ⟨rfl, rfl, rfl⟩, ?_, ?_, ?_⟩
    · rw [hsame'.functions, hf, hbefore.functions]
    · rw [hsame'.tools, ht, hbefore.tools]
    · rw [hsame'.counter, hn, hbefore.counter]

/-! ## Tools -/

/-- The two schemas are those of the function, up to the order of fields. -/
def Matches (s : Store) (functionId : Int) (input output : Json) : Prop :=
  ∃ f, s.function? functionId = some f ∧ jsonDeepEqual f.inputSchema input = true ∧
    jsonDeepEqual f.outputSchema output = true

variable {s s' : Store}

theorem runs_validateSchemasFunction {fid : Int} {input output : Json}
    (h : (validateSchemasFunction fid input output).Runs s (.ok u) s') :
    Matches s fid input output := by
  unfold validateSchemasFunction at h
  obtain ⟨row, s₁, hquery, h1⟩ := Prog.runsE_bind_ok h
  obtain ⟨hrow, hs₁⟩ := Service.runs_query_ok hquery
  obtain ⟨⟨fnIn, fnOut⟩, s₂, hok, h2⟩ := Prog.runsE_bind_ok h1
  have hsome := Service.runs_okOr_ok hok
  obtain ⟨_, s₃, hin, hout⟩ := Prog.runsE_bind_ok h2
  rw [hrow] at hsome
  obtain ⟨f, hf, hschemas⟩ := Option.map_eq_some_iff.mp hsome
  obtain ⟨rfl, rfl⟩ := Prod.mk.inj hschemas
  exact ⟨f, hf, eq_true_of_ne_false (Service.runs_failIf_ok hin),
    eq_true_of_ne_false (Service.runs_failIf_ok hout)⟩

variable {γ : Type}

theorem keeps_validateSchemasFunction (f : Store → γ) (fid : Int) (input output : Json) :
    Service.Keeps f (validateSchemasFunction fid input output) := by
  refine Service.keeps_bind (Service.keeps_query _ _) fun row => ?_
  refine Service.keeps_bind (Service.keeps_okOr _ _) fun schemas => ?_
  exact Service.keeps_bind (Service.keeps_failIf _ _) fun _ => Service.keeps_failIf _ _

theorem keeps_validateSchemasWorkflow (f : Store → γ) (wid : Int) (input : Json) :
    Service.Keeps f (validateSchemasWorkflow wid input) := by
  refine Service.keeps_bind (Service.keeps_query _ _) fun row => ?_
  refine Service.keeps_bind (Service.keeps_okOr _ _) fun schema => ?_
  exact Service.keeps_bind (Service.keeps_okOr _ _) fun wfInput => Service.keeps_lift _

/-- The tables of the functions and the tools. -/
def rows (s : Store) : List Function × List Tool := (s.functions, s.tools)

theorem keeps_insertTaggings (id : Int) (tags : List Int) :
    Service.Keeps rows (insertTaggings id tags) := by
  induction tags with
  | nil => exact Service.keeps_pure ()
  | cons tagId rest ih =>
    refine Service.keeps_bind (fun s r s' h => ?_) fun _ => ih
    obtain ⟨i, -, rfl⟩ := Service.runs_execute_iff.mp h
    split
    · rfl
    · split
      · rfl
      · rfl

theorem keeps_replaceTags (id : Int) (tagIds : Option (List Int)) :
    Service.Keeps rows (replaceTags id tagIds) := by
  refine Service.keeps_onSome _ fun tags => ?_
  refine Service.keeps_bind (fun s r s' h => ?_) fun _ => keeps_insertTaggings id tags
  obtain ⟨i, -, rfl⟩ := Service.runs_execute_iff.mp h
  split
  · rfl
  · rfl

theorem keeps_fetchToolWithTags (f : Store → γ) (id : Int) :
    Service.Keeps f (fetchToolWithTags id) := by
  refine Service.keeps_bind ?_ fun tool => ?_
  · exact Service.keeps_bind (Service.keeps_query _ _) fun row => Service.keeps_okOr _ _
  · exact Service.keeps_bind (Service.keeps_query _ _) fun tags => Service.keeps_pure _

theorem frames_checkWorkflowTool (source : String) (req : ToolCreateMeta) :
    Frames (checkWorkflowTool source req) := by
  refine frames_bind (frames_onStore (Service.keeps_okOr _ _)) fun wid => ?_
  refine frames_bind (frames_failIf _ _) fun _ => ?_
  refine frames_bind (frames_failIf _ _) fun _ => ?_
  exact frames_onStore (keeps_validateSchemasWorkflow _ _ _)

variable {req : ToolCreateMeta}

theorem runs_checkFunctionTool {source : String}
    (h : Prog.RunsE (checkFunctionTool source req) c (.ok u) c') :
    SameRows c c' ∧ ∀ fid, req.functionId = some fid →
      Matches c.store fid req.inputSchema req.outputSchema := by
  unfold checkFunctionTool at h
  cases hfid : req.functionId with
  | none =>
    rw [hfid] at h
    exact ⟨frames_pure _ h, nofun⟩
  | some fid =>
    rw [hfid] at h
    obtain ⟨-, h1⟩ := runs_failIf_bind h
    have hvalidate : ∀ {c₁ : CatalogStore}, c₁ = c → Prog.RunsE (onStore
        (validateSchemasFunction fid req.inputSchema req.outputSchema)) c₁ (.ok u) c' →
        SameRows c c' ∧ ∀ fid', some fid = some fid' →
          Matches c.store fid' req.inputSchema req.outputSchema := by
      rintro c₁ rfl hrun
      refine ⟨frames_onStore (keeps_validateSchemasFunction _ _ _ _) hrun, ?_⟩
      rintro _ ⟨⟩
      obtain ⟨s', hs, -⟩ := runs_onStore hrun
      exact runs_validateSchemasFunction hs
    split at h1
    · obtain ⟨f, c₁, hfetch, h2⟩ := Prog.runsE_bind_ok h1
      obtain ⟨-, hc⟩ := runs_fetchFunction hfetch
      obtain ⟨-, h3⟩ := runs_failIf_bind h2
      exact hvalidate hc h3
    · exact hvalidate rfl h1

variable {mysql : Mysql} {item : ToolListItem}

/-- A new tool stands at the end of the table; the schemas of one that wraps a function
have been compared. -/
theorem createTool_ok (h : Prog.RunsE (createTool mysql req) c (.ok item) c') :
    (∃ source now, c'.store.tools =
        c.store.tools ++ [newTool mysql req source c.toolsAutoIncrement now]) ∧
      c'.store.functions = c.store.functions ∧
      c'.toolsAutoIncrement = c.toolsAutoIncrement + 1 ∧
      (req.kind = 1 → ∀ fid, req.functionId = some fid →
        Matches c.store fid req.inputSchema req.outputSchema) := by
  unfold createTool at h
  obtain ⟨source, c₁, hsource, h1⟩ := Prog.runsE_bind_ok h
  obtain ⟨_, c₂, hchecks, h2⟩ := Prog.runsE_bind_ok h1
  obtain ⟨id, c₃, hinsert, h3⟩ := Prog.runsE_bind_ok h2
  obtain ⟨_, c₄, htags, hfetch⟩ := Prog.runsE_bind_ok h3
  have hc₁ := frames_check _ hsource
  have hchecked : SameRows c₁ c₂ ∧ (req.kind = 1 → ∀ fid, req.functionId = some fid →
      Matches c₁.store fid req.inputSchema req.outputSchema) := by
    unfold checkTool at hchecks
    split at hchecks
    · obtain ⟨hsame, hmatches⟩ := runs_checkFunctionTool hchecks
      exact ⟨hsame, fun _ => hmatches⟩
    · rename_i hkind
      refine ⟨?_, fun h => absurd h hkind⟩
      split at hchecks
      · exact frames_checkWorkflowTool _ _ hchecks
      · exact frames_onStore (Service.keeps_fail _) hchecks
  have hbefore := hc₁.trans hchecked.1
  have hafter := (frames_onStore (keeps_insertTaggings id req.tagIds) htags).trans
    (frames_onStore (keeps_fetchToolWithTags _ id) hfetch)
  obtain ⟨i, hr, hc₃⟩ := runs_execute hinsert
  cases hfault : i.fault "tool insert" with
  | some e => simp [hfault] at hr
  | none =>
    simp only [hfault] at hr hc₃
    split at hr
    · cases hr
    · rename_i hunique
      rw [if_neg hunique] at hc₃
      refine ⟨⟨source, i.now, ?_⟩, ?_, ?_, fun hkind fid hfid => ?_⟩
      · rw [hafter.tools, hc₃, hbefore.counter, hbefore.tools]
      · rw [hafter.functions, hc₃, ← hbefore.functions]
      · rw [hafter.counter, hc₃, ← hbefore.counter]
      · obtain ⟨f, hf, hschemas⟩ := hchecked.2 hkind fid hfid
        refine ⟨f, ?_, hschemas⟩
        rw [Store.function?, ← hc₁.functions]
        exact hf

theorem runs_updateRow {what : String} {id : Int} {g : Tool → Tool}
    (h : (updateRow what id g).Runs s (.ok u) s') :
    ∃ now, s'.functions = s.functions ∧
      s'.tools = s.tools.map fun t => if t.id = id then touch now t (g t) else t := by
  obtain ⟨i, hr, rfl⟩ := Service.runs_execute_iff.mp h
  cases hcheck : i.check what with
  | error e => simp [hcheck] at hr
  | ok u => exact ⟨i.now, rfl, rfl⟩

/-- What an update may make of a tool: only the schemas the request gives are new. -/
structure ToolUpdated (mysql : Mysql) (req : UpdateMeta) (t t' : Tool) : Prop where
  id : t'.id = t.id
  kind : t'.kind = t.kind
  functionId : t'.functionId = t.functionId
  inputSchema : t'.inputSchema = (req.inputSchema.map mysql.jsonNormal).getD t.inputSchema
  outputSchema : t'.outputSchema = (req.outputSchema.map mysql.jsonNormal).getD t.outputSchema

theorem ToolUpdated.touch {mysql : Mysql} {req : UpdateMeta} {t t' : Tool}
    (h : ToolUpdated mysql req t t') (now : DateTime) :
    ToolUpdated mysql req t (touch now t t') := by
  unfold Tools.touch
  split
  · rename_i heq
    rw [heq] at h
    exact h
  · exact ⟨h.id, h.kind, h.functionId, h.inputSchema, h.outputSchema⟩

theorem keeps_checkAndBump (f : Store → γ) (table : String) (id : Int)
    (read : Store → Option DateTime) (t : DateTime) :
    Service.Keeps f (OptimisticLock.checkAndBump table id read t) := by
  intro s r s' h
  rw [OptimisticLock.runs_checkAndBump h]

theorem runs_fetchById {id : Int} {t : Tool} (h : (fetchById id).Runs s (.ok t) s') :
    s.tool? id = some t ∧ s' = s := by
  unfold fetchById at h
  obtain ⟨row, s₁, hquery, hrest⟩ := Prog.runsE_bind_ok h
  obtain ⟨hrow, rfl⟩ := Service.runs_query_ok hquery
  have hkeeps : s' = s₁ := Service.keeps_okOr (f := fun s => s) _ _ hrest
  rw [← hrow]
  exact ⟨Service.runs_okOr_ok hrest, hkeeps⟩

theorem runs_validateSchemas {existing : Tool} {req : UpdateMeta}
    (h : (validateSchemas existing req).Runs s (.ok u) s') :
    s' = s ∧ (req.inputSchema.isSome ∨ req.outputSchema.isSome → existing.kind = 1 →
      ∃ fid, existing.functionId = some fid ∧
        Matches s fid (req.inputSchema.getD existing.inputSchema)
          (req.outputSchema.getD existing.outputSchema)) := by
  have hpure : ∀ {r : Except Failure Unit}, (pure () : Service Unit).Runs s r s' → s' = s :=
    fun h => (Service.runs_pure_iff.mp h).2
  unfold validateSchemas at h
  dsimp only at h
  split at h
  · split at h
    · cases hfid : existing.functionId with
      | none =>
        rw [hfid] at h
        cases (Prog.runsE_throw_iff.mp h).1
      | some fid =>
        rw [hfid] at h
        exact ⟨keeps_validateSchemasFunction (fun s => s) _ _ _ h,
          fun _ _ => ⟨fid, rfl, runs_validateSchemasFunction h⟩⟩
    · rename_i hkind
      refine ⟨?_, fun _ h1 => absurd h1 hkind⟩
      split at h
      · cases hwid : existing.workflowId with
        | none =>
          rw [hwid] at h
          cases (Prog.runsE_throw_iff.mp h).1
        | some wid =>
          rw [hwid] at h
          exact keeps_validateSchemasWorkflow (fun s => s) _ _ h
      · exact hpure h
  · rename_i hgiven
    exact ⟨hpure h, fun hsome => absurd hsome hgiven⟩

/-- An update of a tool changes its row only; the schemas of one that wraps a function
have been compared if the request gives any. -/
theorem updateTool_ok {id : Int} {req : UpdateMeta}
    (h : (Tools.update mysql id req).Runs s (.ok item) s') :
    ∃ (existing : Tool) (g : Tool → Tool), s.tool? id = some existing ∧ (∀ t, ToolUpdated mysql req t (g t)) ∧
      s'.functions = s.functions ∧
      s'.tools = (s.tools.map fun t => if t.id = id then g t else t) ∧
      (req.inputSchema.isSome ∨ req.outputSchema.isSome → existing.kind = 1 →
        ∃ fid, existing.functionId = some fid ∧
          Matches s fid (req.inputSchema.getD existing.inputSchema)
            (req.outputSchema.getD existing.outputSchema)) := by
  unfold Tools.update at h
  obtain ⟨_, s₁, hlock, h1⟩ := Prog.runsE_bind_ok h
  have hs₁ : s₁ = s := keeps_checkAndBump (fun s => s) _ _ _ _ hlock
  obtain ⟨existing, s₂, hfetch, h2⟩ := Prog.runsE_bind_ok h1
  obtain ⟨hexisting, hs₂⟩ := runs_fetchById hfetch
  rw [hs₁] at hexisting hs₂
  rw [hs₂] at h2
  -- the end of both branches
  have hrest : ∀ {what : String} {f : Tool → Tool},
      (do
        updateRow what id f
        replaceTags id req.tagIds
        fetchToolWithTags id : Service ToolListItem).Runs s (.ok item) s' →
      ∃ now, s'.functions = s.functions ∧
        s'.tools = s.tools.map fun t => if t.id = id then touch now t (f t) else t := by
    intro what f hrun
    obtain ⟨_, s₃, hrow, hr1⟩ := Prog.runsE_bind_ok hrun
    obtain ⟨_, s₄, htags, hfetch'⟩ := Prog.runsE_bind_ok hr1
    obtain ⟨now, hf, ht⟩ := runs_updateRow hrow
    have htags' := keeps_replaceTags id req.tagIds htags
    have hfetched := keeps_fetchToolWithTags rows id hfetch'
    obtain ⟨hf', ht'⟩ := Prod.mk.inj (hfetched.trans htags')
    exact ⟨now, hf'.trans hf, ht'.trans ht⟩
  split at h2
  · obtain ⟨_, s₃, hguard, h3⟩ := Prog.runsE_bind_ok h2
    have hs₃ : s₃ = s := Service.keeps_failIf (f := fun s => s) _ _ hguard
    have hnone := Service.runs_failIf_ok hguard
    rw [hs₃] at h3
    obtain ⟨now, hf, ht⟩ := hrest h3
    simp only [not_or] at hnone
    have hin : req.inputSchema = none := by simpa using hnone.2.2.1
    have hout : req.outputSchema = none := by simpa using hnone.2.2.2.1
    refine ⟨existing, fun t => touch now t (applyBuiltin req t), hexisting, fun t => ?_, hf, ht, ?_⟩
    · have hupdated : ToolUpdated mysql req t (applyBuiltin req t) :=
        ⟨rfl, rfl, rfl, by rw [hin]; rfl, by rw [hout]; rfl⟩
      exact hupdated.touch now
    · rintro (h | h)
      · simp [hin] at h
      · simp [hout] at h
  · obtain ⟨_, s₃, hvalid, h3⟩ := Prog.runsE_bind_ok h2
    obtain ⟨hs₃, hmatches⟩ := runs_validateSchemas hvalid
    rw [hs₃] at h3
    obtain ⟨now, hf, ht⟩ := hrest h3
    have hupdated : ∀ t, ToolUpdated mysql req t (applyUpdate mysql req t) :=
      fun t => ⟨rfl, rfl, rfl, rfl, rfl⟩
    exact ⟨existing, fun t => touch now t (applyUpdate mysql req t), hexisting,
      fun t => (hupdated t).touch now, hf, ht, hmatches⟩

/-! ## Runs -/

/-- Every tool of kind 1 with a function has the schemas of its function. -/
def Aligned (s : Store) : Prop :=
  ∀ t ∈ s.tools, t.kind = 1 → ∀ fid, t.functionId = some fid →
    Matches s fid t.inputSchema t.outputSchema

/-- The primary key of the tools and its counter. -/
structure Keyed (c : CatalogStore) : Prop where
  nodup : (c.store.tools.map Tool.id).Nodup
  below : ∀ t ∈ c.store.tools, t.id < c.toolsAutoIncrement

/-- The objects of the schemas a request brings hold each key once, as every
`serde_json::Map` does. -/
def CatalogRequest.Proper : CatalogRequest → Prop
  | .createFunction req => req.inputSchema.Proper ∧ req.outputSchema.Proper
  | .createTool req => req.inputSchema.Proper ∧ req.outputSchema.Proper
  | .updateFunction _ req =>
    (∀ v ∈ req.inputSchema, v.Proper) ∧ ∀ v ∈ req.outputSchema, v.Proper
  | .updateTool _ req => (∀ v ∈ req.inputSchema, v.Proper) ∧ ∀ v ∈ req.outputSchema, v.Proper

/-- An update of a function gives no schema that differs from that of a tool of kind 1
bound to the function. -/
def KeepsTools (s : Store) : CatalogRequest → Prop
  | .updateFunction id req => ∀ t ∈ s.tools, t.kind = 1 → t.functionId = some id →
    (∀ v ∈ req.inputSchema, jsonDeepEqual v t.inputSchema = true) ∧
      ∀ v ∈ req.outputSchema, jsonDeepEqual v t.outputSchema = true
  | _ => True

/-- A sequence of requests that succeed, each with the store it leaves. -/
inductive Succeeds (cfg : BindingConfig) :
    CatalogStore → List (CatalogRequest × CatalogStore) → Prop
  | nil (c : CatalogStore) : Succeeds cfg c []
  | cons {c c' : CatalogStore} {req : CatalogRequest} {a : CatalogAnswer}
      {rest : List (CatalogRequest × CatalogStore)} (hproper : req.Proper)
      (hrun : Prog.RunsE (handle cfg req) c (.ok a) c') (hrest : Succeeds cfg c' rest) :
      Succeeds cfg c ((req, c') :: rest)

/-- Every update of a function in the sequence agrees with the tools of its time. -/
def AllKeepTools : CatalogStore → List (CatalogRequest × CatalogStore) → Prop
  | _, [] => True
  | c, (req, c') :: rest => KeepsTools c.store req ∧ AllKeepTools c' rest

section Step

variable {cfg : BindingConfig} {c c' : CatalogStore} {a : CatalogAnswer}

variable {s s' : Store} {fid : Int}

theorem Matches.congr (hf : s'.functions = s.functions) {input output : Json}
    (h : Matches s fid input output) : Matches s' fid input output := by
  obtain ⟨f, hfind, hschemas⟩ := h
  exact ⟨f, by rw [Store.function?, hf]; exact hfind, hschemas⟩

theorem step_createFunction {req : CreateMeta} (hkeyed : Keyed c) (haligned : Aligned c.store)
    (hrun : Prog.RunsE (handle cfg (.createFunction req)) c (.ok a) c') :
    Keyed c' ∧ Aligned c'.store := by
  obtain ⟨f, hcreate, -⟩ := Prog.runsE_map_ok hrun
  obtain ⟨⟨row, hf⟩, ht, hn⟩ := createCustom_ok hcreate
  refine ⟨⟨ht ▸ hkeyed.nodup, ?_⟩, ?_⟩
  · rw [ht, hn]
    exact hkeyed.below
  · intro t hmem hkind fid hfid
    rw [ht] at hmem
    obtain ⟨f, hfind, hschemas⟩ := haligned t hmem hkind fid hfid
    refine ⟨f, ?_, hschemas⟩
    rw [Store.function?, hf, List.find?_append]
    exact Option.or_eq_some_iff.mpr (Or.inl hfind)

theorem step_createTool (hmysql : cfg.mysql.KeepsValues) {req : ToolCreateMeta}
    (hproper : (CatalogRequest.createTool req).Proper) (hkeyed : Keyed c)
    (haligned : Aligned c.store)
    (hrun : Prog.RunsE (handle cfg (.createTool req)) c (.ok a) c') :
    Keyed c' ∧ Aligned c'.store := by
  obtain ⟨item, hcreate, -⟩ := Prog.runsE_map_ok hrun
  obtain ⟨⟨source, now, ht⟩, hf, hn, hmatches⟩ := createTool_ok hcreate
  refine ⟨⟨?_, ?_⟩, ?_⟩
  · rw [ht, List.map_append, List.nodup_append]
    refine ⟨hkeyed.nodup, List.nodup_singleton _, ?_⟩
    intro id hid id' hid'
    obtain ⟨t, hmem, rfl⟩ := List.mem_map.mp hid
    rw [List.mem_singleton.mp hid']
    exact (hkeyed.below t hmem).ne
  · intro t hmem
    rw [ht] at hmem
    rw [hn]
    rcases List.mem_append.mp hmem with hmem | hmem
    · exact (hkeyed.below t hmem).trans (Int.lt_succ _)
    · rw [List.mem_singleton.mp hmem]
      exact Int.lt_succ _
  · intro t hmem hkind fid hfid
    rw [ht] at hmem
    rcases List.mem_append.mp hmem with hmem | hmem
    · exact (haligned t hmem hkind fid hfid).congr hf
    · rw [List.mem_singleton.mp hmem] at hkind hfid ⊢
      obtain ⟨f, hfind, hin, hout⟩ := (hmatches hkind fid hfid).congr hf
      exact ⟨f, hfind, hmysql.right hproper.1 hin, hmysql.right hproper.2 hout⟩

theorem Keyed.tool?_eq (hkeyed : Keyed c) {t : Tool} (hmem : t ∈ c.store.tools) :
    c.store.tool? t.id = some t := by
  refine List.find?_eq_some_iff_append.mpr ⟨decide_eq_true rfl, ?_⟩
  obtain ⟨before, after, heq⟩ := List.append_of_mem hmem
  refine ⟨before, after, heq, fun u hu => ?_⟩
  have hnodup := hkeyed.nodup
  rw [heq, List.map_append, List.nodup_append] at hnodup
  have hne := hnodup.2.2 u.id (List.mem_map_of_mem hu) t.id (by simp)
  simpa using hne

theorem step_updateTool (hmysql : cfg.mysql.KeepsValues) {id : Int} {req : UpdateMeta}
    (hproper : (CatalogRequest.updateTool id req).Proper) (hkeyed : Keyed c)
    (haligned : Aligned c.store)
    (hrun : Prog.RunsE (handle cfg (.updateTool id req)) c (.ok a) c') :
    Keyed c' ∧ Aligned c'.store := by
  obtain ⟨item, hupdate, -⟩ := Prog.runsE_map_ok hrun
  obtain ⟨s', hs, rfl⟩ := runs_onStore hupdate
  obtain ⟨existing, g, hexisting, hg, hf, ht, hmatches⟩ := updateTool_ok hs
  have hids : s'.tools.map Tool.id = c.store.tools.map Tool.id := by
    rw [ht, List.map_map]
    refine List.map_congr_left fun t _ => ?_
    show (if t.id = id then g t else t).id = t.id
    split
    · exact (hg t).id
    · rfl
  refine ⟨⟨hids ▸ hkeyed.nodup, ?_⟩, ?_⟩
  · intro t hmem
    have hid : t.id ∈ c.store.tools.map Tool.id := hids ▸ List.mem_map_of_mem hmem
    obtain ⟨u, hu, hid'⟩ := List.mem_map.mp hid
    exact hid' ▸ hkeyed.below u hu
  · intro t hmem hkind fid hfid
    change t ∈ s'.tools at hmem
    rw [ht] at hmem
    obtain ⟨u, hu, rfl⟩ := List.mem_map.mp hmem
    by_cases hid : u.id = id
    · rw [if_pos hid] at hkind hfid ⊢
      have hupdated := hg u
      rw [hupdated.kind] at hkind
      rw [hupdated.functionId] at hfid
      have hsame : u = existing := by
        have hfind := hkeyed.tool?_eq hu
        rw [hid, hexisting] at hfind
        exact (Option.some.inj hfind).symm
      subst hsame
      have hold := haligned u hu hkind fid hfid
      rw [hupdated.inputSchema, hupdated.outputSchema]
      -- both schemas were compared together, with the old one where none is given
      have hboth : Matches c.store fid (req.inputSchema.getD u.inputSchema)
          (req.outputSchema.getD u.outputSchema) := by
        by_cases hgiven : req.inputSchema.isSome ∨ req.outputSchema.isSome
        · obtain ⟨fid', hfid', hm⟩ := hmatches hgiven hkind
          rw [hfid] at hfid'
          cases hfid'
          exact hm
        · simp only [not_or, Bool.not_eq_true, Option.isSome_eq_false_iff,
            Option.isNone_iff_eq_none] at hgiven
          rw [hgiven.1, hgiven.2]
          exact hold
      obtain ⟨f, hfind, hin, hout⟩ := hboth.congr hf
      refine ⟨f, hfind, ?_, ?_⟩
      · cases hs : req.inputSchema with
        | none => simpa [hs] using hin
        | some v =>
          rw [hs] at hin
          exact hmysql.right (hproper.1 v hs) hin
      · cases hs : req.outputSchema with
        | none => simpa [hs] using hout
        | some v =>
          rw [hs] at hout
          exact hmysql.right (hproper.2 v hs) hout
    · rw [if_neg hid] at hkind hfid ⊢
      exact (haligned u hu hkind fid hfid).congr hf

theorem function?_id {f : Function} (h : s.function? fid = some f) : f.id = fid := by
  have hfound := List.find?_some h
  exact of_decide_eq_true hfound

theorem function?_updated {id : Int} {g : Function → Function} (hg : ∀ f, (g f).id = f.id)
    (hf : s'.functions = s.functions.map fun f => if f.id = id then g f else f) (fid : Int) :
    s'.function? fid = (s.function? fid).map fun f => if f.id = id then g f else f := by
  rw [Store.function?, hf, List.find?_map]
  congr 1
  refine congrArg (List.find? · _) (funext fun f => ?_)
  show decide ((if f.id = id then g f else f).id = fid) = decide (f.id = fid)
  split
  · rw [hg]
  · rfl

/-- An update of a function keeps the tables aligned exactly when its schemas agree with
the tools that are bound to the function. -/
theorem step_updateFunction (hmysql : cfg.mysql.KeepsValues) {id : Int}
    {req : FunctionUpdateMeta} (hproper : (CatalogRequest.updateFunction id req).Proper)
    (hkeyed : Keyed c) (haligned : Aligned c.store)
    (hrun : Prog.RunsE (handle cfg (.updateFunction id req)) c (.ok a) c') :
    Keyed c' ∧ (Aligned c'.store ↔ KeepsTools c.store (.updateFunction id req)) := by
  obtain ⟨f, hupdate, -⟩ := Prog.runsE_map_ok hrun
  obtain ⟨g, hg, hf, ht, hn⟩ := updateFunction_ok hupdate
  have hfind := function?_updated (fun f => (hg f).1) hf
  refine ⟨⟨ht ▸ hkeyed.nodup, by rw [ht, hn]; exact hkeyed.below⟩, ?_, ?_⟩
  · intro haligned' t hmem hkind hfid
    obtain ⟨f', hf', hin', hout'⟩ := haligned' t (ht ▸ hmem) hkind id hfid
    rw [hfind] at hf'
    obtain ⟨f₀, hf₀, rfl⟩ := Option.map_eq_some_iff.mp hf'
    rw [if_pos (function?_id hf₀)] at hin' hout'
    rw [(hg f₀).2.1] at hin'
    rw [(hg f₀).2.2] at hout'
    refine ⟨fun v hv => ?_, fun v hv => ?_⟩
    · rw [Option.mem_def.mp hv] at hin'
      exact (hmysql.left_iff (hproper.1 v hv)).mp hin'
    · rw [Option.mem_def.mp hv] at hout'
      exact (hmysql.left_iff (hproper.2 v hv)).mp hout'
  · intro hkeeps t hmem hkind fid hfid
    rw [ht] at hmem
    obtain ⟨f₀, hf₀, hin, hout⟩ := haligned t hmem hkind fid hfid
    refine ⟨_, by rw [hfind, hf₀]; rfl, ?_⟩
    dsimp only
    split
    · rename_i hid
      have hfid' : fid = id := (function?_id hf₀).symm.trans hid
      obtain ⟨hin', hout'⟩ := hkeeps t hmem hkind (hfid' ▸ hfid)
      rw [(hg f₀).2.1, (hg f₀).2.2]
      refine ⟨?_, ?_⟩
      · cases hs : req.inputSchema with
        | none => exact hin
        | some v => exact (hmysql.left_iff (hproper.1 v hs)).mpr (hin' v hs)
      · cases hs : req.outputSchema with
        | none => exact hout
        | some v => exact (hmysql.left_iff (hproper.2 v hs)).mpr (hout' v hs)
    · exact ⟨hin, hout⟩

theorem step_aligned (hmysql : cfg.mysql.KeepsValues) {req : CatalogRequest}
    (hproper : req.Proper) (hkeyed : Keyed c) (haligned : Aligned c.store)
    (hrun : Prog.RunsE (handle cfg req) c (.ok a) c') :
    Keyed c' ∧ (Aligned c'.store ↔ KeepsTools c.store req) := by
  have hkept : Keyed c' ∧ Aligned c'.store → KeepsTools c.store req →
      Keyed c' ∧ (Aligned c'.store ↔ KeepsTools c.store req) :=
    fun h hk => ⟨h.1, fun _ => hk, fun _ => h.2⟩
  cases req with
  | createFunction req => exact hkept (step_createFunction hkeyed haligned hrun) trivial
  | updateFunction id req => exact step_updateFunction hmysql hproper hkeyed haligned hrun
  | createTool req => exact hkept (step_createTool hmysql hproper hkeyed haligned hrun) trivial
  | updateTool id req => exact hkept (step_updateTool hmysql hproper hkeyed haligned hrun) trivial

end Step

/-- Along every sequence of function and tool requests that succeed, the tools have the
schemas of their functions after every request exactly when every update of a function
in it agrees with the tools that were bound to the function at its time. -/
theorem aligned_iff_keepTools {cfg : BindingConfig} (hmysql : cfg.mysql.KeepsValues)
    {c : CatalogStore} (hkeyed : Keyed c) (haligned : Aligned c.store)
    {steps : List (CatalogRequest × CatalogStore)} (hsteps : Succeeds cfg c steps) :
    (∀ p ∈ steps, Aligned p.2.store) ↔ AllKeepTools c steps := by
  induction hsteps with
  | nil c => simp [AllKeepTools]
  | cons hproper hrun _ ih =>
    obtain ⟨hkeyed', hiff⟩ := step_aligned hmysql hproper hkeyed haligned hrun
    rw [List.forall_mem_cons, AllKeepTools]
    constructor
    · rintro ⟨haligned', hrest⟩
      exact ⟨hiff.mp haligned', (ih hkeyed' haligned').mp hrest⟩
    · rintro ⟨hkeeps, hrest⟩
      have haligned' := hiff.mpr hkeeps
      exact ⟨haligned', (ih hkeyed' haligned').mpr hrest⟩

/-! ### A function that changes under its tool -/

instance (s : Store) (fid : Int) (input output : Json) : Decidable (Matches s fid input output) :=
  decidable_of_iff (∃ f ∈ s.function? fid, jsonDeepEqual f.inputSchema input = true ∧
    jsonDeepEqual f.outputSchema output = true) Iff.rfl

instance (s : Store) : Decidable (Aligned s) :=
  inferInstanceAs (Decidable (∀ t ∈ s.tools, t.kind = 1 → ∀ fid ∈ t.functionId,
    Matches s fid t.inputSchema t.outputSchema))

/-- One plugin, and no function or tool yet. -/
def onePlugin : CatalogStore :=
  { store := {}
    plugins := [{
      id := 1, identifier := "weather", name := "weather", description := none, manifest := none
      runtime := "wasm", version := "1.0.0", author := none, repositoryUrl := none
      s3Key := "plugins/weather/1.0.0.wasm", sha256 := "", sizeBytes := 8, categoryId := none
      createdAt := 0, updatedAt := 0, deletedAt := none }] }

/-- A plain server, and a compiler that accepts every schema. -/
def plainCatalog : BindingConfig := { mysql := .plain, compileSchema := fun _ => .ok () }

/-- A function of the plugin that accepts everything. -/
def forecast : CreateMeta :=
  { identifier := "forecast", name := "forecast", pluginId := 1, pluginExport := "run"
    inputSchema := .obj [], outputSchema := .obj [] }

def forecastTool : ToolCreateMeta :=
  { identifier := "forecast", name := "forecast", description := "", kind := 1, source := ""
    isAlways := false, functionId := some 1, inputSchema := .obj [], outputSchema := .obj [] }

/-- A new input schema for the function. -/
def narrowInput (input : Json) : FunctionUpdateMeta := { inputSchema := some input, updatedAt := 0 }

/-- A request executed alone, without errors. -/
def alone (req : CatalogRequest) (c : CatalogStore) : Except Failure CatalogAnswer × CatalogStore :=
  Prog.exec (handle plainCatalog req).run (fun _ => Input.at 0) c

/-- The three requests one after another, each with the store it leaves. -/
def narrowed (input : Json) : List (CatalogRequest × CatalogStore) :=
  let created := (alone (.createFunction forecast) onePlugin).2
  let wrapped := (alone (.createTool forecastTool) created).2
  [(.createFunction forecast, created), (.createTool forecastTool, wrapped),
    (.updateFunction 1 (narrowInput input),
      (alone (.updateFunction 1 (narrowInput input)) wrapped).2)]

theorem Succeeds.cons_alone {req : CatalogRequest} {rest : List (CatalogRequest × CatalogStore)}
    (hproper : req.Proper) (hok : (alone req c).1.isOk = true)
    (hrest : Succeeds plainCatalog (alone req c).2 rest) :
    Succeeds plainCatalog c ((req, (alone req c).2) :: rest) := by
  have hrun : Prog.RunsE (handle plainCatalog req) c (alone req c).1 (alone req c).2 :=
    Prog.runs_exec _ _ _
  cases hr : (alone req c).1 with
  | error e => simp [hr, Except.isOk, Except.toBool] at hok
  | ok a =>
    rw [hr] at hrun
    exact .cons hproper hrun hrest

theorem keyed_onePlugin : Keyed onePlugin := ⟨List.nodup_nil, List.forall_mem_nil _⟩

theorem aligned_onePlugin : Aligned onePlugin.store := List.forall_mem_nil _

theorem proper_empty : (Json.obj []).Proper := .obj [] List.nodup_nil nofun

/-- An update of the function to objects only leaves its tool with the old schema. -/
theorem narrowed_function_leaves_tool :
    Keyed onePlugin ∧ Aligned onePlugin.store ∧
      Succeeds plainCatalog onePlugin (narrowed (.obj [("type", .str "object")])) ∧
      ∃ p ∈ narrowed (.obj [("type", .str "object")]), ¬ Aligned p.2.store := by
  refine ⟨keyed_onePlugin, aligned_onePlugin, ?_, ?_⟩
  · refine .cons_alone ⟨proper_empty, proper_empty⟩ (by decide +kernel) ?_
    refine .cons_alone ⟨proper_empty, proper_empty⟩ (by decide +kernel) ?_
    refine .cons_alone ⟨?_, nofun⟩ (by decide +kernel) (.nil _)
    rintro _ ⟨⟩
    refine .obj _ (by decide) fun f hf => ?_
    rw [List.mem_singleton.mp hf]
    exact .str _
  · exact ⟨_, List.mem_cons_of_mem _ (List.mem_cons_of_mem _ List.mem_cons_self), by decide +kernel⟩

/-- An update that repeats the schema does no harm. -/
theorem repeated_schema_keeps_tool :
    AllKeepTools onePlugin (narrowed (.obj [])) ∧ ∀ p ∈ narrowed (.obj []), Aligned p.2.store := by
  have hsucceeds : Succeeds plainCatalog onePlugin (narrowed (.obj [])) := by
    refine .cons_alone ⟨proper_empty, proper_empty⟩ (by decide +kernel) ?_
    refine .cons_alone ⟨proper_empty, proper_empty⟩ (by decide +kernel) ?_
    refine .cons_alone ⟨?_, nofun⟩ (by decide +kernel) (.nil _)
    rintro _ ⟨⟩
    exact proper_empty
  have hkeeps : AllKeepTools onePlugin (narrowed (.obj [])) := by
    refine ⟨trivial, trivial, ?_, trivial⟩
    intro t hmem _ _
    refine ⟨?_, nofun⟩
    rintro _ ⟨⟩
    revert t
    decide +kernel
  exact ⟨hkeeps, (aligned_iff_keepTools Mysql.keepsValues_plain keyed_onePlugin aligned_onePlugin
    hsucceeds).mpr hkeeps⟩

end HiveClaw.Catalog
