import HiveClaw.Plugins.Service

/-!
# Failed uploads and the objects of other plugins

The object is written before the database decides whether the plugin is new, and
deleted by its key if it is not. So a failed upload is harmless exactly when it is
rejected before it writes the object, or when no plugin in use has an object under
its key (`failed_upload_safe_iff`). An upload of an identifier and version that
are there already takes the object of the plugin in use with it.
-/

namespace HiveClaw.Plugins

open Lib Prog

/-- Every plugin that is not deleted has its object, with the bytes its row says. -/
def Intact (cfg : Config) (s : PluginStore) : Prop :=
  ∀ p ∈ s.tables.plugins, p.deletedAt = none →
    ∃ bytes, s.objects p.s3Key = some bytes ∧ cfg.sha256 bytes = p.sha256

/-- The objects of the plugins in use are what they were. -/
def KeepsObjects (s s' : PluginStore) : Prop :=
  ∀ p ∈ s.tables.plugins, p.deletedAt = none → s'.objects p.s3Key = s.objects p.s3Key

/-- The request is turned down before anything is written: by the checks of the
module, or because a tag is unknown. -/
def Rejected (cfg : Config) (s : PluginStore) (req : UploadMeta) (bytes : Bytes) : Prop :=
  (∃ e, checkModule cfg bytes = .error e) ∨ ∃ tagId ∈ req.tagIds, ∀ t ∈ s.tags, t.id ≠ tagId

/-- No plugin in use has its object under the key of the request. -/
def KeyFree (s : PluginStore) (req : UploadMeta) : Prop :=
  ∀ p ∈ s.tables.plugins, p.deletedAt = none → p.s3Key ≠ objectKey req

/-! ## Commands -/

section Commands

variable {α : Type} {what : String} {s s' : PluginStore}

theorem runs_query {read : PluginStore → α} {r : Except AppError α}
    (h : RunsE (query what read) s r s') :
    s' = s ∧ (r = .ok (read s) ∨ ∃ e, r = .error (fault what e)) := by
  have hrun : RunsE (query what read) s r s' ↔ _ := runs_read_iff
  obtain ⟨⟨i, rfl⟩, rfl⟩ := hrun.mp h
  refine ⟨rfl, ?_⟩
  cases i.fault with
  | none => exact Or.inl rfl
  | some e => exact Or.inr ⟨e, rfl⟩

theorem runs_query_answered (what : String) (read : PluginStore → α) (s : PluginStore) :
    RunsE (query what read) s (.ok (read s)) s := by
  have hrun : RunsE (query what read) s (.ok (read s)) s ↔ _ := runs_read_iff
  exact hrun.mpr ⟨⟨{}, rfl⟩, rfl⟩

theorem runs_command {f : PluginStore → PluginStore} {r : Except AppError Unit}
    (h : RunsE (command what f) s r s') :
    (r = .ok () ∧ s' = f s) ∨ ∃ e, r = .error e ∧ (s' = f s ∨ s' = s) := by
  have hrun : RunsE (command what f) s r s' ↔ _ := runs_modify_iff
  obtain ⟨i, rfl, rfl⟩ := hrun.mp h
  cases i.fault with
  | none => exact Or.inl ⟨rfl, rfl⟩
  | some e =>
    refine Or.inr ⟨_, rfl, ?_⟩
    cases i.executed with
    | true => exact Or.inl rfl
    | false => exact Or.inr rfl

theorem runs_command_answered (what : String) (f : PluginStore → PluginStore) (s : PluginStore) :
    RunsE (command what f) s (.ok ()) (f s) := by
  have hrun : RunsE (command what f) s (.ok ()) (f s) ↔ _ := runs_modify_iff
  exact hrun.mpr ⟨{}, rfl, rfl⟩

theorem runs_bind_ok {β : Type} {m : PluginM α} {f : α → PluginM β} {a : α} {s₁ : PluginStore}
    {r : Except AppError β} (hm : RunsE m s (.ok a) s₁) (hf : RunsE (f a) s₁ r s') :
    RunsE (m >>= f) s r s' :=
  runsE_bind_iff.mpr (Or.inr ⟨a, s₁, hm, hf⟩)

end Commands

/-! ## The parts of an upload -/

section Parts

variable {cfg : Config} {req : UploadMeta} {bytes : Bytes} {s s' : PluginStore}

theorem runs_checkTags {ids : List Int} {r : Except AppError Unit}
    (h : RunsE (checkTags ids) s r s') :
    s' = s ∧ (r = .ok () → ∀ tagId ∈ ids, ∃ t ∈ s.tags, t.id = tagId) := by
  induction ids with
  | nil =>
    obtain ⟨-, rfl⟩ := runsE_pure_iff.mp h
    exact ⟨rfl, fun _ _ hmem => absurd hmem List.not_mem_nil⟩
  | cons tagId rest ih =>
    rcases runsE_bind_iff.mp h with ⟨e, hquery, rfl⟩ | ⟨known, s₁, hquery, hrest⟩
    · exact ⟨(runs_query hquery).1, nofun⟩
    · obtain ⟨rfl, hknown⟩ := runs_query hquery
      split at hrest
      · next htrue =>
        obtain ⟨hs, hall⟩ := ih hrest
        refine ⟨hs, fun hr => List.forall_mem_cons.mpr ⟨?_, hall hr⟩⟩
        have hany : known = s₁.tags.any fun t => t.id = tagId := by
          rcases hknown with hval | ⟨e, he⟩
          · exact Except.ok.inj hval
          · cases he
        rw [htrue] at hany
        obtain ⟨t, ht, heq⟩ := List.any_eq_true.mp hany.symm
        exact ⟨t, ht, of_decide_eq_true heq⟩
      · obtain ⟨rfl, rfl⟩ := runsE_throw_iff.mp hrest
        exact ⟨rfl, nofun⟩

theorem runs_checkTags_known {ids : List Int}
    (hknown : ∀ tagId ∈ ids, ∃ t ∈ s.tags, t.id = tagId) :
    RunsE (checkTags ids) s (.ok ()) s := by
  induction ids with
  | nil => exact runsE_pure_iff.mpr ⟨rfl, rfl⟩
  | cons tagId rest ih =>
    obtain ⟨⟨t, ht, hid⟩, hrest⟩ := List.forall_mem_cons.mp hknown
    refine runs_bind_ok (runs_query_answered _ _ _) ?_
    rw [if_pos (List.any_eq_true.mpr ⟨t, ht, decide_eq_true hid⟩)]
    exact ih hrest

theorem runs_bindTags {id : Int} {ids : List Int} {staged : PluginTables}
    {r : Except AppError PluginTables} (h : RunsE (bindTags id ids staged) s r s') :
    s' = s ∧ ∀ t, r = .ok t → t.plugins = staged.plugins := by
  induction ids generalizing staged with
  | nil =>
    obtain ⟨rfl, rfl⟩ := runsE_pure_iff.mp h
    refine ⟨rfl, fun t ht => ?_⟩
    rw [Except.ok.inj ht]
  | cons tagId rest ih =>
    rcases runsE_bind_iff.mp h with ⟨e, hquery, rfl⟩ | ⟨inserted, s₁, hquery, hrest⟩
    · exact ⟨(runs_query hquery).1, nofun⟩
    · obtain ⟨rfl, hval⟩ := runs_query hquery
      cases inserted with
      | error e =>
        obtain ⟨rfl, rfl⟩ := runsE_throw_iff.mp hrest
        exact ⟨rfl, nofun⟩
      | ok staged₁ =>
        obtain ⟨hs, hplugins⟩ := ih hrest
        refine ⟨hs, fun t ht => (hplugins t ht).trans ?_⟩
        have hinserted : insertTagging s₁ staged ⟨tagId, "plugin", id⟩ = .ok staged₁ := by
          rcases hval with hok | ⟨e, he⟩
          · exact (Except.ok.inj hok).symm
          · cases he
        unfold insertTagging at hinserted
        split at hinserted
        · cases hinserted
        · split at hinserted
          · cases hinserted
          · rw [← Except.ok.inj hinserted]

variable {r : Except AppError Plugin}

theorem runs_fetchById {id : Int} (h : RunsE (fetchById id) s r s') : s' = s := by
  rcases runsE_bind_iff.mp h with ⟨e, hquery, -⟩ | ⟨row, s₁, hquery, hrest⟩
  · exact (runs_query hquery).1
  · obtain ⟨rfl, -⟩ := runs_query hquery
    cases row with
    | some p => exact (runsE_pure_iff.mp hrest).2
    | none => exact (runsE_throw_iff.mp hrest).2

theorem runs_insertPlugin {r : Except String (Int × PluginTables)}
    (h : (insertPlugin cfg req bytes).Runs s r s') :
    s'.tables = s.tables ∧ s'.objects = s.objects ∧
      ∀ id t, r = .ok (id, t) → ∃ p, t.plugins = s.tables.plugins ++ [p] ∧
        p.s3Key = objectKey req ∧ p.sha256 = cfg.sha256 bytes := by
  obtain ⟨i, rfl, rfl⟩ := runs_modify_iff.mp h
  dsimp only
  split
  · exact ⟨rfl, rfl, nofun⟩
  · exact ⟨rfl, rfl, nofun⟩
  · split
    · exact ⟨rfl, rfl, nofun⟩
    · refine ⟨rfl, rfl, fun id t ht => ?_⟩
      cases ht
      exact ⟨_, rfl, rfl, rfl⟩

/-- What an upload can leave behind: no object under another key has changed, and
a new row has its object. -/
structure Outcome (cfg : Config) (req : UploadMeta) (bytes : Bytes) (s s' : PluginStore) : Prop where
  elsewhere : ∀ key, key ≠ objectKey req → s'.objects key = s.objects key
  rows : ∀ p ∈ s'.tables.plugins, p ∈ s.tables.plugins ∨
    (p.s3Key = objectKey req ∧ p.sha256 = cfg.sha256 bytes ∧
      s'.objects (objectKey req) = some bytes)

theorem outcome_of_tables (htables : s'.tables = s.tables)
    (hobjects : ∀ key, key ≠ objectKey req → s'.objects key = s.objects key) :
    Outcome cfg req bytes s s' := by
  refine ⟨hobjects, ?_⟩
  intro p hp
  rw [htables] at hp
  exact Or.inl hp

variable {key : String}

theorem put_elsewhere (hne : key ≠ objectKey req) :
    (s.put (objectKey req) bytes).objects key = s.objects key :=
  if_neg hne

theorem drop_elsewhere (hne : key ≠ objectKey req) :
    (s.drop (objectKey req)).objects key = s.objects key :=
  if_neg hne

variable {u : Unit}

theorem runs_deleteWasm (h : (deleteWasm key).Runs s u s') : s' = s.drop key ∨ s' = s := by
  obtain ⟨i, -, rfl⟩ := runs_modify_iff.mp h
  dsimp only
  split
  · exact Or.inl rfl
  · exact Or.inr rfl

variable {what : String} {f : PluginStore → PluginStore}

theorem runs_command_ok (h : RunsE (command what f) s (.ok u) s') : s' = f s := by
  rcases runs_command h with ⟨-, hs⟩ | ⟨e, he, -⟩
  · exact hs
  · cases he

theorem runs_command_error {e : AppError} (h : RunsE (command what f) s (.error e) s') :
    s' = f s ∨ s' = s := by
  rcases runs_command h with ⟨he, -⟩ | ⟨e, -, hs⟩
  · cases he
  · exact hs

theorem runs_storePlugin (h : RunsE (storePlugin cfg req bytes) s r s') :
    Outcome cfg req bytes s s' := by
  rcases runsE_bind_iff.mp h with ⟨e, hbegin, -⟩ | ⟨_, s₀, hbegin, hafterBegin⟩
  · rcases runs_command_error hbegin with hs | hs
    · exact hs ▸ outcome_of_tables rfl fun _ _ => rfl
    · exact hs ▸ outcome_of_tables rfl fun _ _ => rfl
  have hs₀ : s₀ = s := runs_command_ok hbegin
  rw [hs₀] at hafterBegin
  rcases runsE_bind_iff.mp hafterBegin with ⟨e, hput, -⟩ | ⟨_, s₁, hput, hafterPut⟩
  · rcases runs_command_error hput with hs | hs
    · exact hs ▸ outcome_of_tables rfl fun _ => put_elsewhere
    · exact hs ▸ outcome_of_tables rfl fun _ _ => rfl
  have hs₁ := runs_command_ok hput
  obtain ⟨inserted, s₂, hinsert, hrest⟩ := runsE_lift_bind_iff.mp hafterPut
  obtain ⟨htables, hobjects, hstaged⟩ := runs_insertPlugin hinsert
  rw [hs₁] at htables hobjects hstaged
  -- from here on the object is there, and the committed tables are the old ones
  have helse : ∀ key, key ≠ objectKey req → s₂.objects key = s.objects key := by
    intro key hne
    rw [hobjects]
    exact put_elsewhere hne
  cases inserted with
  | error e =>
    obtain ⟨_, s₃, hdelete, hthrow⟩ := runsE_lift_bind_iff.mp hrest
    obtain ⟨-, rfl⟩ := runsE_throw_iff.mp hthrow
    rcases runs_deleteWasm hdelete with rfl | rfl
    · exact outcome_of_tables htables fun key hne => (drop_elsewhere hne).trans (helse key hne)
    · exact outcome_of_tables htables helse
  | ok idStaged =>
    obtain ⟨id, staged⟩ := idStaged
    obtain ⟨row, hplugins, hkey, hsha⟩ := hstaged id staged rfl
    rcases runsE_bind_iff.mp hrest with ⟨e, hbind, -⟩ | ⟨staged₁, s₃, hbind, hafterTags⟩
    · obtain ⟨rfl, -⟩ := runs_bindTags hbind
      exact outcome_of_tables htables helse
    obtain ⟨rfl, hsame⟩ := runs_bindTags hbind
    have hrows : staged₁.plugins = s.tables.plugins ++ [row] := (hsame staged₁ rfl).trans hplugins
    have hcommitted : Outcome cfg req bytes s { s₃ with tables := staged₁ } := by
      refine ⟨helse, ?_⟩
      intro p hp
      have hp' : p ∈ s.tables.plugins ++ [row] := hrows ▸ hp
      rcases List.mem_append.mp hp' with hold | hnew
      · exact Or.inl hold
      · obtain rfl := List.mem_singleton.mp hnew
        refine Or.inr ⟨hkey, hsha, ?_⟩
        show s₃.objects (objectKey req) = some bytes
        rw [hobjects]
        exact if_pos rfl
    rcases runsE_bind_iff.mp hafterTags with ⟨e, hcommit, -⟩ | ⟨_, s₄, hcommit, hfetch⟩
    · rcases runs_command_error hcommit with rfl | rfl
      · exact hcommitted
      · exact outcome_of_tables htables helse
    · rw [runs_fetchById hfetch, runs_command_ok hcommit]
      exact hcommitted

theorem runs_storePlugin_refused (cfg : Config) (req : UploadMeta) (bytes : Bytes)
    (s : PluginStore) :
    ∃ e, RunsE (storePlugin cfg req bytes) s (.error e)
      ((s.put (objectKey req) bytes).drop (objectKey req)) := by
  have hinsert : (insertPlugin cfg req bytes).Runs (s.put (objectKey req) bytes)
      (.error "Deadlock found") (s.put (objectKey req) bytes) :=
    runs_modify_iff.mpr ⟨{ fault := some "Deadlock found" }, rfl, rfl⟩
  have hdelete : (deleteWasm (objectKey req)).Runs (s.put (objectKey req) bytes) ()
      ((s.put (objectKey req) bytes).drop (objectKey req)) :=
    runs_modify_iff.mpr ⟨{}, rfl, rfl⟩
  have hthrow : ∃ e, RunsE (ExceptT.lift (deleteWasm (objectKey req)) >>= fun _ =>
      (throw (.conflict ("Plugin " ++ req.identifier ++ "@" ++ req.version ++
        " 已存在或插入失败: " ++ "Deadlock found")) : PluginM Plugin))
      (s.put (objectKey req) bytes) (.error e)
      ((s.put (objectKey req) bytes).drop (objectKey req)) :=
    ⟨_, runsE_lift_bind_iff.mpr ⟨(), _, hdelete, runsE_throw_iff.mpr ⟨rfl, rfl⟩⟩⟩
  obtain ⟨e, hthrow⟩ := hthrow
  exact ⟨e, runs_bind_ok (runs_command_answered _ _ _) (runs_bind_ok
    (runs_command_answered _ _ _) (runsE_lift_bind_iff.mpr ⟨_, _, hinsert, hthrow⟩))⟩

theorem runs_upload (h : RunsE (upload cfg req bytes) s r s') :
    s' = s ∨ (¬ Rejected cfg s req bytes ∧ RunsE (storePlugin cfg req bytes) s r s') := by
  rcases runsE_bind_iff.mp h with ⟨e, hcheck, -⟩ | ⟨_, s₀, hcheck, hafterCheck⟩
  · exact Or.inl (runs_done_iff.mp hcheck).2
  obtain ⟨hok, rfl⟩ := runs_done_iff.mp hcheck
  rcases runsE_bind_iff.mp hafterCheck with ⟨e, htags, -⟩ | ⟨_, s₁, htags, hstore⟩
  · exact Or.inl (runs_checkTags htags).1
  obtain ⟨rfl, hknown⟩ := runs_checkTags htags
  refine Or.inr ⟨?_, hstore⟩
  rintro (⟨e, he⟩ | ⟨tagId, hmem, hunknown⟩)
  · cases hok.trans he
  · obtain ⟨t, ht, hid⟩ := hknown rfl tagId hmem
    exact hunknown t ht hid

theorem runs_upload_of_not_rejected (hnot : ¬ Rejected cfg s req bytes)
    (h : RunsE (storePlugin cfg req bytes) s r s') : RunsE (upload cfg req bytes) s r s' := by
  have hok : checkModule cfg bytes = .ok () := by
    cases hcheck : checkModule cfg bytes with
    | error e => exact absurd (Or.inl ⟨e, hcheck⟩) hnot
    | ok u => rfl
  have hknown : ∀ tagId ∈ req.tagIds, ∃ t ∈ s.tags, t.id = tagId := by
    intro tagId hmem
    by_contra hno
    exact hnot (Or.inr ⟨tagId, hmem, fun t ht hid => hno ⟨t, ht, hid⟩⟩)
  refine runs_bind_ok (a := ()) (runs_done_iff.mpr ⟨?_, rfl⟩)
    (runs_bind_ok (runs_checkTags_known hknown) h)
  rw [hok]

end Parts

/-! ## When a failed upload is harmless -/

section Safety

variable {cfg : Config} {req : UploadMeta} {bytes : Bytes} {s s' : PluginStore}

theorem Outcome.intact (h : Outcome cfg req bytes s s') (hs : Intact cfg s)
    (hfree : KeyFree s req) : Intact cfg s' ∧ KeepsObjects s s' := by
  have hkeeps : KeepsObjects s s' := by
    intro p hp hlive
    exact h.elsewhere _ (hfree p hp hlive)
  refine ⟨?_, hkeeps⟩
  intro p hp hlive
  rcases h.rows p hp with hold | ⟨hkey, hsha, hobject⟩
  · rw [hkeeps p hold hlive]
    exact hs p hold hlive
  · exact ⟨bytes, hkey ▸ hobject, hsha.symm⟩

/-- **Failed uploads.** From an intact store every failed upload leaves the store
intact and the objects of the plugins in use as they were, if and only if the
request is rejected before it writes or no plugin in use has its key. -/
theorem failed_upload_safe_iff (hs : Intact cfg s) :
    (∀ e s', RunsE (upload cfg req bytes) s (.error e) s' →
        Intact cfg s' ∧ KeepsObjects s s') ↔
      Rejected cfg s req bytes ∨ KeyFree s req := by
  constructor
  · intro hsafe
    by_contra hnot
    rw [not_or] at hnot
    obtain ⟨hgoesOn, htaken⟩ := hnot
    refine htaken ?_
    intro p hp hlive hkey
    obtain ⟨e, hrun⟩ := runs_storePlugin_refused cfg req bytes s
    obtain ⟨hintact, -⟩ := hsafe e _ (runs_upload_of_not_rejected hgoesOn hrun)
    obtain ⟨old, hobject, -⟩ := hintact p hp hlive
    rw [hkey] at hobject
    have hgone : ((s.put (objectKey req) bytes).drop (objectKey req)).objects (objectKey req) =
        none :=
      if_pos rfl
    cases hobject.symm.trans hgone
  · intro hcond e s' hrun
    rcases runs_upload hrun with rfl | ⟨hgoesOn, hstore⟩
    · exact ⟨hs, fun _ _ _ => rfl⟩
    · rcases hcond with hrejected | hfree
      · exact absurd hrejected hgoesOn
      · exact (runs_storePlugin hstore).intact hs hfree

end Safety

/-! ## The same plugin again -/

/-- The header of a module, version 1. -/
def header : Bytes := wasmMagic ++ [0x01, 0x00, 0x00, 0x00]

/-- The same with another version number. -/
def header₂ : Bytes := wasmMagic ++ [0x02, 0x00, 0x00, 0x00]

/-- A deployment; the digests are those of the two headers. -/
def testConfig : Config where
  s3Client := true
  sha256 bytes :=
    if bytes = header then "93a44bbb96c751218e4c00d479e4c14358122a389acca16205b1e4d0dc5f9476"
    else if bytes = header₂ then "593ab0b4d166fc4aa2d6956ea38019e2c575134f8139b0a18235f7abd595103f"
    else ""
  mysql := Mysql.plain

/-- `echo` in version `version`. -/
def echo (version : String) : UploadMeta :=
  { identifier := "echo", name := "Echo", version := version }

/-- `echo` 1.0.0 is there, with its object. -/
def echoStore : PluginStore :=
  ({ tables := { plugins := [newRow testConfig (echo "1.0.0") header 1 0] }
     pluginsAutoIncrement := 2 } : PluginStore).put (objectKey (echo "1.0.0")) header

theorem intact_echoStore : Intact testConfig echoStore := by
  intro p hp _
  obtain rfl := List.mem_singleton.mp hp
  exact ⟨header, by decide +kernel, by decide +kernel⟩

/-- Uploading `echo` 1.0.0 again is answered with a conflict, and the object of the
plugin in use is gone. No command fails. -/
theorem upload_again_removes_object :
    Intact testConfig echoStore ∧
      ∃ e s', RunsE (upload testConfig (echo "1.0.0") header₂) echoStore
        (.error (.conflict e)) s' ∧ ¬ Intact testConfig s' := by
  refine ⟨intact_echoStore, ?_⟩
  have hmodule : checkModule testConfig header₂ = .ok () := by
    have hscan := scanWasmImports_header (show header₂.length = 8 from rfl) registeredImports
    simpa [checkModule, testConfig, header₂, wasmMagic] using hscan
  have hgoesOn : ¬ Rejected testConfig echoStore (echo "1.0.0") header₂ := by
    rintro (⟨e, he⟩ | ⟨tagId, hmem, -⟩)
    · cases hmodule.symm.trans he
    · exact absurd hmem List.not_mem_nil
  have hstore := runs_exec (storePlugin testConfig (echo "1.0.0") header₂).run (fun _ => {})
    echoStore
  refine ⟨_, _, runs_upload_of_not_rejected hgoesOn hstore, ?_⟩
  intro hintact
  obtain ⟨bytes, hobject, -⟩ :=
    hintact (newRow testConfig (echo "1.0.0") header 1 0) (by decide +kernel) rfl
  have hgone : ((storePlugin testConfig (echo "1.0.0") header₂).run.exec (fun _ => {})
      echoStore).2.objects (objectKey (echo "1.0.0")) = none := by
    decide +kernel
  cases hobject.symm.trans hgone

/-- A new version has a key of its own. -/
theorem failed_upload_safe_new_version :
    KeyFree echoStore (echo "1.1.0") ∧
      ∀ e s', RunsE (upload testConfig (echo "1.1.0") header₂) echoStore (.error e) s' →
        Intact testConfig s' ∧ KeepsObjects echoStore s' := by
  have hfree : KeyFree echoStore (echo "1.1.0") := by
    intro p hp _
    obtain rfl := List.mem_singleton.mp hp
    decide
  exact ⟨hfree, (failed_upload_safe_iff intact_echoStore).mpr (Or.inr hfree)⟩

end HiveClaw.Plugins
