import HiveClaw.RagflowConfig.Service

/-!
# The stored configuration

What a load of the RAGFlow rows finds (`stored`), and what the statements that write the
table change of it: a statement that writes a row changes the value of the row's key and
no other (`stored_add`, `stored_modify`, `stored_remove`). The collation of the table
must not tell letters apart by their case (`FoldsCase`), which `utf8mb4_unicode_ci` does
not.
-/

namespace HiveClaw.RagflowConfig

variable {m : Mysql}

/-- Texts that differ only in the case of ASCII letters have one collation key. -/
def FoldsCase (m : Mysql) : Prop :=
  ∀ a b, RustStr.toAsciiLowercase a = RustStr.toAsciiLowercase b →
    m.collationKey a = m.collationKey b

/-- The value that a load finds for a key. -/
def stored (t : ConfigTable m) (key : String) : Option Json := (loadGlobalValues t).lookup key

variable {key : String}

theorem normalize_eq_some {key' : String} :
    normalizeGlobalKey key = some key' ↔
      RustStr.toAsciiLowercase key = key' ∧ key' ∈ ragflowKeys := by
  unfold normalizeGlobalKey
  dsimp only
  split
  · rename_i hmem
    constructor
    · intro h
      cases h
      exact ⟨rfl, hmem⟩
    · rintro ⟨rfl, -⟩
      rfl
  · rename_i hmem
    constructor
    · intro h
      cases h
    · rintro ⟨rfl, h⟩
      exact absurd h hmem

theorem lowercase_of_mem : ∀ key ∈ ragflowKeys, RustStr.toAsciiLowercase key = key := by
  decide +kernel

theorem normalize_of_mem (h : key ∈ ragflowKeys) : normalizeGlobalKey key = some key :=
  normalize_eq_some.mpr ⟨lowercase_of_mem key h, h⟩

/-! ## What a load finds -/

section Load

variable (t : ConfigTable m)

variable {r r' : GlobalConfig}

theorem row_of_collationKey (hr : r ∈ t.rows) (hr' : r' ∈ t.rows)
    (h : m.collationKey r.key = m.collationKey r'.key) : r = r' :=
  List.inj_on_of_nodup_map t.unique hr hr' h

variable {key : String} {data : Json}

/-- What the query returns: the rows whose key the collation takes for one of the keys. -/
theorem mem_entries_fetchValuesByKeys :
    (⟨key, data⟩ : Sigma fun _ => Json) ∈ (fetchValuesByKeys t).entries ↔
      ∃ r ∈ t.rows, (∃ k ∈ ragflowKeys, m.collationKey k = m.collationKey r.key) ∧
        r.key = key ∧ r.data = data := by
  have hnodup : (((t.rows.filter fun r => ragflowKeys.any fun key =>
      m.collationKey key = m.collationKey r.key).map fun r => (r.key, r.data)).map (·.1)).Nodup := by
    rw [List.map_map, Function.comp_def]
    have hrows := t.unique.sublist ((List.filter_sublist (l := t.rows)
      (p := fun r => ragflowKeys.any fun key => m.collationKey key = m.collationKey r.key)).map _)
    refine List.Nodup.of_map m.collationKey ?_
    rw [List.map_map]
    exact hrows
  have hlookup := HashMap.lookup_collect hnodup key data
  have hentry : (⟨key, data⟩ : Sigma fun _ => Json) ∈ (fetchValuesByKeys t).entries ↔
      (fetchValuesByKeys t).lookup key = some data := AList.mem_lookup_iff.symm
  rw [hentry]
  refine hlookup.trans ?_
  simp only [List.mem_map, List.mem_filter, List.any_eq_true, decide_eq_true_eq, Prod.mk.injEq]
  constructor
  · rintro ⟨r, ⟨hr, hk⟩, hkey, hdata⟩
    exact ⟨r, hr, hk, hkey, hdata⟩
  · rintro ⟨r, hr, hk, hkey, hdata⟩
    exact ⟨r, ⟨hr, hk⟩, hkey, hdata⟩

/-- The stored value of a key is the value of the one row whose key normalises to it. -/
theorem stored_eq_some (hm : FoldsCase m) (hkey : key ∈ ragflowKeys) :
    stored t key = some data ↔
      ∃ r ∈ t.rows, normalizeGlobalKey r.key = some key ∧ r.data = data := by
  have hnodup : (((fetchValuesByKeys t).entries.map fun e =>
      (RustStr.toAsciiLowercase e.1, e.2)).map (·.1)).Nodup := by
    rw [List.map_map]
    refine List.Nodup.map_on ?_ (fetchValuesByKeys t).nodupKeys.nodup
    rintro ⟨k, d⟩ he ⟨k', d'⟩ he' hlower
    obtain ⟨r, hr, -, rfl, rfl⟩ := (mem_entries_fetchValuesByKeys t).mp he
    obtain ⟨r', hr', -, rfl, rfl⟩ := (mem_entries_fetchValuesByKeys t).mp he'
    rw [row_of_collationKey t hr hr' (hm _ _ hlower)]
  refine (HashMap.lookup_collect hnodup key data).trans ?_
  simp only [List.mem_map, Prod.mk.injEq]
  constructor
  · rintro ⟨⟨k, d⟩, he, hlower, rfl⟩
    obtain ⟨r, hr, -, rfl, rfl⟩ := (mem_entries_fetchValuesByKeys t).mp he
    exact ⟨r, hr, normalize_eq_some.mpr ⟨hlower, hkey⟩, rfl⟩
  · rintro ⟨r, hr, hnorm, rfl⟩
    obtain ⟨hlower, -⟩ := normalize_eq_some.mp hnorm
    refine ⟨⟨r.key, r.data⟩, (mem_entries_fetchValuesByKeys t).mpr ⟨r, hr, ?_, rfl, rfl⟩, hlower, rfl⟩
    refine ⟨key, hkey, hm _ _ ?_⟩
    rw [lowercase_of_mem key hkey, hlower]

theorem row_of_normalize (hm : FoldsCase m) (hr : r ∈ t.rows) (hr' : r' ∈ t.rows)
    (h : normalizeGlobalKey r.key = some key) (h' : normalizeGlobalKey r'.key = some key) : r = r' := by
  refine row_of_collationKey t hr hr' (hm _ _ ?_)
  rw [(normalize_eq_some.mp h).1, (normalize_eq_some.mp h').1]

theorem byId_eq_some {id : Int} : t.byId id = some r ↔ r ∈ t.rows ∧ r.id = id := by
  constructor
  · intro h
    exact ⟨List.mem_of_find?_eq_some h, by simpa using List.find?_some h⟩
  · rintro ⟨hr, hid⟩
    cases hfind : t.byId id with
    | none => exact absurd hid (by simpa using List.find?_eq_none.mp hfind r hr)
    | some r' =>
      have hr' := List.mem_of_find?_eq_some hfind
      have hid' : r'.id = id := by simpa using List.find?_some hfind
      rw [List.inj_on_of_nodup_map t.primary hr hr' (hid.trans hid'.symm)]

theorem stored_congr (hm : FoldsCase m) {t' : ConfigTable m} (hkey : key ∈ ragflowKeys)
    (h : ∀ r, normalizeGlobalKey r.key = some key → (r ∈ t'.rows ↔ r ∈ t.rows)) :
    stored t' key = stored t key := by
  refine Option.ext fun data => ?_
  rw [stored_eq_some t' hm hkey, stored_eq_some t hm hkey]
  constructor
  · rintro ⟨r, hr, hnorm, hdata⟩
    exact ⟨r, (h r hnorm).mp hr, hnorm, hdata⟩
  · rintro ⟨r, hr, hnorm, hdata⟩
    exact ⟨r, (h r hnorm).mpr hr, hnorm, hdata⟩

end Load

/-! ## What a statement changes -/

section Writes

variable (t : ConfigTable m) (hm : FoldsCase m) {key : String} (hkey : key ∈ ragflowKeys)
include hm hkey

/-- A new row changes the stored value of its own key only. -/
theorem stored_add {name key' configType : String} {data : Json} (hfree : t.taken key' = false) :
    stored (t.add name key' configType data hfree) key =
      if normalizeGlobalKey key' = some key then some (m.jsonNormal data) else stored t key := by
  split
  · rename_i hnorm
    refine (stored_eq_some _ hm hkey).mpr ⟨_, List.mem_append_right _ (List.mem_singleton_self _),
      hnorm, rfl⟩
  · rename_i hnorm
    refine stored_congr t hm hkey fun r hr => ?_
    simp only [ConfigTable.add, List.mem_append, List.mem_singleton, or_iff_left_iff_imp]
    rintro rfl
    exact absurd hr hnorm

theorem stored_modify {id : Int} {name configType : Option String} {data : Option Json}
    (h : ∀ r ∈ t.rows, r.id = id → normalizeGlobalKey r.key ≠ some key) :
    stored (t.modify id name configType data) key = stored t key := by
  refine stored_congr t hm hkey fun r hr => ?_
  simp only [ConfigTable.modify, List.mem_map]
  constructor
  · rintro ⟨r', hr', rfl⟩
    split at hr
    · rename_i hid
      exact absurd hr (h r' hr' hid)
    · rename_i hid
      rw [if_neg hid]
      exact hr'
  · intro hmem
    refine ⟨r, hmem, if_neg fun hid => ?_⟩
    exact h r hmem hid hr

theorem stored_remove {id : Int} (h : ∀ r ∈ t.rows, r.id = id → normalizeGlobalKey r.key ≠ some key) :
    stored (t.remove id) key = stored t key := by
  refine stored_congr t hm hkey fun r hr => ?_
  simp only [ConfigTable.remove, List.mem_filter, decide_eq_true_eq, and_iff_left_iff_imp]
  intro hmem hid
  exact h r hmem hid hr

variable {r : GlobalConfig}

/-- Removing the row of a key leaves the key without a value. -/
theorem stored_remove_self (hr : r ∈ t.rows) (hnorm : normalizeGlobalKey r.key = some key) :
    stored (t.remove r.id) key = none := by
  refine Option.eq_none_iff_forall_ne_some.mpr fun data hdata => ?_
  obtain ⟨r', hr', hnorm', -⟩ := (stored_eq_some _ hm hkey).mp hdata
  simp only [ConfigTable.remove, List.mem_filter, decide_eq_true_eq] at hr'
  exact hr'.2 (congrArg _ (row_of_normalize t hm hr'.1 hr hnorm' hnorm))

theorem stored_of_byId {id : Int} (hr : t.byId id = some r)
    (hnorm : normalizeGlobalKey r.key = some key) : stored t key = some r.data :=
  (stored_eq_some t hm hkey).mpr ⟨r, ((byId_eq_some t).mp hr).1, hnorm, rfl⟩

end Writes

end HiveClaw.RagflowConfig
