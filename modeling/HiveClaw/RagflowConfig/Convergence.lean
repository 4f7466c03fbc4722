import HiveClaw.RagflowConfig.Sync

/-!
# Runs of several instances

The functions keep to their protocol (`follows_handle`), every step keeps what is owed
(`syncInv_step`), and so all instances have the stored configuration whenever a run whose
steps are `InStep` has settled (`inSync_of_settled`).
-/

namespace HiveClaw.RagflowConfig

open Lib Autocommit

variable {m : Mysql}

/-! ## The key of a row -/

/-- No row with this id has another key, nor ever will. -/
structure ConfigTable.KeyOf (t : ConfigTable m) (id : Int) (key : String) : Prop where
  below : id < t.autoIncrement
  key : ∀ r ∈ t.rows, r.id = id → r.key = key

theorem keyOf_byId {t : ConfigTable m} {id : Int} {r : GlobalConfig} (hr : t.byId id = some r) :
    t.KeyOf id r.key := by
  obtain ⟨hmem, rfl⟩ := (byId_eq_some t).mp hr
  refine ⟨t.below r hmem, fun r' hmem' hid => ?_⟩
  rw [List.inj_on_of_nodup_map t.primary hmem' hmem hid]

namespace ConfigTable.KeyOf

variable {t : ConfigTable m} {id : Int} {key : String} (h : t.KeyOf id key)
include h

theorem add {name key' configType : String} {data : Json} (hfree : t.taken key' = false) :
    (t.add name key' configType data hfree).KeyOf id key := by
  refine ⟨lt_trans h.below (Int.lt_succ _), fun r hmem hid => ?_⟩
  rcases List.mem_append.mp hmem with hmem | hmem
  · exact h.key r hmem hid
  · rw [List.mem_singleton.mp hmem] at hid
    exact absurd h.below (by rw [← hid]; exact lt_irrefl _)

variable {id' : Int}

theorem modify {name configType : Option String} {data : Option Json} :
    (t.modify id' name configType data).KeyOf id key := by
  refine ⟨h.below, fun r hmem hid => ?_⟩
  obtain ⟨r', hmem', rfl⟩ := List.mem_map.mp hmem
  split at hid
  · rename_i heq
    rw [if_pos heq]
    exact h.key r' hmem' hid
  · rename_i hne
    rw [if_neg hne]
    exact h.key r' hmem' hid

theorem remove : (t.remove id').KeyOf id key :=
  ⟨h.below, fun r hmem hid => h.key r (List.mem_of_mem_filter hmem) hid⟩

theorem insertIgnore (row : SeedRow) : (t.insertIgnore row).KeyOf id key := by
  unfold ConfigTable.insertIgnore
  split
  · rename_i hfree
    exact h.add hfree
  · exact h

end ConfigTable.KeyOf

variable {s : ConfigStore m} {key : String}

theorem keyOf_wrote {id : Int} (h : s.table.KeyOf id key) (w : ConfigWrite)
    (fault : Option String) : (s.wrote w fault).table.KeyOf id key := by
  unfold ConfigStore.wrote
  split
  · rename_i answer table happly
    cases w with
    | insert name key' configType data =>
      simp only [ConfigWrite.apply] at happly
      split at happly
      · cases happly
      · split at happly
        · rename_i hfree
          cases happly
          exact h.add hfree
        · cases happly
    | update id' name configType data =>
      simp only [ConfigWrite.apply] at happly
      split at happly
      · cases happly
      · cases happly
        exact h.modify
    | delete id' =>
      cases happly
      exact h.remove
  · exact h

theorem keyOf_allows {s' : ConfigStore m} {q : Duty} {l : ConfigStmt} {fault : Option String}
    (hallows : q.allows l fault s s') {id : Int} (h : s.table.KeyOf id key) :
    s'.table.KeyOf id key := by
  cases q with
  | idle =>
    cases l with
    | fetch n id' => exact (show s' = s from hallows) ▸ h
    | write n w => exact hallows.2 ▸ keyOf_wrote h w fault
    | receive n => exact (show s' = s.receive n from hallows) ▸ h
    | resume n => exact (show s' = s.resume n from hallows) ▸ h
    | _ => exact hallows.elim
  | written n id' =>
    cases l with
    | fetch n' id'' => exact hallows.2 ▸ h
    | _ => exact hallows.elim
  | deleting n id' key' =>
    cases l with
    | write n' w => exact hallows.2 ▸ keyOf_wrote h w fault
    | _ => exact hallows.elim
  | holding n key' value =>
    cases l with
    | sync n' key'' value' => exact hallows.2.2.2 ▸ h
    | _ => exact hallows.elim
  | synced n =>
    cases l with
    | publish n' =>
      obtain ⟨-, rfl⟩ := hallows
      cases fault with
      | none => exact h
      | some e => exact h
    | _ => exact hallows.elim
  | reloading n =>
    cases l with
    | fetchExisting n' => exact (show s' = s from hallows) ▸ h
    | load n' => exact (show s' = s from hallows) ▸ h
    | seed n' row =>
      obtain ⟨-, -, rfl⟩ := hallows
      cases fault with
      | none => exact h.insertIgnore row
      | some e => exact h
    | _ => exact hallows.elim
  | loaded n values =>
    cases l with
    | install n' values' => exact hallows.2.2 ▸ h
    | _ => exact hallows.elim

/-! ## What one statement does -/

/-- What a statement puts into memory or adds to the table by itself. -/
def ConfigStmt.effect (s : ConfigStore m) : ConfigStmt → ConfigStore m
  | .sync n key value => s.sync n key value
  | .install n values => s.install n values
  | .seed _ row => s.seed row
  | _ => s

/-- The keys of instances that a statement may put out of date. -/
def ConfigStmt.touches (s : ConfigStore m) : ConfigStmt → List (Nat × String)
  | .sync n key _ => [(n, key)]
  | .install n _ => ragflowKeys.map fun key => (n, key)
  | .seed n row =>
    ((List.range s.instances.length).filter fun n' => n' ≠ n).map fun n' => (n', row.key)
  | _ => []

theorem seedRow_keys : ∀ row ∈ ragflowSeedRows, row.key ∈ ragflowKeys := by decide +kernel

section Statement

variable {s s' : ConfigStore m} {x : Nat × String}

variable {n : Nat}

theorem kept_write (hm : FoldsCase m) {w : ConfigWrite} (hw : ∀ id, w ≠ .delete id)
    (hkey : x.2 ∈ ragflowKeys) :
    Kept s (s.wrote w none) .idle (Duty.idle.next (.write n w) none s) x := by
  cases happly : w.apply s.table with
  | error e =>
    have hwrote : s.wrote w none = s := by simp [ConfigStore.wrote, happly]
    have hnext : Duty.idle.next (.write n w) none s = .idle := by simp [Duty.next, happly]
    rw [hwrote, hnext]
    exact kept_of_same rfl rfl id
  | ok r =>
    obtain ⟨answer, table⟩ := r
    have hwrote : s.wrote w none = { s with table } := by simp [ConfigStore.wrote, happly]
    have hnext : Duty.idle.next (.write n w) none s = .forWrite n answer w := by
      simp [Duty.next, happly]
    rw [hwrote, hnext]
    cases w with
    | insert name key configType data =>
      simp only [ConfigWrite.apply] at happly
      split at happly
      · cases happly
      · split at happly
        · rename_i hfree
          cases happly
          exact kept_add hm hfree hkey
        · cases happly
    | update id name configType data =>
      simp only [ConfigWrite.apply] at happly
      split at happly
      · cases happly
      · cases happly
        exact kept_modify hm hkey
    | delete id => exact absurd rfl (hw id)

theorem kept_delete (hm : FoldsCase m) {n' : Nat} {id : Int} {key : String}
    (hknown : s.table.KeyOf id key) (hkey : x.2 ∈ ragflowKeys) :
    Kept s (s.wrote (.delete id) none) (.deleting n id key)
      ((Duty.deleting n id key).next (.write n' (.delete id)) none s) x := by
  have hwrote : s.wrote (.delete id) none = { s with table := s.table.remove id } := rfl
  rw [hwrote]
  cases hr : s.table.byId id with
  | none =>
    have hnext : (Duty.deleting n id key).next (.write n' (.delete id)) none s = .idle := by
      simp [Duty.next, hr]
    rw [hnext]
    have hnone : ∀ r ∈ s.table.rows, r.id ≠ id := by
      intro r hmem hid
      have hsome := (byId_eq_some _).mpr ⟨hmem, hid⟩
      rw [hr] at hsome
      cases hsome
    refine kept_of_rows rfl ?_ ?_ (by rintro ⟨⟩)
    · exact stored_remove _ hm hkey fun r hmem hid => absurd hid (hnone r hmem)
    · intro id' r hr' hnorm
      obtain ⟨hmem, hid⟩ := (byId_eq_some _).mp hr'
      refine ⟨r, (byId_eq_some _).mpr ⟨?_, hid⟩, hnorm⟩
      simp only [ConfigTable.remove, List.mem_filter, decide_eq_true_eq]
      exact ⟨hmem, hnone r hmem⟩
  | some r =>
    have hnext : (Duty.deleting n id key).next (.write n' (.delete id)) none s =
        .forKey n key none := by
      simp [Duty.next, hr]
    obtain ⟨hmem, hid⟩ := (byId_eq_some _).mp hr
    rw [hnext, ← hknown.key r hmem hid]
    exact kept_remove hm hr hkey

/-- Every statement keeps a key as it is, brings it up to date or takes it over, except
for the keys it may put out of date. -/
theorem stmt_cases (hm : FoldsCase m) {q : Duty} {l : ConfigStmt} (hallows : q.allows l none s s')
    (hknown : ∀ n id key, q = .deleting n id key → s.table.KeyOf id key)
    (hkey : x.2 ∈ ragflowKeys) :
    Kept s s' q (q.next l none s) x ∨ x ∈ l.touches s ∧ s' = l.effect s := by
  cases q with
  | idle =>
    cases l with
    | fetch n id =>
      obtain rfl : s' = s := hallows
      exact Or.inl (kept_of_same rfl rfl nofun)
    | write n w =>
      obtain ⟨hw, rfl⟩ := hallows
      exact Or.inl (kept_write hm hw hkey)
    | receive n =>
      obtain rfl : s' = s.receive n := hallows
      exact Or.inl kept_receive
    | resume n =>
      obtain rfl : s' = s.resume n := hallows
      exact Or.inl kept_resume
    | _ => exact hallows.elim
  -- the row that is read back may have been deleted meanwhile
  | written n id =>
    cases l with
    | fetch n' id' =>
      obtain ⟨rfl, rfl⟩ := hallows
      cases hr : s'.table.byId id' with
      | none =>
        refine Or.inl (kept_of_same rfl rfl ?_)
        rintro ⟨r, hr', -⟩
        rw [hr] at hr'
        cases hr'
      | some r =>
        have hnext : (Duty.written n id').next (.fetch n' id') none s' =
            .forKey n r.key (some r.data) := by
          simp [Duty.next, hr]
        rw [hnext]
        exact Or.inl (kept_fetch hm hr hkey)
    | _ => exact hallows.elim
  | deleting n id key =>
    cases l with
    | write n' w =>
      obtain ⟨rfl, rfl⟩ := hallows
      exact Or.inl (kept_delete hm (hknown n id key rfl) hkey)
    | _ => exact hallows.elim
  | holding n key value =>
    cases l with
    | sync n' key' value' =>
      obtain ⟨rfl, rfl, rfl, rfl⟩ := hallows
      -- only the entry that is synced is touched
      by_cases hx : x = (n', key')
      · exact Or.inr ⟨List.mem_singleton.mpr hx, rfl⟩
      · exact Or.inl (kept_sync hx)
    | _ => exact hallows.elim
  | synced n =>
    cases l with
    | publish n' =>
      obtain ⟨rfl, rfl⟩ := hallows
      exact Or.inl kept_publish
    | _ => exact hallows.elim
  | reloading n =>
    cases l with
    | fetchExisting n' =>
      obtain rfl : s' = s := hallows
      exact Or.inl (kept_of_same rfl rfl id)
    | load n' =>
      obtain rfl : s' = s := hallows
      exact Or.inl kept_load
    | seed n' row =>
      obtain ⟨rfl, hrow, rfl⟩ := hallows
      -- a seeded row reaches the other instances through the table alone
      by_cases hx : x.1 = n' ∨ x.2 ≠ row.key
      · exact Or.inl (kept_seed hm (seedRow_keys row hrow) hkey hx)
      · obtain ⟨hn, hkey'⟩ := not_or.mp hx
        by_cases hlt : x.1 < s.instances.length
        · refine Or.inr ⟨List.mem_map.mpr ⟨x.1, ?_, ?_⟩, rfl⟩
          · simpa using ⟨hlt, hn⟩
          · rw [← not_not.mp hkey']
        · -- there is no such instance
          refine Or.inl (Or.inl (Or.inl fun _ inst hinst => ?_))
          change inst ∈ s.instances[x.1]? at hinst
          rw [List.getElem?_eq_none (Nat.le_of_not_lt hlt)] at hinst
          cases hinst
    | _ => exact hallows.elim
  | loaded n values =>
    cases l with
    | install n' values' =>
      obtain ⟨rfl, rfl, rfl⟩ := hallows
      -- an install touches every key of its own instance
      by_cases hn : x.1 = n'
      · refine Or.inr ⟨List.mem_map.mpr ⟨x.2, hkey, ?_⟩, rfl⟩
        rw [← hn]
      · exact Or.inl (kept_install hn)
    | _ => exact hallows.elim

end Statement

/-! ## The functions keep to the protocol -/

section Functions

variable {n : Nat} {ε α : Type}

variable {w : ConfigWrite}

theorem follows_write (hw : ∀ id, w ≠ .delete id) :
    Follows (duty m)
      (fun q r => (∀ e, r = .error e → q = .idle) ∧
        ∀ answer, r = .ok answer → q = .forWrite n answer w)
      .idle (write n w).run := by
  refine follows_execute (fun e s => ⟨⟨hw, rfl⟩, fun _ _ => rfl, fun _ ha => by cases ha⟩) ?_ ?_
  · intro e s hwrite
    cases happly : w.apply s.table with
    | error e' =>
      refine ⟨⟨hw, by simp [ConfigStore.wrote, happly]⟩, fun _ _ => ?_, fun _ ha => by cases ha⟩
      simp [duty, Duty.next, happly]
    | ok r =>
      rw [happly] at hwrite
      cases hwrite
  · intro answer s s' hwrite
    cases happly : w.apply s.table with
    | error e =>
      rw [happly] at hwrite
      cases hwrite
    | ok r =>
      rw [happly] at hwrite
      cases hwrite
      refine ⟨⟨hw, by simp [ConfigStore.wrote, happly]⟩, fun _ ha => (by cases ha),
        fun answer h => ?_⟩
      rw [← Except.ok.inj h]
      simp [duty, Duty.next, happly]

theorem follows_writeDelete {id : Int} {key : String} :
    Follows (duty m)
      (fun q r => (∀ e, r = .error e → q = .idle) ∧
        ∀ answer, r = .ok answer → q = if answer = 0 then .idle else .forKey n key none)
      (.deleting n id key) (write n (.delete id)).run := by
  refine follows_execute (fun e s => ⟨⟨rfl, rfl⟩, fun _ _ => rfl, nofun⟩) nofun ?_
  intro answer s s' hwrite
  cases hwrite
  refine ⟨⟨rfl, rfl⟩, nofun, fun answer h => ?_⟩
  rw [← Except.ok.inj h]
  have hcount : (s.table.rows.countP (fun r => decide (r.id = id)) : Int) = 0 ↔
      (s.table.byId id).isSome = false := by
    rw [Int.natCast_eq_zero, List.countP_eq_zero, ConfigTable.byId, Option.isSome_eq_false_iff,
      Option.isNone_iff_eq_none, List.find?_eq_none]
  show (if (s.table.byId id).isSome then Duty.forKey n key none else .idle) = _
  by_cases hsome : (s.table.byId id).isSome = true
  · rw [if_pos hsome, if_neg fun h => by rw [hcount.mp h] at hsome; cases hsome]
  · rw [if_neg hsome, if_pos (hcount.mpr (Bool.eq_false_iff.mpr hsome))]

theorem follows_fetchById_bind {q : Duty} {id : Int} {after : GlobalConfig → Duty}
    {f : GlobalConfig → ConfigM m AppError α} {E : Duty → Except AppError α → Prop}
    (hallows : ∀ fault (s : ConfigStore m), q.allows (.fetch n id) fault s s)
    (hfault : ∀ e (s : ConfigStore m), q.next (.fetch n id) (some e) s = .idle)
    (hnone : ∀ s : ConfigStore m, s.table.byId id = none → q.next (.fetch n id) none s = .idle)
    (hsome : ∀ (s : ConfigStore m) r, s.table.byId id = some r →
      q.next (.fetch n id) none s = after r)
    (herr : ∀ e, E .idle (.error e)) (hf : ∀ r, Follows (duty m) E (after r) (f r).run) :
    Follows (duty m) E q (fetchById n id >>= f).run := by
  have hfetch : Follows (duty m)
      (fun q r => (∀ e, r = .error e → q = .idle) ∧ ∀ row, r = .ok row → q = after row)
      q (fetchById n id : ConfigM m AppError GlobalConfig).run := by
    unfold fetchById
    have hquery : Follows (duty m)
        (fun q r => (∀ e, r = .error e → q = .idle) ∧
          ∀ row, r = .ok row → q = row.elim Duty.idle after)
        q (query (.fetch n id) fun s : ConfigStore m => s.table.byId id).run := by
      refine follows_query hallows (fun e s => ⟨fun _ _ => hfault e s, nofun⟩) fun s => ⟨nofun, ?_⟩
      intro row hrow
      rw [← Except.ok.inj hrow]
      cases hr : s.table.byId id with
      | none => exact hnone s hr
      | some r => exact hsome s r hr
    have hadapted : Follows (duty m)
        (fun q r => (∀ e, r = .error e → q = .idle) ∧
          ∀ row, r = .ok row → q = row.elim Duty.idle after)
        q (ExceptT.adapt (fun e => AppError.internal ("global_config fetch: " ++ e))
          (query (.fetch n id) fun s : ConfigStore m => s.table.byId id)).run := by
      refine Follows.adapt (hquery.mono fun q r h => ?_)
      cases r with
      | error e => exact ⟨fun _ _ => h.1 e rfl, nofun⟩
      | ok row => exact ⟨nofun, fun _ hrow => h.2 _ (congrArg _ (Except.ok.inj hrow))⟩
    refine hadapted.bindE (fun q e h => ⟨fun _ _ => h.1 e rfl, nofun⟩) fun q row h => ?_
    rw [h.2 row rfl]
    cases row with
    | none => exact .done ⟨fun _ _ => rfl, nofun⟩
    | some r =>
      refine .done ⟨nofun, fun row hrow => ?_⟩
      rw [← Except.ok.inj hrow]
      rfl
  refine hfetch.bindE (fun q e h => ?_) fun q row h => ?_
  · rw [h.1 e rfl]
    exact herr e
  · rw [h.2 row rfl]
    exact hf row

theorem follows_syncGlobalValue (key : String) (value : Option Json) :
    Follows (duty m) (fun q _ => q = .idle) (.forKey n key value)
      (syncGlobalValue n key value : ConfigM m ε Unit).run := by
  unfold syncGlobalValue Duty.forKey
  cases normalizeGlobalKey key with
  | none => exact .done rfl
  | some key =>
    refine follows_inMemory_bind (fun _ _ => ⟨rfl, rfl, rfl, rfl⟩) fun _ _ => ?_
    have hpublish : Follows (duty m) (fun q _ => q = .idle) (.synced n)
        (execute (.publish n) fun s : ConfigStore m => .ok ((), s.publish n)).run :=
      follows_execute (fun _ _ => ⟨⟨rfl, rfl⟩, rfl⟩) nofun fun _ s s' h => by
        cases h
        exact ⟨⟨rfl, rfl⟩, rfl⟩
    exact follows_attempt_bind hpublish fun q _ hq => .done hq

theorem follows_fetchThenSync (id : Int) :
    Follows (duty m) (fun q _ => q = .idle) (.written n id)
      (do
        let row ← fetchById n id
        syncGlobalValue n row.key (some row.data) : ConfigM m AppError Unit).run := by
  refine follows_fetchById_bind (fun _ _ => ⟨rfl, rfl⟩) (fun _ _ => rfl) (fun s h => ?_)
    (fun s r h => ?_) (fun _ => rfl) fun r => follows_syncGlobalValue r.key (some r.data)
  · simp [Duty.next, h]
  · simp [Duty.next, h]

theorem follows_write_bind (hw : ∀ id, w ≠ .delete id) {f : String → AppError}
    {rest : Int → ConfigM m AppError Unit}
    (hrest : ∀ answer, Follows (duty m) (fun q _ => q = .idle) (.forWrite n answer w)
      (rest answer).run) :
    Follows (duty m) (fun q _ => q = .idle) .idle (ExceptT.adapt f (write n w) >>= rest).run := by
  have hwrite : Follows (duty m)
      (fun q r => (∀ e, r = .error e → q = .idle) ∧
        ∀ answer, r = .ok answer → q = .forWrite n answer w)
      .idle (ExceptT.adapt f (write n w)).run := by
    refine Follows.adapt ((follows_write hw).mono fun q r h => ?_)
    cases r with
    | error e => exact ⟨fun _ _ => h.1 e rfl, nofun⟩
    | ok answer => exact ⟨nofun, fun _ ha => h.2 _ (congrArg _ (Except.ok.inj ha))⟩
  refine hwrite.bindE (fun q e h => h.1 e rfl) fun q answer h => ?_
  rw [h.2 answer rfl]
  exact hrest answer

theorem follows_create (config : CreateMeta) :
    Follows (duty m) (fun q _ => q = .idle) .idle (create n config).run :=
  follows_write_bind (by simp) fun answer => follows_fetchThenSync answer

theorem follows_update (id : Int) (config : UpdateMeta) :
    Follows (duty m) (fun q _ => q = .idle) .idle (update n id config).run :=
  follows_write_bind (by simp) fun _ => follows_fetchThenSync id

theorem follows_delete (id : Int) :
    Follows (duty m) (fun q _ => q = .idle) .idle (delete n id).run := by
  unfold delete
  have hfound : ∀ (s : ConfigStore m) r, s.table.byId id = some r →
      Duty.idle.next (.fetch n id) none s = .deleting n id r.key := by
    intro s r h
    simp [Duty.next, h]
  refine follows_fetchById_bind (fun _ _ => rfl) (fun _ _ => rfl) (fun s h => ?_) hfound
    (fun _ => rfl) fun r => ?_
  · simp [Duty.next, h]
  · have hwrite : Follows (duty m)
        (fun q r' => (∀ e, r' = .error e → q = .idle) ∧
          ∀ answer, r' = .ok answer → q = if answer = 0 then .idle else .forKey n r.key none)
        (.deleting n id r.key)
        (ExceptT.adapt (fun e => AppError.internal ("global_config delete: " ++ e))
          (write n (.delete id))).run := by
      refine Follows.adapt (follows_writeDelete.mono fun q r h => ?_)
      cases r with
      | error e => exact ⟨fun _ _ => h.1 e rfl, fun _ ha => by cases ha⟩
      | ok answer =>
        exact ⟨fun _ he => (by cases he), fun _ ha => h.2 _ (congrArg _ (Except.ok.inj ha))⟩
    refine hwrite.bindE (fun q e h => h.1 e rfl) fun q answer h => ?_
    rw [h.2 answer rfl]
    unfold failIf
    by_cases hzero : answer = 0
    · rw [if_pos hzero, if_pos hzero]
      exact .done rfl
    · rw [if_neg hzero, if_neg hzero]
      exact follows_syncGlobalValue r.key none

/-! ### The subscriber -/

theorem stays_seeds {rows : List SeedRow} (hrows : ∀ row ∈ rows, row ∈ ragflowSeedRows) :
    Follows (duty m) (fun q r => q = .reloading n ∧ r = .ok ()) (.reloading n)
      (rows.forM fun row => do
        let _ ← attempt (execute (.seed n row) fun s => .ok ((), s.seed row))
        pure () : ConfigM m ε Unit).run := by
  induction rows with
  | nil => exact .done ⟨rfl, rfl⟩
  | cons row rows ih =>
    obtain ⟨hrow, hrest⟩ := List.forall_mem_cons.mp hrows
    have hseed : Follows (duty m) (fun q _ => q = .reloading n) (.reloading n)
        (execute (.seed n row) fun s : ConfigStore m => .ok ((), s.seed row)).run :=
      follows_execute (fun _ _ => ⟨⟨rfl, hrow, rfl⟩, rfl⟩) nofun fun _ s s' h => by
        cases h
        exact ⟨⟨rfl, hrow, rfl⟩, rfl⟩
    have hone : Follows (duty m) (fun q r => q = .reloading n ∧ r = .ok ()) (.reloading n)
        (do
          let _ ← attempt (execute (.seed n row) fun s => .ok ((), s.seed row))
          pure () : ConfigM m ε Unit).run :=
      follows_attempt_bind hseed fun q _ hq => .done ⟨hq, rfl⟩
    refine hone.bindE (fun q e h => nomatch h.2) fun q _ h => ?_
    rw [h.1]
    exact ih hrest

theorem stays_ensureGlobalKeys :
    Follows (duty m) (fun q r => q = .reloading n ∧ r = .ok ()) (.reloading n)
      (ensureGlobalKeys n : ConfigM m ε Unit).run := by
  unfold ensureGlobalKeys
  refine follows_attempt_bind (stays_query (fun _ _ => rfl) fun _ _ => rfl) fun q r hq => ?_
  rw [hq]
  cases r with
  | error e => exact .done ⟨rfl, rfl⟩
  | ok existing => exact stays_seeds fun row hrow => List.mem_of_mem_filter hrow

theorem follows_initializeConfig :
    Follows (duty m) (fun q _ => q = .idle) (.reloading n)
      (initializeConfig n : ConfigM m ε Unit).run := by
  unfold initializeConfig
  refine stays_ensureGlobalKeys.bindE (fun q e h => nomatch h.2) fun q _ h => ?_
  rw [h.1]
  have hload : Follows (duty m)
      (fun q r => (∀ e, r = .error e → q = .idle) ∧ ∀ values, r = .ok values → q = .loaded n values)
      (.reloading n) (query (.load n) fun s : ConfigStore m => loadGlobalValues s.table).run := by
    refine follows_query (fun _ _ => rfl) (fun _ _ => ⟨fun _ _ => rfl, nofun⟩) fun s => ⟨nofun, ?_⟩
    intro values h
    rw [← Except.ok.inj h]
    rfl
  refine follows_attempt_bind hload fun q r h => ?_
  cases r with
  | error e =>
    rw [h.1 e rfl]
    exact .done rfl
  | ok values =>
    rw [h.2 values rfl]
    exact Follows.lift (follows_modify_iff.mpr ⟨fun _ _ => ⟨rfl, rfl, rfl⟩, fun _ _ => rfl⟩)

theorem follows_handleNotification :
    Follows (duty m) (fun q _ => q = .idle) .idle (handleNotification n : ConfigM m ε Unit).run := by
  unfold handleNotification
  have hresume : Follows (duty m) (fun q _ => q = .idle) .idle
      (inMemory (.resume n) fun s => s.resume n : ConfigM m ε Unit).run :=
    Follows.lift (follows_modify_iff.mpr ⟨fun _ _ => rfl, fun _ _ => rfl⟩)
  have hrest : ∀ source, Follows (duty m) (fun q _ => q = .idle)
      (if shouldReloadFromNotification source n then .reloading n else .idle)
      (if shouldReloadFromNotification source n then do
          initializeConfig n
          inMemory (.resume n) fun s => s.resume n
        else inMemory (.resume n) fun s => s.resume n : ConfigM m ε Unit).run := by
    intro source
    split
    · refine follows_initializeConfig.bindE (fun _ _ h => h) fun q _ hq => ?_
      rw [hq]
      exact hresume
    · exact hresume
  refine Follows.stmt (fun _ _ => rfl) fun fault s => ?_
  cases hsource : s.nextSource n with
  | none =>
    simp only [duty, Duty.next, hsource]
    exact .done rfl
  | some source =>
    simp only [duty, Duty.next, hsource]
    exact hrest source

theorem follows_handle (r : ConfigRequest) :
    Follows (duty m) (fun q _ => q = .idle) .idle (handle r).run := by
  cases r with
  | create n config => exact follows_create config
  | update n id config => exact follows_update id config
  | delete n id => exact follows_delete id
  | notified n => exact follows_handleNotification

end Functions

/-! ## Runs -/

/-- The requests and the turns of the subscribers, and the store. -/
abbrev ConfigPool (m : Mysql) :=
  Pool ConfigRequest ConfigStmt (Option String) (ConfigStore m) (Except AppError Unit)

abbrev ConfigThread (m : Mysql) :=
  Thread ConfigRequest ConfigStmt (Option String) (ConfigStore m) (Except AppError Unit)

def dutyOf (th : ConfigThread m) : Duty := th.phase fun _ _ => duty m

/-- A step without an error of the database or of Redis and without a crash. -/
def ErrorFree : Act ConfigRequest (Option String) Empty → Prop
  | .start _ | .outside _ => True
  | .move _ fault => fault = none
  | .crash _ => False

/-- A statement of number `i` that leaves no instance behind: where it puts a value into
memory, or a default into the table, the memory of the instance has the stored value
afterwards, or a notification waits for the instance, or another request or subscriber is
still to bring the key up to date. -/
def Timely (c : ConfigPool m) (i : Nat) (l : ConfigStmt) : Prop :=
  ∀ x ∈ l.touches c.store, Fresh (l.effect c.store) x ∨
    { c with store := l.effect c.store }.OwedBeside (fun _ _ => duty m) (memoryRefresh m) i x

/-- A step without an error that leaves no instance behind. -/
def InStep (c : ConfigPool m) (a : Act ConfigRequest (Option String) Empty) : Prop :=
  ErrorFree a ∧ match a with
    | .move i _ => ∀ th ∈ c.threads[i]?, ∀ l ∈ th.upcoming, Timely c i l
    | _ => True

/-- A subscriber that waits for a notification. -/
def waiting (th : ConfigThread m) : Bool :=
  match th.upcoming with
  | some (.receive _) => true
  | _ => false

/-- All requests have finished and all notifications have been handled: the subscribers
wait for the next one. -/
def Settled (c : ConfigPool m) : Prop :=
  (∀ inst ∈ c.store.instances, inst.queue = []) ∧
    ∀ th ∈ c.threads, th.result.isSome = true ∨ waiting th = true

/-- Every instance has the stored configuration in memory. -/
def InSync (s : ConfigStore m) : Prop :=
  ∀ inst ∈ s.instances, ∀ key ∈ ragflowKeys, inst.globalValues.lookup key = stored s.table key

instance : DecidablePred ErrorFree
  | .start _ | .outside _ => isTrue trivial
  | .move _ fault => inferInstanceAs (Decidable (fault = none))
  | .crash _ => isFalse id

instance (s : ConfigStore m) (x : Nat × String) : Decidable (Fresh s x) :=
  inferInstanceAs (Decidable (x.2 ∈ ragflowKeys → ∀ inst ∈ s.instances[x.1]?,
    inst.globalValues.lookup x.2 = stored s.table x.2 ∨ ∃ source ∈ inst.queue, source ≠ x.1))

instance (q : Duty) (s : ConfigStore m) (x : Nat × String) :
    Decidable ((memoryRefresh m).owes q s x) :=
  inferInstanceAs (Decidable (q.owes s x))

instance (c : ConfigPool m) (i : Nat) : DecidablePred (Timely c i) := fun l =>
  inferInstanceAs (Decidable (∀ x ∈ l.touches c.store, Fresh (l.effect c.store) x ∨
    { c with store := l.effect c.store }.OwedBeside (fun _ _ => duty m) (memoryRefresh m) i x))

instance (c : ConfigPool m) : DecidablePred (InStep c)
  | .start _ | .outside _ => inferInstanceAs (Decidable (True ∧ True))
  | .move i fault => inferInstanceAs (Decidable (fault = none ∧
      ∀ th ∈ c.threads[i]?, ∀ l ∈ th.upcoming, Timely c i l))
  | .crash _ => inferInstanceAs (Decidable (False ∧ True))

instance (c : ConfigPool m) : Decidable (Settled c) :=
  inferInstanceAs (Decidable (_ ∧ ∀ th ∈ c.threads, th.result.isSome = true ∨ waiting th = true))

structure SyncInv (c : ConfigPool m) : Prop where
  obeys : Obeys (fun _ _ => duty m) (fun _ _ q _ => q = .idle) c
  known : ∀ th ∈ c.threads, ∀ n id key, dutyOf th = .deleting n id key →
    c.store.table.KeyOf id key
  covered : Covered (fun _ _ => duty m) (memoryRefresh m) c

section Runs

variable {n : Nat} {key : String}

theorem forKey_ne_deleting {n' : Nat} {id : Int} {key' : String} {value : Option Json} :
    Duty.forKey n key value ≠ .deleting n' id key' := by
  unfold Duty.forKey
  split
  · exact nofun
  · exact nofun

theorem keyOf_next {s : ConfigStore m} {q : Duty} {l : ConfigStmt} {id : Int}
    (h : q.next l none s = .deleting n id key) : q = .deleting n id key ∨ s.table.KeyOf id key := by
  unfold Duty.next at h
  split at h
  · split at h
    · rename_i hr
      cases h
      exact Or.inr (keyOf_byId hr)
    · cases h
  · split at h
    · unfold Duty.forWrite at h
      split at h <;> cases h
    · cases h
  · split at h
    · exact absurd h forKey_ne_deleting
    · cases h
  · cases h
  · split at h
    · exact absurd h forKey_ne_deleting
    · cases h
  · cases h
  · cases h
  · cases h
  · split at h
    · split at h <;> cases h
    · cases h
  · cases h
  · cases h
  · cases h
  · exact Or.inl h

variable {c : ConfigPool m}

theorem syncInv_step (hm : FoldsCase m) {a : Act ConfigRequest (Option String) Empty}
    (h : SyncInv c) (hin : InStep c a) : SyncInv ((configSystem m).step c a) := by
  have hobeys : Obeys (fun _ _ => duty m) (fun _ _ q _ => q = .idle) ((configSystem m).step c a) :=
    h.obeys.step (fun _ r => follows_handle r) a
  rcases step_cases (configSystem m) h.obeys a with hsame | ⟨r, rfl, hstep⟩ |
    ⟨i, fault, th, l, w, n, rfl, hth, hlive, hprog, -, hallows, hstep⟩ | ⟨i, th, rfl, -, -⟩ |
    ⟨x, -, -⟩
  · rw [hsame]
    exact h
  · refine ⟨hobeys, ?_, h.covered.start _ r⟩
    rw [hstep]
    intro th hmem
    rcases List.mem_append.mp hmem with hmem | hmem
    · exact h.known th hmem
    · rw [List.mem_singleton.mp hmem]
      nofun
  · obtain ⟨hfault, htimely⟩ := hin
    have hnone : fault = none := hfault
    subst hnone
    have hmem := List.mem_of_getElem? hth
    have hphase : dutyOf (System.advance th l none c.store (n none c.store)) =
        (dutyOf th).next l none c.store := phase_advance _ _ _ _ _ _
    rw [hstep] at hobeys ⊢
    refine ⟨hobeys, ?_, h.covered.move hth fun x => ?_⟩
    · refine forall_mem_set (fun th₂ hmem₂ n id key hq => ?_) (fun n id key hq => ?_) i
      · exact keyOf_allows hallows (h.known th₂ hmem₂ n id key hq)
      · rw [hphase] at hq
        refine keyOf_allows hallows ?_
        exact (keyOf_next hq).elim (h.known th hmem n id key) fun h => h
    · by_cases hkey : x.2 ∈ ragflowKeys
      · have hcases : Kept c.store (w none c.store) (dutyOf th) ((dutyOf th).next l none c.store) x ∨
            x ∈ l.touches c.store ∧ w none c.store = l.effect c.store :=
          stmt_cases hm hallows (h.known th hmem) hkey
        rw [← hphase] at hcases
        rcases hcases with ((hfresh | howes) | ⟨hfresh, hself, hkeep⟩) | ⟨htouches, heffect⟩
        · exact Or.inl (Or.inl hfresh)
        · exact Or.inl (Or.inr ⟨hlive, howes⟩)
        · exact Or.inr (Or.inr ⟨hfresh, fun howes => ⟨hlive, hself howes.2⟩, hkeep⟩)
        · have hnext : th.upcoming = some l := by simp [Thread.upcoming, hprog]
          rw [heffect]
          rcases htimely th hth l hnext x htouches with hfresh | howed
          · exact Or.inl (Or.inl hfresh)
          · exact Or.inr (Or.inl howed)
      · exact Or.inl (Or.inl fun hmem => absurd hmem hkey)
  · exact hin.1.elim
  · exact x.elim

theorem not_owes_of_settled (h : SyncInv c) (hsettled : Settled c) :
    ∀ th ∈ c.threads, ∀ x, ¬ th.Owes (fun _ _ => duty m) (memoryRefresh m) c.store x := by
  rintro th hmem x ⟨hlive, howes⟩
  have hidle : dutyOf th = .idle := by
    have hfollows := h.obeys th hmem
    cases hprog : th.prog with
    | done r =>
      rw [hprog] at hfollows
      have hend := follows_done_iff.mp hfollows
      exact hend
    | stmt l w n =>
      rw [hprog] at hfollows
      have hallows := (follows_stmt_iff.mp hfollows).1 none c.store
      rcases hsettled.2 th hmem with hdone | hwaiting
      · simp [Thread.result, hlive, hprog] at hdone
      · obtain ⟨n', rfl⟩ : ∃ n', l = .receive n' := by
          simp only [waiting, Thread.upcoming, hprog] at hwaiting
          split at hwaiting
          · rename_i n' heq
            exact ⟨n', Option.some.inj heq⟩
          · cases hwaiting
        change (dutyOf th).allows _ _ _ _ at hallows
        cases hq : dutyOf th with
        | idle => rfl
        | _ =>
          rw [hq] at hallows
          exact hallows.elim
  change (dutyOf th).owes c.store x at howes
  rw [hidle] at howes
  exact howes

/-- In every run of requests on the global configuration and of the handling of their
notifications that starts with all instances in sync, without errors, in which nobody
leaves an instance behind, all instances are in sync whenever the run has settled. -/
theorem inSync_of_settled (hm : FoldsCase m) {s : ConfigStore m} (hsync : InSync s)
    {c : ConfigPool m}
    (hreach : (configSystem m).Reach InStep { threads := [], store := s } c)
    (hsettled : Settled c) : InSync c.store := by
  have hinit : SyncInv ({ threads := [], store := s } : ConfigPool m) := by
    refine ⟨nofun, nofun, covered_init fun x hkey inst hinst => Or.inl ?_⟩
    exact hsync inst (List.mem_of_getElem? hinst) x.2 hkey
  have hinv : SyncInv c := hreach.inv hinit fun _ _ h hin => syncInv_step hm h hin
  intro inst hinst key hkey
  obtain ⟨n, hn⟩ := List.mem_iff_getElem?.mp hinst
  have hfresh := hinv.covered.fresh (not_owes_of_settled hinv hsettled) (n, key)
  refine (hfresh hkey inst hn).resolve_right ?_
  rintro ⟨source, hsource, -⟩
  rw [hsettled.1 inst hinst] at hsource
  cases hsource

end Runs

/-! ### Two instances -/

/-- A server whose collation compares texts without the case of ASCII letters. -/
def foldingMysql : Mysql := { Mysql.plain with collationKey := RustStr.toAsciiLowercase }

theorem foldsCase_foldingMysql : FoldsCase foldingMysql := fun _ _ h => h

/-- The table as `ensure_global_keys` fills it. -/
def seededTable : ConfigTable foldingMysql where
  rows := (ragflowSeedRows.zip (List.range 13)).map fun (row, i) =>
    { id := i + 1, name := row.name, key := row.key, configType := row.configType, data := row.data }
  autoIncrement := 14
  below := by decide +kernel
  primary := by decide +kernel
  unique := by decide +kernel

/-- Two instances that have loaded it. -/
def twoInstances : ConfigStore foldingMysql :=
  { table := seededTable
    instances := List.replicate 2 { globalValues := loadGlobalValues seededTable } }

/-- The requests and subscribers are started; then their statements are executed in the
order of their numbers. -/
def scenario (requests : List ConfigRequest) (order : List Nat) :
    List (Act ConfigRequest (Option String) Empty) :=
  requests.map .start ++ order.map fun i => .move i none

def poolAfter (acts : List (Act ConfigRequest (Option String) Empty)) : ConfigPool foldingMysql :=
  (configSystem foldingMysql).run { threads := [], store := twoInstances } acts

/-- Instance 0 deletes `ragflow_top_k`; instance 1 is notified, finds the key missing and
inserts the default. -/
def deletion : List (Act ConfigRequest (Option String) Empty) :=
  scenario [.delete 0 9, .notified 0, .notified 1] [0, 0, 0, 0, 1, 1, 2, 2, 2, 2, 2, 2]

/-- Instance 0 updates `ragflow_top_k` twice; the first update puts its value into memory
after the second one. -/
def overtaken : List (Act ConfigRequest (Option String) Empty) :=
  scenario
    [.update 0 9 { data := some (.num (.int 20)) }, .update 0 9 { data := some (.num (.int 21)) },
      .notified 0, .notified 0, .notified 1, .notified 1]
    [0, 0, 1, 1, 1, 1, 0, 0, 2, 2, 3, 3, 4, 4, 4, 4, 4, 5, 5, 5, 5, 5]

theorem inSync_twoInstances : InSync twoInstances := by
  intro inst hinst key _
  rw [List.eq_of_mem_replicate hinst]
  dsimp only [stored, twoInstances]

/-- In both runs everything has settled and instance 0 does not have the stored
configuration. -/
theorem instance_left_behind :
    InSync twoInstances ∧ ∀ acts ∈ [deletion, overtaken],
      (∀ a ∈ acts, ErrorFree a) ∧ Settled (poolAfter acts) ∧ ¬ InSync (poolAfter acts).store := by
  have hbehind : ∀ acts ∈ [deletion, overtaken], (∀ a ∈ acts, ErrorFree a) ∧
      Settled (poolAfter acts) ∧ ¬ ∀ inst ∈ (poolAfter acts).store.instances,
        inst.globalValues.lookup "ragflow_top_k" =
          stored (poolAfter acts).store.table "ragflow_top_k" := by
    decide +kernel
  refine ⟨inSync_twoInstances, fun acts hacts => ?_⟩
  obtain ⟨herror, hsettled, hne⟩ := hbehind acts hacts
  exact ⟨herror, hsettled, fun hsync => hne fun inst hinst => hsync inst hinst _ (by decide)⟩

/-- Instance 0 updates `ragflow_top_k`, and instance 1 is told. -/
def announced : List (Act ConfigRequest (Option String) Empty) :=
  scenario [.update 0 9 { data := some (.num (.int 20)) }, .notified 0, .notified 1]
    [0, 0, 0, 0, 1, 1, 2, 2, 2, 2, 2]

/-- Both have the new value. -/
theorem inSync_after_announced :
    Settled (poolAfter announced) ∧ InSync (poolAfter announced).store := by
  have hmeets : (configSystem foldingMysql).Meets InStep
      { threads := [], store := twoInstances } announced := by decide +kernel
  have hsettled : Settled (poolAfter announced) := by decide +kernel
  exact ⟨hsettled, inSync_of_settled foldsCase_foldingMysql inSync_twoInstances
    (System.reach_run hmeets) hsettled⟩

end HiveClaw.RagflowConfig
