import HiveClaw.Lib.Refresh
import HiveClaw.RagflowConfig.Stored

/-!
# The configurations in memory against the stored one

Whether every instance has the stored configuration in memory when all requests have
finished and all notifications have been handled, for any interleaving.

A request that has written a row owes the row's key to its own instance, until it has put
the value into memory, and to the others, until it has published the change; a
notification that waits in a queue stands for a load to come, and a subscriber that is
handling one owes its instance every key (`Duty.owes`). A value may be out of date when it
comes to be put into memory, though, and a subscriber that finds a key missing inserts the
default without telling anybody: then the instances agree with the table again only if
somebody still owes them the key (`InStep`).
-/

namespace HiveClaw.RagflowConfig

open Lib Autocommit

variable {m : Mysql}

/-! ## What is owed -/

/-- Where a request or a subscriber is. -/
inductive Duty where
  | idle
  | written (n : Nat) (id : Int)
  | deleting (n : Nat) (id : Int) (key : String)
  | holding (n : Nat) (key : String) (value : Option Json)
  | synced (n : Nat)
  | reloading (n : Nat)
  | loaded (n : Nat) (values : HashMap String Json)

/-- The table after a statement that writes, if it succeeds. -/
def ConfigStore.wrote (s : ConfigStore m) (w : ConfigWrite) (fault : Option String) :
    ConfigStore m :=
  match fault, w.apply s.table with
  | none, .ok (_, table) => { s with table }
  | _, _ => s

namespace Duty

/-- What is left to do for the value of a row. -/
def forKey (n : Nat) (key : String) (value : Option Json) : Duty :=
  match normalizeGlobalKey key with
  | some key => .holding n key value
  | none => .idle

/-- What is left to do after an `INSERT` or an `UPDATE`. -/
def forWrite (n : Nat) (answer : Int) : ConfigWrite → Duty
  | .insert _ _ _ _ => .written n answer
  | .update id _ _ _ => .written n id
  | .delete _ => .idle

def next : Duty → ConfigStmt → Option String → ConfigStore m → Duty
  | .idle, .fetch n id, none, s =>
    match s.table.byId id with
    | some r => .deleting n id r.key
    | none => .idle
  | .idle, .write n w, none, s =>
    match w.apply s.table with
    | .ok (answer, _) => forWrite n answer w
    | .error _ => .idle
  | .written n id, .fetch _ _, none, s =>
    match s.table.byId id with
    | some r => forKey n r.key (some r.data)
    | none => .idle
  | .written _ _, .fetch _ _, some _, _ => .idle
  | .deleting n id key, .write _ _, none, s =>
    if (s.table.byId id).isSome then forKey n key none else .idle
  | .deleting _ _ _, .write _ _, some _, _ => .idle
  | .holding n _ _, .sync _ _ _, _, _ => .synced n
  | .synced _, .publish _, _, _ => .idle
  | .idle, .receive n, _, s =>
    match s.nextSource n with
    | some source => if shouldReloadFromNotification source n then .reloading n else .idle
    | none => .idle
  | .reloading n, .load _, none, s => .loaded n (loadGlobalValues s.table)
  | .reloading _, .load _, some _, _ => .idle
  | .loaded _ _, .install _ _, _, _ => .idle
  | q, _, _, _ => q

def allows : Duty → ConfigStmt → Option String → ConfigStore m → ConfigStore m → Prop
  | .idle, .fetch _ _, _, s, s' => s' = s
  | .idle, .write _ w, fault, s, s' => (∀ id, w ≠ .delete id) ∧ s' = s.wrote w fault
  | .written _ id, .fetch _ id', _, s, s' => id' = id ∧ s' = s
  | .deleting _ id _, .write _ w, fault, s, s' => w = .delete id ∧ s' = s.wrote w fault
  | .holding n key value, .sync n' key' value', _, s, s' =>
    n' = n ∧ key' = key ∧ value' = value ∧ s' = s.sync n key value
  | .synced n, .publish n', fault, s, s' =>
    n' = n ∧ s' = match fault with | none => s.publish n | some _ => s
  | .idle, .receive n, _, s, s' => s' = s.receive n
  | .reloading _, .fetchExisting _, _, s, s' => s' = s
  | .reloading n, .seed n' row, fault, s, s' =>
    n' = n ∧ row ∈ ragflowSeedRows ∧ s' = match fault with | none => s.seed row | some _ => s
  | .reloading _, .load _, _, s, s' => s' = s
  | .loaded n values, .install n' values', _, s, s' =>
    n' = n ∧ values' = values ∧ s' = s.install n values
  | .idle, .resume n, _, s, s' => s' = s.resume n
  | _, _, _, _, _ => False

/-- The key will be brought up to date in the memory of the instance. -/
def owes : Duty → ConfigStore m → Nat × String → Prop
  | .idle, _, _ | .deleting _ _ _, _, _ => False
  | .written _ id, s, x => ∃ r ∈ s.table.byId id, normalizeGlobalKey r.key = some x.2
  | .holding n key value, s, x => x.1 ≠ n ∨ x.2 = key ∧ value = stored s.table key
  | .synced n, _, x => x.1 ≠ n
  | .reloading n, _, x => x.1 = n
  | .loaded n values, s, x => x.1 = n ∧ values.lookup x.2 = stored s.table x.2

instance : ∀ (q : Duty) (s : ConfigStore m) (x : Nat × String), Decidable (q.owes s x)
  | .idle, _, _ | .deleting _ _ _, _, _ => isFalse id
  | .written _ id, s, x =>
    inferInstanceAs (Decidable (∃ r ∈ s.table.byId id, normalizeGlobalKey r.key = some x.2))
  | .holding n key value, s, x =>
    inferInstanceAs (Decidable (x.1 ≠ n ∨ x.2 = key ∧ value = stored s.table key))
  | .synced n, _, x => inferInstanceAs (Decidable (x.1 ≠ n))
  | .reloading n, _, x => inferInstanceAs (Decidable (x.1 = n))
  | .loaded n values, s, x =>
    inferInstanceAs (Decidable (x.1 = n ∧ values.lookup x.2 = stored s.table x.2))

end Duty

/-- The protocol of a request or a subscriber. -/
def duty (m : Mysql) : Protocol Duty ConfigStmt (Option String) (ConfigStore m) :=
  { init := .idle, next := Duty.next, allows := Duty.allows }

/-- The instance has the stored value of the key in memory, or a notification of another
instance waits for it. -/
def Fresh (s : ConfigStore m) (x : Nat × String) : Prop :=
  x.2 ∈ ragflowKeys → ∀ inst ∈ s.instances[x.1]?,
    inst.globalValues.lookup x.2 = stored s.table x.2 ∨ ∃ source ∈ inst.queue, source ≠ x.1

/-- When a key is up to date in an instance, and who owes it. -/
def memoryRefresh (m : Mysql) : Refresh Duty (ConfigStore m) (Nat × String) :=
  { fresh := Fresh, owes := Duty.owes }

/-! ## One statement -/

/-- After the statement the key is up to date or owed by whoever executed it, or nothing
has changed for it. -/
def Kept (s s' : ConfigStore m) (q q' : Duty) (x : Nat × String) : Prop :=
  (Fresh s' x ∨ q'.owes s' x) ∨
    ((Fresh s x → Fresh s' x) ∧ (q.owes s x → q'.owes s' x) ∧
      ∀ q₂ : Duty, q₂.owes s x → q₂.owes s' x)

section Statement

variable {s s' : ConfigStore m} {q q' : Duty} {x : Nat × String}

/-- What a thread owes depends on the table alone. -/
theorem Duty.owes_congr (htable : s'.table = s.table) (h : q.owes s x) : q.owes s' x := by
  cases q with
  | idle => exact h
  | deleting n id key => exact h
  | written n id =>
    obtain ⟨r, hr, hnorm⟩ := h
    exact ⟨r, htable ▸ hr, hnorm⟩
  | holding n key value => exact h.imp_right fun h => ⟨h.1, htable ▸ h.2⟩
  | synced n => exact h
  | reloading n => exact h
  | loaded n values => exact ⟨h.1, htable ▸ h.2⟩

/-- An entry stays fresh while the table and the own instance stay. -/
theorem Fresh.congr (htable : s'.table = s.table)
    (hinst : s'.instances[x.1]? = s.instances[x.1]?) (h : Fresh s x) : Fresh s' x := by
  intro hkey inst hmem
  rw [hinst] at hmem
  rw [htable]
  exact h hkey inst hmem

/-- A step that changes neither the table nor the instance of the entry. -/
theorem kept_of_same (htable : s'.table = s.table)
    (hinst : s'.instances[x.1]? = s.instances[x.1]?) (hq : q.owes s x → q'.owes s x) :
    Kept s s' q q' x :=
  Or.inr ⟨Fresh.congr htable hinst, fun h => Duty.owes_congr htable (hq h),
    fun _ h => Duty.owes_congr htable h⟩

/-- A step on the table that leaves the stored value of the key and the keys of the rows. -/
theorem kept_of_rows (hinst : s'.instances = s.instances)
    (hstored : stored s'.table x.2 = stored s.table x.2)
    (hrows : ∀ id r, s.table.byId id = some r → normalizeGlobalKey r.key = some x.2 →
      ∃ r', s'.table.byId id = some r' ∧ normalizeGlobalKey r'.key = some x.2)
    (hq : q.owes s x → q'.owes s' x) : Kept s s' q q' x := by
  refine Or.inr ⟨fun hfresh hkey inst hmem => ?_, hq, fun q₂ h => ?_⟩
  · rw [hinst] at hmem
    rw [hstored]
    exact hfresh hkey inst hmem
  · cases q₂ with
    | idle => exact h
    | deleting n id key => exact h
    | written n id =>
      obtain ⟨r, hr, hnorm⟩ := h
      obtain ⟨r', hr', hnorm'⟩ := hrows id r hr hnorm
      exact ⟨r', hr', hnorm'⟩
    | holding n key value =>
      refine h.imp_right fun h => ⟨h.1, ?_⟩
      rw [h.2, ← h.1, hstored]
    | synced n => exact h
    | reloading n => exact h
    | loaded n values => exact ⟨h.1, h.2.trans hstored.symm⟩

variable (hm : FoldsCase m)
include hm

variable {n : Nat} {key : String}

/-- The thread that inserts a row owes the entry of its key from then on. -/
theorem kept_add {name configType : String} {data : Json} (hfree : s.table.taken key = false)
    (hkey : x.2 ∈ ragflowKeys) :
    Kept s { s with table := s.table.add name key configType data hfree } .idle
      (.written n s.table.autoIncrement) x := by
  have hnew : (s.table.add name key configType data hfree).byId s.table.autoIncrement =
      some { id := s.table.autoIncrement, name, key, configType, data := m.jsonNormal data } :=
    (byId_eq_some _).mpr ⟨List.mem_append_right _ (List.mem_singleton_self _), rfl⟩
  by_cases hnorm : normalizeGlobalKey key = some x.2
  · exact Or.inl (Or.inr ⟨_, hnew, hnorm⟩)
  · refine kept_of_rows rfl ?_ ?_ nofun
    · rw [stored_add _ hm hkey, if_neg hnorm]
    · intro id r hr hrnorm
      obtain ⟨hmem, hid⟩ := (byId_eq_some _).mp hr
      exact ⟨r, (byId_eq_some _).mpr ⟨List.mem_append_left _ hmem, hid⟩, hrnorm⟩

/-- So does the thread that updates a row; the row keeps its key. -/
theorem kept_modify {id : Int} {name configType : Option String} {data : Option Json}
    (hkey : x.2 ∈ ragflowKeys) :
    Kept s { s with table := s.table.modify id name configType data } .idle (.written n id) x := by
  -- the row with an id keeps its key
  have hrow : ∀ id' r, s.table.byId id' = some r → ∃ r',
      (s.table.modify id name configType data).byId id' = some r' ∧ r'.key = r.key := by
    intro id' r hr
    obtain ⟨hmem, hid⟩ := (byId_eq_some _).mp hr
    have hmem' : _ ∈ (s.table.modify id name configType data).rows := List.mem_map_of_mem hmem
    refine ⟨_, (byId_eq_some _).mpr ⟨hmem', ?_⟩, ?_⟩
    · split <;> exact hid
    · split <;> rfl
  by_cases howed : ∃ r, s.table.byId id = some r ∧ normalizeGlobalKey r.key = some x.2
  · obtain ⟨r, hr, hnorm⟩ := howed
    obtain ⟨r', hr', hkey'⟩ := hrow id r hr
    exact Or.inl (Or.inr ⟨r', hr', hkey' ▸ hnorm⟩)
  · refine kept_of_rows rfl ?_ ?_ nofun
    · refine stored_modify _ hm hkey fun r hmem hid hnorm => ?_
      exact howed ⟨r, (byId_eq_some _).mpr ⟨hmem, hid⟩, hnorm⟩
    · intro id' r hr hnorm
      obtain ⟨r', hr', hkey'⟩ := hrow id' r hr
      exact ⟨r', hr', hkey' ▸ hnorm⟩

variable {r : GlobalConfig}

/-- The thread that deletes a row owes that its key be erased. -/
theorem kept_remove {id : Int} (hr : s.table.byId id = some r) (hkey : x.2 ∈ ragflowKeys) :
    Kept s { s with table := s.table.remove id } (.deleting n id r.key) (.forKey n r.key none) x := by
  obtain ⟨hmem, rfl⟩ := (byId_eq_some _).mp hr
  by_cases hnorm : normalizeGlobalKey r.key = some x.2
  · refine Or.inl (Or.inr ?_)
    simp only [Duty.forKey, hnorm]
    exact Or.inr ⟨rfl, (stored_remove_self _ hm hkey hmem hnorm).symm⟩
  · have hother : ∀ r' ∈ s.table.rows, normalizeGlobalKey r'.key = some x.2 → r'.id ≠ r.id := by
      intro r' hmem' hnorm' hid
      rw [List.inj_on_of_nodup_map s.table.primary hmem' hmem hid] at hnorm'
      exact hnorm hnorm'
    refine kept_of_rows rfl ?_ ?_ nofun
    · exact stored_remove _ hm hkey fun r' hmem' hid hnorm' => hother r' hmem' hnorm' hid
    · intro id' r' hr' hnorm'
      obtain ⟨hmem', rfl⟩ := (byId_eq_some _).mp hr'
      refine ⟨r', (byId_eq_some _).mpr ⟨?_, rfl⟩, hnorm'⟩
      simp only [ConfigTable.remove, List.mem_filter, decide_eq_true_eq]
      exact ⟨hmem', hother r' hmem' hnorm'⟩

variable {f : Instance → Instance}

omit hm in
theorem kept_of_other (hne : x.1 ≠ n) (hq : q.owes s x → q'.owes s x) :
    Kept s { s with instances := s.instances.modify n f } q q' x :=
  kept_of_same rfl (List.getElem?_modify_ne f _ (Ne.symm hne)) hq

omit hm in
theorem mem_modify_self {inst : Instance} (h : inst ∈ (s.instances.modify n f)[n]?) :
    ∃ inst₀ ∈ s.instances[n]?, inst = f inst₀ := by
  rw [List.getElem?_modify_eq] at h
  obtain ⟨inst₀, h₀, rfl⟩ := Option.mem_map.mp h
  exact ⟨inst₀, h₀, rfl⟩

omit hm in
theorem lookup_setValue (values : HashMap String Json) (key key' : String) (value : Option Json) :
    (match value with
      | some data => values.insert key data
      | none => values.erase key).lookup key' = if key' = key then value else values.lookup key' := by
  cases value with
  | some data => exact HashMap.lookup_insert_ite values key key' data
  | none =>
    by_cases h : key' = key
    · rw [if_pos h, h]
      exact AList.lookup_erase key values
    · rw [if_neg h]
      exact AList.lookup_erase_ne h

omit hm in
/-- Writing a value into the own cache concerns the entry of that key only. -/
theorem kept_sync {value : Option Json} (hx : x ≠ (n, key)) :
    Kept s (s.sync n key value) (.holding n key value) (.synced n) x := by
  by_cases hn : x.1 = n
  · obtain ⟨n', key'⟩ := x
    obtain rfl : n' = n := hn
    have hkey : key' ≠ key := fun h => hx (by rw [h])
    refine Or.inr ⟨fun hfresh hmem inst hinst => ?_, fun howes => ?_, fun _ h => Duty.owes_congr (s := s) rfl h⟩
    · obtain ⟨inst₀, h₀, rfl⟩ := mem_modify_self hinst
      refine (hfresh hmem inst₀ h₀).imp_left fun h => ?_
      exact ((lookup_setValue _ key key' value).trans (if_neg hkey)).trans h
    · rcases howes with h | h
      · exact absurd rfl h
      · exact absurd h.1 hkey
  · exact Or.inl (Or.inr hn)

omit hm in
/-- After the notification every other instance has a message of a foreign source waiting. -/
theorem kept_publish : Kept s (s.publish n) (.synced n) .idle x := by
  have hinst : ∀ inst ∈ (s.publish n).instances[x.1]?, ∃ inst₀ ∈ s.instances[x.1]?,
      inst = { inst₀ with queue := inst₀.queue ++ [n] } := by
    intro inst h
    change inst ∈ (s.instances.map _)[x.1]? at h
    rw [List.getElem?_map] at h
    obtain ⟨inst₀, h₀, rfl⟩ := Option.mem_map.mp h
    exact ⟨inst₀, h₀, rfl⟩
  by_cases hn : x.1 = n
  · refine Or.inr ⟨fun hfresh hkey inst h => ?_, fun howes => absurd hn howes,
      fun _ h => Duty.owes_congr (s := s) rfl h⟩
    obtain ⟨inst₀, h₀, rfl⟩ := hinst inst h
    refine (hfresh hkey inst₀ h₀).imp_right ?_
    rintro ⟨source, hsource, hne⟩
    exact ⟨source, List.mem_append_left _ hsource, hne⟩
  · refine Or.inl (Or.inl fun hkey inst h => Or.inr ?_)
    obtain ⟨inst₀, h₀, rfl⟩ := hinst inst h
    exact ⟨n, List.mem_append_right _ (List.mem_singleton_self _), Ne.symm hn⟩

omit hm in
/-- A message of the own instance is skipped; one of another makes the thread owe a reload. -/
theorem kept_receive : Kept s (s.receive n) .idle (Duty.idle.next (.receive n) none s) x := by
  by_cases hn : x.1 = n
  · obtain ⟨n', key⟩ := x
    obtain rfl : n' = n := hn
    cases hinst : s.instances[n']? with
    | none =>
      refine Or.inl (Or.inl fun hkey inst h => ?_)
      obtain ⟨inst₀, h₀, -⟩ := mem_modify_self h
      rw [hinst] at h₀
      cases h₀
    | some inst₀ =>
      cases hqueue : inst₀.queue with
      | nil =>
        refine Or.inr ⟨fun hfresh hkey inst h => ?_, nofun, fun _ h => Duty.owes_congr (s := s) rfl h⟩
        obtain ⟨inst₁, h₁, rfl⟩ := mem_modify_self h
        refine (hfresh hkey inst₁ h₁).imp_right ?_
        rintro ⟨source, hsource, hne⟩
        rw [hinst] at h₁
        rw [← Option.some.inj h₁, hqueue] at hsource
        cases hsource
      | cons source rest =>
        have hnext : s.nextSource n' = some source := by
          simp [ConfigStore.nextSource, hinst, hqueue]
        by_cases hsource : source = n'
        · refine Or.inr ⟨fun hfresh hkey inst h => ?_, nofun, fun _ h => Duty.owes_congr (s := s) rfl h⟩
          obtain ⟨inst₁, h₁, rfl⟩ := mem_modify_self h
          refine (hfresh hkey inst₁ h₁).imp_right ?_
          rintro ⟨source', hsource', hne⟩
          rw [hinst] at h₁
          rw [← Option.some.inj h₁, hqueue] at hsource'
          rcases List.mem_cons.mp hsource' with rfl | hrest
          · exact absurd hsource hne
          · refine ⟨source', ?_, hne⟩
            rw [← Option.some.inj h₁]
            simpa [hqueue] using hrest
        · refine Or.inl (Or.inr ?_)
          simp [Duty.next, hnext, shouldReloadFromNotification, hsource, Duty.owes]
  · exact kept_of_other hn nofun

omit hm in
/-- Installing what was loaded concerns the own instance only. -/
theorem kept_install {values : HashMap String Json} (hn : x.1 ≠ n) :
    Kept s (s.install n values) (.loaded n values) .idle x :=
  kept_of_other hn fun h => absurd h.1 hn

omit hm in
theorem kept_resume : Kept s (s.resume n) .idle .idle x := by
  by_cases hn : x.1 = n
  · refine Or.inr ⟨fun hfresh hkey inst h => ?_, nofun, fun _ h => Duty.owes_congr (s := s) rfl h⟩
    rw [hn] at h
    obtain ⟨inst₀, h₀, rfl⟩ := mem_modify_self h
    rw [← hn] at h₀
    exact hfresh hkey inst₀ h₀
  · exact kept_of_other hn nofun

/-- Seeding changes at most the entries of its key; the own instance is about to reload. -/
theorem kept_seed {row : SeedRow} (hrow : row.key ∈ ragflowKeys) (hkey : x.2 ∈ ragflowKeys)
    (hx : x.1 = n ∨ x.2 ≠ row.key) : Kept s (s.seed row) (.reloading n) (.reloading n) x := by
  by_cases hn : x.1 = n
  · exact Or.inl (Or.inr hn)
  · have hne := hx.resolve_left hn
    unfold ConfigStore.seed ConfigTable.insertIgnore
    split
    · rename_i hfree
      refine kept_of_rows rfl ?_ ?_ id
      · rw [stored_add _ hm hkey, normalize_of_mem hrow, if_neg fun h => hne (Option.some.inj h).symm]
      · intro id r hr hrnorm
        obtain ⟨hmem, hid⟩ := (byId_eq_some _).mp hr
        exact ⟨r, (byId_eq_some _).mpr ⟨List.mem_append_left _ hmem, hid⟩, hrnorm⟩
    · exact kept_of_same rfl rfl id

omit hm in
/-- A reload reads all stored values at once. -/
theorem kept_load : Kept s s (.reloading n) (.loaded n (loadGlobalValues s.table)) x := by
  by_cases hn : x.1 = n
  · exact Or.inl (Or.inr ⟨hn, rfl⟩)
  · exact kept_of_same rfl rfl fun h => absurd h hn

/-- The row that a thread fetches holds the stored value of its key. -/
theorem kept_fetch {id : Int} (hr : s.table.byId id = some r) (hkey : x.2 ∈ ragflowKeys) :
    Kept s s (.written n id) (.forKey n r.key (some r.data)) x := by
  refine kept_of_same rfl rfl ?_
  rintro ⟨r', hr', hnorm⟩
  rw [hr] at hr'
  cases hr'
  simp only [Duty.forKey, hnorm]
  exact Or.inr ⟨rfl, (stored_of_byId _ hm hkey hr hnorm).symm⟩

end Statement

end HiveClaw.RagflowConfig
