import HiveClaw.Instances.Lease

/-!
# The counters against the instances

Whether `metrics.in_use`, the `in_use` of the plugins and `metrics.idle` agree with
the instances that are handed out and idle, for any interleaving of calls.

The two records are changed one after the other under the lock of the map, so they are
compared while nobody holds it (`holder = none`). What is in between is accounted for by
the phases of the calls (`Ledger`): a call that is `taking` an instance is counted in the
map already, one that is `returning` it in the metrics still. A call that is dropped, or
whose blocking task panics, while it has an instance never takes itself out again.
-/

namespace HiveClaw.Instances

open Lib

/-! ## Counting -/

/-- The calls that have been started, and the pool. -/
abbrev CallPool := Lib.Pool Int PoolStmt InvokeInput InstancePool (Except InvokerError String)

abbrev CallThread := Thread Int PoolStmt InvokeInput InstancePool (Except InvokerError String)

def leaseOf (cfg : PoolConfig) (th : CallThread) : Lease := th.phase fun n _ => lease cfg n

/-- The number of calls under way whose instance is in a class. -/
def countLeases (cfg : PoolConfig) (threads : List CallThread) (p : Lease → Bool) : Nat :=
  threads.countP fun th => !th.crashed && p (leaseOf cfg th)

/-- The instances that are handed out. -/
def handedOut (cfg : PoolConfig) (c : CallPool) : Nat :=
  countLeases cfg c.threads fun q => q.plugin?.isSome

namespace Lease

/-- Counted in the map, under the plugin. -/
def charged (id : Int) : Lease → Bool
  | .taking id' _ | .held id' => id' = id
  | _ => false

def counted : Lease → Bool
  | .held _ | .returning _ => true
  | _ => false

/-- Out of its queue, and in `metrics.idle` still. -/
def popped : Lease → Bool
  | .taking _ cold => !cold
  | _ => false

end Lease

namespace InstancePool

/-- `in_use` of a plugin. -/
def inUseOf (s : InstancePool) (id : Int) : Nat := ((s.pools.lookup id).map (·.inUse)).getD 0

/-- The idle instances of a plugin. -/
def idleOf (s : InstancePool) (id : Int) : Nat := ((s.pools.lookup id).map (·.idle.length)).getD 0

/-- The sum of `in_use` over the plugins. -/
def inUseTotal (s : InstancePool) : Nat := HashMap.total (·.inUse) s.pools

/-- The sum of the lengths of the queues. -/
def idleTotal (s : InstancePool) : Nat := HashMap.total (·.idle.length) s.pools

/-- Every instance waits in the queue of its plugin. -/
def WellQueued (s : InstancePool) : Prop :=
  ∀ id p, s.pools.lookup id = some p → ∀ inst ∈ p.idle, inst.pluginId = id

section Sections

variable {s : InstancePool} {n : Nat} {id : Int} {p : PluginPool} {inst : PooledPlugin}
  {rest : List PooledPlugin}

theorem takeIdle_eq (hp : s.pools.lookup id = some p) (hidle : p.idle = inst :: rest) :
    s.takeIdle n id =
      { s with
        pools := s.pools.insert id { p with idle := rest, inUse := p.inUse + 1 }
        holder := some n } := by
  simp [takeIdle, hp, hidle]

theorem giveBack_eq (hp : s.pools.lookup id = some p) :
    s.giveBack n id =
      { s with pools := s.pools.insert id { p with inUse := p.inUse - 1 }, holder := some n } := by
  simp [giveBack, hp]

end Sections

end InstancePool

/-! ## The ledger -/

/-- What every run without losses keeps. -/
structure Ledger (cfg : PoolConfig) (c : CallPool) : Prop where
  obeys : Obeys (fun n _ => lease cfg n) (fun _ _ q _ => q = .none) c
  numbered : Numbered c
  lock : ∀ th ∈ c.threads, th.crashed = false → (leaseOf cfg th).inside = true →
    c.store.holder = some th.no
  known : ∀ th ∈ c.threads, th.crashed = false → ∀ id, (leaseOf cfg th).plugin? = some id →
    (c.store.pools.lookup id).isSome = true
  queued : c.store.WellQueued
  charged : ∀ id, c.store.inUseOf id = countLeases cfg c.threads (Lease.charged id)
  counted : c.store.metrics.inUse = countLeases cfg c.threads Lease.counted
  popped : c.store.metrics.idle = c.store.idleTotal + countLeases cfg c.threads Lease.popped

/-- A step that does not lose an instance: no call is dropped while it has one, and no
blocking task panics. -/
def Lossless (cfg : PoolConfig) (c : CallPool) : Act Int InvokeInput Empty → Prop
  | .move i t => ∀ th ∈ c.threads[i]?, th.upcoming = some .call → t.called.isOk = true
  | .crash i => ∀ th ∈ c.threads[i]?, leaseOf cfg th = .none
  | .start _ | .outside _ => True

instance (cfg : PoolConfig) (c : CallPool) (a : Act Int InvokeInput Empty) :
    Decidable (Lossless cfg c a) := by
  cases a <;> unfold Lossless <;> infer_instance

section Step

variable {cfg : PoolConfig} {c : CallPool}

variable {threads : List CallThread} {i : Nat} {th th' : CallThread}

theorem countLeases_set (cfg : PoolConfig) (hth : threads[i]? = some th)
    (hlive : th.crashed = false) (hlive' : th'.crashed = false) (p : Lease → Bool) :
    countLeases cfg (threads.set i th') p + (p (leaseOf cfg th)).toNat =
      countLeases cfg threads p + (p (leaseOf cfg th')).toNat := by
  have hreplace := countP_replace (fun th => !th.crashed && p (leaseOf cfg th)) hth th'
  simpa [countLeases, hlive, hlive'] using hreplace

theorem countLeases_pos (hmem : th ∈ threads) (hlive : th.crashed = false) {p : Lease → Bool}
    (hp : p (leaseOf cfg th) = true) : 0 < countLeases cfg threads p :=
  List.countP_pos_iff.mpr ⟨th, hmem, by simp [hlive, hp]⟩

/-- The bookkeeping of a statement of call `n` that takes it from `q` to `q'`: what each
record gains is what the call's share in it gains. -/
structure Booked (n : Nat) (s s' : InstancePool) (q q' : Lease) : Prop where
  lock : (s'.holder = s.holder ∧ (q'.inside = true → q.inside = true)) ∨
    (s.holder = none ∧ (q'.inside = true → s'.holder = some n)) ∨
    (q.inside = true ∧ q'.inside = false)
  known : ∀ id, q'.plugin? = some id ∨ (s.pools.lookup id).isSome = true →
    (s'.pools.lookup id).isSome = true
  queued : s'.WellQueued
  charged : ∀ id, s'.inUseOf id + (q.charged id).toNat = s.inUseOf id + (q'.charged id).toNat
  counted : s'.metrics.inUse + q.counted.toNat = s.metrics.inUse + q'.counted.toNat
  popped : s'.metrics.idle + s.idleTotal + q.popped.toNat =
    s.metrics.idle + s'.idleTotal + q'.popped.toNat

theorem Ledger.booked (h : Ledger cfg c) {s' : InstancePool} (hth : c.threads[i]? = some th)
    (hlive : th.crashed = false) (hlive' : th'.crashed = false) (hno : th'.no = th.no)
    (hobeys : Obeys (fun n _ => lease cfg n) (fun _ _ q _ => q = .none)
      ({ threads := c.threads.set i th', store := s' } : CallPool))
    (hb : Booked th.no c.store s' (leaseOf cfg th) (leaseOf cfg th')) :
    Ledger cfg { threads := c.threads.set i th', store := s' } := by
  have hmem := List.mem_of_getElem? hth
  -- a request of the new pool is the one that moved, or another one of the old
  have hcases : ∀ th₂ ∈ c.threads.set i th', th₂ = th' ∨
      ∃ j, j ≠ i ∧ c.threads[j]? = some th₂ := by
    intro th₂ hmem₂
    obtain ⟨j, hj⟩ := List.mem_iff_getElem?.mp hmem₂
    by_cases hij : i = j
    · subst hij
      obtain ⟨hi, -⟩ := List.getElem?_eq_some_iff.mp hth
      rw [List.getElem?_set_self hi] at hj
      exact Or.inl (Option.some.inj hj).symm
    · rw [List.getElem?_set_ne hij] at hj
      exact Or.inr ⟨j, Ne.symm hij, hj⟩
  refine ⟨hobeys, h.numbered.set hth hno s', ?_, ?_, hb.queued, ?_, ?_, ?_⟩
  · intro th₂ hmem₂ hlive₂ hinside
    show s'.holder = some th₂.no
    rcases hcases th₂ hmem₂ with rfl | ⟨j, hne, hj⟩
    · rcases hb.lock with ⟨hsame, hin⟩ | ⟨-, hset⟩ | ⟨-, hout⟩
      · rw [hsame, hno]
        exact h.lock th hmem hlive (hin hinside)
      · rw [hset hinside, hno]
      · rw [hout] at hinside
        cases hinside
    · have hheld := h.lock th₂ (List.mem_of_getElem? hj) hlive₂ hinside
      rcases hb.lock with ⟨hsame, -⟩ | ⟨hfree, -⟩ | ⟨hin, -⟩
      · rw [hsame]
        exact hheld
      · rw [hfree] at hheld
        cases hheld
      · -- two calls cannot hold the lock at once
        have hheld' := h.lock th hmem hlive hin
        rw [hheld'] at hheld
        have hnos := Option.some.inj hheld
        rw [h.numbered i th hth, h.numbered j th₂ hj] at hnos
        exact absurd hnos.symm hne
  · intro th₂ hmem₂ hlive₂ id hid
    rcases hcases th₂ hmem₂ with rfl | ⟨j, -, hj⟩
    · exact hb.known id (Or.inl hid)
    · exact hb.known id (Or.inr (h.known th₂ (List.mem_of_getElem? hj) hlive₂ id hid))
  · intro id
    have hset := countLeases_set cfg hth hlive hlive' (Lease.charged id)
    have hold := h.charged id
    have hbooked := hb.charged id
    show s'.inUseOf id = countLeases cfg (c.threads.set i th') (Lease.charged id)
    omega
  · have hset := countLeases_set cfg hth hlive hlive' Lease.counted
    have hold := h.counted
    have hbooked := hb.counted
    show s'.metrics.inUse = countLeases cfg (c.threads.set i th') Lease.counted
    omega
  · have hset := countLeases_set cfg hth hlive hlive' Lease.popped
    have hold := h.popped
    have hbooked := hb.popped
    show s'.metrics.idle = s'.idleTotal + countLeases cfg (c.threads.set i th') Lease.popped
    omega

end Step

/-! ## Every statement is booked -/

section Booked

variable {cfg : PoolConfig} {n : Nat} {s : InstancePool} {id : Int} {p p' : PluginPool}

theorem inUseOf_insert (id' : Int) (m : PoolMetrics) (holder : Option Nat) :
    InstancePool.inUseOf { pools := s.pools.insert id p', metrics := m, holder := holder } id' =
      if id' = id then p'.inUse else s.inUseOf id' := by
  unfold InstancePool.inUseOf
  rw [HashMap.lookup_insert_ite]
  split <;> rfl

theorem isSome_lookup_insert {id' : Int} (h : id' = id ∨ (s.pools.lookup id').isSome = true) :
    ((s.pools.insert id p').lookup id').isSome = true := by
  rw [HashMap.lookup_insert_ite]
  split
  · rfl
  · rename_i hne
    exact h.resolve_left hne

/-- The queue of the new entry is the old one, shortened or lengthened by an instance of
the plugin. -/
theorem wellQueued_insert (h : s.WellQueued) (hidle : ∀ inst ∈ p'.idle, inst.pluginId = id)
    (m : PoolMetrics) (holder : Option Nat) :
    InstancePool.WellQueued { pools := s.pools.insert id p', metrics := m, holder := holder } := by
  intro id' q hq inst hinst
  change (s.pools.insert id p').lookup id' = some q at hq
  rw [HashMap.lookup_insert_ite] at hq
  split at hq
  · rename_i hid
    cases hq
    rw [hid]
    exact hidle inst hinst
  · exact h id' q hq inst hinst

variable {inst : PooledPlugin}

theorem booked_take {rest : List PooledPlugin} (hqueued : s.WellQueued) (hfree : s.holder = none)
    (hp : s.pools.lookup id = some p) (hidle : p.idle = inst :: rest) :
    Booked n s (s.takeIdle n id) .none (.taking inst.pluginId false) := by
  have hinst : inst.pluginId = id := hqueued id p hp inst (by rw [hidle]; exact List.mem_cons_self)
  rw [InstancePool.takeIdle_eq hp hidle, hinst]
  refine ⟨Or.inr (Or.inl ⟨hfree, fun _ => rfl⟩), fun id' h => ?_, ?_, fun id' => ?_, rfl, ?_⟩
  · refine isSome_lookup_insert (h.imp_left fun h => ?_)
    exact (Option.some.inj h).symm
  · refine wellQueued_insert hqueued (fun inst' h => ?_) _ _
    exact hqueued id p hp inst' (by rw [hidle]; exact List.mem_cons_of_mem _ h)
  · rw [inUseOf_insert]
    split
    · rename_i hid
      subst hid
      simp [InstancePool.inUseOf, hp, Lease.charged]
    · rename_i hid
      simp [Lease.charged, Ne.symm hid]
  · have htotal := HashMap.total_insert (·.idle.length) s.pools id
      { p with idle := rest, inUse := p.inUse + 1 }
    rw [hp] at htotal
    simp only [Option.map_some, Option.getD_some, hidle, List.length_cons] at htotal
    show s.metrics.idle + s.idleTotal + 0 = s.metrics.idle +
      HashMap.total (·.idle.length)
        (s.pools.insert id { p with idle := rest, inUse := p.inUse + 1 }) + 1
    unfold InstancePool.idleTotal
    omega

theorem entry_idle (row : Plugin) :
    (s.entry row).idle.length = s.idleOf row.id ∧ (s.entry row).inUse = s.inUseOf row.id := by
  unfold InstancePool.entry InstancePool.idleOf InstancePool.inUseOf
  cases s.pools.lookup row.id with
  | none => exact ⟨rfl, rfl⟩
  | some p => exact ⟨rfl, rfl⟩

theorem wellQueued_enterNew (hqueued : s.WellQueued) (row : Plugin) :
    (s.enterNew n row).WellQueued := by
  refine wellQueued_insert hqueued (fun inst hinst => ?_) _ _
  change inst ∈ (s.entry row).idle at hinst
  unfold InstancePool.entry at hinst
  cases hp : s.pools.lookup row.id with
  | none => simp [hp] at hinst
  | some p =>
    rw [hp] at hinst
    exact hqueued row.id p hp inst hinst

theorem booked_enter (hqueued : s.WellQueued) (hfree : s.holder = none) (row : Plugin) :
    Booked n s (s.enterNew n row) .none (.taking row.id true) := by
  obtain ⟨hlen, huse⟩ := entry_idle (s := s) row
  refine ⟨Or.inr (Or.inl ⟨hfree, fun _ => rfl⟩), fun id' h => ?_, wellQueued_enterNew hqueued row,
    fun id' => ?_, rfl, ?_⟩
  · refine isSome_lookup_insert (h.imp_left fun h => ?_)
    exact (Option.some.inj h).symm
  · unfold InstancePool.enterNew
    rw [inUseOf_insert]
    split
    · rename_i hid
      subst hid
      simp [Lease.charged, PluginPool.countMiss, huse]
    · rename_i hid
      simp [Lease.charged, Ne.symm hid]
  · have htotal := HashMap.total_insert (·.idle.length) s.pools row.id (s.entry row).countMiss
    change _ + s.idleOf row.id = _ + (s.entry row).idle.length at htotal
    show s.metrics.idle + s.idleTotal + 0 = s.metrics.idle +
      HashMap.total (·.idle.length) (s.pools.insert row.id (s.entry row).countMiss) + 0
    unfold InstancePool.idleTotal
    omega

theorem booked_countTaken (hqueued : s.WellQueued) (hknown : (s.pools.lookup id).isSome = true)
    (hidle : 0 < s.metrics.idle) :
    Booked n s s.countTaken (.taking id false) (.held id) := by
  refine ⟨Or.inr (Or.inr ⟨rfl, rfl⟩), fun id' h => ?_, hqueued, fun _ => rfl, rfl, ?_⟩
  · rcases h with h | h
    · rw [← Option.some.inj h]
      exact hknown
    · exact h
  · show s.metrics.idle - 1 + s.idleTotal + 1 = s.metrics.idle + s.idleTotal + 0
    omega

theorem booked_countNew (hqueued : s.WellQueued) (hknown : (s.pools.lookup id).isSome = true) :
    Booked n s s.countNew (.taking id true) (.held id) := by
  refine ⟨Or.inr (Or.inr ⟨rfl, rfl⟩), fun id' h => ?_, hqueued, fun _ => rfl, rfl, rfl⟩
  rcases h with h | h
  · rw [← Option.some.inj h]
    exact hknown
  · exact h

theorem booked_giveBack (hqueued : s.WellQueued) (hfree : s.holder = none)
    (hp : s.pools.lookup id = some p) (huse : 0 < s.inUseOf id) :
    Booked n s (s.giveBack n id) (.held id) (.returning id) := by
  rw [InstancePool.giveBack_eq hp]
  have hinUse : s.inUseOf id = p.inUse := by simp [InstancePool.inUseOf, hp]
  refine ⟨Or.inr (Or.inl ⟨hfree, fun _ => rfl⟩), fun id' h => ?_, ?_, fun id' => ?_, rfl, ?_⟩
  · refine isSome_lookup_insert (h.imp_left fun h => ?_)
    exact (Option.some.inj h).symm
  · refine wellQueued_insert hqueued ?_ _ _
    exact hqueued id p hp
  · rw [inUseOf_insert]
    split
    · rename_i hid
      subst hid
      simp only [Lease.charged, decide_true, Bool.toNat_true, Bool.toNat_false]
      omega
    · rename_i hid
      simp [Lease.charged, Ne.symm hid]
  · have htotal := HashMap.total_insert (·.idle.length) s.pools id { p with inUse := p.inUse - 1 }
    rw [hp] at htotal
    simp only [Option.map_some, Option.getD_some] at htotal
    show s.metrics.idle + s.idleTotal + 0 = s.metrics.idle +
      HashMap.total (·.idle.length) (s.pools.insert id { p with inUse := p.inUse - 1 }) + 0
    unfold InstancePool.idleTotal
    omega

theorem booked_countReturned (hqueued : s.WellQueued) {resetOk : Bool}
    (hp : s.pools.lookup inst.pluginId = some p) (huse : 0 < s.metrics.inUse) :
    Booked n s (s.countReturned cfg inst resetOk) (.returning inst.pluginId) .none := by
  unfold InstancePool.countReturned
  simp only [hp]
  split
  · refine ⟨Or.inr (Or.inr ⟨rfl, rfl⟩), fun id' h => ?_, ?_, fun id' => ?_, ?_, ?_⟩
    · refine isSome_lookup_insert (h.imp_left fun h => ?_)
      cases h
    · refine wellQueued_insert hqueued (fun inst' h => ?_) _ _
      rcases List.mem_append.mp h with h | h
      · exact hqueued _ p hp inst' h
      · rw [List.mem_singleton.mp h]
    · rw [inUseOf_insert]
      split
      · rename_i hid
        subst hid
        simp [InstancePool.inUseOf, hp, Lease.charged]
      · rfl
    · show s.metrics.inUse - 1 + 1 = s.metrics.inUse + 0
      omega
    · have htotal := HashMap.total_insert (·.idle.length) s.pools inst.pluginId
        { p with idle := p.idle ++ [inst] }
      rw [hp] at htotal
      simp only [Option.map_some, Option.getD_some, List.length_append, List.length_singleton]
        at htotal
      show s.metrics.idle + 1 + s.idleTotal + 0 = s.metrics.idle +
        HashMap.total (·.idle.length)
          (s.pools.insert inst.pluginId { p with idle := p.idle ++ [inst] }) + 0
      unfold InstancePool.idleTotal
      omega
  · refine ⟨Or.inr (Or.inr ⟨rfl, rfl⟩), fun id' h => ?_, hqueued, fun id' => rfl, ?_, ?_⟩
    · rcases h with h | h
      · cases h
      · exact h
    · cases resetOk
      · show s.metrics.inUse - 1 + 1 = s.metrics.inUse + 0
        omega
      · show s.metrics.inUse - 1 + 1 = s.metrics.inUse + 0
        omega
    · cases resetOk <;> rfl

end Booked

/-! ## Every run -/

section Runs

variable {cfg : InvokeConfig} {c : CallPool}

theorem pools_hangUp (cfg : InvokeConfig) (i : Nat) (s : InstancePool) :
    ((poolSystem cfg).hangUp i s).pools = s.pools := by
  simp only [poolSystem]
  split <;> rfl

theorem metrics_hangUp (cfg : InvokeConfig) (i : Nat) (s : InstancePool) :
    ((poolSystem cfg).hangUp i s).metrics = s.metrics := by
  simp only [poolSystem]
  split <;> rfl

variable {th : CallThread} {p : Lease → Bool}

theorem countLeases_crash {i : Nat} (hth : c.threads[i]? = some th)
    (hnone : leaseOf cfg.pool th = .none) (hp : p .none = false) :
    countLeases cfg.pool (c.threads.set i { th with crashed := true }) p =
      countLeases cfg.pool c.threads p := by
  have hreplace := countP_replace (fun th => !th.crashed && p (leaseOf cfg.pool th)) hth
    { th with crashed := true }
  simpa [countLeases, hnone, hp] using hreplace

theorem Ledger.start (h : Ledger cfg.pool c) (id : Int) :
    Ledger cfg.pool ((poolSystem cfg).step c (.start id)) := by
  have hnew : leaseOf cfg.pool ((poolSystem cfg).newThread c.threads.length id) = .none := rfl
  have hcount : ∀ p : Lease → Bool, p .none = false →
      countLeases cfg.pool (c.threads ++ [(poolSystem cfg).newThread c.threads.length id]) p =
        countLeases cfg.pool c.threads p := by
    intro p hp
    simp [countLeases, List.countP_append, hnew, hp]
  have hmem : ∀ th ∈ c.threads ++ [(poolSystem cfg).newThread c.threads.length id],
      th ∈ c.threads ∨ leaseOf cfg.pool th = .none := by
    intro th hth
    rcases List.mem_append.mp hth with hth | hth
    · exact Or.inl hth
    · rw [List.mem_singleton.mp hth]
      exact Or.inr hnew
  refine ⟨h.obeys.step (fun _ id => follows_invoke id) _, h.numbered.step _ _, ?_, ?_, h.queued,
    fun id' => ?_, ?_, ?_⟩
  · intro th hth hlive hinside
    rcases hmem th hth with hold | hnone
    · exact h.lock th hold hlive hinside
    · rw [hnone] at hinside
      cases hinside
  · intro th hth hlive id' hid
    rcases hmem th hth with hold | hnone
    · exact h.known th hold hlive id' hid
    · rw [hnone] at hid
      cases hid
  · exact (h.charged id').trans (hcount _ rfl).symm
  · exact h.counted.trans (hcount _ rfl).symm
  · rw [show countLeases cfg.pool ((poolSystem cfg).step c (.start id)).threads Lease.popped =
      countLeases cfg.pool c.threads Lease.popped from hcount _ rfl]
    exact h.popped

theorem Ledger.crash (h : Ledger cfg.pool c) {i : Nat} {th : CallThread}
    (hth : c.threads[i]? = some th) (hnone : leaseOf cfg.pool th = .none)
    (hstep : (poolSystem cfg).step c (.crash i) =
      { threads := c.threads.set i { th with crashed := true }
        store := (poolSystem cfg).hangUp i c.store }) :
    Ledger cfg.pool ((poolSystem cfg).step c (.crash i)) := by
  have hobeys : Obeys (fun n _ => lease cfg.pool n) (fun _ _ q _ => q = .none)
      ((poolSystem cfg).step c (.crash i)) := h.obeys.step (fun _ id => follows_invoke id) _
  have hnumbered := h.numbered.step (poolSystem cfg) (.crash i)
  rw [hstep] at hobeys hnumbered ⊢
  have hpools := pools_hangUp cfg i c.store
  have hcount : ∀ p : Lease → Bool, p .none = false →
      countLeases cfg.pool (c.threads.set i { th with crashed := true }) p =
        countLeases cfg.pool c.threads p := fun p hp => countLeases_crash hth hnone hp
  have hmem : ∀ th₂ ∈ c.threads.set i { th with crashed := true }, th₂.crashed = false →
      th₂ ∈ c.threads := by
    intro th₂ hth₂ hlive
    rcases List.mem_or_eq_of_mem_set hth₂ with hold | rfl
    · exact hold
    · cases hlive
  refine ⟨hobeys, hnumbered, ?_, ?_, ?_, fun id => ?_, ?_, ?_⟩
  · intro th₂ hth₂ hlive hinside
    have hheld := h.lock th₂ (hmem th₂ hth₂ hlive) hlive hinside
    simp only [poolSystem]
    split
    · rename_i hholder
      obtain ⟨j, hj⟩ := List.mem_iff_getElem?.mp (hmem th₂ hth₂ hlive)
      rw [hholder] at hheld
      have hno := Option.some.inj hheld
      rw [h.numbered j th₂ hj] at hno
      rw [← hno, hth] at hj
      rw [← Option.some.inj hj, hnone] at hinside
      cases hinside
    · exact hheld
  · intro th₂ hth₂ hlive id hid
    rw [hpools]
    exact h.known th₂ (hmem th₂ hth₂ hlive) hlive id hid
  · unfold InstancePool.WellQueued
    rw [hpools]
    exact h.queued
  · have hinUse : ((poolSystem cfg).hangUp i c.store).inUseOf id = c.store.inUseOf id := by
      unfold InstancePool.inUseOf
      rw [hpools]
    exact hinUse.trans ((h.charged id).trans (hcount _ rfl).symm)
  · rw [metrics_hangUp]
    exact h.counted.trans (hcount _ rfl).symm
  · have hidle : ((poolSystem cfg).hangUp i c.store).idleTotal = c.store.idleTotal := by
      unfold InstancePool.idleTotal
      rw [hpools]
    rw [metrics_hangUp, hidle]
    exact h.popped.trans (congrArg _ (hcount _ rfl).symm)

theorem booked_stay {n : Nat} {s : InstancePool} {q : Lease} (hqueued : s.WellQueued)
    (hknown : ∀ id, q.plugin? = some id → (s.pools.lookup id).isSome = true) :
    Booked n s s q q := by
  refine ⟨Or.inl ⟨rfl, fun h => h⟩, fun id h => ?_, hqueued, fun _ => rfl, rfl, rfl⟩
  exact h.elim (hknown id) fun h => h

theorem Ledger.booked_move (h : Ledger cfg.pool c) (hmem : th ∈ c.threads)
    (hlive : th.crashed = false) {l : PoolStmt} {t : InvokeInput} {q' : Lease} {s' : InstancePool}
    (hmove : Move cfg.pool th.no t c.store l (leaseOf cfg.pool th) q' s')
    (hpanic : l = .call → t.called.isOk = true) :
    Booked th.no c.store s' (leaseOf cfg.pool th) q' := by
  have hknown := h.known th hmem hlive
  have hpos : ∀ p : Lease → Bool, p (leaseOf cfg.pool th) = true →
      0 < countLeases cfg.pool c.threads p := fun p hp => countLeases_pos hmem hlive hp
  generalize hq : leaseOf cfg.pool th = q at hmove hknown hpos
  cases hmove with
  | stay _ _ => exact booked_stay h.queued hknown
  | take hfree hp hidle => exact booked_take h.queued hfree hp hidle
  | enter row hfree => exact booked_enter h.queued hfree row
  | countTaken id =>
    refine booked_countTaken h.queued (hknown id rfl) ?_
    have hpopped := hpos Lease.popped rfl
    have hidle := h.popped
    omega
  | countNew id => exact booked_countNew h.queued (hknown id rfl)
  | panic herr =>
    have hok := hpanic rfl
    rw [herr] at hok
    cases hok
  | @giveBack id p hfree hp =>
    refine booked_giveBack h.queued hfree hp ?_
    rw [h.charged id]
    exact hpos (Lease.charged id) (by simp [Lease.charged])
  | @unknown id hp =>
    have hsome := hknown id rfl
    rw [hp] at hsome
    cases hsome
  | countReturned inst resetOk =>
    obtain ⟨p, hp⟩ := Option.isSome_iff_exists.mp (hknown inst.pluginId rfl)
    refine booked_countReturned h.queued hp ?_
    rw [h.counted]
    exact hpos Lease.counted rfl

theorem Ledger.step (h : Ledger cfg.pool c) {a : Act Int InvokeInput Empty}
    (ha : Lossless cfg.pool c a) : Ledger cfg.pool ((poolSystem cfg).step c a) := by
  have hobeys : Obeys (fun n _ => lease cfg.pool n) (fun _ _ q _ => q = .none)
      ((poolSystem cfg).step c a) := h.obeys.step (fun _ id => follows_invoke id) a
  rcases step_cases (poolSystem cfg) h.obeys a with hsame | ⟨id, rfl, -⟩ |
    ⟨i, t, th, l, w, n, rfl, hth, hlive, hprog, hready, hallows, hstep⟩ |
    ⟨i, th, rfl, hth, hstep⟩ | ⟨e, -, -⟩
  · rw [hsame]
    exact h
  · exact h.start id
  · rw [hstep] at hobeys ⊢
    have hmem := List.mem_of_getElem? hth
    have hnext : leaseOf cfg.pool (System.advance th l t c.store (n t c.store)) =
        (leaseOf cfg.pool th).next l t c.store := phase_advance _ _ _ _ _ _
    have hpanic : l = .call → t.called.isOk = true := by
      rintro rfl
      exact ha th hth (by simp [Thread.upcoming, hprog])
    refine h.booked hth hlive hlive rfl hobeys ?_
    rw [hnext]
    exact h.booked_move hmem hlive (move_of_allows hready hallows) hpanic
  · exact h.crash hth (ha th hth) hstep
  · exact e.elim

/-- While nobody is between the map and the metrics, a call that has an instance holds
it. -/
theorem Ledger.lease_free (h : Ledger cfg.pool c) (hfree : c.store.holder = none)
    (hmem : th ∈ c.threads) (hlive : th.crashed = false) :
    leaseOf cfg.pool th = .none ∨ ∃ id, leaseOf cfg.pool th = .held id := by
  have hlock := h.lock th hmem hlive
  cases hq : leaseOf cfg.pool th with
  | none => exact Or.inl rfl
  | held id => exact Or.inr ⟨id, rfl⟩
  | taking id cold =>
    rw [hq, hfree] at hlock
    cases hlock rfl
  | returning id =>
    rw [hq, hfree] at hlock
    cases hlock rfl

/-- Two classes that agree on calls without an instance and on those that hold one have
the same size. -/
theorem Ledger.countLeases_congr (h : Ledger cfg.pool c) (hfree : c.store.holder = none)
    {p' : Lease → Bool} (hnone : p .none = p' .none)
    (hheld : ∀ id, (c.store.pools.lookup id).isSome = true → p (.held id) = p' (.held id)) :
    countLeases cfg.pool c.threads p = countLeases cfg.pool c.threads p' := by
  refine List.countP_congr fun th hmem => ?_
  cases hlive : th.crashed with
  | true => simp
  | false =>
    rcases h.lease_free hfree hmem hlive with hq | ⟨id, hq⟩
    · rw [hq, hnone]
    · have hknown := h.known th hmem hlive id
      rw [hq] at hknown
      rw [hq, hheld id (hknown rfl)]

theorem Ledger.inUseTotal_eq (h : Ledger cfg.pool c) (hfree : c.store.holder = none) :
    c.store.inUseTotal = handedOut cfg.pool c := by
  have hkeys : c.store.inUseTotal =
      (c.store.pools.keys.map fun id => countLeases cfg.pool c.threads (Lease.charged id)).sum := by
    unfold InstancePool.inUseTotal
    rw [HashMap.total_eq]
    exact congrArg List.sum (List.map_congr_left fun id _ => h.charged id)
  have hone : ∀ id id' (th : CallThread),
      (!th.crashed && (leaseOf cfg.pool th).charged id) = true →
      (!th.crashed && (leaseOf cfg.pool th).charged id') = true → id = id' := by
    intro id id' th hid hid'
    cases hq : leaseOf cfg.pool th <;> simp_all [Lease.charged]
  have hnodup : c.store.pools.keys.Nodup := c.store.pools.nodupKeys
  have hsum := sum_countP (fun id (th : CallThread) => !th.crashed && (leaseOf cfg.pool th).charged id)
    hone hnodup c.threads
  have hany : (c.threads.countP fun th => c.store.pools.keys.any fun id =>
      !th.crashed && (leaseOf cfg.pool th).charged id) =
      countLeases cfg.pool c.threads fun q => c.store.pools.keys.any fun id => q.charged id := by
    refine List.countP_congr fun th _ => ?_
    cases th.crashed <;> simp
  rw [hkeys]
  refine (hsum.trans hany).trans (h.countLeases_congr hfree (by simp [Lease.charged, Lease.plugin?])
    fun id hid => ?_)
  have hmem : id ∈ c.store.pools.keys := AList.mem_keys.mp (AList.lookup_isSome.mp hid)
  simp only [Lease.charged, Lease.plugin?, Option.isSome_some, List.any_eq_true, decide_eq_true_eq]
  exact ⟨id, hmem, rfl⟩

/-- The counters are those of the instances. -/
structure Agree (cfg : PoolConfig) (c : CallPool) : Prop where
  handedOut : c.store.metrics.inUse = handedOut cfg c
  perPlugin : c.store.metrics.inUse = c.store.inUseTotal
  idle : c.store.metrics.idle = c.store.idleTotal

theorem Ledger.agree (h : Ledger cfg.pool c) (hfree : c.store.holder = none) :
    Agree cfg.pool c := by
  have hout : c.store.metrics.inUse = handedOut cfg.pool c :=
    h.counted.trans (h.countLeases_congr hfree rfl fun _ _ => rfl)
  have hpopped : countLeases cfg.pool c.threads Lease.popped = 0 := by
    have hempty : countLeases cfg.pool c.threads Lease.popped =
        countLeases cfg.pool c.threads fun _ => false :=
      h.countLeases_congr hfree rfl fun _ _ => rfl
    rw [hempty]
    simp [countLeases]
  have hidle := h.popped
  rw [hpopped] at hidle
  exact ⟨hout, hout.trans (h.inUseTotal_eq hfree).symm, hidle⟩

theorem ledger_init (cfg : PoolConfig) : Ledger cfg { threads := [], store := {} } where
  obeys := nofun
  numbered := nofun
  lock := nofun
  known := nofun
  queued := nofun
  charged := fun _ => rfl
  counted := rfl
  popped := rfl

/-- In every run of plugin calls from an empty pool in which no call is dropped while it
has an instance and no blocking call panics, the counters are those of the instances
whenever the lock of the map is free. -/
theorem counters_agree (hreach : (poolSystem cfg).Reach (Lossless cfg.pool)
      { threads := [], store := {} } c)
    (hfree : c.store.holder = none) : Agree cfg.pool c := by
  have hledger : Ledger cfg.pool c :=
    hreach.inv (ledger_init cfg.pool) fun _ _ h ha => h.step ha
  exact hledger.agree hfree

end Runs

/-! ### One call, dropped or not -/

/-- A deployment in which every binary has the digest its row says. -/
def trusting : InvokeConfig := { pool := {}, sha256 := fun _ => "d1" }

def pluginSeven : Plugin :=
  { id := 7, identifier := "seven", name := "Seven", description := none, manifest := none
    runtime := "extism", version := "1.0.0", author := none, repositoryUrl := none
    s3Key := "plugins/seven/1.0.0.wasm", sha256 := "d1", sizeBytes := 4, categoryId := none
    createdAt := 0, updatedAt := 0, deletedAt := none }

/-- Everything a call of plugin 7 asks for is there. -/
def seven : InvokeInput := { row := .ok (some pluginSeven) }

/-- A call of plugin 7 is started and makes `n` statements. -/
def callSeven (n : Nat) : List (Act Int InvokeInput Empty) :=
  .start 7 :: List.replicate n (.move 0 seven)

/-- The pool after `acts`. -/
def poolAfter (acts : List (Act Int InvokeInput Empty)) : CallPool :=
  (poolSystem trusting).run { threads := [], store := {} } acts

/-- A call that ends in peace leaves one idle instance and nothing in use. -/
theorem counters_after_call :
    Agree trusting.pool (poolAfter (callSeven 9)) ∧
      (poolAfter (callSeven 9)).store.metrics.idle = 1 := by
  have hmeets : (poolSystem trusting).Meets (Lossless trusting.pool) { threads := [], store := {} }
      (callSeven 9) := by decide +kernel
  exact ⟨counters_agree (System.reach_run hmeets) (by decide +kernel), by decide +kernel⟩

/-- The call is dropped while the plugin runs, or the plugin panics. -/
def lostCalls : List (List (Act Int InvokeInput Empty)) :=
  [callSeven 6 ++ [.crash 0], callSeven 6 ++ [.move 0 { called := .error "task panicked" }]]

/-- Such a call is counted for ever: nothing is under way or handed out any more, and both
records say that one instance is. -/
theorem lost_call_in_use :
    lostCalls.length = 2 ∧
      ∀ acts ∈ lostCalls, (poolAfter acts).Quiet ∧ (poolAfter acts).store.holder = none ∧
        handedOut trusting.pool (poolAfter acts) = 0 ∧
        (poolAfter acts).store.metrics.inUse = 1 ∧ (poolAfter acts).store.inUseTotal = 1 := by
  decide +kernel

end HiveClaw.Instances
