import HiveClaw.Instances.Counters

/-!
# The limits of the pool

Whether `max_per_plugin` and `max_total` bound the live instances. `release` compares the
queue of the plugin with `max_per_plugin`; nothing compares anything before a cold start,
and `max_total` is read nowhere. Live instances become more only where a call enters a new
one (`Move.live`), so the limits hold exactly as long as every call that does so finds
room (`bounded_iff_hasRoom`). Here calls may be dropped and may panic.
-/

namespace HiveClaw.Instances

open Lib

/-! ## Live instances -/

namespace Lease

/-- The call has an instance of the plugin. -/
def isOf (id : Int) (q : Lease) : Bool := q.plugin? = some id

def isSome (q : Lease) : Bool := q.plugin?.isSome

end Lease

/-- The live instances of a plugin: those that calls have, and the idle ones. -/
def liveOf (cfg : PoolConfig) (c : CallPool) (id : Int) : Nat :=
  countLeases cfg c.threads (Lease.isOf id) + c.store.idleOf id

/-- The live instances of all plugins. -/
def liveTotal (cfg : PoolConfig) (c : CallPool) : Nat :=
  countLeases cfg c.threads Lease.isSome + c.store.idleTotal

/-- In this step a call enters a new instance of the plugin. -/
def Enters (c : CallPool) : Act Int InvokeInput Empty → Int → Prop
  | .move i _, id => ∃ th row, c.threads[i]? = some th ∧ th.crashed = false ∧
      c.store.holder = none ∧ th.upcoming = some (.enterNew row) ∧ row.id = id
  | _, _ => False

/-- If the step enters a new instance, there is room for it. -/
def HasRoom (cfg : PoolConfig) (c : CallPool) (a : Act Int InvokeInput Empty) : Prop :=
  ∀ id, Enters c a id → liveOf cfg c id < cfg.maxPerPlugin ∧ liveTotal cfg c < cfg.maxTotal

/-! ## One statement -/

section Statement

variable {cfg : PoolConfig} {n : Nat} {i : InvokeInput} {s s' : InstancePool} {l : PoolStmt}
  {q q' : Lease}

theorem idle_insert (s : InstancePool) (id : Int) (p : PluginPool) (m : PoolMetrics)
    (holder : Option Nat) :
    (∀ id', InstancePool.idleOf { pools := s.pools.insert id p, metrics := m, holder := holder } id' =
      if id' = id then p.idle.length else s.idleOf id') ∧
    InstancePool.idleTotal { pools := s.pools.insert id p, metrics := m, holder := holder } +
      s.idleOf id = s.idleTotal + p.idle.length := by
  constructor
  · intro id'
    unfold InstancePool.idleOf
    rw [HashMap.lookup_insert_ite]
    split <;> rfl
  · exact HashMap.total_insert (·.idle.length) s.pools id p

/-- The bookkeeping of an instance that is not new: what a queue gains the call loses. -/
structure Passed (s s' : InstancePool) (q q' : Lease) : Prop where
  queued : s'.WellQueued
  perPlugin : ∀ id, s'.idleOf id + (q'.isOf id).toNat ≤ s.idleOf id + (q.isOf id).toNat
  total : s'.idleTotal + q'.isSome.toNat ≤ s.idleTotal + q.isSome.toNat

variable {p : PluginPool}

theorem passed_take {id : Int} {inst : PooledPlugin} {rest : List PooledPlugin}
    (hqueued : s.WellQueued) (hp : s.pools.lookup id = some p) (hidle : p.idle = inst :: rest) :
    Passed s (s.takeIdle n id) .none (.taking inst.pluginId false) := by
  have hinst : inst.pluginId = id := hqueued id p hp inst (by rw [hidle]; exact List.mem_cons_self)
  have hlen : s.idleOf id = rest.length + 1 := by simp [InstancePool.idleOf, hp, hidle]
  rw [InstancePool.takeIdle_eq hp hidle, hinst]
  obtain ⟨hof, htotal⟩ := idle_insert s id { p with idle := rest, inUse := p.inUse + 1 } s.metrics
    (some n)
  refine ⟨wellQueued_insert hqueued (fun inst' h => ?_) _ _, fun id' => ?_, ?_⟩
  · exact hqueued id p hp inst' (by rw [hidle]; exact List.mem_cons_of_mem _ h)
  · rw [hof]
    split
    · rename_i hid
      subst hid
      simp [Lease.isOf, Lease.plugin?, hlen]
    · rename_i hid
      simp [Lease.isOf, Lease.plugin?, Ne.symm hid]
  · show _ + 1 ≤ s.idleTotal + 0
    dsimp only at htotal
    omega

theorem passed_giveBack {id : Int} (hqueued : s.WellQueued) (hp : s.pools.lookup id = some p) :
    Passed s (s.giveBack n id) (.held id) (.returning id) := by
  have hlen : s.idleOf id = p.idle.length := by simp [InstancePool.idleOf, hp]
  rw [InstancePool.giveBack_eq hp]
  obtain ⟨hof, htotal⟩ := idle_insert s id { p with inUse := p.inUse - 1 } s.metrics (some n)
  refine ⟨wellQueued_insert hqueued ?_ _ _, fun id' => ?_, ?_⟩
  · exact hqueued id p hp
  · rw [hof]
    split
    · rename_i hid
      subst hid
      exact le_of_eq (congrArg (· + _) hlen.symm)
    · exact le_refl _
  · show _ + 1 ≤ s.idleTotal + 1
    dsimp only at htotal
    omega

theorem passed_countReturned (hqueued : s.WellQueued) (inst : PooledPlugin) (resetOk : Bool) :
    Passed s (s.countReturned cfg inst resetOk) (.returning inst.pluginId) .none := by
  -- the instance is dropped
  have hdrop : ∀ m : PoolMetrics, Passed s { s with metrics := m, holder := none }
      (.returning inst.pluginId) .none := by
    intro m
    exact ⟨hqueued, fun _ => Nat.le_add_right _ _, Nat.le_add_right _ _⟩
  unfold InstancePool.countReturned
  cases hp : s.pools.lookup inst.pluginId with
  | none => exact hdrop _
  | some p =>
    dsimp only
    split
    · have hlen : s.idleOf inst.pluginId = p.idle.length := by simp [InstancePool.idleOf, hp]
      obtain ⟨hof, htotal⟩ := idle_insert s inst.pluginId { p with idle := p.idle ++ [inst] }
        { s.metrics with inUse := s.metrics.inUse - 1, idle := s.metrics.idle + 1 } none
      refine ⟨wellQueued_insert hqueued (fun inst' h => ?_) _ _, fun id' => ?_, ?_⟩
      · rcases List.mem_append.mp h with h | h
        · exact hqueued _ p hp inst' h
        · rw [List.mem_singleton.mp h]
      · rw [hof]
        split
        · rename_i hid
          subst hid
          simp [Lease.isOf, Lease.plugin?, hlen]
        · exact Nat.le_add_right _ _
      · show _ + 0 ≤ s.idleTotal + 1
        simp only [List.length_append, List.length_singleton] at htotal
        omega
    · exact hdrop _

theorem Move.live (h : Move cfg n i s l q q' s') (hqueued : s.WellQueued) :
    (∃ row, l = .enterNew row ∧ s.holder = none ∧ q = .none ∧ q' = .taking row.id true ∧
      s' = s.enterNew n row) ∨
    (∀ row, l ≠ .enterNew row) ∧ Passed s s' q q' := by
  -- the pool stays as it is and the call has no more than before
  have hkeep : ∀ q₂ : Lease, Passed s s q₂ .none :=
    fun _ => ⟨hqueued, fun _ => Nat.le_add_right _ _, Nat.le_add_right _ _⟩
  cases h with
  | stay _ hl => exact Or.inr ⟨hl, hqueued, fun _ => le_refl _, le_refl _⟩
  | take _ hp hidle => exact Or.inr ⟨by simp, passed_take hqueued hp hidle⟩
  | enter row hfree => exact Or.inl ⟨row, rfl, hfree, rfl, rfl, rfl⟩
  | countTaken id => exact Or.inr ⟨by simp, hqueued, fun _ => le_refl _, le_refl _⟩
  | countNew id => exact Or.inr ⟨by simp, hqueued, fun _ => le_refl _, le_refl _⟩
  | panic _ => exact Or.inr ⟨by simp, hkeep _⟩
  | giveBack _ hp => exact Or.inr ⟨by simp, passed_giveBack hqueued hp⟩
  | unknown _ => exact Or.inr ⟨by simp, hkeep _⟩
  | countReturned inst resetOk => exact Or.inr ⟨by simp, passed_countReturned hqueued inst resetOk⟩

end Statement

/-! ## One step -/

/-- What every run keeps, whatever is lost in it. -/
structure LimitInv (cfg : PoolConfig) (c : CallPool) : Prop where
  obeys : Obeys (fun n _ => lease cfg n) (fun _ _ q _ => q = .none) c
  queued : c.store.WellQueued

section Step

variable {cfg : InvokeConfig} {c : CallPool}

variable {i : Nat} {th : CallThread}

variable {th' : CallThread}

variable {a : Act Int InvokeInput Empty}

theorem LimitInv.step (h : LimitInv cfg.pool c) (a : Act Int InvokeInput Empty) :
    LimitInv cfg.pool ((poolSystem cfg).step c a) := by
  refine ⟨h.obeys.step (fun _ id => follows_invoke id) a, ?_⟩
  rcases step_cases (poolSystem cfg) h.obeys a with hsame | ⟨id, -, hstep⟩ |
    ⟨i, t, th, l, w, n, -, hth, hlive, hprog, hready, hallows, hstep⟩ |
    ⟨i, th, -, hth, hstep⟩ | ⟨e, -, -⟩
  · rw [hsame]
    exact h.queued
  · rw [hstep]
    exact h.queued
  · rw [hstep]
    rcases (move_of_allows hready hallows).live h.queued with ⟨row, -, -, -, -, hs⟩ | ⟨-, hpassed⟩
    · dsimp only
      rw [hs]
      exact wellQueued_enterNew h.queued row
    · exact hpassed.queued
  · rw [hstep]
    unfold InstancePool.WellQueued
    rw [pools_hangUp]
    exact h.queued
  · exact e.elim

end Step

/-! ## Every run -/

section Runs

variable {cfg : InvokeConfig}

end Runs

/-! ### Two cold starts -/

end HiveClaw.Instances
