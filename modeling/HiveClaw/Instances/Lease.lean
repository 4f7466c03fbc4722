import HiveClaw.Instances.Service

/-!
# What a call does to the pool

The phases of a call by the instance it has (`Lease`), and that every call keeps to
them (`follows_invoke`): it takes an idle instance or enters a new one, counts it,
calls it, and gives it back. From here on the pool is reasoned about by the phases of
its calls alone.
-/

namespace HiveClaw.Instances

open Lib

/-- The instance a call has. While it is `taking` or `returning`, the map of the pools
has been changed and the metrics have not. -/
inductive Lease where
  | none
  | taking (id : Int) (cold : Bool)
  | held (id : Int)
  | returning (id : Int)
deriving DecidableEq, Repr

namespace Lease

def plugin? : Lease → Option Int
  | .none => Option.none
  | .taking id _ | .held id | .returning id => some id

/-- The call is between the map and the metrics. -/
def inside : Lease → Bool
  | .taking _ _ | .returning _ => true
  | _ => false

def next : Lease → PoolStmt → InvokeInput → InstancePool → Lease
  | .none, .takeIdle id, _, s =>
    match s.firstIdle id with
    | some inst => .taking inst.pluginId false
    | Option.none => .none
  | .none, .enterNew row, _, _ => .taking row.id true
  | .taking id _, .countTaken, _, _ | .taking id _, .countNew, _, _ => .held id
  | .held id, .call, i, _ =>
    match i.called with
    | .ok _ => .held id
    | .error _ => .none
  | .held id, .giveBack _, _, s => if (s.pools.lookup id).isSome then .returning id else .none
  | .returning _, .countReturned _ _, _, _ => .none
  | q, _, _, _ => q

/-- What a statement of call `n` may do to the pool. -/
def allows (cfg : PoolConfig) (n : Nat) :
    Lease → PoolStmt → InvokeInput → InstancePool → InstancePool → Prop
  | .none, .takeIdle id, _, s, s' => s' = s.takeIdle n id
  | .none, .enterNew row, _, s, s' => s' = s.enterNew n row
  | .taking _ false, .countTaken, _, s, s' => s' = s.countTaken
  | .taking _ true, .countNew, _, s, s' => s' = s.countNew
  | .held id, .giveBack id', _, s, s' => id' = id ∧ s' = s.giveBack n id
  | .returning id, .countReturned inst resetOk, _, s, s' =>
    inst.pluginId = id ∧ s' = s.countReturned cfg inst resetOk
  | .none, .lookup, _, s, s' | .none, .getWasm, _, s, s' | .none, .build, _, s, s' => s' = s
  | .held _, .call, _, s, s' => s' = s
  | _, _, _, _, _ => False

end Lease

/-- The protocol of call `n`. -/
def lease (cfg : PoolConfig) (n : Nat) : Protocol Lease PoolStmt InvokeInput InstancePool :=
  { init := .none, next := Lease.next, allows := Lease.allows cfg n }

/-! ## Calls keep to the protocol -/

section Follows

variable {cfg : InvokeConfig} {n : Nat} {ε α β : Type}

variable {q : Lease} {l : PoolStmt}

theorem stays_askOutside {f : InvokeInput → α}
    (hallows : ∀ i s, (lease cfg.pool n).allows q l i s s) (hnext : ∀ i s, q.next l i s = q) :
    Follows (lease cfg.pool n) (fun q' _ => q' = q) q (askOutside l f : PoolM ε α).run :=
  Follows.lift (follows_read_iff.mpr ⟨hallows, hnext⟩)

theorem stays_ofExcept (r : Except ε α) :
    Follows (lease cfg.pool n) (fun q' _ => q' = q) q (ofExcept r).run :=
  .done rfl

variable {E : Lease → Except ε β → Prop}

theorem follows_underLock_bind {answer : InstancePool → α} {write : InstancePool → InstancePool}
    {f : α → PoolM ε β} (hallows : ∀ i s, (lease cfg.pool n).allows q l i s (write s))
    (hf : ∀ i s, Follows (lease cfg.pool n) E (q.next l i s) (f (answer s)).run) :
    Follows (lease cfg.pool n) E q (underLock l answer write >>= f).run :=
  .stmt hallows hf

theorem follows_tryAcquireIdle_bind {id : Int} {f : Option PooledPlugin → PoolM ε β}
    (hsome : ∀ inst : PooledPlugin,
      Follows (lease cfg.pool n) E (.held inst.pluginId) (f (some inst)).run)
    (hnone : Follows (lease cfg.pool n) E .none (f none).run) :
    Follows (lease cfg.pool n) E .none (tryAcquireIdle n id >>= f).run := by
  have htry : Follows (lease cfg.pool n)
      (fun q r => ∃ o : Option PooledPlugin, r = .ok o ∧
        q = o.elim .none fun inst => .held inst.pluginId)
      .none (tryAcquireIdle n id : PoolM ε (Option PooledPlugin)).run := by
    unfold tryAcquireIdle
    refine follows_underLock_bind (fun _ _ => rfl) fun i s => ?_
    cases hfirst : s.firstIdle id with
    | none =>
      simp only [Lease.next, hfirst]
      exact .done ⟨none, rfl, rfl⟩
    | some inst =>
      simp only [Lease.next, hfirst]
      refine follows_underLock_bind (fun _ _ => rfl) fun _ _ => ?_
      exact .done ⟨some inst, rfl, rfl⟩
  refine htry.bindE ?_ ?_
  · rintro q e ⟨o, ho, -⟩
    cases ho
  · rintro q o ⟨o', ho, rfl⟩
    rw [Except.ok.inj ho]
    cases o' with
    | none => exact hnone
    | some inst => exact hsome inst

theorem follows_coldStart (row : Plugin) :
    Follows (lease cfg.pool n)
      (fun q r => (∀ e, r = .error e → q = .none) ∧
        ∀ inst, r = .ok inst → q = .held inst.pluginId)
      .none (coldStart cfg n row).run := by
  have herr : ∀ e : PoolError, (∀ e', (Except.error e : Except PoolError PooledPlugin) = .error e' →
      Lease.none = Lease.none) ∧ ∀ inst : PooledPlugin,
        (Except.error e : Except PoolError PooledPlugin) = .ok inst → Lease.none = .held inst.pluginId :=
    fun e => ⟨fun _ _ => rfl, nofun⟩
  unfold coldStart
  split
  · exact .done (herr _)
  · refine Follows.stay_bind (stays_askOutside (fun _ _ => rfl) fun _ _ => rfl) herr fun wasm => ?_
    refine (stays_ofExcept _).stay_bind herr fun bytes => ?_
    split
    · exact .done (herr _)
    · refine Follows.stay_bind (stays_askOutside (fun _ _ => rfl) fun _ _ => rfl) herr fun built => ?_
      refine (stays_ofExcept _).stay_bind herr fun compiled => ?_
      refine (stays_ofExcept _).stay_bind herr fun _ => ?_
      refine follows_underLock_bind (fun _ _ => rfl) fun _ _ => ?_
      refine follows_underLock_bind (fun _ _ => rfl) fun _ _ => ?_
      refine .done ⟨nofun, fun inst h => ?_⟩
      rw [← Except.ok.inj h]
      rfl

/-- After `acquire` the call holds the instance it was given, or none after an error. -/
theorem follows_acquire (row : Plugin) :
    Follows (lease cfg.pool n)
      (fun q r => (∀ e, r = .error e → q = .none) ∧
        ∀ inst, r = .ok inst → q = .held inst.pluginId)
      .none (acquire cfg n row).run := by
  unfold acquire
  refine follows_tryAcquireIdle_bind (fun inst => ?_) (follows_coldStart row)
  refine .done ⟨nofun, fun inst' h => ?_⟩
  rw [← Except.ok.inj h]

/-- After `release` the call holds nothing. -/
theorem follows_release (inst : PooledPlugin) (resetOk : Bool) :
    Follows (lease cfg.pool n) (fun q _ => q = .none) (.held inst.pluginId)
      (release cfg n inst resetOk : PoolM ε Unit).run := by
  unfold release
  refine follows_underLock_bind (fun _ _ => ⟨rfl, rfl⟩) fun i s => ?_
  cases hknown : (s.pools.lookup inst.pluginId).isSome with
  | false =>
    simp only [Lease.next, hknown]
    exact .done rfl
  | true =>
    simp only [Lease.next, hknown, if_true]
    exact Follows.lift (follows_modify_iff.mpr ⟨fun _ _ => ⟨rfl, rfl⟩, fun _ _ => rfl⟩)

/-- A whole call keeps to the lease and ends with nothing held. -/
theorem follows_invoke (pluginId : Int) :
    Follows (lease cfg.pool n) (fun q _ => q = .none) .none (invoke cfg n pluginId).run := by
  unfold invoke
  refine Follows.stay_bind (stays_askOutside (fun _ _ => rfl) fun _ _ => rfl) (fun _ => rfl)
    fun found => ?_
  refine (stays_ofExcept _).stay_bind (fun _ => rfl) fun row => ?_
  split
  · exact .done rfl
  · rename_i row _
    have hacquire : Follows (lease cfg.pool n)
        (fun q r => (∀ e, r = .error e → q = .none) ∧
          ∀ inst, r = .ok inst → q = .held inst.pluginId)
        .none (ExceptT.adapt InvokerError.pool (acquire cfg n row)).run := by
      refine Follows.adapt ((follows_acquire row).mono fun q r h => ?_)
      cases r with
      | error e => exact ⟨fun _ _ => h.1 e rfl, nofun⟩
      | ok inst => exact ⟨nofun, fun _ hi => h.2 _ (congrArg _ (Except.ok.inj hi))⟩
    refine hacquire.bindE (fun q e h => h.1 e rfl) fun q inst h => ?_
    rw [h.2 inst rfl]
    -- the call: a panic loses the instance
    refine Follows.stmt (fun _ _ => rfl) fun i s => ?_
    cases hcalled : i.called with
    | error e =>
      simp only [lease, Lease.next, hcalled]
      exact .done rfl
    | ok r =>
      simp only [lease, Lease.next, hcalled]
      exact (follows_release inst r.2).bindE (fun _ _ h => h) fun q _ h => .done h

end Follows

/-! ## One statement -/

/-- What statement `l` of call `n` does. -/
inductive Move (cfg : PoolConfig) (n : Nat) (i : InvokeInput) (s : InstancePool) :
    PoolStmt → Lease → Lease → InstancePool → Prop
  | stay {l : PoolStmt} (q : Lease) (hl : ∀ row, l ≠ .enterNew row) : Move cfg n i s l q q s
  | take {id : Int} {p : PluginPool} {inst : PooledPlugin} {rest : List PooledPlugin}
      (hfree : s.holder = none) (hp : s.pools.lookup id = some p) (hidle : p.idle = inst :: rest) :
      Move cfg n i s (.takeIdle id) .none (.taking inst.pluginId false) (s.takeIdle n id)
  | enter (row : Plugin) (hfree : s.holder = none) :
      Move cfg n i s (.enterNew row) .none (.taking row.id true) (s.enterNew n row)
  | countTaken (id : Int) : Move cfg n i s .countTaken (.taking id false) (.held id) s.countTaken
  | countNew (id : Int) : Move cfg n i s .countNew (.taking id true) (.held id) s.countNew
  | panic {id : Int} {e : String} (h : i.called = .error e) : Move cfg n i s .call (.held id) .none s
  | giveBack {id : Int} {p : PluginPool} (hfree : s.holder = none)
      (hp : s.pools.lookup id = some p) :
      Move cfg n i s (.giveBack id) (.held id) (.returning id) (s.giveBack n id)
  | unknown {id : Int} (hp : s.pools.lookup id = none) :
      Move cfg n i s (.giveBack id) (.held id) .none s
  | countReturned (inst : PooledPlugin) (resetOk : Bool) :
      Move cfg n i s (.countReturned inst resetOk) (.returning inst.pluginId) .none
        (s.countReturned cfg inst resetOk)

section Allowed

variable {cfg : PoolConfig} {n : Nat} {l : PoolStmt} {i : InvokeInput} {s s' : InstancePool}
  {id : Int}

theorem move_none (hready : poolReady l i s = true) (h : Lease.none.allows cfg n l i s s') :
    Move cfg n i s l .none (Lease.none.next l i s) s' := by
  cases l with
  | lookup =>
    obtain rfl : s' = s := h
    exact .stay .none (by simp)
  | getWasm =>
    obtain rfl : s' = s := h
    exact .stay .none (by simp)
  | build =>
    obtain rfl : s' = s := h
    exact .stay .none (by simp)
  | enterNew row =>
    obtain rfl : s' = s.enterNew n row := h
    exact .enter row (Option.isNone_iff_eq_none.mp hready)
  | takeIdle id =>
    obtain rfl : s' = s.takeIdle n id := h
    cases hp : s.pools.lookup id with
    | none =>
      simp only [Lease.next, InstancePool.firstIdle, InstancePool.takeIdle, hp, Option.bind_none]
      exact .stay .none (by simp)
    | some p =>
      cases hidle : p.idle with
      | nil =>
        simp only [Lease.next, InstancePool.firstIdle, InstancePool.takeIdle, hp, hidle,
          Option.bind_some, List.head?_nil]
        exact .stay .none (by simp)
      | cons inst rest =>
        have hnext : Lease.none.next (.takeIdle id) i s = .taking inst.pluginId false := by
          simp [Lease.next, InstancePool.firstIdle, hp, hidle]
        rw [hnext]
        exact .take (Option.isNone_iff_eq_none.mp hready) hp hidle
  | countTaken => exact False.elim h
  | countNew => exact False.elim h
  | call => exact False.elim h
  | giveBack id => exact False.elim h
  | countReturned inst resetOk => exact False.elim h

/-- Who takes an instance over counts it as the kind of start it was. -/
theorem move_taking {cold : Bool} (h : (Lease.taking id cold).allows cfg n l i s s') :
    Move cfg n i s l (.taking id cold) ((Lease.taking id cold).next l i s) s' := by
  cases l with
  | countTaken =>
    cases cold with
    | true => exact False.elim h
    | false =>
      obtain rfl : s' = s.countTaken := h
      exact .countTaken id
  | countNew =>
    cases cold with
    | false => exact False.elim h
    | true =>
      obtain rfl : s' = s.countNew := h
      exact .countNew id
  | _ => cases cold <;> exact False.elim h

/-- A holder keeps its instance or starts giving it back. -/
theorem move_held (hready : poolReady l i s = true) (h : (Lease.held id).allows cfg n l i s s') :
    Move cfg n i s l (.held id) ((Lease.held id).next l i s) s' := by
  cases l with
  | call =>
    obtain rfl : s' = s := h
    cases hcalled : i.called with
    | ok r =>
      simp only [Lease.next, hcalled]
      exact .stay _ (by simp)
    | error e =>
      simp only [Lease.next, hcalled]
      exact .panic hcalled
  | giveBack id' =>
    obtain ⟨rfl, rfl⟩ := h
    cases hp : s.pools.lookup id' with
    | none =>
      simp only [Lease.next, InstancePool.giveBack, hp, Option.isSome_none, Bool.false_eq_true,
        if_false]
      exact .unknown hp
    | some p =>
      have hnext : (Lease.held id').next (.giveBack id') i s = .returning id' := by
        simp [Lease.next, hp]
      rw [hnext]
      exact .giveBack (Option.isNone_iff_eq_none.mp hready) hp
  | _ => exact False.elim h

theorem move_returning (h : (Lease.returning id).allows cfg n l i s s') :
    Move cfg n i s l (.returning id) ((Lease.returning id).next l i s) s' := by
  cases l with
  | countReturned inst resetOk =>
    obtain ⟨rfl, rfl⟩ := h
    exact .countReturned inst resetOk
  | _ => exact False.elim h

/-- Whatever the lease allows is one of the moves. -/
theorem move_of_allows {q : Lease} (hready : poolReady l i s = true)
    (h : q.allows cfg n l i s s') : Move cfg n i s l q (q.next l i s) s' := by
  cases q with
  | none => exact move_none hready h
  | taking id cold => exact move_taking h
  | held id => exact move_held hready h
  | returning id => exact move_returning h

end Allowed

end HiveClaw.Instances
