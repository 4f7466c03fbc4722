import HiveClaw.Lib.Pool
import HiveClaw.RustStd
import HiveClaw.Store.Tables

/-!
# The pool of plugin instances

`InstancePool` of `crates/hiveweb/src/runtime/pool.rs` and `Invoker::invoke` of
`runtime/invoker.rs`, cut at their awaits. A call may be dropped at each of them.

The map of the pools (`inner`) and the metrics have a lock each. A call that changes
both holds the lock of the map while it waits for that of the metrics; `holder` says
who holds it. If that call is dropped, its guard is, and the lock is free again. The
lock of the metrics is never held across an await.

The instance itself is nothing the pool looks at. What the database, the object
store, the compiler and the plugin answer is the input of a statement.
-/

namespace HiveClaw.Instances

open Lib

/-! ## The state -/

/-- `PooledPlugin`, for what the pool reads of it; `last_used` is only written. -/
structure PooledPlugin where
  pluginId : Int
deriving DecidableEq, Repr

-- `PluginPool`
structure PluginPool where
  pluginId : Int
  identifier : String
  version : String
  idle : List PooledPlugin := []
  inUse : Nat := 0
  cacheMisses : Nat := 0
deriving DecidableEq, Repr

/-- An instance more in use, which was not idle. -/
def PluginPool.countMiss (p : PluginPool) : PluginPool :=
  { p with inUse := p.inUse + 1, cacheMisses := p.cacheMisses + 1 }

-- `PoolMetrics`
structure PoolMetrics where
  inUse : Nat := 0
  idle : Nat := 0
  createdTotal : Nat := 0
  cacheMisses : Nat := 0
  waitCount : Nat := 0
  resetFailures : Nat := 0
deriving DecidableEq, Repr

/-- `PoolConfig`, for what the pool reads of it. -/
structure PoolConfig where
  maxPerPlugin : Nat := 8
  maxTotal : Nat := 64
  callTimeoutMs : Nat := 33000

-- `InstancePool`
structure InstancePool where
  pools : HashMap Int PluginPool := ∅
  metrics : PoolMetrics := {}
  holder : Option Nat := none

namespace InstancePool

/-- The first idle instance of a plugin. -/
def firstIdle (s : InstancePool) (id : Int) : Option PooledPlugin :=
  (s.pools.lookup id).bind fun p => p.idle.head?

/-- `try_acquire_idle` up to the lock of the metrics: call `n` takes the first idle
instance. -/
def takeIdle (s : InstancePool) (n : Nat) (id : Int) : InstancePool :=
  match s.pools.lookup id with
  | none => s
  | some p =>
    match p.idle with
    | [] => s
    | _ :: rest =>
      { s with
        pools := s.pools.insert id { p with idle := rest, inUse := p.inUse + 1 }
        holder := some n }

/-- The rest of `try_acquire_idle`. -/
def countTaken (s : InstancePool) : InstancePool :=
  { s with
    metrics := { s.metrics with inUse := s.metrics.inUse + 1, idle := s.metrics.idle - 1 }
    holder := none }

-- `map.entry(row.id).or_insert_with(…)`
def entry (s : InstancePool) (row : Plugin) : PluginPool :=
  (s.pools.lookup row.id).getD
    { pluginId := row.id, identifier := row.identifier, version := row.version }

/-- The end of `acquire` up to the lock of the metrics: call `n` has a new instance. -/
def enterNew (s : InstancePool) (n : Nat) (row : Plugin) : InstancePool :=
  { s with pools := s.pools.insert row.id (s.entry row).countMiss, holder := some n }

/-- The rest of `acquire`. -/
def countNew (s : InstancePool) : InstancePool :=
  { s with
    metrics := { s.metrics with
      inUse := s.metrics.inUse + 1
      createdTotal := s.metrics.createdTotal + 1
      cacheMisses := s.metrics.cacheMisses + 1 }
    holder := none }

/-- `release` up to the lock of the metrics. -/
def giveBack (s : InstancePool) (n : Nat) (id : Int) : InstancePool :=
  match s.pools.lookup id with
  | none => s
  | some p =>
    { s with pools := s.pools.insert id { p with inUse := p.inUse - 1 }, holder := some n }

/-- The rest of `release`: the instance goes to the end of the queue if it could be reset
and the queue is not full. -/
def countReturned (s : InstancePool) (cfg : PoolConfig) (inst : PooledPlugin) (resetOk : Bool) :
    InstancePool :=
  let m := { s.metrics with inUse := s.metrics.inUse - 1 }
  match s.pools.lookup inst.pluginId with
  | none => { s with holder := none }
  | some p =>
    if resetOk ∧ p.idle.length < cfg.maxPerPlugin then
      { pools := s.pools.insert inst.pluginId { p with idle := p.idle ++ [inst] }
        metrics := { m with idle := m.idle + 1 }
        holder := none }
    else
      { s with
        metrics := if resetOk then m else { m with resetFailures := m.resetFailures + 1 }
        holder := none }

end InstancePool

/-! ## Statements -/

inductive PoolStmt where
  | lookup
  | takeIdle (id : Int)
  | countTaken
  | getWasm
  | build
  | enterNew (row : Plugin)
  | countNew
  | call
  | giveBack (id : Int)
  | countReturned (inst : PooledPlugin) (resetOk : Bool)
deriving DecidableEq

/-- What a statement is answered; each reads the field that concerns it. A blocking task
that panics ends in a `JoinError` (the outer `Except`). -/
structure InvokeInput where
  row : Except String (Option Plugin) := .ok none
  wasm : Except String (List UInt8) := .ok []
  built : Except String (Except String Unit) := .ok (.ok ())
  called : Except String (Except String String × Bool) := .ok (.ok "", true)

/-- What the pool is deployed with. -/
structure InvokeConfig where
  pool : PoolConfig
  s3 : Bool := true
  sha256 : List UInt8 → String

-- `PoolError`
inductive PoolError where
  | s3 (message : String)
  | sha256Mismatch
  | compile (message : String)
deriving DecidableEq, Repr

/-- `InvokerError`, without `PoolBusy`, which nothing raises. -/
inductive InvokerError where
  | pluginMissing (id : Int)
  | timeout (ms : Nat)
  | pluginError (message : String)
  | pool (e : PoolError)
deriving DecidableEq, Repr

abbrev PoolM (ε α : Type) := ExceptT ε (Prog PoolStmt InvokeInput InstancePool) α

variable {ε α : Type}

/-- A statement that does not concern the pool. -/
def askOutside (l : PoolStmt) (f : InvokeInput → α) : PoolM ε α :=
  ExceptT.lift (Prog.read l fun i _ => f i)

/-- A section under the lock of the map. -/
def underLock (l : PoolStmt) (answer : InstancePool → α)
    (write : InstancePool → InstancePool) : PoolM ε α :=
  ExceptT.lift (Prog.modify l fun _ s => (answer s, write s))

-- `r?`
def ofExcept (r : Except ε α) : PoolM ε α := ExceptT.mk (pure r)

/-! ## `runtime/pool.rs` -/

-- `try_acquire_idle`
def tryAcquireIdle (n : Nat) (id : Int) : PoolM ε (Option PooledPlugin) := do
  let inst ← underLock (.takeIdle id) (fun s => s.firstIdle id) (·.takeIdle n id)
  if inst.isSome then
    underLock .countTaken (fun _ => ()) (·.countTaken)
    pure inst
  else pure none

/-- `acquire`: the cold start. -/
def coldStart (cfg : InvokeConfig) (n : Nat) (row : Plugin) : PoolM PoolError PooledPlugin := do
  if cfg.s3 = false then
    throw (.s3 "plugin system disabled: S3 client unavailable for cold start")
  else do
    let wasm ← askOutside .getWasm (·.wasm)
    let bytes ← ofExcept (wasm.mapError .s3)
    if cfg.sha256 bytes ≠ row.sha256 then throw .sha256Mismatch
    else do
      let built ← askOutside .build (·.built)
      let compiled ← ofExcept (built.mapError fun e => .compile ("spawn_blocking: " ++ e))
      ofExcept (compiled.mapError .compile)
      underLock (.enterNew row) (fun _ => ()) (·.enterNew n row)
      underLock .countNew (fun _ => ()) (·.countNew)
      pure { pluginId := row.id }

-- `acquire`
def acquire (cfg : InvokeConfig) (n : Nat) (row : Plugin) : PoolM PoolError PooledPlugin := do
  match ← tryAcquireIdle n row.id with
  | some inst => pure inst
  | none => coldStart cfg n row

-- `release`
def release (cfg : InvokeConfig) (n : Nat) (inst : PooledPlugin) (resetOk : Bool) :
    PoolM ε Unit := do
  let known ← underLock (.giveBack inst.pluginId) (fun s => (s.pools.lookup inst.pluginId).isSome)
    (·.giveBack n inst.pluginId)
  if known then
    underLock (.countReturned inst resetOk) (fun _ => ())
      (·.countReturned cfg.pool inst resetOk)
  else pure ()

/-! ## `runtime/invoker.rs` -/

/-- The row the `SELECT … WHERE id = ? AND deleted_at IS NULL` finds. -/
def liveRow (id : Int) (row : Option Plugin) : Option Plugin :=
  row.filter fun p => p.id = id && p.deletedAt.isNone

def outcome (cfg : PoolConfig) : Except String String → Except InvokerError String
  | .ok out => .ok out
  | .error e =>
    if RustStr.contains e "timeout" || RustStr.contains e "fuel" then .error (.timeout cfg.callTimeoutMs)
    else .error (.pluginError e)

/-- `Invoker::invoke` of plugin `pluginId`, as call `n`. -/
def invoke (cfg : InvokeConfig) (n : Nat) (pluginId : Int) : PoolM InvokerError String := do
  let found ← askOutside .lookup (·.row)
  let row ← ofExcept (found.mapError fun e => .pluginError ("plugin lookup: " ++ e))
  match liveRow pluginId row with
  | none => throw (.pluginMissing pluginId)
  | some row => do
    let inst ← ExceptT.adapt InvokerError.pool (acquire cfg n row)
    match ← askOutside .call (·.called) with
    | .error e => throw (.pluginError ("spawn_blocking join: " ++ e))
    | .ok (res, resetOk) => do
      release cfg n inst resetOk
      ofExcept (outcome cfg.pool res)

/-- A section waits for the lock of the map; the sections under the lock of the metrics
belong to the call that holds it. -/
def poolReady (l : PoolStmt) (_ : InvokeInput) (s : InstancePool) : Bool :=
  match l with
  | .takeIdle _ | .enterNew _ | .giveBack _ => s.holder.isNone
  | _ => true

/-- Calls of plugins, interleaved await by await. -/
def poolSystem (cfg : InvokeConfig) :
    System Int PoolStmt InvokeInput InstancePool (Except InvokerError String) Empty where
  program n id := (invoke cfg n id).run
  ready := poolReady
  hangUp n s := if s.holder = some n then { s with holder := none } else s
  outside := nofun

end HiveClaw.Instances
