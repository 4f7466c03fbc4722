import HiveClaw.Cron.Service
import HiveClaw.Lib.Runs

/-!
# The timer

`CronService` of `crates/cron/src/service.rs` with its timer task: `start`, `stop`, `run_job`, the
calls that change the jobs, and the tick (`arm_timer` and `on_timer`). The unit of interleaving is
one section under the lock of the service. Handlers run without it.

`arm_timer` and `stop` abort the task of the handle they find. An abort takes effect when the task
waits; a task that is just being polled runs on until then, without its handle (`orphans`).

The store file is read back as it was saved (`Cron.ActionLog`), no other process uses it, and the
version is left out.
-/

namespace HiveClaw.Cron

/-! ## Tasks and calls under way -/

/-- Where a timer task is. `between` is in the loop over the due jobs, `returned` after the handler
with the job as `execute_job` left it. -/
inductive TickStage
  | sleeping
  | chosen
  | between (due : List CronJob)
  | executing (job : CronJob) (rest : List CronJob)
  | returned (job : CronJob) (rest : List CronJob)
  | finished
deriving DecidableEq

structure Tick where
  stage : TickStage := .sleeping
  polled : Bool := false
deriving DecidableEq

namespace Tick

/-- The job whose execution is under way. -/
def current? (t : Tick) : Option CronJob :=
  match t.stage with
  | .executing job _ | .returned job _ => some job
  | _ => none

/-- The due jobs that are still to be executed. -/
def pending (t : Tick) : List CronJob :=
  match t.stage with
  | .between due => due
  | .executing _ rest | .returned _ rest => rest
  | _ => []

/-- The jobs that the task works on. -/
def held (t : Tick) : List CronJob := t.current?.toList ++ t.pending

/-- `on_timer` has begun and is not over. -/
def Begun (t : Tick) : Prop :=
  match t.stage with
  | .between _ | .executing _ _ | .returned _ _ => True
  | _ => False

end Tick

/-- A call of `run_job` whose handler has been invoked. -/
structure RunCall where
  job : CronJob
  returned : Bool := false
  wasRunning : Bool
deriving DecidableEq

/-- An invocation of the handler: for which job, by a tick or by a call of `run_job`, and whether
the service was started at that time, that is, `start` was called and `stop` not since. -/
structure Invocation where
  job : String
  byTick : Bool
  started : Bool
deriving DecidableEq, Repr

/-- `Inner` with the tasks and the calls under way. -/
structure CronService where
  disk : List CronJob := []
  store : Option (List CronJob) := none
  running : Bool := false
  timerActive : Bool := false
  timer : Option Tick := none
  orphans : List Tick := []
  calls : List RunCall := []
  started : Bool := false
  invoked : List Invocation := []

inductive TickAct
  | resume
  | suspend
  | wake
  | begin (now : Int64)
  | invoke
  | returns (error : Option String) (start stop now : Int64)
  | writeBack
  | finish

/-- What happens next. The task of the handle is `none`, the others are numbered. -/
inductive Event
  | start (now : Int64)
  | stop
  | runJob (id : String) (force : Bool)
  | runReturns (k : Nat) (error : Option String) (start stop now : Int64)
  | runFinish (k : Nat)
  | tick (who : Option Nat) (act : TickAct)
  | call (call : Call)
  | register (job : CronJob) (now : Int64)

namespace CronService

variable (env : CronEnv) (s : CronService)

/-! ## The store -/

-- `load_store`
def load : CronService :=
  if s.timerActive ∧ s.store.isSome then s else { s with store := some s.disk }

-- `save_store`
def save : CronService :=
  match s.store with
  | some jobs => { s with disk := jobs.map CronJob.written }
  | none => s

def withJobs (f : List CronJob → List CronJob) : CronService := { s with store := s.store.map f }

/-! ## The timer -/

/-- `handle.abort()` on the handle of the timer, which is taken. -/
def abortTimer : CronService :=
  match s.timer with
  | none => s
  | some t =>
    { s with
      timer := none
      orphans := if t.polled then s.orphans ++ [t] else s.orphans }

-- `arm_timer`
def armTimer : CronService :=
  let s := s.abortTimer
  if s.running then { s with timer := some {} } else s

def tick? : Option Nat → Option Tick
  | none => s.timer
  | some i => s.orphans[i]?

def setTick (who : Option Nat) (t : Tick) : CronService :=
  match who with
  | none => { s with timer := some t }
  | some i => { s with orphans := s.orphans.set i t }

/-- A timer task waits. One that was aborted ends here. -/
def suspendTick (who : Option Nat) (t : Tick) : CronService :=
  match who with
  | none => { s with timer := some { t with polled := false } }
  | some i => { s with orphans := s.orphans.eraseIdx i }

/-- The first section of `on_timer`. -/
def beginTick (who : Option Nat) (t : Tick) (now : Int64) : CronService :=
  let s := s.load
  let due := (s.store.getD []).filter fun job => job.Due now
  CronService.setTick { s with timerActive := true } who { t with stage := .between due }

/-- The section of `on_timer` after an execution. -/
def writeBack (job : CronJob) : CronService :=
  let s := s.withJobs (replaceFirst job.id job)
  if job.schedule.kind = .«at» ∧ job.deleteAfterRun then
    s.withJobs fun jobs => jobs.filter fun j => j.id ≠ job.id
  else s

/-- The last section of `on_timer`. -/
def finishTick (who : Option Nat) : CronService :=
  let s := s.setTick who { stage := .finished, polled := false }
  armTimer { s.save with timerActive := false }

/-- The next step of a timer task. -/
def tickStep (who : Option Nat) (t : Tick) (act : TickAct) : CronService :=
  if t.polled then
    match t.stage, act with
    | .sleeping, .wake =>
      if s.running then s.setTick who { t with stage := .chosen }
      else s.setTick who { stage := .finished, polled := false }
    | .chosen, .begin now => s.beginTick who t now
    | .between (job :: rest), .invoke =>
      CronService.setTick
        { s with invoked := s.invoked ++ [{ job := job.id, byTick := true, started := s.started }] }
        who { t with stage := .executing job rest }
    | .executing job rest, .returns error start stop now =>
      s.setTick who { t with stage := .returned (job.executed env error start stop now) rest }
    | .returned job rest, .writeBack =>
      (s.writeBack job).setTick who { t with stage := .between rest }
    | .between [], .finish => s.finishTick who
    | .finished, _ => s
    | _, .suspend => s.suspendTick who t
    | _, _ => s
  else
    match t.stage, act with
    | .finished, _ => s
    | _, .resume => s.setTick who { t with polled := true }
    | _, _ => s

/-! ## Calls -/

-- `start`
def start (now : Int64) : CronService :=
  let s := CronService.load { s with running := true }
  let s := (s.withJobs (recomputeNextRuns env now)).save
  { s.armTimer with started := true }

-- `stop`
def stop : CronService :=
  { CronService.abortTimer { s with running := false } with started := false }

/-- The job that `run_job` executes, after `load_store`. -/
def chosenJob (id : String) (force : Bool) : Option CronJob :=
  ((s.load.store.getD []).find? fun job => job.id = id).filter fun job => force || job.enabled

/-- `run_job` up to the handler. -/
def runJob (id : String) (force : Bool) : CronService :=
  match s.chosenJob id force with
  | none => s.load
  | some job =>
    { s.load with
      running := true
      calls := s.calls ++ [{ job := job, wasRunning := s.running }]
      invoked := s.invoked ++ [{ job := job.id, byTick := false, started := s.started }] }

/-- The handler of a call of `run_job` returns. -/
def runReturns (k : Nat) (error : Option String) (start stop now : Int64) : CronService :=
  match s.calls[k]? with
  | some c =>
    if c.returned then s
    else
      { s with
        calls := s.calls.set k
          { c with job := c.job.executed env error start stop now, returned := true } }
  | none => s

/-- `run_job` after the handler. -/
def runFinish (k : Nat) : CronService :=
  match s.calls[k]? with
  | some c =>
    if c.returned then
      let s := (s.withJobs (replaceFirst c.job.id c.job)).save
      let s := { s with running := c.wasRunning, calls := s.calls.eraseIdx k }
      if c.wasRunning then s.armTimer else s
    else s
  | none => s

/-- `add_job` refuses a schedule before it looks at the store. -/
def refuses : Call → Bool
  | .add args _ _ => (validateScheduleForAdd env args.schedule).toOption.isNone
  | _ => false

/-- A call that changes the jobs, on a service that is running. On a stopped one it goes to the
action log. -/
def call (c : Call) : CronService :=
  if s.running ∧ refuses env c = false then
    match c.perform env (s.load.store.getD []) with
    | some (jobs, _) => armTimer (save { s.load with store := some jobs })
    | none => s.load
  else s

-- `register_system_job`
def register (job : CronJob) (now : Int64) : CronService :=
  let jobs := s.load.withJobs fun jobs =>
    (jobs.filter fun j => j.id ≠ job.id) ++ [registered env job now]
  jobs.save.armTimer

def step : Event → CronService
  | .start now => s.start env now
  | .stop => s.stop
  | .runJob id force => s.runJob id force
  | .runReturns k error start stop now => s.runReturns env k error start stop now
  | .runFinish k => s.runFinish k
  | .tick who act =>
    match s.tick? who with
    | some t => s.tickStep env who t act
    | none => s
  | .call c => s.call env c
  | .register job now => s.register env job now

end CronService

end HiveClaw.Cron
