import HiveClaw.Cron.Types

/-!
# The cron service

What the functions of `crates/cron/src/service.rs` compute: the next run of a schedule, the jobs
that the calls make of the store, the outcome of an execution, and how the store and the action
log are read. What runs when is the subject of `Cron.ActionLog` and `Cron.Timer`.

Cron expressions and time zones are parsed by other crates (`CronEnv`). The text of a file is left
out: a line of the log, or the store file, is what `serde_json` makes of it.
-/

namespace HiveClaw.Cron

/-- The parsers of the crates `cron` and `chrono_tz`, and the order of the hash maps. -/
structure CronEnv where
  /-- `tz.parse::<Tz>().is_ok()`. -/
  parsesTz : String → Bool
  /-- `expr.parse::<CronExprSchedule>().is_ok()`. -/
  parsesExpr : String → Bool
  /-- The first time of an expression after a time, in a time zone. -/
  after : String → Option String → Int64 → Option Int64
  rank : String → Nat

/-- An environment for schedules without cron expressions. -/
def noCron : CronEnv where
  parsesTz _ := false
  parsesExpr _ := false
  after _ _ _ := none
  rank _ := 0

/-! ## Schedules -/

/-- The number of fields of an expression. -/
def countFields (expr : String) : Nat :=
  ((expr.toList.splitOnP RustStr.isWhitespace).filter fun field => !field.isEmpty).length

-- `normalize_cron_expr`
def normalizeCronExpr (expr : String) : String :=
  if countFields expr = 5 then "0 " ++ expr ++ " *"
  else if countFields expr = 6 then expr ++ " *"
  else expr

-- `compute_next_run`
def computeNextRun (env : CronEnv) (schedule : CronSchedule) (now : Int64) : Option Int64 :=
  match schedule.kind with
  | .«at» => schedule.atMs.filter fun t => now < t
  | .every => do
    let every ← schedule.everyMs
    if every ≤ 0 then none else some (now + every)
  | .cron => do
    let expr ← schedule.expr
    let normalized := normalizeCronExpr expr
    if env.parsesExpr normalized then
      env.after normalized (schedule.tz.filter fun tz => env.parsesTz tz) now
    else none

/-- `CronError`, without the errors of the file system. -/
inductive CronError
  | tzOnNonCron
  | unknownTimezone (tz : String)
  | badCronExpr (expr : String)
deriving DecidableEq, Repr

-- `validate_schedule_for_add`
def validateScheduleForAdd (env : CronEnv) (schedule : CronSchedule) : Except CronError Unit :=
  if schedule.tz.isSome ∧ schedule.kind ≠ .cron then .error .tzOnNonCron
  else if schedule.kind ≠ .cron then .ok ()
  else
    match schedule.tz.filter fun tz => !env.parsesTz tz with
    | some tz => .error (.unknownTimezone tz)
    | none =>
      match schedule.expr.filter fun expr => !env.parsesExpr expr with
      | some expr => .error (.badCronExpr expr)
      | none => .ok ()

/-! ## Calls -/

/-- The arguments of `add_job`. -/
structure AddJobArgs where
  name : String
  schedule : CronSchedule
  message : String
  deliver : Bool := false
  channel : Option String := none
  «to» : Option String := none
  deleteAfterRun : Bool := false
  channelMeta : Option Json := none
  sessionKey : Option String := none

/-- The job that `add_job` makes. -/
def newJob (env : CronEnv) (args : AddJobArgs) (id : String) (now : Int64) : CronJob where
  id := id
  name := args.name
  enabled := true
  schedule := args.schedule
  payload :=
    { kind := .agentTurn, message := args.message, deliver := args.deliver
      channel := args.channel, «to» := args.«to», channelMeta := args.channelMeta
      sessionKey := args.sessionKey }
  state := { nextRunAtMs := computeNextRun env args.schedule now }
  createdAtMs := now
  updatedAtMs := now
  deleteAfterRun := args.deleteAfterRun

/-- The job as `register_system_job` stores it. -/
def registered (env : CronEnv) (job : CronJob) (now : Int64) : CronJob :=
  { job with
    state := { nextRunAtMs := computeNextRun env job.schedule now }
    createdAtMs := now
    updatedAtMs := now }

/-- `UpdateJobOpts`. The two options that `update_job` never reads are left out. -/
structure UpdateJobOpts where
  name : Option String := none
  schedule : Option CronSchedule := none
  message : Option String := none
  deliver : Option Bool := none
  channel : Option (Option String) := none
  «to» : Option (Option String) := none
  deleteAfterRun : Option Bool := none

/-- What `update_job` makes of a job. -/
def CronJob.update (env : CronEnv) (job : CronJob) (opts : UpdateJobOpts) (now : Int64) : CronJob :=
  let schedule := opts.schedule.getD job.schedule
  { job with
    schedule := schedule
    name := opts.name.getD job.name
    payload :=
      { job.payload with
        message := opts.message.getD job.payload.message
        deliver := opts.deliver.getD job.payload.deliver
        channel := opts.channel.getD job.payload.channel
        «to» := opts.«to».getD job.payload.«to» }
    deleteAfterRun := opts.deleteAfterRun.getD job.deleteAfterRun
    updatedAtMs := now
    state :=
      { job.state with
        nextRunAtMs := if job.enabled then computeNextRun env schedule now
          else job.state.nextRunAtMs } }

/-- What `enable_job` makes of a job. -/
def CronJob.enable (env : CronEnv) (job : CronJob) (enabled : Bool) (now : Int64) : CronJob :=
  { job with
    enabled := enabled
    updatedAtMs := now
    state :=
      { job.state with
        nextRunAtMs := if enabled then computeNextRun env job.schedule now else none } }

inductive Call
  | add (args : AddJobArgs) (id : String) (now : Int64)
  | remove (id : String)
  | enable (id : String) (enabled : Bool) (now : Int64)
  | update (id : String) (opts : UpdateJobOpts) (now : Int64)

/-- What a call does, for the action log. -/
inductive Op
  | add (job : CronJob)
  | update (job : CronJob)
  | del (id : String)
deriving DecidableEq

/-- The first job of an id is replaced. -/
def replaceFirst (id : String) (job : CronJob) : List CronJob → List CronJob
  | [] => []
  | j :: rest => if j.id = id then job :: rest else j :: replaceFirst id job rest

/-- The jobs after a call that reports success, and what it has done. -/
def Call.perform (env : CronEnv) (jobs : List CronJob) : Call → Option (List CronJob × Op)
  | .add args id now =>
    match validateScheduleForAdd env args.schedule with
    | .error _ => none
    | .ok () => some (jobs ++ [newJob env args id now], .add (newJob env args id now))
  | .remove id => do
    let job ← jobs.find? fun j => j.id = id
    if job.payload.kind = .systemEvent then none
    else some (jobs.filter fun j => j.id ≠ id, .del id)
  | .enable id enabled now => do
    let job ← jobs.find? fun j => j.id = id
    let job' := job.enable env enabled now
    some (replaceFirst id job' jobs, .update job')
  | .update id opts now => do
    let job ← jobs.find? fun j => j.id = id
    if job.payload.kind = .systemEvent then none
    else
      match (opts.schedule.map (validateScheduleForAdd env)).getD (.ok ()) with
      | .error _ => none
      | .ok () =>
        let job' := job.update env opts now
        some (replaceFirst id job' jobs, .update job')

/-! ## Executions -/

-- `MAX_RUN_HISTORY`
def maxRunHistory : Nat := 20

/-- The run is recorded: `start` and `stop` are readings of the clock before and after it, `error`
is what the handler returned. -/
def CronJob.recordRun (job : CronJob) (error : Option String) (start stop : Int64) : CronJob :=
  let status : RunStatus := if error.isNone then .ok else .error
  let history := job.state.runHistory ++
    [{ runAtMs := start, status := status, durationMs := stop - start, error := error }]
  { job with
    updatedAtMs := stop
    state :=
      { job.state with
        lastStatus := some status
        lastError := error
        lastRunAtMs := some start
        runHistory := history.drop (history.length - maxRunHistory) } }

/-- What `execute_job` makes of a job. -/
def CronJob.executed (env : CronEnv) (job : CronJob) (error : Option String)
    (start stop now : Int64) : CronJob :=
  let recorded := job.recordRun error start stop
  if job.schedule.kind = .«at» then
    if job.deleteAfterRun then recorded
    else { recorded with enabled := false, state := { recorded.state with nextRunAtMs := none } }
  else
    { recorded with
      state := { recorded.state with nextRunAtMs := computeNextRun env job.schedule now } }

def CronJob.Due (job : CronJob) (now : Int64) : Prop :=
  job.enabled ∧ ∃ t ∈ job.state.nextRunAtMs, t ≤ now

instance (job : CronJob) (now : Int64) : Decidable (job.Due now) :=
  inferInstanceAs (Decidable (_ ∧ _))

-- `recompute_next_runs`
def recomputeNextRuns (env : CronEnv) (now : Int64) (jobs : List CronJob) : List CronJob :=
  jobs.map fun job =>
    if job.enabled then
      { job with state := { job.state with nextRunAtMs := computeNextRun env job.schedule now } }
    else job

end HiveClaw.Cron
