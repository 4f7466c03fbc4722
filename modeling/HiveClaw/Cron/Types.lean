import HiveClaw.RustStd
import HiveClaw.Serde

/-!
# Cron jobs

The types of `crates/cron/src/types.rs` and their JSON form as the `serde` attributes give it:
`toValue` is `serde_json::to_value` and `fromValue` is `serde_json::from_value` on objects, the
only form in which `to_value` writes these types. A job that was written is read back as it was,
except that a channel metadata of `null` is read as none (`fromValue_toValue`).
-/

namespace HiveClaw.Cron

open Serde

-- `ScheduleKind`
inductive ScheduleKind
  | «at»
  | every
  | cron
deriving DecidableEq, Repr

-- `CronSchedule`
structure CronSchedule where
  kind : ScheduleKind := .every
  atMs : Option Int64 := none
  everyMs : Option Int64 := none
  expr : Option String := none
  tz : Option String := none
deriving DecidableEq

-- `PayloadKind`
inductive PayloadKind
  | systemEvent
  | agentTurn
deriving DecidableEq, Repr

-- `CronPayload`
structure CronPayload where
  kind : PayloadKind := .agentTurn
  message : String := ""
  deliver : Bool := false
  channel : Option String := none
  «to» : Option String := none
  channelMeta : Option Json := none
  sessionKey : Option String := none
deriving DecidableEq

-- `RunStatus`
inductive RunStatus
  | ok
  | error
  | skipped
deriving DecidableEq, Repr

-- `CronRunRecord`
structure CronRunRecord where
  runAtMs : Int64
  status : RunStatus
  durationMs : Int64
  error : Option String
deriving DecidableEq

-- `CronJobState`
structure CronJobState where
  nextRunAtMs : Option Int64 := none
  lastRunAtMs : Option Int64 := none
  lastStatus : Option RunStatus := none
  lastError : Option String := none
  runHistory : List CronRunRecord := []
deriving DecidableEq

-- `CronJob`
structure CronJob where
  id : String
  name : String
  enabled : Bool := true
  schedule : CronSchedule := {}
  payload : CronPayload := {}
  state : CronJobState := {}
  createdAtMs : Int64 := 0
  updatedAtMs : Int64 := 0
  deleteAfterRun : Bool := false
deriving DecidableEq

-- `CronStore`
structure CronStore where
  version : Nat := 1
  jobs : List CronJob := []

/-! ## Times -/

-- `i64`
def readI64 (v : Json) : Option Int64 := v.asI64.map Int64.ofInt

/-- How an `i64` is written. -/
def writeI64 (n : Int64) : Json := .num (.int n.toInt)

/-- Every `i64` can be read back. -/
@[simp] theorem readI64_writeI64 (n : Int64) : readI64 (writeI64 n) = some n := by
  have hlow := Int64.le_toInt n
  have hhigh := Int64.toInt_lt n
  rw [readI64, writeI64, Json.asI64, if_pos ⟨by omega, by omega⟩, Option.map_some,
    Int64.ofInt_toInt]

theorem nullable_writeI64 (o : Option Int64) : nullable readI64 (optional writeI64 o) = some o :=
  nullable_optional readI64_writeI64 (fun _ => Json.noConfusion) o

/-! ## The types -/

/-- The names of the kinds of schedules. -/
def ScheduleKind.toValue : ScheduleKind → Json
  | .«at» => .str "at"
  | .every => .str "every"
  | .cron => .str "cron"

/-- A kind of schedule by its name. -/
def ScheduleKind.fromValue : Json → Option ScheduleKind
  | .str "at" => some .«at»
  | .str "every" => some .every
  | .str "cron" => some .cron
  | _ => none

def CronSchedule.toValue (s : CronSchedule) : Json :=
  .obj [("kind", s.kind.toValue), ("atMs", optional writeI64 s.atMs),
    ("everyMs", optional writeI64 s.everyMs), ("expr", optional .str s.expr),
    ("tz", optional .str s.tz)]

def CronSchedule.fromValue (v : Json) : Option CronSchedule := do
  let m ← v.asObject
  let kind ← required ScheduleKind.fromValue m "kind"
  let atMs ← defaulted (nullable readI64) none m "atMs"
  let everyMs ← defaulted (nullable readI64) none m "everyMs"
  let expr ← defaulted (nullable Json.asStr) none m "expr"
  let tz ← defaulted (nullable Json.asStr) none m "tz"
  return { kind, atMs, everyMs, expr, tz }

/-- The names of the kinds of payloads. -/
def PayloadKind.toValue : PayloadKind → Json
  | .systemEvent => .str "system_event"
  | .agentTurn => .str "agent_turn"

/-- A kind of payload by its name. -/
def PayloadKind.fromValue : Json → Option PayloadKind
  | .str "system_event" => some .systemEvent
  | .str "agent_turn" => some .agentTurn
  | _ => none

def CronPayload.toValue (p : CronPayload) : Json :=
  .obj [("kind", p.kind.toValue), ("message", .str p.message), ("deliver", .bool p.deliver),
    ("channel", optional .str p.channel), ("to", optional .str p.«to»),
    ("channelMeta", optional id p.channelMeta), ("sessionKey", optional .str p.sessionKey)]

def CronPayload.fromValue (v : Json) : Option CronPayload := do
  let m ← v.asObject
  let kind ← defaulted PayloadKind.fromValue .agentTurn m "kind"
  let message ← defaulted Json.asStr "" m "message"
  let deliver ← defaulted readBool false m "deliver"
  let channel ← defaulted (nullable Json.asStr) none m "channel"
  let to' ← defaulted (nullable Json.asStr) none m "to"
  let channelMeta ← defaulted (nullable some) none m "channelMeta"
  let sessionKey ← defaulted (nullable Json.asStr) none m "sessionKey"
  return { kind, message, deliver, channel, «to» := to', channelMeta, sessionKey }

def RunStatus.toValue : RunStatus → Json
  | .ok => .str "ok"
  | .error => .str "error"
  | .skipped => .str "skipped"

def RunStatus.fromValue : Json → Option RunStatus
  | .str "ok" => some .ok
  | .str "error" => some .error
  | .str "skipped" => some .skipped
  | _ => none

def CronRunRecord.toValue (r : CronRunRecord) : Json :=
  .obj [("runAtMs", writeI64 r.runAtMs), ("status", r.status.toValue),
    ("durationMs", writeI64 r.durationMs), ("error", optional .str r.error)]

/-- The record of a run from JSON. -/
def CronRunRecord.fromValue (v : Json) : Option CronRunRecord := do
  let m ← v.asObject
  let runAtMs ← required readI64 m "runAtMs"
  let status ← required RunStatus.fromValue m "status"
  let durationMs ← defaulted readI64 0 m "durationMs"
  let error ← defaulted (nullable Json.asStr) none m "error"
  return { runAtMs, status, durationMs, error }

def CronJobState.toValue (s : CronJobState) : Json :=
  .obj [("nextRunAtMs", optional writeI64 s.nextRunAtMs),
    ("lastRunAtMs", optional writeI64 s.lastRunAtMs),
    ("lastStatus", optional RunStatus.toValue s.lastStatus),
    ("lastError", optional .str s.lastError),
    ("runHistory", .arr (s.runHistory.map CronRunRecord.toValue))]

def CronJobState.fromValue (v : Json) : Option CronJobState := do
  let m ← v.asObject
  let nextRunAtMs ← defaulted (nullable readI64) none m "nextRunAtMs"
  let lastRunAtMs ← defaulted (nullable readI64) none m "lastRunAtMs"
  let lastStatus ← defaulted (nullable RunStatus.fromValue) none m "lastStatus"
  let lastError ← defaulted (nullable Json.asStr) none m "lastError"
  let runHistory ← defaulted (readVec CronRunRecord.fromValue) [] m "runHistory"
  return { nextRunAtMs, lastRunAtMs, lastStatus, lastError, runHistory }

def CronJob.toValue (j : CronJob) : Json :=
  .obj [("id", .str j.id), ("name", .str j.name), ("enabled", .bool j.enabled),
    ("schedule", j.schedule.toValue), ("payload", j.payload.toValue), ("state", j.state.toValue),
    ("createdAtMs", writeI64 j.createdAtMs), ("updatedAtMs", writeI64 j.updatedAtMs),
    ("deleteAfterRun", .bool j.deleteAfterRun)]

def CronJob.fromValue (v : Json) : Option CronJob := do
  let m ← v.asObject
  let id ← required Json.asStr m "id"
  let name ← required Json.asStr m "name"
  let enabled ← defaulted readBool true m "enabled"
  let schedule ← defaulted CronSchedule.fromValue {} m "schedule"
  let payload ← defaulted CronPayload.fromValue {} m "payload"
  let state ← defaulted CronJobState.fromValue {} m "state"
  let createdAtMs ← defaulted readI64 0 m "createdAtMs"
  let updatedAtMs ← defaulted readI64 0 m "updatedAtMs"
  let deleteAfterRun ← defaulted readBool false m "deleteAfterRun"
  return { id, name, enabled, schedule, payload, state, createdAtMs, updatedAtMs, deleteAfterRun }

/-! ## Reading back what was written -/

@[simp] theorem ScheduleKind.fromValue_toValue (k : ScheduleKind) :
    ScheduleKind.fromValue k.toValue = some k := by
  cases k <;> rfl

@[simp] theorem PayloadKind.fromValue_toValue (k : PayloadKind) :
    PayloadKind.fromValue k.toValue = some k := by
  cases k <;> rfl

@[simp] theorem RunStatus.fromValue_toValue (s : RunStatus) :
    RunStatus.fromValue s.toValue = some s := by
  cases s <;> rfl

theorem nullable_status (o : Option RunStatus) :
    nullable RunStatus.fromValue (optional RunStatus.toValue o) = some o :=
  nullable_optional RunStatus.fromValue_toValue (fun s => by cases s <;> exact Json.noConfusion) o

/-- A schedule is read back as it was written. -/
@[simp] theorem CronSchedule.fromValue_toValue (s : CronSchedule) :
    CronSchedule.fromValue s.toValue = some s := by
  simp [CronSchedule.fromValue, toValue, Json.asObject, required_cons_self,
    defaulted_cons_self, defaulted_cons_of_ne, nullable_writeI64, nullable_str]

@[simp] theorem CronRunRecord.fromValue_toValue (r : CronRunRecord) :
    CronRunRecord.fromValue r.toValue = some r := by
  simp [CronRunRecord.fromValue, toValue, Json.asObject, required_cons_self, required_cons_of_ne,
    defaulted_cons_self, defaulted_cons_of_ne, nullable_str]

theorem readVec_history (history : List CronRunRecord) :
    readVec CronRunRecord.fromValue (.arr (history.map CronRunRecord.toValue)) = some history := by
  have hread : ∀ r : CronRunRecord, CronRunRecord.fromValue r.toValue = some (id r) :=
    CronRunRecord.fromValue_toValue
  rw [readVec_map history hread, List.map_id]

/-- So is a state, its history included. -/
@[simp] theorem CronJobState.fromValue_toValue (s : CronJobState) :
    CronJobState.fromValue s.toValue = some s := by
  simp [CronJobState.fromValue, toValue, Json.asObject, defaulted_cons_self, defaulted_cons_of_ne,
    nullable_writeI64, nullable_str, nullable_status, readVec_history]

@[simp] theorem CronPayload.fromValue_toValue (p : CronPayload) :
    CronPayload.fromValue p.toValue =
      some { p with channelMeta := readBack p.channelMeta } := by
  simp [CronPayload.fromValue, toValue, Json.asObject, Json.asStr, readBool, defaulted_cons_self,
    defaulted_cons_of_ne, nullable_str, nullable_value]

def CronJob.written (j : CronJob) : CronJob :=
  { j with payload := { j.payload with channelMeta := readBack j.payload.channelMeta } }

@[simp] theorem CronJob.id_written (j : CronJob) : j.written.id = j.id := rfl

/-- What has been written and read once stays as it is. -/
@[simp] theorem CronJob.written_written (j : CronJob) : j.written.written = j.written := by
  simp [written]

/-- A job is read back as it was, except that `null` as its `channelMeta` is none. -/
theorem CronJob.fromValue_toValue (j : CronJob) : CronJob.fromValue j.toValue = some j.written := by
  simp [CronJob.fromValue, toValue, Json.asObject, Json.asStr, readBool, required_cons_self,
    required_cons_of_ne, defaulted_cons_self, defaulted_cons_of_ne, written]

/-! ## What is read is as it would be read back -/

variable {v : Json}

theorem CronPayload.readBack_of_fromValue {p : CronPayload} (h : CronPayload.fromValue v = some p) :
    readBack p.channelMeta = p.channelMeta := by
  simp only [CronPayload.fromValue, bind, Option.bind_eq_some_iff, pure, Option.some.injEq] at h
  obtain ⟨m, -, -, -, -, -, -, -, -, -, -, -, o, ho, -, -, rfl⟩ := h
  exact Serde.readBack_of_read ho

/-- A job that was read from a file is read back as it is. -/
theorem CronJob.written_of_fromValue {job : CronJob} (h : CronJob.fromValue v = some job) :
    job.written = job := by
  simp only [CronJob.fromValue, bind, Option.bind_eq_some_iff, pure, Option.some.injEq] at h
  obtain ⟨m, -, -, -, -, -, -, -, -, -, payload, hpayload, -, -, -, -, -, -, -, -, rfl⟩ := h
  have hmeta : readBack payload.channelMeta = payload.channelMeta := by
    unfold defaulted at hpayload
    split at hpayload
    · obtain rfl := Option.some.inj hpayload
      rfl
    · exact CronPayload.readBack_of_fromValue hpayload
  simp [written, hmeta]

end HiveClaw.Cron
