import HiveClaw.Cron.ActionLog

/-!
# A store file that cannot be read

`load_store` treats a store file in two layers. A text that is not JSON is an error: the file is
renamed, and a service without a store in memory refuses to start. A list with a job that cannot be
read is no error, it counts as an empty list; the service starts, and its first save replaces the
file. The bytes of a file that is no encoding of a store are protected exactly in the first case
(`protects_iff`).

The sections of the service under its lock follow each other in any order here, also those of
`run_job` and of the timer that the source runs one after the other; timers themselves do not
touch the files and are left out.
-/

namespace HiveClaw.Cron

open Serde Lib.Runs

variable {β : Type}

/-! ## The service and its files -/

/-- The bytes of the store file: `read_to_string` with `from_str`, and `to_string_pretty`. -/
structure StoreText (β : Type) where
  read : β → Option Json
  render : CronStore → β

/-- How a write of the store file ends. -/
inductive StoreWrite (β : Type)
  | written
  | failed
  | torn (content : β)

/-- The clocks of a section, and how its file operations end: the rename of the store file, the
emptying of the action log, the write of the store by `merge_action`, the write by the section
itself, and the append to the action log. -/
structure FileIo (β : Type) where
  now : Int64 := 0
  second : Nat := 0
  renames : Bool := true
  empties : Bool := true
  merged : StoreWrite β := .written
  saved : StoreWrite β := .written
  appends : Bool := true

/-- `Inner` and its files: the store file, what it was renamed to in which second, and the action
log as far as it can be opened. -/
structure FileService (β : Type) where
  file : Option β := none
  backups : Nat → Option β := fun _ => none
  log : Option (List LogLine) := none
  store : Option CronStore := none
  running : Bool := false
  timerActive : Bool := false

/-- A section under the lock of the service, or a restart of the process. `list` is the section of
`list_jobs`, `get_job` and `status`. -/
inductive Section
  | start
  | stop
  | list
  | call (call : Call)
  | register (job : CronJob)
  | runBegin (id : String) (force : Bool)
  | runFinish (job : CronJob) (wasRunning : Bool)
  | tickBegin
  | tickWriteBack (job : CronJob)
  | tickFinish
  | restart

/-- What `start` says when there is no store. -/
def startRefusal : String := "Cron: refusing to start — store file is corrupt or unreadable"

namespace FileService

variable (env : CronEnv) (text : StoreText β) (io : FileIo β) (s : FileService β)

/-- The store file, as `load_jobs_from_disk` reads it. -/
def storeFile : StoreFile :=
  match s.file with
  | none => .missing
  | some b =>
    match text.read b with
    | none => .unreadable
    | some v => .value v

-- `save_store`
def saveStore (write : StoreWrite β) : FileService β :=
  match s.store with
  | none => s
  | some store =>
    match write with
    | .written => { s with file := some (text.render store) }
    | .failed => s
    | .torn content => { s with file := some content }

-- `append_action`
def appendAction (op : Op) : FileService β :=
  if io.appends then { s with log := some (s.log.getD [] ++ [op.toLine]) } else s

-- `merge_action`
def mergeAction : FileService β :=
  match s.store, s.log with
  | some store, some lines =>
    let (jobs, changed) := mergeLines env store.jobs lines
    let merged := { s with store := some { store with jobs := jobs } }
    if s.running && changed then
      saveStore text { merged with log := if io.empties then some [] else s.log } io.merged
    else merged
  | _, _ => s

-- `load_store`
def loadStore : FileService β :=
  if s.timerActive && s.store.isSome then s
  else
    match loadJobsFromDisk (s.storeFile text) with
    | some store => mergeAction env text io { s with store := some store }
    | none =>
      if io.renames then
        { s with file := none, backups := Function.update s.backups io.second s.file }
      else s

def withJobs (f : List CronJob → List CronJob) : FileService β :=
  { s with store := s.store.map fun store => { store with jobs := f store.jobs } }

-- `start`
def start : Except String Unit × FileService β :=
  let s := loadStore env text io { s with running := true }
  if s.store.isNone then (.error startRefusal, { s with running := false })
  else (.ok (), (s.withJobs (recomputeNextRuns env io.now)).saveStore text io.saved)

/-- `add_job`, and the calls that look for a job in the store. -/
def call (c : Call) : FileService β :=
  match c with
  | .add args id now =>
    match validateScheduleForAdd env args.schedule with
    | .error _ => s
    | .ok () =>
      let job := newJob env args id now
      if s.running then
        ((s.loadStore env text io).withJobs fun jobs => jobs ++ [job]).saveStore text io.saved
      else s.appendAction io (.add job)
  | _ =>
    let s := s.loadStore env text io
    match s.store.bind fun store => c.perform env store.jobs with
    | none => s
    | some (jobs, op) =>
      let s := s.withJobs fun _ => jobs
      if s.running then s.saveStore text io.saved else s.appendAction io op

-- `register_system_job`
def register (job : CronJob) : FileService β :=
  ((s.loadStore env text io).withJobs fun jobs =>
    (jobs.filter fun j => j.id ≠ job.id) ++ [registered env job io.now]).saveStore text io.saved

/-- `run_job` up to the handler. -/
def runBegin (id : String) (force : Bool) : FileService β :=
  let loaded := loadStore env text io { s with running := true }
  let jobs := (loaded.store.map CronStore.jobs).getD []
  match (jobs.find? fun job => job.id = id).filter fun job => force || job.enabled with
  | none => { loaded with running := s.running }
  | some _ => loaded

/-- `run_job` after the handler. -/
def runFinish (job : CronJob) (wasRunning : Bool) : FileService β :=
  { (s.withJobs (replaceFirst job.id job)).saveStore text io.saved with running := wasRunning }

/-- `on_timer` after an execution. -/
def tickWriteBack (job : CronJob) : FileService β :=
  s.withJobs fun jobs =>
    let jobs := replaceFirst job.id job jobs
    if job.schedule.kind = .«at» ∧ job.deleteAfterRun then jobs.filter fun j => j.id ≠ job.id
    else jobs

def step : Section × FileIo β → FileService β
  | (.start, io) => (s.start env text io).2
  | (.stop, _) => { s with running := false }
  | (.list, io) => s.loadStore env text io
  | (.call c, io) => s.call env text io c
  | (.register job, io) => s.register env text io job
  | (.runBegin id force, io) => s.runBegin env text io id force
  | (.runFinish job wasRunning, io) => s.runFinish text io job wasRunning
  | (.tickBegin, io) => { s.loadStore env text io with timerActive := true }
  | (.tickWriteBack job, _) => s.tickWriteBack job
  | (.tickFinish, io) => { s.saveStore text io.saved with timerActive := false }
  | (.restart, _) => { s with store := none, running := false, timerActive := false }

/-! ## What the claim of a corrupt store is -/

/-- The bytes encode a store: they are JSON, and their jobs can be read, if there are any. -/
def Faithful (text : StoreText β) (b : β) : Prop :=
  ∃ v, text.read b = some v ∧
    (readVec CronJob.fromValue ((v.get "jobs").getD (.arr []))).isSome

/-- `load_store` renames the file. -/
def Renames : Prop :=
  (s.timerActive && s.store.isSome) = false ∧ loadJobsFromDisk (s.storeFile text) = none ∧
    io.renames = true

/-- The section calls `load_store`. -/
def Loads : Section → Prop
  | .start | .list | .register _ | .runBegin _ _ | .tickBegin => True
  | .call (.add args _ _) =>
    s.running = true ∧ validateScheduleForAdd env args.schedule = .ok ()
  | .call _ => True
  | .stop | .runFinish _ _ | .tickWriteBack _ | .tickFinish | .restart => False

/-- A file is renamed in a second in which none was renamed before. -/
def FreshName (a : Section × FileIo β) : Prop :=
  s.Loads env a.1 → s.Renames text a.2 → s.backups a.2.second = none

/-- The bytes are in the store file or in a renamed one. -/
def Keeps (b : β) : Prop := s.file = some b ∨ ∃ second, s.backups second = some b

/-- `start` refuses, and the bytes are kept in every run. -/
structure Protects (b : β) : Prop where
  refuses : ∀ io, (s.start env text io).1 = .error startRefusal
  survives : ∀ acts, Meets (step env text) (FreshName env text) s acts →
    (run (step env text) s acts).Keeps b

/-! ## The bytes are guarded -/

/-- The bytes are in a renamed file, or in the store file of a service without a store. -/
def Guards (b : β) : Prop :=
  (s.file = some b ∧ s.store = none) ∨ ∃ second, s.backups second = some b

variable {env : CronEnv} {text : StoreText β} {io : FileIo β} {s : FileService β} {b : β}

theorem load_storeFile_eq_none (hfile : s.file = some b) (hread : text.read b = none) :
    loadJobsFromDisk (s.storeFile text) = none := by
  unfold storeFile
  rw [hfile]
  dsimp only
  rw [hread]
  rfl

theorem Guards.keeps (h : s.Guards b) : s.Keeps b := h.imp_left And.left

theorem backups_saveStore (write : StoreWrite β) :
    (s.saveStore text write).backups = s.backups := by
  unfold FileService.saveStore
  split
  · rfl
  · split <;> rfl

theorem backups_mergeAction : (s.mergeAction env text io).backups = s.backups := by
  unfold FileService.mergeAction
  split
  · dsimp only
    split
    · exact backups_saveStore _
    · rfl
  · rfl

theorem Guards.saveStore (h : s.Guards b) (write : StoreWrite β) :
    (s.saveStore text write).Guards b := by
  rcases h with ⟨hfile, hnone⟩ | ⟨second, hbackup⟩
  · -- without a store nothing is written
    unfold FileService.saveStore
    rw [hnone]
    exact .inl ⟨hfile, hnone⟩
  · exact .inr ⟨second, by rw [backups_saveStore]; exact hbackup⟩

theorem Guards.withJobs (h : s.Guards b) (f : List CronJob → List CronJob) :
    (s.withJobs f).Guards b := by
  rcases h with ⟨hfile, hnone⟩ | hbackup
  · refine .inl ⟨hfile, ?_⟩
    show Option.map _ s.store = none
    rw [hnone, Option.map_none]
  · exact .inr hbackup

theorem Guards.appendAction (h : s.Guards b) (op : Op) : (s.appendAction io op).Guards b := by
  unfold FileService.appendAction
  split
  · exact h
  · exact h

theorem Guards.loadStore (h : s.Guards b) (hread : text.read b = none)
    (hfresh : s.Renames text io → s.backups io.second = none) :
    (s.loadStore env text io).Guards b := by
  unfold FileService.loadStore
  split
  · exact h
  rename_i hload
  rcases h with ⟨hfile, hnone⟩ | ⟨second, hbackup⟩
  · rw [load_storeFile_eq_none hfile hread]
    dsimp only
    split
    · refine .inr ⟨io.second, ?_⟩
      show Function.update s.backups io.second s.file io.second = some b
      rw [Function.update_self, hfile]
    · exact .inl ⟨hfile, hnone⟩
  · right
    refine ⟨second, ?_⟩
    cases hjobs : loadJobsFromDisk (s.storeFile text) with
    | some store =>
      dsimp only
      rw [backups_mergeAction]
      exact hbackup
    | none =>
      dsimp only
      split
      · rename_i hrenames
        have hother : second ≠ io.second := by
          rintro rfl
          rw [hfresh ⟨Bool.eq_false_iff.mpr hload, hjobs, hrenames⟩] at hbackup
          cases hbackup
        show Function.update s.backups io.second s.file second = some b
        rw [Function.update_of_ne hother]
        exact hbackup
      · exact hbackup

theorem Guards.start (h : s.Guards b) (hread : text.read b = none)
    (hfresh : s.Renames text io → s.backups io.second = none) :
    (s.start env text io).2.Guards b := by
  have hloaded : (FileService.loadStore env text io { s with running := true }).Guards b :=
    Guards.loadStore (s := { s with running := true }) h hread hfresh
  unfold FileService.start
  dsimp only
  split
  · exact hloaded
  · exact (hloaded.withJobs _).saveStore _

theorem Guards.found (h : s.Guards b) (found : Option (List CronJob × Op)) :
    FileService.Guards
      (match found with
      | none => s
      | some (jobs, op) =>
        let s := s.withJobs fun _ => jobs
        if s.running then s.saveStore text io.saved else s.appendAction io op) b := by
  cases found with
  | none => exact h
  | some r =>
    dsimp only
    split
    · exact (h.withJobs _).saveStore _
    · exact (h.withJobs _).appendAction _

theorem Guards.call (h : s.Guards b) (hread : text.read b = none) (c : Call)
    (hfresh : s.Loads env (.call c) → s.Renames text io → s.backups io.second = none) :
    (s.call env text io c).Guards b := by
  cases c with
  | add args id now =>
    unfold FileService.call
    dsimp only
    cases hvalid : validateScheduleForAdd env args.schedule with
    | error e => exact h
    | ok =>
      dsimp only
      split
      · rename_i hrunning
        exact ((h.loadStore hread (hfresh ⟨hrunning, hvalid⟩)).withJobs _).saveStore _
      · exact h.appendAction _
  | remove id => exact (h.loadStore hread (hfresh trivial)).found _
  | enable id enabled now => exact (h.loadStore hread (hfresh trivial)).found _
  | update id opts now => exact (h.loadStore hread (hfresh trivial)).found _

theorem Guards.step (h : s.Guards b) (hread : text.read b = none) (a : Section × FileIo β)
    (hfresh : s.FreshName env text a) : (s.step env text a).Guards b := by
  obtain ⟨kind, io⟩ := a
  cases kind with
  | start => exact h.start hread (hfresh trivial)
  | stop => exact h
  | list => exact h.loadStore hread (hfresh trivial)
  | call c => exact h.call hread c hfresh
  | register job => exact ((h.loadStore hread (hfresh trivial)).withJobs _).saveStore _
  | runBegin id force =>
    have hloaded : (FileService.loadStore env text io { s with running := true }).Guards b :=
      Guards.loadStore (s := { s with running := true }) h hread (hfresh trivial)
    show (FileService.runBegin env text io s id force).Guards b
    unfold FileService.runBegin
    dsimp only
    split
    · exact hloaded
    · exact hloaded
  | runFinish job wasRunning =>
    exact (h.withJobs (replaceFirst job.id job)).saveStore io.saved
  | tickBegin => exact h.loadStore hread (hfresh trivial)
  | tickWriteBack job => exact h.withJobs _
  | tickFinish => exact h.saveStore io.saved
  | restart =>
    rcases h with ⟨hfile, -⟩ | hbackup
    · exact .inl ⟨hfile, rfl⟩
    · exact .inr hbackup

/-! ## When the service refuses to start -/

theorem store_saveStore (write : StoreWrite β) : (s.saveStore text write).store = s.store := by
  unfold FileService.saveStore
  split
  · rfl
  · split <;> rfl

theorem isSome_mergeAction (h : s.store.isSome) : (s.mergeAction env text io).store.isSome := by
  unfold FileService.mergeAction
  split
  · dsimp only
    split
    · rw [store_saveStore]
      rfl
    · rfl
  · exact h

theorem isSome_loadStore
    (h : s.store.isSome ∨ (loadJobsFromDisk (s.storeFile text)).isSome) :
    (s.loadStore env text io).store.isSome := by
  unfold FileService.loadStore
  split
  · rename_i hload
    exact (Bool.and_eq_true_iff.mp hload).2
  · cases hjobs : loadJobsFromDisk (s.storeFile text) with
    | some store => exact isSome_mergeAction rfl
    | none =>
      have hstore : s.store.isSome := h.resolve_right fun hsome => by
        rw [hjobs] at hsome
        cases hsome
      dsimp only
      split
      · exact hstore
      · exact hstore

theorem loadStore_eq_none (hfile : s.file = some b) (hread : text.read b = none)
    (hstore : s.store = none) : (s.loadStore env text io).store = none := by
  have hunreadable := load_storeFile_eq_none hfile hread
  unfold FileService.loadStore
  rw [hunreadable]
  split
  · exact hstore
  · dsimp only
    split
    · exact hstore
    · exact hstore

/-- **A corrupt store file.** `start` refuses the bytes and they are kept exactly if they are not
JSON and the service has no store in memory; whether they encode a store does not matter. -/
theorem protects_iff (hfile : s.file = some b) :
    s.Protects env text b ↔ text.read b = none ∧ s.store = none := by
  constructor
  · intro h
    have hrefuses := h.refuses {}
    have hnone : ¬ (FileService.loadStore env text {} { s with running := true }).store.isSome := by
      intro hsome
      unfold FileService.start at hrefuses
      dsimp only at hrefuses
      rw [if_neg (by rw [Option.isNone_iff_eq_none, ← Option.not_isSome_iff_eq_none]; exact not_not.mpr hsome)]
        at hrefuses
      cases hrefuses
    constructor
    · cases hread : text.read b with
      | none => rfl
      | some v =>
        refine absurd (isSome_loadStore (.inr ?_)) hnone
        unfold storeFile
        dsimp only
        rw [hfile]
        dsimp only
        rw [hread]
        rfl
    · rw [← Option.not_isSome_iff_eq_none]
      exact fun hsome => hnone (isSome_loadStore (.inl hsome))
  · rintro ⟨hread, hstore⟩
    refine ⟨fun io => ?_, fun acts hfresh => ?_⟩
    · have hnone : (FileService.loadStore env text io { s with running := true }).store = none :=
        loadStore_eq_none (s := { s with running := true }) hfile hread hstore
      unfold FileService.start
      dsimp only
      rw [hnone]
      rfl
    · have hguards : s.Guards b := .inl ⟨hfile, hstore⟩
      have hreach := reach_run hfresh
      have hall := hreach.inv hguards fun s a (h : s.Guards b) ha => h.step hread a ha
      exact hall.keeps

/-! ## Two files -/

/-- Files as `serde_json` parses them, if it does. -/
def parsedText : StoreText (Option Json) where
  read := id
  render store := some (.obj [("version", .num (.int store.version)),
    ("jobs", .arr (store.jobs.map CronJob.toValue))])

/-- A file that is not JSON. -/
theorem protects_notJson : Protects noCron parsedText { file := some none } none :=
  (protects_iff rfl).mpr ⟨rfl, rfl⟩

/-- A store with a job and an entry that is no job. -/
def badEntry : Json :=
  .obj [("version", .num (.int 1)),
    ("jobs", .arr [(newJob noCron { name := "report", schedule := {}, message := "go" } "1" 0).toValue,
      .num (.int 5)])]

/-- The service starts on it without jobs, and replaces the file. -/
theorem not_protects_badEntry :
    ¬ Faithful parsedText (some badEntry) ∧
      ¬ Protects noCron parsedText { file := some (some badEntry) } (some badEntry) ∧
      ¬ Keeps (start noCron parsedText {} { file := some (some badEntry) }).2 (some badEntry) := by
  have hjobs : readVec CronJob.fromValue ((badEntry.get "jobs").getD (.arr [])) = none := by
    decide +kernel
  have hload : loadJobsFromDisk (.value badEntry) = some {} := by
    show some (CronStore.mk _ ((readVec CronJob.fromValue _).getD [])) = _
    rw [hjobs]
    rfl
  have hstart : start noCron parsedText {} { file := some (some badEntry) } =
      (.ok (), { file := some (parsedText.render {}), store := some {}, running := true }) := by
    have hloaded : loadStore noCron parsedText {} { file := some (some badEntry), running := true } =
        { file := some (some badEntry), store := some {}, running := true } := by
      have hfile : storeFile parsedText { file := some (some badEntry), running := true } =
          .value badEntry := rfl
      unfold loadStore
      rw [hfile, hload]
      rfl
    unfold start
    dsimp only
    rw [hloaded]
    rfl
  refine ⟨?_, ?_, ?_⟩
  · rintro ⟨v, hread, hsome⟩
    obtain rfl := Option.some.inj hread
    rw [hjobs] at hsome
    cases hsome
  · intro h
    have hrefuses := h.refuses {}
    rw [hstart] at hrefuses
    cases hrefuses
  · rw [hstart]
    rintro (hfile | ⟨second, hbackup⟩)
    · have hversion := congrArg (fun file => file.bind fun v => v.bind fun v => v.get "jobs") hfile
      revert hversion
      decide +kernel
    · cases hbackup

end FileService

end HiveClaw.Cron
