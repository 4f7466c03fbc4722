import HiveClaw.Cron.Timer

/-!
# One-shot jobs and `stop`

A job of kind `at` is to run once, and a stopped service is not to run any. Each is lost where two
parts of the service do not know of each other: `run_job` leaves a job with `delete_after_run` as
it is, and runs with `force` a job that has run; an execution under way is not noticed by another
one; a tick that is aborted in the handler has not written anything back; and `run_job` restores
the running flag from before a `stop`. Outside of this both hold (`oneShot_of_reach`).
-/

namespace HiveClaw.Cron

open Lib

/-! ## Executed jobs -/

section Executed

variable (env : CronEnv) (job : CronJob) (error : Option String) (start stop now : Int64)

@[simp] theorem CronJob.id_executed : (job.executed env error start stop now).id = job.id := by
  unfold CronJob.executed
  split
  · split <;> rfl
  · rfl

@[simp] theorem CronJob.schedule_executed :
    (job.executed env error start stop now).schedule = job.schedule := by
  unfold CronJob.executed
  split
  · split <;> rfl
  · rfl

@[simp] theorem CronJob.deleteAfterRun_executed :
    (job.executed env error start stop now).deleteAfterRun = job.deleteAfterRun := by
  unfold CronJob.executed
  split
  · split <;> rfl
  · rfl

theorem CronJob.enabled_executed {job : CronJob} (hat : job.schedule.kind = .«at»)
    (hkept : job.deleteAfterRun = false) :
    (job.executed env error start stop now).enabled = false := by
  simp [CronJob.executed, hat, hkept]

end Executed

variable {job : CronJob}

theorem ids_replaceFirst {id : String} (hid : job.id = id) (jobs : List CronJob) :
    (replaceFirst id job jobs).map CronJob.id = jobs.map CronJob.id := by
  induction jobs with
  | nil => rfl
  | cons j rest ih =>
    rw [replaceFirst]
    split
    · next hj => rw [List.map_cons, List.map_cons, hid, hj]
    · rw [List.map_cons, List.map_cons, ih]

theorem mem_replaceFirst {id : String} {j : CronJob} {jobs : List CronJob}
    (hids : (jobs.map CronJob.id).Nodup) (h : j ∈ replaceFirst id job jobs) :
    j = job ∨ j ∈ jobs ∧ j.id ≠ id := by
  induction jobs with
  | nil => exact absurd h List.not_mem_nil
  | cons x rest ih =>
    obtain ⟨hnew, hrest⟩ := List.nodup_cons.mp hids
    rw [replaceFirst] at h
    split at h
    · next hx =>
      rcases List.mem_cons.mp h with rfl | hj
      · exact Or.inl rfl
      · refine Or.inr ⟨List.mem_cons_of_mem _ hj, fun hid => hnew ?_⟩
        exact hx.trans hid.symm ▸ List.mem_map_of_mem hj
    · next hx =>
      rcases List.mem_cons.mp h with rfl | hj
      · exact Or.inr ⟨List.mem_cons_self, hx⟩
      · rcases ih hrest hj with rfl | ⟨hj, hid⟩
        · exact Or.inl rfl
        · exact Or.inr ⟨List.mem_cons_of_mem _ hj, hid⟩

namespace CronService

variable (s : CronService)

/-! ## The condition -/

/-- A call of `run_job` or the timer task has the job. -/
def Occupied (id : String) : Prop :=
  (∃ c ∈ s.calls, c.job.id = id) ∨ ∃ t ∈ s.timer, ∃ job ∈ t.held, job.id = id

/-- The timer task, if there is one, waits and is not in the execution of a one-shot job. -/
def TimerAtRest : Prop :=
  ∀ t ∈ s.timer, t.polled = false ∧ ∀ job ∈ t.current?, job.schedule.kind ≠ .«at»

instance (id : String) : Decidable (s.Occupied id) := inferInstanceAs (Decidable (_ ∨ _))

instance : Decidable s.TimerAtRest := inferInstanceAs (Decidable (∀ t ∈ s.timer, _))

/-- Nothing comes between: the timer is aborted only at rest, `run_job` starts a one-shot job only
if it is enabled, is not to be deleted and nobody has it, a tick starts only if no call has one of
its one-shot jobs, and a call that began while the service was running ends only while it is
started. The jobs are not changed. -/
def Undisturbed : Event → Prop
  | .start _ | .stop => s.TimerAtRest
  | .runJob id force => ∀ job ∈ s.chosenJob id force, job.schedule.kind = .«at» →
      job.enabled ∧ job.deleteAfterRun = false ∧ ¬ s.Occupied id
  | .runFinish k => ∀ c ∈ s.calls[k]?, c.wasRunning → s.started ∧ s.TimerAtRest
  | .tick none (.begin now) => ∀ job ∈ s.load.store.getD [], job.Due now →
      job.schedule.kind = .«at» → ∀ c ∈ s.calls, c.job.id ≠ job.id
  | .call _ | .register _ _ => False
  | _ => True

instance (a : Event) : Decidable (s.Undisturbed a) := by
  rcases a with _ | _ | _ | _ | _ | ⟨_ | _, _ | _ | _ | _ | _ | _ | _ | _⟩ | _ | _ <;>
    unfold Undisturbed <;> infer_instance

/-- How often the handler was invoked for a job. -/
def invocations (id : String) : Nat := (s.invoked.filter fun i => i.job = id).length

/-! ## The timer and the ids -/

/-- What holds of the timer task and of the ids: it is the only one, it is there only while the
service is started, and during a tick the jobs are not read again. -/
structure Orderly : Prop where
  orphans : s.orphans = []
  started : ∀ t ∈ s.timer, t.stage ≠ .finished → s.started
  active : ∀ t ∈ s.timer, t.Begun → s.timerActive ∧ s.store.isSome
  diskIds : (s.disk.map CronJob.id).Nodup
  storeIds : ((s.store.getD []).map CronJob.id).Nodup
  heldIds : ∀ t ∈ s.timer, (t.held.map CronJob.id).Nodup
  called : s.calls ≠ [] → s.store.isSome
  invoked : ∀ i ∈ s.invoked, i.byTick → i.started

variable {s}

theorem load_cases : s.load = s ∨
    s.load = { s with store := some s.disk } ∧ ¬ (s.timerActive ∧ s.store.isSome) := by
  unfold load
  split
  · exact Or.inl rfl
  · next h => exact Or.inr ⟨rfl, h⟩

theorem abortTimer_of_atRest (hrest : s.TimerAtRest) : s.abortTimer = { s with timer := none } := by
  unfold abortTimer
  split
  · next hnone => rw [← hnone]
  · next t ht => simp [(hrest t ht).1]

theorem armTimer_of_atRest (hrest : s.TimerAtRest) :
    s.armTimer = { s with timer := if s.running then some {} else none } := by
  rw [armTimer, abortTimer_of_atRest hrest]
  cases s.running <;> rfl

section Fields

variable (s)

@[simp] theorem timer_load : s.load.timer = s.timer := by unfold load; split <;> rfl
@[simp] theorem calls_load : s.load.calls = s.calls := by unfold load; split <;> rfl
@[simp] theorem invoked_load : s.load.invoked = s.invoked := by unfold load; split <;> rfl
@[simp] theorem started_load : s.load.started = s.started := by unfold load; split <;> rfl
@[simp] theorem running_load : s.load.running = s.running := by unfold load; split <;> rfl
@[simp] theorem timer_save : s.save.timer = s.timer := by unfold save; split <;> rfl
@[simp] theorem calls_save : s.save.calls = s.calls := by unfold save; split <;> rfl
@[simp] theorem running_save : s.save.running = s.running := by unfold save; split <;> rfl
@[simp] theorem started_save : s.save.started = s.started := by unfold save; split <;> rfl
@[simp] theorem store_save : s.save.store = s.store := by unfold save; split <;> rfl

theorem isSome_load : s.load.store.isSome := by
  unfold load
  split
  · next h => exact h.2
  · rfl

end Fields

theorem save_eq : ∃ disk, s.save = { s with disk := disk } ∧
    (disk = s.disk ∨ ∃ jobs, s.store = some jobs ∧ disk = jobs.map CronJob.written) := by
  unfold save
  split
  · next jobs hjobs => exact ⟨_, rfl, Or.inr ⟨jobs, hjobs, rfl⟩⟩
  · exact ⟨s.disk, rfl, Or.inl rfl⟩

namespace Orderly

theorem load (h : s.Orderly) : s.load.Orderly := by
  rcases load_cases (s := s) with heq | ⟨heq, hstale⟩ <;> rw [heq]
  · exact h
  · exact ⟨h.orphans, h.started, fun t ht hb => absurd (h.active t ht hb) hstale, h.diskIds, h.diskIds,
      h.heldIds, fun _ => rfl, h.invoked⟩

theorem save (h : s.Orderly) : s.save.Orderly := by
  obtain ⟨disk, heq, hdisk⟩ := save_eq (s := s)
  rw [heq]
  refine ⟨h.orphans, h.started, h.active, ?_, h.storeIds, h.heldIds, h.called, h.invoked⟩
  rcases hdisk with rfl | ⟨jobs, hjobs, rfl⟩
  · exact h.diskIds
  · have hids := h.storeIds
    rw [hjobs, Option.getD_some] at hids
    show ((jobs.map CronJob.written).map CronJob.id).Nodup
    rw [List.map_map]
    exact hids

theorem withJobs (h : s.Orderly) {f : List CronJob → List CronJob}
    (hf : ∀ jobs : List CronJob, (jobs.map CronJob.id).Nodup → ((f jobs).map CronJob.id).Nodup) :
    (s.withJobs f).Orderly := by
  refine ⟨h.orphans, h.started, fun t ht hb => ?_, h.diskIds, ?_, h.heldIds, fun hcalls => ?_,
    h.invoked⟩
  · obtain ⟨hactive, hsome⟩ := h.active t ht hb
    exact ⟨hactive, by simpa [CronService.withJobs] using hsome⟩
  · have hids := h.storeIds
    show (((s.store.map f).getD []).map CronJob.id).Nodup
    cases hstore : s.store with
    | none => exact List.nodup_nil
    | some jobs =>
      rw [hstore, Option.getD_some] at hids
      exact hf jobs hids
  · simpa [CronService.withJobs] using h.called hcalls

theorem withTimer (h : s.Orderly) {timer : Option Tick} {running started : Bool}
    (hstarted : ∀ t ∈ timer, t.stage ≠ .finished → started)
    (hheld : ∀ t ∈ timer, t.held = [] ∧ ¬ t.Begun) :
    Orderly { s with timer := timer, running := running, started := started } := by
  refine ⟨h.orphans, hstarted, fun t ht hb => absurd hb (hheld t ht).2, h.diskIds, h.storeIds,
    fun t ht => ?_, h.called, h.invoked⟩
  rw [(hheld t ht).1]
  exact List.nodup_nil

end Orderly

/-! ## One job -/

def Disabled (id : String) (jobs : List CronJob) : Prop :=
  ∀ job ∈ jobs, job.id = id → job.enabled = false

/-- The jobs of the id are one-shot jobs. -/
def OneShots (id : String) (jobs : List CronJob) : Prop :=
  ∀ job ∈ jobs, job.id = id → job.schedule.kind = .«at»

/-- The job has run: it is disabled or gone, in memory and where the memory comes from. -/
structure Spent (id : String) (s : CronService) : Prop where
  store : Disabled id (s.store.getD [])
  disk : ¬ (s.timerActive ∧ s.store.isSome) → Disabled id s.disk

/-- The one-shot job of the id was invoked at most once; then somebody has it, or it is spent. -/
structure Once (id : String) (s : CronService) : Prop where
  disk : OneShots id s.disk
  store : OneShots id (s.store.getD [])
  held : ∀ t ∈ s.timer, OneShots id t.held
  calls : ∀ c ∈ s.calls, c.job.id = id →
    c.job.schedule.kind = .«at» ∧ c.job.deleteAfterRun = false ∧ (c.returned → c.job.enabled = false)
  returned : ∀ t ∈ s.timer, ∀ job rest, t.stage = .returned job rest → job.id = id →
    job.deleteAfterRun ∨ job.enabled = false
  le : s.invocations id ≤ 1
  pending : ∀ t ∈ s.timer, (∃ job ∈ t.pending, job.id = id) → s.invocations id = 0
  place : s.invocations id = 0 ∨ (∃ c ∈ s.calls, c.job.id = id) ∨
    (∃ t ∈ s.timer, ∃ job ∈ t.current?, job.id = id) ∨ Spent id s

variable {id : String}

variable {jobs : List CronJob}

theorem OneShots.written (h : OneShots id jobs) : OneShots id (jobs.map CronJob.written) := by
  intro job hjob hid
  obtain ⟨j, hj, rfl⟩ := List.mem_map.mp hjob
  exact h j hj hid

theorem Disabled.written (h : Disabled id jobs) : Disabled id (jobs.map CronJob.written) := by
  intro job hjob hid
  obtain ⟨j, hj, rfl⟩ := List.mem_map.mp hjob
  exact h j hj hid

namespace Spent

theorem load (h : Spent id s) : Spent id s.load := by
  rcases load_cases (s := s) with heq | ⟨heq, hstale⟩ <;> rw [heq]
  · exact h
  · exact ⟨h.disk hstale, fun _ => h.disk hstale⟩

theorem save (h : Disabled id (s.store.getD [])) (hsome : s.store.isSome) : Spent id s.save := by
  obtain ⟨jobs, hjobs⟩ := Option.isSome_iff_exists.mp hsome
  have hsave : s.save = { s with disk := jobs.map CronJob.written } := by
    rw [CronService.save, hjobs]
  rw [hsave]
  rw [hjobs, Option.getD_some] at h
  refine ⟨?_, fun _ => h.written⟩
  show Disabled id (s.store.getD [])
  rw [hjobs]
  exact h

end Spent

namespace Once

theorem load (h : Once id s) : Once id s.load := by
  have hspent : Spent id s → Spent id s.load := Spent.load
  rcases load_cases (s := s) with heq | ⟨heq, -⟩
  · rw [heq]
    exact h
  · rw [heq] at hspent ⊢
    exact ⟨h.disk, h.disk, h.held, h.calls, h.returned, h.le, h.pending,
      h.place.imp_right fun hp => hp.imp_right fun hp => hp.imp_right hspent⟩

theorem saveJobs (h : Once id s) {f : List CronJob → List CronJob}
    (hshots : OneShots id (s.store.getD []) → OneShots id ((s.store.map f).getD []))
    (hdisabled : Disabled id (s.store.getD []) → Disabled id ((s.store.map f).getD []))
    (hsome : s.store.isSome) : Once id (s.withJobs f).save := by
  have hsome' : (s.withJobs f).store.isSome := by simpa [CronService.withJobs] using hsome
  have hspent : Spent id s → Spent id (s.withJobs f).save :=
    fun hspent => Spent.save (hdisabled hspent.store) hsome'
  obtain ⟨jobs, hjobs⟩ := Option.isSome_iff_exists.mp hsome
  have hsave : (s.withJobs f).save =
      { s with store := some (f jobs), disk := (f jobs).map CronJob.written } := by
    simp [CronService.withJobs, CronService.save, hjobs]
  rw [hsave] at hspent ⊢
  rw [hjobs] at hshots
  have hshots : OneShots id (f jobs) := hshots (by simpa [hjobs] using h.store)
  exact ⟨hshots.written, hshots, h.held, h.calls, h.returned, h.le, h.pending,
    h.place.imp_right fun hp => hp.imp_right fun hp => hp.imp_right hspent⟩

theorem withTimer (h : Once id s) {timer : Option Tick} {running started : Bool}
    (hheld : ∀ t ∈ timer, t.held = [])
    (hcurrent : ∀ t ∈ s.timer, ∀ job ∈ t.current?, job.schedule.kind ≠ .«at») :
    Once id { s with timer := timer, running := running, started := started } := by
  have hnone : ∀ t ∈ timer, t.current? = none ∧ t.pending = [] := by
    intro t ht
    obtain ⟨hcur, hpend⟩ := List.append_eq_nil_iff.mp (hheld t ht)
    exact ⟨Option.toList_eq_nil_iff.mp hcur, hpend⟩
  refine ⟨h.disk, h.store, fun t ht => ?_, h.calls, fun t ht job rest hstage => ?_, h.le,
    fun t ht ⟨job, hjob, _⟩ => ?_, ?_⟩
  · rw [hheld t ht]
    exact List.forall_mem_nil _
  · have hcur := (hnone t ht).1
    simp [Tick.current?, hstage] at hcur
  · rw [(hnone t ht).2] at hjob
    exact absurd hjob List.not_mem_nil
  · rcases h.place with h0 | hcall | ⟨t, ht, job, hjob, hid⟩ | hspent
    · exact Or.inl h0
    · exact Or.inr (Or.inl hcall)
    · have hmem : job ∈ t.held := List.mem_append_left _ (Option.mem_toList.mpr hjob)
      exact absurd (h.held t ht job hmem hid) (hcurrent t ht job hjob)
    · exact Or.inr (Or.inr (Or.inr ⟨hspent.store, hspent.disk⟩))

end Once

/-! ## `start` and `stop` -/

theorem ids_recompute (env : CronEnv) (now : Int64) (jobs : List CronJob) :
    (recomputeNextRuns env now jobs).map CronJob.id = jobs.map CronJob.id := by
  rw [recomputeNextRuns, List.map_map]
  refine List.map_congr_left fun job _ => ?_
  simp only [Function.comp_apply]
  split <;> rfl

variable {job : CronJob}

theorem mem_recompute {env : CronEnv} {now : Int64} (h : job ∈ recomputeNextRuns env now jobs) :
    ∃ j ∈ jobs, job.id = j.id ∧ job.enabled = j.enabled ∧ job.schedule = j.schedule := by
  obtain ⟨j, hj, rfl⟩ := List.mem_map.mp h
  refine ⟨j, hj, ?_⟩
  split <;> exact ⟨rfl, rfl, rfl⟩

variable {env : CronEnv}

/-- At rest, `start` aborts nothing. -/
theorem start_of_atRest (hrest : s.TimerAtRest) (now : Int64) :
    s.start env now =
      { ((CronService.load { s with running := true }).withJobs (recomputeNextRuns env now)).save with
        timer := some {}, running := true, started := true } := by
  have hrest' : TimerAtRest
      ((CronService.load { s with running := true }).withJobs (recomputeNextRuns env now)).save := by
    intro t ht
    rw [timer_save] at ht
    exact hrest t (by simpa [withJobs] using ht)
  simp only [start]
  rw [armTimer_of_atRest hrest']
  simp [withJobs]

theorem Orderly.start (h : s.Orderly) (hrest : s.TimerAtRest) (now : Int64) :
    (s.start env now).Orderly := by
  rw [start_of_atRest hrest]
  have hrunning : Orderly { s with running := true } :=
    ⟨h.orphans, h.started, h.active, h.diskIds, h.storeIds, h.heldIds, h.called, h.invoked⟩
  have hsaved := (hrunning.load.withJobs fun jobs hids =>
    (ids_recompute env now jobs).symm ▸ hids).save
  refine hsaved.withTimer (fun _ _ _ => rfl) fun t ht => ?_
  obtain rfl := Option.some.inj ht
  exact ⟨rfl, id⟩

theorem Once.start (h : Once id s) (hrest : s.TimerAtRest) (now : Int64) :
    Once id (s.start env now) := by
  rw [start_of_atRest hrest]
  have hrunning : Once id { s with running := true } :=
    ⟨h.disk, h.store, h.held, h.calls, h.returned, h.le, h.pending, h.place.imp_right fun hp =>
      hp.imp_right fun hp => hp.imp_right fun hspent => ⟨hspent.store, hspent.disk⟩⟩
  obtain ⟨jobs, hjobs⟩ := Option.isSome_iff_exists.mp (isSome_load { s with running := true })
  have hsaved : Once id ((CronService.load { s with running := true }).withJobs
      (recomputeNextRuns env now)).save := by
    refine hrunning.load.saveJobs (fun hshots => ?_) (fun hdisabled => ?_) (isSome_load _)
    · rw [hjobs] at hshots ⊢
      intro job hjob hid
      obtain ⟨j, hj, hid', -, hschedule⟩ := mem_recompute hjob
      rw [hschedule]
      exact hshots j hj (hid'.symm.trans hid)
    · rw [hjobs] at hdisabled ⊢
      intro job hjob hid
      obtain ⟨j, hj, hid', henabled, -⟩ := mem_recompute hjob
      rw [henabled]
      exact hdisabled j hj (hid'.symm.trans hid)
  refine hsaved.withTimer (fun t ht => ?_) fun t ht => ?_
  · obtain rfl := Option.some.inj ht
    rfl
  · rw [timer_save] at ht
    exact (hrest t (by simpa [withJobs] using ht)).2

theorem stop_of_atRest (hrest : s.TimerAtRest) :
    s.stop = { s with timer := none, running := false, started := false } := by
  have hrest' : TimerAtRest { s with running := false } := hrest
  rw [stop, abortTimer_of_atRest hrest']

theorem Orderly.stop (h : s.Orderly) (hrest : s.TimerAtRest) : s.stop.Orderly := by
  rw [stop_of_atRest hrest]
  exact h.withTimer (fun t ht => by cases ht) fun t ht => by cases ht

theorem Once.stop (h : Once id s) (hrest : s.TimerAtRest) : Once id s.stop := by
  rw [stop_of_atRest hrest]
  exact h.withTimer (fun t ht => by cases ht) fun t ht => (hrest t ht).2

/-! ## `run_job` -/

theorem chosenJob_spec {id' : String} {force : Bool} (h : s.chosenJob id' force = some job) :
    job ∈ s.load.store.getD [] ∧ job.id = id' ∧ (force ∨ job.enabled) := by
  obtain ⟨hfind, hok⟩ := Option.filter_eq_some_iff.mp h
  exact ⟨List.mem_of_find?_eq_some hfind, by simpa using List.find?_some hfind, by simpa using hok⟩

theorem Orderly.runJob (h : s.Orderly) (id' : String) (force : Bool) :
    (s.runJob id' force).Orderly := by
  unfold CronService.runJob
  split
  · exact h.load
  · refine ⟨h.load.orphans, fun t ht => ?_, h.load.active, h.load.diskIds, h.load.storeIds,
      h.load.heldIds, fun _ => isSome_load s, fun i hi => ?_⟩
    · exact h.load.started t ht
    · rcases List.mem_append.mp hi with hi | hi
      · exact h.invoked i hi
      · rw [List.mem_singleton.mp hi]
        intro hby
        cases hby

theorem invocations_append (invoked : List Invocation) (i : Invocation) (id : String) :
    ((invoked ++ [i]).filter fun i => i.job = id).length =
      (invoked.filter fun i => i.job = id).length + if i.job = id then 1 else 0 := by
  rw [List.filter_append, List.length_append, List.filter_singleton]
  by_cases hid : i.job = id <;> simp [hid]

/-- An enabled job that nobody has was not invoked. -/
theorem Once.not_invoked (h : Once id s) (hjob : job ∈ s.load.store.getD []) (hid : job.id = id)
    (henabled : job.enabled) (hcalls : ∀ c ∈ s.calls, c.job.id ≠ id)
    (htimer : ∀ t ∈ s.timer, ∀ job ∈ t.current?, job.id ≠ id) : s.invocations id = 0 := by
  rcases h.place with h0 | ⟨c, hc, hcid⟩ | ⟨t, ht, j, hj, hjid⟩ | hspent
  · exact h0
  · exact absurd hcid (hcalls c hc)
  · exact absurd hjid (htimer t ht j hj)
  · have hdisabled := hspent.load.store job hjob hid
    rw [hdisabled] at henabled
    cases henabled

/-- `run_job` takes a one-shot job only while nobody has it. -/
theorem Once.runJob (h : Once id s) {id' : String} {force : Bool}
    (ha : s.Undisturbed (.runJob id' force)) : Once id (s.runJob id' force) := by
  unfold CronService.runJob
  split
  · exact h.load
  · next job hchosen =>
    obtain ⟨hmem, hjob, -⟩ := chosenJob_spec hchosen
    have hl := h.load
    have hcount := invocations_append s.invoked
      { job := job.id, byTick := false, started := s.started } id
    rw [← invocations] at hcount
    simp only at hcount
    by_cases hid : job.id = id
    · have hat := hl.store job hmem hid
      obtain ⟨henabled, hkept, hfree⟩ := ha job hchosen hat
      have hown : id' = id := hjob.symm.trans hid
      subst hown
      obtain ⟨hnocall, hnotimer⟩ := not_or.mp hfree
      have hcalls : ∀ c ∈ s.calls, c.job.id ≠ id' := fun c hc heq => hnocall ⟨c, hc, heq⟩
      have hheld : ∀ t ∈ s.timer, ∀ j ∈ t.held, j.id ≠ id' :=
        fun t ht j hj heq => hnotimer ⟨t, ht, j, hj, heq⟩
      have hzero := h.not_invoked hmem hid henabled hcalls fun t ht j hj =>
        hheld t ht j (List.mem_append_left _ (Option.mem_toList.mpr hj))
      rw [if_pos hid, hzero] at hcount
      refine ⟨hl.disk, hl.store, hl.held, fun c hc hcid => ?_, hl.returned, hcount.le,
        fun t ht ⟨j, hj, hjid⟩ => ?_, Or.inr (Or.inl ⟨_, List.mem_append_right _ List.mem_cons_self, hid⟩)⟩
      · rcases List.mem_append.mp hc with hc | hc
        · exact absurd hcid (hcalls c hc)
        · rw [List.mem_singleton.mp hc]
          exact ⟨hat, hkept, fun hreturned => by cases hreturned⟩
      · have ht : t ∈ s.timer := by simpa using ht
        exact absurd hjid (hheld t ht j (List.mem_append_right _ hj))
    · rw [if_neg hid, Nat.add_zero] at hcount
      refine ⟨hl.disk, hl.store, hl.held, fun c hc hcid => ?_, hl.returned, hcount.trans_le h.le,
        fun t ht hpending => ?_, ?_⟩
      · rcases List.mem_append.mp hc with hc | hc
        · exact h.calls c hc hcid
        · rw [List.mem_singleton.mp hc] at hcid
          exact absurd hcid hid
      · exact hcount.trans (h.pending t (by simpa using ht) hpending)
      · rcases h.place with h0 | ⟨c, hc, hcid⟩ | ⟨t, ht, htick⟩ | hspent
        · exact Or.inl (hcount.trans h0)
        · exact Or.inr (Or.inl ⟨c, List.mem_append_left _ hc, hcid⟩)
        · exact Or.inr (Or.inr (Or.inl ⟨t, by simpa using ht, htick⟩))
        · exact Or.inr (Or.inr (Or.inr ⟨hspent.load.store, hspent.load.disk⟩))

/-- The calls go on. -/
theorem Once.withCalls (h : Once id s) {calls : List RunCall}
    (hcalls : ∀ c ∈ calls, c.job.id = id →
      c.job.schedule.kind = .«at» ∧ c.job.deleteAfterRun = false ∧
        (c.returned → c.job.enabled = false))
    (hkept : (∃ c ∈ s.calls, c.job.id = id) → (∃ c ∈ calls, c.job.id = id) ∨ Spent id s) :
    Once id { s with calls := calls } := by
  refine ⟨h.disk, h.store, h.held, hcalls, h.returned, h.le, h.pending, ?_⟩
  have hspent' : Spent id s → Spent id { s with calls := calls } :=
    fun hspent => ⟨hspent.store, hspent.disk⟩
  rcases h.place with h0 | hcall | htick | hspent
  · exact Or.inl h0
  · rcases hkept hcall with hcall | hspent
    · exact Or.inr (Or.inl hcall)
    · exact Or.inr (Or.inr (Or.inr (hspent' hspent)))
  · exact Or.inr (Or.inr (Or.inl htick))
  · exact Or.inr (Or.inr (Or.inr (hspent' hspent)))

theorem Orderly.runReturns (h : s.Orderly) (k : Nat) (error : Option String)
    (start stop now : Int64) : (s.runReturns env k error start stop now).Orderly := by
  unfold CronService.runReturns
  split
  · split
    · exact h
    · refine ⟨h.orphans, h.started, h.active, h.diskIds, h.storeIds, h.heldIds, fun hcalls => ?_,
        h.invoked⟩
      refine h.called fun hnil => hcalls ?_
      simp [hnil]
  · exact h

/-- The handler returns: the invocation is counted already. -/
theorem Once.runReturns (h : Once id s) (k : Nat) (error : Option String)
    (start stop now : Int64) : Once id (s.runReturns env k error start stop now) := by
  unfold CronService.runReturns
  split
  · next c hc =>
    split
    · exact h
    · have hin : c ∈ s.calls := List.mem_of_getElem? hc
      refine h.withCalls (fun d hd hid => ?_) fun ⟨d, hd, hid⟩ => Or.inl ?_
      · rcases List.mem_or_eq_of_mem_set hd with hd | rfl
        · exact h.calls d hd hid
        · obtain ⟨hat, hkept, -⟩ := h.calls c hin (by simpa using hid)
          simp [hat, hkept, CronJob.enabled_executed env error start stop now hat hkept]
      · obtain ⟨i, hi⟩ := List.mem_iff_getElem?.mp hd
        by_cases hik : k = i
        · subst hik
          obtain rfl := Option.some.inj (hc.symm.trans hi)
          refine ⟨_, List.mem_of_getElem? (List.getElem?_set_self ?_), by simpa using hid⟩
          exact (List.getElem?_eq_some_iff.mp hc).1
        · exact ⟨d, List.mem_of_getElem? ((List.getElem?_set_ne hik).trans hi), hid⟩
  · exact h

/-- `run_job` up to the timer. -/
def wroteBack (s : CronService) (k : Nat) (c : RunCall) : CronService :=
  { (s.withJobs (replaceFirst c.job.id c.job)).save with
    running := c.wasRunning
    calls := s.calls.eraseIdx k }

variable {k : Nat} {c : RunCall}

theorem runFinish_of_atRest (hc : s.calls[k]? = some c) (hreturned : c.returned)
    (hrest : c.wasRunning → s.TimerAtRest) :
    s.runFinish k =
      { s.wroteBack k c with timer := if c.wasRunning then some {} else s.timer } := by
  have hcalls : (s.withJobs (replaceFirst c.job.id c.job)).save.calls = s.calls := by
    rw [calls_save]
    rfl
  have htimer : (s.wroteBack k c).timer = s.timer := by
    show (s.withJobs (replaceFirst c.job.id c.job)).save.timer = s.timer
    rw [timer_save]
    rfl
  simp only [runFinish, hc, hreturned, if_true, hcalls]
  show (if c.wasRunning = true then (s.wroteBack k c).armTimer else s.wroteBack k c) = _
  by_cases hwas : c.wasRunning = true
  · have hrest' : (s.wroteBack k c).TimerAtRest := fun t ht => hrest hwas t (htimer ▸ ht)
    rw [if_pos hwas, if_pos hwas, armTimer_of_atRest hrest',
      if_pos (show (s.wroteBack k c).running = true from hwas)]
  · rw [if_neg hwas, if_neg hwas, ← htimer]

theorem Orderly.wroteBack (h : s.Orderly) (k : Nat) (c : RunCall) : (s.wroteBack k c).Orderly := by
  have hkeeps : ∀ jobs, (replaceFirst c.job.id c.job jobs).map CronJob.id = jobs.map CronJob.id :=
    ids_replaceFirst rfl
  have hs := (h.withJobs fun jobs hids => (hkeeps jobs).symm ▸ hids).save
  refine ⟨hs.orphans, hs.started, hs.active, hs.diskIds, hs.storeIds, hs.heldIds, fun hcalls => ?_,
    hs.invoked⟩
  refine hs.called ?_
  rw [calls_save]
  intro hnil
  have hnil : s.calls = [] := hnil
  exact hcalls (by simp [CronService.wroteBack, hnil])

theorem Once.wroteBack (h : Once id s) (ho : s.Orderly) (hc : s.calls[k]? = some c)
    (hreturned : c.returned) : Once id (s.wroteBack k c) := by
  have hin : c ∈ s.calls := List.mem_of_getElem? hc
  have hsome : s.store.isSome := ho.called (List.ne_nil_of_mem hin)
  obtain ⟨jobs, hjobs⟩ := Option.isSome_iff_exists.mp hsome
  have hids : (jobs.map CronJob.id).Nodup := by simpa [hjobs] using ho.storeIds
  have hs : Once id (s.withJobs (replaceFirst c.job.id c.job)).save := by
    refine h.saveJobs (fun hshots => ?_) (fun hdisabled => ?_) hsome
    · rw [hjobs] at hshots ⊢
      intro j hj hid
      rcases mem_replaceFirst hids hj with rfl | ⟨hj, -⟩
      · exact (h.calls c hin hid).1
      · exact hshots j hj hid
    · rw [hjobs] at hdisabled ⊢
      intro j hj hid
      rcases mem_replaceFirst hids hj with rfl | ⟨hj, -⟩
      · exact (h.calls c hin hid).2.2 hreturned
      · exact hdisabled j hj hid
  have hcalls : (s.withJobs (replaceFirst c.job.id c.job)).save.calls = s.calls := by
    rw [calls_save]
    rfl
  have hdone : Once id { (s.withJobs (replaceFirst c.job.id c.job)).save with
      calls := s.calls.eraseIdx k } := by
    refine hs.withCalls (fun d hd hid => h.calls d (List.mem_of_mem_eraseIdx hd) hid) ?_
    rw [hcalls]
    rintro ⟨d, hd, hid⟩
    obtain ⟨i, hi⟩ := List.mem_iff_getElem?.mp hd
    by_cases hik : i = k
    · -- the execution of the job itself is over
      subst hik
      obtain rfl := Option.some.inj (hc.symm.trans hi)
      refine Or.inr (Spent.save ?_ (by simpa [CronService.withJobs] using hsome))
      intro j hj hjid
      rw [CronService.withJobs, hjobs] at hj
      rcases mem_replaceFirst hids hj with rfl | ⟨-, hne⟩
      · exact (h.calls c hin hjid).2.2 hreturned
      · exact absurd (hjid.trans hid.symm) hne
    · exact Or.inl ⟨d, List.mem_eraseIdx_iff_getElem?.mpr ⟨i, hik, hi⟩, hid⟩
  exact ⟨hdone.disk, hdone.store, hdone.held, hdone.calls, hdone.returned, hdone.le, hdone.pending,
    hdone.place.imp_right fun hp => hp.imp_right fun hp => hp.imp_right fun hspent =>
      ⟨hspent.store, hspent.disk⟩⟩

theorem runFinish_cases (ha : s.Undisturbed (.runFinish k)) :
    s.runFinish k = s ∨ ∃ c, s.calls[k]? = some c ∧ c.returned ∧
      ((s.started ∧ s.TimerAtRest ∧ s.runFinish k = { s.wroteBack k c with timer := some {} }) ∨
        s.runFinish k = s.wroteBack k c) := by
  cases hc : s.calls[k]? with
  | none => exact Or.inl (by simp [runFinish, hc])
  | some c =>
    by_cases hreturned : c.returned = true
    · refine Or.inr ⟨c, rfl, hreturned, ?_⟩
      have heq := runFinish_of_atRest hc hreturned fun hwas => (ha c hc hwas).2
      by_cases hwas : c.wasRunning = true
      · rw [if_pos hwas] at heq
        exact Or.inl ⟨(ha c hc hwas).1, (ha c hc hwas).2, heq⟩
      · rw [if_neg hwas] at heq
        have htimer : (s.wroteBack k c).timer = s.timer := by simp [wroteBack, withJobs]
        exact Or.inr (heq.trans (by rw [← htimer]))
    · exact Or.inl (by simp [runFinish, hc, hreturned])

theorem Orderly.runFinish (h : s.Orderly) (ha : s.Undisturbed (.runFinish k)) :
    (s.runFinish k).Orderly := by
  rcases runFinish_cases ha with heq | ⟨c, -, -, ⟨hstarted, -, heq⟩ | heq⟩ <;> rw [heq]
  · exact h
  · refine (h.wroteBack k c).withTimer (fun _ _ _ => ?_) fun t ht => ?_
    · simpa [CronService.wroteBack, CronService.withJobs] using hstarted
    · obtain rfl := Option.some.inj ht
      exact ⟨rfl, fun hb => hb⟩
  · exact h.wroteBack k c

/-- The result is written back, and the job is spent. -/
theorem Once.runFinish (h : Once id s) (ho : s.Orderly) (ha : s.Undisturbed (.runFinish k)) :
    Once id (s.runFinish k) := by
  rcases runFinish_cases ha with heq | ⟨c, hc, hreturned, ⟨-, hrest, heq⟩ | heq⟩ <;> rw [heq]
  · exact h
  · refine (h.wroteBack ho hc hreturned).withTimer (fun t ht => ?_) fun t ht => ?_
    · obtain rfl := Option.some.inj ht
      rfl
    · have ht : t ∈ s.timer := by simpa [CronService.wroteBack, CronService.withJobs] using ht
      exact (hrest t ht).2
  · exact h.wroteBack ho hc hreturned

/-! ## Ticks -/

/-- What the timer task does next, apart from waiting and being polled. -/
inductive Ticks (env : CronEnv) (s : CronService) (t : Tick) : TickAct → CronService → Prop
  | same (act : TickAct) : Ticks env s t act s
  | poll (act : TickAct) (polled : Bool) (hlive : t.stage ≠ .finished) :
      Ticks env s t act { s with timer := some { t with polled := polled } }
  | chosen (hstage : t.stage = .sleeping) :
      Ticks env s t .wake { s with timer := some { t with stage := .chosen } }
  | ends (hstage : t.stage = .sleeping) :
      Ticks env s t .wake { s with timer := some { stage := .finished, polled := false } }
  | begins (now : Int64) (hstage : t.stage = .chosen) :
      Ticks env s t (.begin now) (s.beginTick none t now)
  | invokes (job : CronJob) (rest : List CronJob) (hstage : t.stage = .between (job :: rest)) :
      Ticks env s t .invoke
        { s with
          invoked := s.invoked ++ [{ job := job.id, byTick := true, started := s.started }]
          timer := some { t with stage := .executing job rest } }
  | returns (job : CronJob) (rest : List CronJob) (error : Option String) (start stop now : Int64)
      (hstage : t.stage = .executing job rest) :
      Ticks env s t (.returns error start stop now)
        { s with
          timer := some
            { t with stage := .returned (job.executed env error start stop now) rest } }
  | writesBack (job : CronJob) (rest : List CronJob) (hstage : t.stage = .returned job rest) :
      Ticks env s t .writeBack
        { s.writeBack job with timer := some { t with stage := .between rest } }
  | finishes (hstage : t.stage = .between []) : Ticks env s t .finish (s.finishTick none)

theorem ticks_tickStep (t : Tick) (act : TickAct) :
    Ticks env s t act (s.tickStep env none t act) := by
  unfold tickStep
  split
  · split
    · next hstage =>
      split
      · exact .chosen hstage
      · exact .ends hstage
    · next hstage => exact .begins _ hstage
    · next hstage => exact .invokes _ _ hstage
    · next hstage => exact .returns _ _ _ _ _ _ hstage
    · next hstage => exact .writesBack _ _ hstage
    · next hstage => exact .finishes hstage
    · exact .same _
    · next hne => exact .poll _ _ hne
    · exact .same _
  · split
    · exact .same _
    · next hne => exact .poll _ _ hne
    · exact .same _

theorem writeBack_eq (s : CronService) (job : CronJob) :
    s.writeBack job = s.withJobs fun jobs =>
      if job.schedule.kind = .«at» ∧ job.deleteAfterRun then
        (replaceFirst job.id job jobs).filter fun j => j.id ≠ job.id
      else replaceFirst job.id job jobs := by
  unfold writeBack
  split
  · simp [withJobs, Option.map_map, Function.comp_def]
  · rfl

theorem finishTick_eq (s : CronService) :
    s.finishTick none =
      { s.save with timerActive := false, timer := if s.running then some {} else none } := by
  have hrest : TimerAtRest { (s.setTick none { stage := .finished, polled := false }).save with
      timerActive := false } := by
    intro t ht
    have ht : some { stage := .finished, polled := false } = some t := by simpa [setTick] using ht
    obtain rfl := Option.some.inj ht
    exact ⟨rfl, fun job hjob => by cases hjob⟩
  have hsave : (s.setTick none { stage := .finished, polled := false }).save =
      { s.save with timer := some { stage := .finished, polled := false } } := by
    unfold save
    cases hstore : s.store <;> simp [setTick, hstore]
  simp only [finishTick]
  rw [armTimer_of_atRest hrest, hsave]
  simp

namespace Orderly

variable {t t' : Tick}

theorem setTimer (h : s.Orderly) (ht : s.timer = some t) (hids : (t'.held.map CronJob.id).Nodup)
    (hbegun : t'.Begun → t.Begun) (hlive : t.stage ≠ .finished) :
    Orderly { s with timer := some t' } := by
  refine ⟨h.orphans, fun u hu _ => h.started t ht hlive, fun u hu hb => ?_, h.diskIds, h.storeIds,
    fun u hu => ?_, h.called, h.invoked⟩ <;> obtain rfl := Option.some.inj hu
  · exact h.active t ht (hbegun hb)
  · exact hids

theorem beginTick (h : s.Orderly) (ht : s.timer = some t) (hstage : t.stage = .chosen)
    (now : Int64) : (s.beginTick none t now).Orderly := by
  have hl := h.load
  refine ⟨hl.orphans, fun u hu _ => ?_, fun u hu _ => ⟨rfl, isSome_load s⟩, hl.diskIds, hl.storeIds,
    fun u hu => ?_, hl.called, hl.invoked⟩
  · exact hl.started t (by rw [timer_load, ht]; rfl) (by simp [hstage])
  · obtain rfl := Option.some.inj hu
    exact (List.Sublist.map CronJob.id List.filter_sublist).nodup hl.storeIds

variable {job : CronJob} {rest : List CronJob}

theorem invokes (h : s.Orderly) (ht : s.timer = some t)
    (hstage : t.stage = .between (job :: rest)) :
    Orderly { s with
      invoked := s.invoked ++ [{ job := job.id, byTick := true, started := s.started }]
      timer := some { t with stage := .executing job rest } } := by
  have hstarted : s.started := h.started t ht (by simp [hstage])
  have hids := h.heldIds t ht
  have hs : Orderly { s with timer := some { t with stage := .executing job rest } } :=
    h.setTimer ht (by simpa [Tick.held, Tick.current?, Tick.pending, hstage] using hids)
      (fun _ => by simp [Tick.Begun, hstage]) (by simp [hstage])
  refine ⟨hs.orphans, hs.started, hs.active, hs.diskIds, hs.storeIds, hs.heldIds, hs.called,
    fun i hi => ?_⟩
  rcases List.mem_append.mp hi with hi | hi
  · exact h.invoked i hi
  · rw [List.mem_singleton.mp hi]
    exact fun _ => hstarted

theorem writesBack (h : s.Orderly) (ht : s.timer = some t) (hstage : t.stage = .returned job rest) :
    Orderly { s.writeBack job with timer := some { t with stage := .between rest } } := by
  have hwrote : (s.writeBack job).Orderly := by
    rw [writeBack_eq]
    refine h.withJobs fun jobs hids => ?_
    have hreplaced : ((replaceFirst job.id job jobs).map CronJob.id).Nodup :=
      (ids_replaceFirst rfl jobs).symm ▸ hids
    split
    · exact (List.Sublist.map CronJob.id List.filter_sublist).nodup hreplaced
    · exact hreplaced
  have htimer : (s.writeBack job).timer = some t := by
    rw [writeBack_eq]
    exact ht
  have hids : ((job :: rest).map CronJob.id).Nodup := by
    simpa [Tick.held, Tick.current?, Tick.pending, hstage] using h.heldIds t ht
  exact hwrote.setTimer htimer (List.nodup_cons.mp hids).2 (fun _ => by simp [Tick.Begun, hstage])
    (by simp [hstage])

theorem finishTick (h : s.Orderly) (ht : s.timer = some t) (hstage : t.stage = .between []) :
    (s.finishTick none).Orderly := by
  rw [finishTick_eq]
  have hs := h.save
  have hstarted : s.started := h.started t ht (by simp [hstage])
  refine ⟨hs.orphans, fun u hu _ => ?_, fun u hu hb => ?_, hs.diskIds, hs.storeIds, fun u hu => ?_,
    hs.called, hs.invoked⟩
  · simpa using hstarted
  · split at hu
    · obtain rfl := Option.some.inj hu
      exact hb.elim
    · cases hu
  · split at hu
    · obtain rfl := Option.some.inj hu
      exact List.nodup_nil
    · cases hu

theorem ticks (h : s.Orderly) (ht : s.timer = some t) {act : TickAct} {s' : CronService}
    (hticks : Ticks env s t act s') : s'.Orderly := by
  have hids := h.heldIds t ht
  cases hticks with
  | same => exact h
  | poll _ polled hlive => exact h.setTimer ht hids id hlive
  | chosen hstage => exact h.setTimer ht List.nodup_nil False.elim (by simp [hstage])
  | ends hstage => exact h.setTimer ht List.nodup_nil False.elim (by simp [hstage])
  | begins now hstage => exact h.beginTick ht hstage now
  | invokes job rest hstage => exact h.invokes ht hstage
  | returns job rest error start stop now hstage =>
    refine h.setTimer ht ?_ (fun _ => by simp [Tick.Begun, hstage]) (by simp [hstage])
    simpa [Tick.held, Tick.current?, Tick.pending, hstage] using hids
  | writesBack job rest hstage => exact h.writesBack ht hstage
  | finishes hstage => exact h.finishTick ht hstage

end Orderly

namespace Once

variable {t t' : Tick}

theorem setTimer (h : Once id s) (ht : s.timer = some t) (hcurrent : t'.current? = t.current?)
    (hpending : t'.pending = t.pending)
    (hreturned : ∀ job rest, t'.stage = .returned job rest → t.stage = .returned job rest) :
    Once id { s with timer := some t' } := by
  have hheld : t'.held = t.held := by rw [Tick.held, Tick.held, hcurrent, hpending]
  refine ⟨h.disk, h.store, fun u hu => ?_, h.calls, fun u hu job rest hstage => ?_, h.le,
    fun u hu => ?_, ?_⟩
  · obtain rfl := Option.some.inj hu
    exact hheld ▸ h.held t ht
  · obtain rfl := Option.some.inj hu
    exact h.returned t ht job rest (hreturned job rest hstage)
  · obtain rfl := Option.some.inj hu
    exact hpending ▸ h.pending t ht
  · rcases h.place with h0 | hcall | ⟨u, hu, hjob⟩ | hspent
    · exact Or.inl h0
    · exact Or.inr (Or.inl hcall)
    · obtain rfl := Option.some.inj (ht.symm.trans hu)
      exact Or.inr (Or.inr (Or.inl ⟨t', rfl, hcurrent ▸ hjob⟩))
    · exact Or.inr (Or.inr (Or.inr ⟨hspent.store, hspent.disk⟩))

theorem place_of_none (h : Once id s) (ht : s.timer = some t) (hcurrent : t.current? = none) :
    s.invocations id = 0 ∨ (∃ c ∈ s.calls, c.job.id = id) ∨ Spent id s := by
  rcases h.place with h0 | hcall | ⟨u, hu, job, hjob, -⟩ | hspent
  · exact Or.inl h0
  · exact Or.inr (Or.inl hcall)
  · obtain rfl := Option.some.inj (ht.symm.trans hu)
    rw [hcurrent] at hjob
    cases hjob
  · exact Or.inr (Or.inr hspent)

theorem beginTick (h : Once id s) (ht : s.timer = some t) (hstage : t.stage = .chosen) {now : Int64}
    (ha : s.Undisturbed (.tick none (.begin now))) : Once id (s.beginTick none t now) := by
  have hl := h.load
  have hcurrent : t.current? = none := by simp [Tick.current?, hstage]
  have hdue : ∀ job ∈ (s.load.store.getD []).filter (fun job => job.Due now), job.id = id →
      s.invocations id = 0 := by
    intro job hjob hid
    obtain ⟨hmem, hdue⟩ := List.mem_filter.mp hjob
    have hdue : job.Due now := by simpa using hdue
    refine h.not_invoked hmem hid hdue.1 (fun c hc => ?_) fun u hu j hj => ?_
    · exact hid ▸ ha job hmem hdue (hl.store job hmem hid) c hc
    · obtain rfl := Option.some.inj (ht.symm.trans hu)
      rw [hcurrent] at hj
      cases hj
  refine ⟨hl.disk, hl.store, fun u hu => ?_, hl.calls, fun u hu job rest hret => ?_, ?_,
    fun u hu ⟨job, hjob, hid⟩ => ?_, ?_⟩
  · obtain rfl := Option.some.inj hu
    intro job hjob hid
    exact hl.store job (List.mem_filter.mp hjob).1 hid
  · obtain rfl := Option.some.inj hu
    cases hret
  · exact hl.le
  · obtain rfl := Option.some.inj hu
    show s.load.invocations id = 0
    rw [invocations, invoked_load]
    exact hdue job hjob hid
  · rcases h.place_of_none ht hcurrent with h0 | ⟨c, hc, hid⟩ | hspent
    · refine Or.inl ?_
      show s.load.invocations id = 0
      rw [invocations, invoked_load]
      exact h0
    · refine Or.inr (Or.inl ⟨c, ?_, hid⟩)
      show c ∈ s.load.calls
      rw [calls_load]
      exact hc
    · refine Or.inr (Or.inr (Or.inr ⟨hspent.load.store, fun hstale => ?_⟩))
      exact absurd ⟨rfl, isSome_load s⟩ hstale

variable {job : CronJob} {rest : List CronJob}

theorem invokes (h : Once id s) (ho : s.Orderly) (ht : s.timer = some t)
    (hstage : t.stage = .between (job :: rest)) :
    Once id { s with
      invoked := s.invoked ++ [{ job := job.id, byTick := true, started := s.started }]
      timer := some { t with stage := .executing job rest } } := by
  have hcount := invocations_append s.invoked
    { job := job.id, byTick := true, started := s.started } id
  rw [← invocations] at hcount
  simp only at hcount
  have hpending : t.pending = job :: rest := by simp [Tick.pending, hstage]
  have hheld : t.held = job :: rest := by simp [Tick.held, Tick.current?, Tick.pending, hstage]
  have hids : ((job :: rest).map CronJob.id).Nodup := hheld ▸ ho.heldIds t ht
  have hshots : OneShots id (job :: rest) := hheld ▸ h.held t ht
  refine ⟨h.disk, h.store, fun u hu => ?_, h.calls, fun u hu j r hret => ?_, ?_,
    fun u hu ⟨j, hj, hid⟩ => ?_, ?_⟩
  · obtain rfl := Option.some.inj hu
    exact hshots
  · obtain rfl := Option.some.inj hu
    cases hret
  · refine hcount.trans_le ?_
    split
    · next hid =>
      rw [h.pending t ht ⟨job, hpending ▸ List.mem_cons_self, hid⟩]
    · exact h.le
  · obtain rfl := Option.some.inj hu
    have hj : j ∈ rest := hj
    have hne : job.id ≠ id := by
      rintro rfl
      exact (List.nodup_cons.mp hids).1 (hid ▸ List.mem_map_of_mem hj)
    refine hcount.trans ?_
    rw [if_neg hne, Nat.add_zero]
    exact h.pending t ht ⟨j, hpending ▸ List.mem_cons_of_mem _ hj, hid⟩
  · by_cases hid : job.id = id
    · exact Or.inr (Or.inr (Or.inl ⟨_, rfl, job, rfl, hid⟩))
    · rw [if_neg hid, Nat.add_zero] at hcount
      rcases h.place_of_none ht (by simp [Tick.current?, hstage]) with h0 | hcall | hspent
      · exact Or.inl (hcount.trans h0)
      · exact Or.inr (Or.inl hcall)
      · exact Or.inr (Or.inr (Or.inr ⟨hspent.store, hspent.disk⟩))

theorem returns (h : Once id s) (ht : s.timer = some t) (hstage : t.stage = .executing job rest)
    (error : Option String) (start stop now : Int64) :
    Once id { s with
      timer := some { t with stage := .returned (job.executed env error start stop now) rest } } := by
  have hheld : t.held = job :: rest := by simp [Tick.held, Tick.current?, Tick.pending, hstage]
  have hshots : OneShots id (job :: rest) := hheld ▸ h.held t ht
  obtain ⟨hjob, hrest⟩ := List.forall_mem_cons.mp hshots
  refine ⟨h.disk, h.store, fun u hu => ?_, h.calls, fun u hu j r hret hid => ?_, h.le,
    fun u hu hpending => ?_, ?_⟩
  · obtain rfl := Option.some.inj hu
    refine List.forall_mem_cons.mpr ⟨fun hid => ?_, hrest⟩
    rw [CronJob.schedule_executed]
    exact hjob (by simpa using hid)
  · obtain rfl := Option.some.inj hu
    obtain ⟨rfl, rfl⟩ := TickStage.returned.inj hret
    rw [CronJob.deleteAfterRun_executed]
    cases hdelete : job.deleteAfterRun with
    | true => exact Or.inl rfl
    | false =>
      exact Or.inr (CronJob.enabled_executed env error start stop now (hjob (by simpa using hid))
        hdelete)
  · obtain rfl := Option.some.inj hu
    exact h.pending t ht (by simpa [Tick.pending, hstage] using hpending)
  · rcases h.place with h0 | hcall | ⟨u, hu, j, hj, hid⟩ | hspent
    · exact Or.inl h0
    · exact Or.inr (Or.inl hcall)
    · obtain rfl := Option.some.inj (ht.symm.trans hu)
      have hj : job = j := by simpa [Tick.current?, hstage] using hj
      subst hj
      exact Or.inr (Or.inr (Or.inl ⟨_, rfl, _, rfl, by simpa using hid⟩))
    · exact Or.inr (Or.inr (Or.inr ⟨hspent.store, hspent.disk⟩))

theorem mem_wroteBack {j : CronJob} {jobs : List CronJob} (hids : (jobs.map CronJob.id).Nodup)
    (h : j ∈ if job.schedule.kind = .«at» ∧ job.deleteAfterRun then
        (replaceFirst job.id job jobs).filter fun j => j.id ≠ job.id
      else replaceFirst job.id job jobs) :
    (j = job ∧ ¬ (job.schedule.kind = .«at» ∧ job.deleteAfterRun)) ∨ j ∈ jobs ∧ j.id ≠ job.id := by
  split at h
  · obtain ⟨hmem, hne⟩ := List.mem_filter.mp h
    have hne : j.id ≠ job.id := by simpa using hne
    rcases mem_replaceFirst hids hmem with rfl | hold
    · exact absurd rfl hne
    · exact Or.inr hold
  · next hcond =>
    rcases mem_replaceFirst hids h with rfl | hold
    · exact Or.inl ⟨rfl, hcond⟩
    · exact Or.inr hold

theorem writesBack (h : Once id s) (ho : s.Orderly) (ht : s.timer = some t)
    (hstage : t.stage = .returned job rest) :
    Once id { s.writeBack job with timer := some { t with stage := .between rest } } := by
  have hheld : t.held = job :: rest := by simp [Tick.held, Tick.current?, Tick.pending, hstage]
  have hshots : OneShots id (job :: rest) := hheld ▸ h.held t ht
  obtain ⟨hjob, hrest⟩ := List.forall_mem_cons.mp hshots
  obtain ⟨hactive, hsome⟩ := ho.active t ht (by simp [Tick.Begun, hstage])
  obtain ⟨jobs, hjobs⟩ := Option.isSome_iff_exists.mp hsome
  have hids : (jobs.map CronJob.id).Nodup := by simpa [hjobs] using ho.storeIds
  have hstore : OneShots id jobs := by simpa [hjobs] using h.store
  rw [writeBack_eq, withJobs, hjobs]
  refine ⟨h.disk, fun j hj hid => ?_, fun u hu => ?_, h.calls, fun u hu j r hret => ?_, h.le,
    fun u hu hpending => ?_, ?_⟩
  · rcases mem_wroteBack hids hj with ⟨rfl, -⟩ | ⟨hj, -⟩
    · exact hjob hid
    · exact hstore j hj hid
  · obtain rfl := Option.some.inj hu
    exact hrest
  · obtain rfl := Option.some.inj hu
    cases hret
  · obtain rfl := Option.some.inj hu
    exact h.pending t ht (by simpa [Tick.pending, hstage] using hpending)
  · have hspent : Disabled id jobs ∨ job.id = id →
        Disabled id (if job.schedule.kind = .«at» ∧ job.deleteAfterRun then
          (replaceFirst job.id job jobs).filter fun j => j.id ≠ job.id
        else replaceFirst job.id job jobs) := by
      intro hcase j hj hid
      rcases mem_wroteBack hids hj with ⟨rfl, hcond⟩ | ⟨hj, hne⟩
      · -- the job itself: it was not to be deleted, so its execution has disabled it
        rcases h.returned t ht j rest hstage hid with hdelete | hdisabled
        · exact absurd ⟨hjob hid, hdelete⟩ hcond
        · exact hdisabled
      · rcases hcase with hold | hown
        · exact hold j hj hid
        · exact absurd (hid.trans hown.symm) hne
    rcases h.place with h0 | hcall | ⟨u, hu, j, hj, hid⟩ | hold
    · exact Or.inl h0
    · exact Or.inr (Or.inl hcall)
    · obtain rfl := Option.some.inj (ht.symm.trans hu)
      have hj : job = j := by simpa [Tick.current?, hstage] using hj
      exact Or.inr (Or.inr (Or.inr
        ⟨hspent (Or.inr (hj ▸ hid)), fun hstale => absurd ⟨hactive, rfl⟩ hstale⟩))
    · have hdisabled : Disabled id jobs := by simpa [hjobs] using hold.store
      exact Or.inr (Or.inr (Or.inr
        ⟨hspent (Or.inl hdisabled), fun hstale => absurd ⟨hactive, rfl⟩ hstale⟩))

theorem finishTick (h : Once id s) (ho : s.Orderly) (ht : s.timer = some t)
    (hstage : t.stage = .between []) : Once id (s.finishTick none) := by
  obtain ⟨-, hsome⟩ := ho.active t ht (by simp [Tick.Begun, hstage])
  obtain ⟨jobs, hjobs⟩ := Option.isSome_iff_exists.mp hsome
  have hstore : OneShots id jobs := by simpa [hjobs] using h.store
  have hsave : s.save = { s with disk := jobs.map CronJob.written } := by
    rw [CronService.save, hjobs]
  rw [finishTick_eq, hsave]
  refine ⟨hstore.written, h.store, fun u hu => ?_, h.calls, fun u hu j r hret => ?_, h.le,
    fun u hu hpending => ?_, ?_⟩
  · split at hu
    · obtain rfl := Option.some.inj hu
      exact List.forall_mem_nil _
    · cases hu
  · split at hu
    · obtain rfl := Option.some.inj hu
      cases hret
    · cases hu
  · split at hu
    · obtain rfl := Option.some.inj hu
      obtain ⟨j, hj, -⟩ := hpending
      exact absurd hj List.not_mem_nil
    · cases hu
  · rcases h.place_of_none ht (by simp [Tick.current?, hstage]) with h0 | hcall | hspent
    · exact Or.inl h0
    · exact Or.inr (Or.inl hcall)
    · have hdisabled : Disabled id jobs := by simpa [hjobs] using hspent.store
      exact Or.inr (Or.inr (Or.inr ⟨hspent.store, fun _ => hdisabled.written⟩))

theorem ticks (h : Once id s) (ho : s.Orderly) (ht : s.timer = some t) {act : TickAct}
    {s' : CronService} (hticks : Ticks env s t act s') (ha : s.Undisturbed (.tick none act)) :
    Once id s' := by
  cases hticks with
  | same => exact h
  | poll _ polled hlive => exact h.setTimer ht rfl rfl fun _ _ hstage => hstage
  | chosen hstage =>
    exact h.setTimer ht (by simp [Tick.current?, hstage]) (by simp [Tick.pending, hstage])
      fun _ _ hret => by cases hret
  | ends hstage =>
    exact h.setTimer ht (by simp [Tick.current?, hstage]) (by simp [Tick.pending, hstage])
      fun _ _ hret => by cases hret
  | begins now hstage => exact h.beginTick ht hstage ha
  | invokes job rest hstage => exact h.invokes ho ht hstage
  | returns job rest error start stop now hstage => exact h.returns ht hstage error start stop now
  | writesBack job rest hstage => exact h.writesBack ho ht hstage
  | finishes hstage => exact h.finishTick ho ht hstage

end Once

/-! ## Runs -/

theorem Orderly.step (h : s.Orderly) {a : Event} (ha : s.Undisturbed a) : (s.step env a).Orderly := by
  cases a with
  | start now => exact h.start ha now
  | stop => exact h.stop ha
  | runJob id' force => exact h.runJob id' force
  | runReturns k error start stop now => exact h.runReturns k error start stop now
  | runFinish k => exact h.runFinish ha
  | tick who act =>
    cases who with
    | none =>
      simp only [CronService.step, tick?]
      cases ht : s.timer with
      | none => exact h
      | some t => exact h.ticks ht (ticks_tickStep t act)
    | some i =>
      simp only [CronService.step, tick?, h.orphans, List.getElem?_nil]
      exact h
  | call c => exact ha.elim
  | register job now => exact ha.elim

/-- **One step.** No event that comes undisturbed invokes a one-shot job again. -/
theorem Once.step (h : Once id s) (ho : s.Orderly) {a : Event} (ha : s.Undisturbed a) :
    Once id (s.step env a) := by
  cases a with
  | start now => exact h.start ha now
  | stop => exact h.stop ha
  | runJob id' force => exact h.runJob ha
  | runReturns k error start stop now => exact h.runReturns k error start stop now
  | runFinish k => exact h.runFinish ho ha
  | tick who act =>
    cases who with
    | none =>
      simp only [CronService.step, tick?]
      cases ht : s.timer with
      | none => exact h
      | some t => exact h.ticks ho ht (ticks_tickStep t act) ha
    | some i =>
      simp only [CronService.step, tick?, ho.orphans, List.getElem?_nil]
      exact h
  | call c => exact ha.elim
  | register job now => exact ha.elim

/-- A service that was just made, on a store file. -/
def fresh (disk : List CronJob) : CronService := { disk := disk }

variable {disk : List CronJob}

theorem orderly_fresh (hids : (disk.map CronJob.id).Nodup) :
    (fresh disk).Orderly where
  orphans := rfl
  started t ht := by cases ht
  active t ht := by cases ht
  diskIds := hids
  storeIds := List.nodup_nil
  heldIds t ht := by cases ht
  called hcalls := absurd rfl hcalls
  invoked := List.forall_mem_nil _

/-- A fresh service has invoked nothing. -/
theorem once_fresh (hids : (disk.map CronJob.id).Nodup) (hjob : job ∈ disk)
    (hat : job.schedule.kind = .«at») : Once job.id (fresh disk) where
  disk j hj hid := List.inj_on_of_nodup_map hids hj hjob hid ▸ hat
  store := List.forall_mem_nil _
  held t ht := by cases ht
  calls := List.forall_mem_nil _
  returned t ht := by cases ht
  le := Nat.zero_le _
  pending t ht := by cases ht
  place := Or.inl rfl

/-- Where nothing comes between, the handler is invoked at most once for each one-shot job of the
store, and by ticks only while the service is started. -/
theorem oneShot_of_reach {disk : List CronJob} (hids : (disk.map CronJob.id).Nodup)
    (h : Runs.Reach (CronService.step env) Undisturbed (fresh disk) s) :
    (∀ job ∈ disk, job.schedule.kind = .«at» → s.invocations job.id ≤ 1) ∧
      ∀ i ∈ s.invoked, i.byTick → i.started := by
  have horderly : s.Orderly := h.inv (orderly_fresh hids) fun _ _ hs ha => hs.step ha
  refine ⟨fun job hjob hat => ?_, horderly.invoked⟩
  have honce := h.inv (I := fun s => s.Orderly ∧ Once job.id s)
    ⟨orderly_fresh hids, once_fresh hids hjob hat⟩
    fun _ _ hs ha => ⟨hs.1.step ha, hs.2.step hs.1 ha⟩
  exact honce.2.le

/-- A one-shot job at 100 and a job every minute. -/
def twoJobs : List CronJob :=
  [{ id := "a", name := "call", schedule := { kind := .«at», atMs := some 100 } },
    { id := "b", name := "tea", schedule := { everyMs := some 60 } }]

/-- A tick at 100 executes both, the second one is then run by hand, and the service is stopped. -/
def evening : List Event :=
  .start 0 :: ([.resume, .wake, .begin 100, .invoke, .suspend, .resume, .returns none 100 101 101,
      .writeBack, .invoke, .returns none 101 102 102, .writeBack, .finish] : List TickAct).map
        (.tick none) ++
    [.runJob "b" false, .runReturns 0 none 110 111 111, .runFinish 0, .stop]

def afterEvening : CronService := Runs.run (CronService.step noCron) (fresh twoJobs) evening

theorem oneShot_evening :
    (∀ job ∈ twoJobs, job.schedule.kind = .«at» → afterEvening.invocations job.id ≤ 1) ∧
      (∀ i ∈ afterEvening.invoked, i.byTick → i.started) ∧
      (afterEvening.invocations "a", afterEvening.invocations "b") = (1, 2) := by
  have hmeets : Runs.Meets (CronService.step noCron) Undisturbed (fresh twoJobs) evening := by
    decide +kernel
  obtain ⟨hshots, hticks⟩ := oneShot_of_reach (by decide) (Runs.reach_run hmeets)
  exact ⟨hshots, hticks, by decide +kernel⟩

/-- A one-shot job that is to be deleted is run by hand twice. -/
def twice : List Event :=
  [.start 0, .runJob "a" false, .runReturns 0 none 10 11 11, .runFinish 0, .runJob "a" false]

/-- The service is stopped while a job is run by hand. -/
def stoppedMeanwhile : List Event :=
  [.start 0, .runJob "b" false, .stop, .runReturns 0 none 10 11 11, .runFinish 0] ++
    ([.resume, .wake, .begin 100, .invoke] : List TickAct).map (.tick none)

/-- The handler is invoked twice for the one-shot job, and a tick runs after `stop`. -/
theorem twice_and_afterStop :
    (Runs.run (CronService.step noCron)
      (fresh [{ id := "a", name := "call", schedule := { kind := .«at», atMs := some 100 }
                deleteAfterRun := true }]) twice).invocations "a" = 2 ∧
    ∃ i ∈ (Runs.run (CronService.step noCron) (fresh twoJobs) stoppedMeanwhile).invoked,
      i.byTick ∧ i.started = false := by
  decide +kernel

end CronService

end HiveClaw.Cron
