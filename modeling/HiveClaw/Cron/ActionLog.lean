import Mathlib.Logic.Function.Basic
import HiveClaw.Cron.Service
import HiveClaw.Lib.Runs

/-!
# The action log

A service that is stopped does not write the store; it appends what its calls do to the action
log. `load_store` of the running service replays the log over the store, empties the log and then
writes the store. Each of these is a file operation of its own, and the process may end between any
two of them. Between the last two the replayed operations are only in memory: a process that ends
there loses them (`crash_loses_add`). Otherwise each operation takes effect once, in the order of
the log (`inOrder_of_reach`).
-/

namespace HiveClaw.Cron

open Lib Serde

/-! ## The files -/

/-- A line of the log, as the reader sees it. -/
inductive LogLine
  | notUtf8
  | blank
  | notJson
  | value (v : Json)
deriving DecidableEq

inductive StoreFile
  | missing
  | unreadable
  | value (v : Json)
deriving DecidableEq

/-- `load_jobs_from_disk`. A list that has a job that cannot be read counts as empty. -/
def loadJobsFromDisk : StoreFile → Option CronStore
  | .missing => some {}
  | .unreadable => none
  | .value v => some
    { version := (((v.get "version").bind Json.asU64).getD 1) % 2 ^ 32
      jobs := (readVec CronJob.fromValue ((v.get "jobs").getD (.arr []))).getD [] }

/-- The file that `save_store` writes. -/
def CronStore.toFile (store : CronStore) : StoreFile :=
  .value (.obj [("version", .num (.int store.version)),
    ("jobs", .arr (store.jobs.map CronJob.toValue))])

/-- The line that `append_action` writes. -/
def Op.toLine : Op → LogLine
  | .add job => .value (.obj [("action", .str "add"), ("params", job.toValue)])
  | .update job => .value (.obj [("action", .str "update"), ("params", job.toValue)])
  | .del id => .value (.obj [("action", .str "del"), ("params", .obj [("job_id", .str id)])])

/-! ## Replaying the log -/

inductive Change
  | put (job : CronJob)
  | remove (id : String)

def readAction (v : Json) : Option Change :=
  let kind := (v.getStr "action").getD ""
  let params := (v.get "params").getD .null
  if kind = "del" then (params.getStr "job_id").map .remove
  else if kind = "" then none
  else (CronJob.fromValue params).map .put

-- `jobs_map.insert` and `jobs_map.remove`
def Change.apply (m : HashMap String CronJob) : Change → HashMap String CronJob
  | .put job => m.insert job.id job
  | .remove id => m.erase id

/-- The loop of `merge_action`, which ends at a line that is not UTF-8. -/
def replay (m : HashMap String CronJob) (changed : Bool) :
    List LogLine → HashMap String CronJob × Bool
  | [] => (m, changed)
  | .notUtf8 :: _ => (m, changed)
  | .blank :: rest => replay m changed rest
  | .notJson :: rest => replay m changed rest
  | .value v :: rest =>
    match readAction v with
    | some c => replay (c.apply m) true rest
    | none => replay m changed rest

/-- The jobs by id; of two jobs with one id the later one. -/
def jobsMap (jobs : List CronJob) : HashMap String CronJob :=
  HashMap.collect (jobs.map fun j => (j.id, j))

-- `jobs_map.into_values().collect()`
def intoValues (env : CronEnv) (m : HashMap String CronJob) : List CronJob :=
  (hashOrder env.rank m.keys).filterMap fun id => m.lookup id

/-- The jobs after `merge_action` has read the log, and whether anything changed. -/
def mergeLines (env : CronEnv) (jobs : List CronJob) (lines : List LogLine) :
    List CronJob × Bool :=
  let (m, changed) := replay (jobsMap jobs) false lines
  (intoValues env m, changed)

/-! ## The two processes -/

/-- Where the running process is in `load_store`. It holds the lock file in the last two. -/
inductive Phase
  | down
  | idle
  | loaded
  | replayed
  | truncated
deriving DecidableEq, Repr

/-- Where the stopped instance is in a call. -/
inductive Caller
  | idle
  | loaded (call : Call)
  | merged (call : Call)

/-- The files, the running process and the stopped instance, and what the stopped instance has
logged so far. -/
structure World where
  file : StoreFile := .missing
  log : Option (List LogLine) := none
  phase : Phase := .down
  store : Option CronStore := none
  timerActive : Bool := false
  caller : Caller := .idle
  callerStore : Option CronStore := none
  logged : List Op := []

inductive Step
  | boot
  | crash
  | timer (active : Bool)
  | loadStore
  | mergeAction
  | truncate
  | save
  | call (call : Call)
  | callMerge
  | callAppend

namespace World

variable (env : CronEnv) (w : World)

/-- The running process holds the lock file. -/
def Locked : Prop := w.phase = .replayed ∨ w.phase = .truncated

instance : Decidable w.Locked := inferInstanceAs (Decidable (_ ∨ _))

/-- `load_store` up to `merge_action`. A file that cannot be read is renamed. -/
def loadStore : World :=
  if w.phase = .idle ∧ ¬ (w.timerActive ∧ w.store.isSome) then
    match loadJobsFromDisk w.file with
    | some store => { w with store := some store, phase := .loaded }
    | none => { w with file := .missing }
  else w

/-- `merge_action` up to the first write. -/
def mergeAction : World :=
  match w.phase, w.store with
  | .loaded, some store =>
    match w.log with
    | none => { w with phase := .idle }
    | some lines =>
      let (jobs, changed) := mergeLines env store.jobs lines
      { w with
        store := some { store with jobs := jobs }
        phase := if changed then .replayed else .idle }
  | _, _ => w

def truncate : World :=
  if w.phase = .replayed then { w with log := some [], phase := .truncated } else w

-- `save_store`
def save : World :=
  match w.phase, w.store with
  | .truncated, some store => { w with file := store.toFile, phase := .idle }
  | _, _ => w

/-- A call of the stopped instance begins: `add_job` validates, the others load the store. -/
def call (c : Call) : World :=
  match w.caller, c with
  | .idle, .add _ _ _ => { w with caller := .merged c }
  | .idle, _ =>
    match loadJobsFromDisk w.file with
    | some store => { w with callerStore := some store, caller := .loaded c }
    | none => { w with file := .missing, caller := .merged c }
  | _, _ => w

/-- The stopped instance reads the log. -/
def callMerge : World :=
  match w.caller with
  | .loaded c =>
    if w.Locked then w
    else
      match w.log, w.callerStore with
      | some lines, some store =>
        { w with
          callerStore := some { store with jobs := (mergeLines env store.jobs lines).1 }
          caller := .merged c }
      | _, _ => { w with caller := .merged c }
  | _ => w

/-- The outcome of a call, from the memory of the stopped instance. `add_job` does not look at
it. -/
def outcome (store : Option CronStore) (c : Call) : Option (Option CronStore × Op) :=
  match c with
  | .add .. => (c.perform env []).map fun r => (store, r.2)
  | _ => do
    let store ← store
    let (jobs, op) ← c.perform env store.jobs
    return (some { store with jobs := jobs }, op)

/-- The stopped instance performs its call and appends to the log. -/
def callAppend : World :=
  match w.caller with
  | .merged c =>
    if w.Locked then w
    else
      match outcome env w.callerStore c with
      | none => { w with caller := .idle }
      | some (store, op) =>
        { w with
          callerStore := store
          log := some (w.log.getD [] ++ [op.toLine])
          caller := .idle
          logged := w.logged ++ [op] }
  | _ => w

def step : Step → World
  | .boot =>
    if w.phase = .down then { w with phase := .idle, store := none, timerActive := false } else w
  | .crash => { w with phase := .down, store := none, timerActive := false }
  | .timer active => if w.phase = .idle then { w with timerActive := active } else w
  | .loadStore => w.loadStore
  | .mergeAction => w.mergeAction env
  | .truncate => w.truncate
  | .save => w.save
  | .call c => w.call c
  | .callMerge => w.callMerge env
  | .callAppend => w.callAppend env

end World

/-! ## What the operations amount to -/

abbrev Content := String → Option CronJob

/-- A change, on the jobs by their ids. -/
def Change.on (c : Content) : Change → Content
  | .put job => Function.update c job.id (some job)
  | .remove id => Function.update c id none

def Op.change : Op → Change
  | .add job => .put job.written
  | .update job => .put job.written
  | .del id => .remove id

/-- The operations, one after the other. -/
def changes (c : Content) (ops : List Op) : Content := ops.foldl (fun c op => op.change.on c) c

/-- The jobs of a list by their ids. -/
def contentOf (jobs : List CronJob) : Content := fun id => (jobsMap jobs).lookup id

def World.content (w : World) : Content := contentOf ((loadJobsFromDisk w.file).getD {}).jobs

/-! ## Reading and writing -/

theorem readAction_toLine (op : Op) :
    ∃ v, op.toLine = .value v ∧ readAction v = some op.change := by
  cases op with
  | add job =>
    refine ⟨_, rfl, ?_⟩
    simp [readAction, Json.getStr, Json.get, Json.asObject, Json.asStr, JsonMap.get, List.lookup_cons,
      CronJob.fromValue_toValue, Op.change]
  | update job =>
    refine ⟨_, rfl, ?_⟩
    simp [readAction, Json.getStr, Json.get, Json.asObject, Json.asStr, JsonMap.get, List.lookup_cons,
      CronJob.fromValue_toValue, Op.change]
  | del id => exact ⟨_, rfl, rfl⟩

/-- A map of jobs as they are read back, each under its id. -/
structure Sound (m : HashMap String CronJob) : Prop where
  keyed : ∀ id job, m.lookup id = some job → job.id = id
  written : ∀ id job, m.lookup id = some job → job.written = job

variable {jobs : List CronJob}

theorem written_of_readVec {v : Json} (h : readVec CronJob.fromValue v = some jobs) :
    ∀ job ∈ jobs, job.written = job := by
  obtain ⟨items, -, hitems⟩ := Option.bind_eq_some_iff.mp h
  clear h
  induction items generalizing jobs with
  | nil =>
    obtain rfl : [] = jobs := by simpa using hitems
    exact List.forall_mem_nil _
  | cons item rest ih =>
    simp only [List.mapM_cons, bind, Option.bind_eq_some_iff, pure, Option.some.injEq] at hitems
    obtain ⟨job, hjob, others, hothers, rfl⟩ := hitems
    exact List.forall_mem_cons.mpr ⟨CronJob.written_of_fromValue hjob, ih hothers⟩

variable {store : CronStore}

theorem written_of_load {file : StoreFile} (h : loadJobsFromDisk file = some store) :
    ∀ job ∈ store.jobs, job.written = job := by
  cases file with
  | missing =>
    obtain rfl := Option.some.inj h
    exact List.forall_mem_nil _
  | unreadable => cases h
  | value v =>
    obtain rfl := Option.some.inj h
    show ∀ job ∈ (readVec CronJob.fromValue _).getD [], _
    cases hread : readVec CronJob.fromValue ((v.get "jobs").getD (.arr [])) with
    | none => exact List.forall_mem_nil _
    | some jobs => exact written_of_readVec hread

theorem load_toFile (h : ∀ job ∈ store.jobs, job.written = job) :
    ((loadJobsFromDisk store.toFile).getD {}).jobs = store.jobs := by
  show (readVec CronJob.fromValue (.arr (store.jobs.map CronJob.toValue))).getD [] = store.jobs
  rw [readVec_map store.jobs CronJob.fromValue_toValue, Option.getD_some]
  exact (List.map_congr_left h).trans (List.map_id' _)

theorem sound_jobsMap (h : ∀ job ∈ jobs, job.written = job) : Sound (jobsMap jobs) := by
  have hmem : ∀ id job, (jobsMap jobs).lookup id = some job → job ∈ jobs ∧ job.id = id := by
    intro id job hlookup
    obtain ⟨j, hj, heq⟩ := List.mem_map.mp (HashMap.mem_of_lookup_collect hlookup)
    obtain ⟨rfl, rfl⟩ := Prod.mk.inj heq
    exact ⟨hj, rfl⟩
  exact ⟨fun id job hlookup => (hmem id job hlookup).2,
    fun id job hlookup => h job (hmem id job hlookup).1⟩

variable {m : HashMap String CronJob}

theorem Sound.apply (h : Sound m) (op : Op) : Sound (op.change.apply m) := by
  have hput : ∀ job : CronJob, Sound (m.insert job.id job.written) := by
    intro job
    refine ⟨fun id j hj => ?_, fun id j hj => ?_⟩ <;> rw [HashMap.lookup_insert_ite] at hj <;>
      split at hj
    · next hid =>
      obtain rfl := Option.some.inj hj
      exact hid.symm
    · exact h.keyed id j hj
    · obtain rfl := Option.some.inj hj
      exact job.written_written
    · exact h.written id j hj
  cases op with
  | add job => exact hput job
  | update job => exact hput job
  | del id =>
    have hsub : ∀ id' j, (m.erase id).lookup id' = some j → m.lookup id' = some j := by
      intro id' j hj
      by_cases hid : id' = id
      · subst hid
        simp at hj
      · rwa [AList.lookup_erase_ne hid] at hj
    exact ⟨fun id' j hj => h.keyed id' j (hsub id' j hj),
      fun id' j hj => h.written id' j (hsub id' j hj)⟩

theorem lookup_apply (m : HashMap String CronJob) (c : Change) (id : String) :
    (c.apply m).lookup id = c.on (fun id => m.lookup id) id := by
  cases c with
  | put job =>
    rw [Change.apply, Change.on, HashMap.lookup_insert_ite, Function.update_apply]
  | remove id' =>
    rw [Change.apply, Change.on, Function.update_apply]
    split
    · next hid =>
      subst hid
      simp
    · next hid => exact AList.lookup_erase_ne hid

theorem replay_toLine (h : Sound m) (changed : Bool) (ops : List Op) :
    Sound (replay m changed (ops.map Op.toLine)).1 ∧
      (fun id => (replay m changed (ops.map Op.toLine)).1.lookup id) =
        changes (fun id => m.lookup id) ops ∧
      (replay m changed (ops.map Op.toLine)).2 = (changed || !ops.isEmpty) := by
  induction ops generalizing m changed with
  | nil => exact ⟨h, rfl, by simp [replay]⟩
  | cons op rest ih =>
    obtain ⟨v, hline, hread⟩ := readAction_toLine op
    have hstep : replay m changed ((op :: rest).map Op.toLine) =
        replay (op.change.apply m) true (rest.map Op.toLine) := by
      rw [List.map_cons, hline, replay, hread]
    obtain ⟨hsound, hcontent, hchanged⟩ := ih (h.apply op) true
    rw [hstep]
    refine ⟨hsound, hcontent.trans ?_, by rw [hchanged]; simp⟩
    rw [changes, changes, List.foldl_cons]
    congr 1
    funext id
    exact lookup_apply m op.change id

theorem contentOf_intoValues (env : CronEnv) (h : Sound m) :
    contentOf (intoValues env m) = fun id => m.lookup id := by
  have hperm := hashOrder_perm env.rank m.keys
  have hids : (intoValues env m).map CronJob.id = hashOrder env.rank m.keys := by
    unfold intoValues
    have hall : ∀ id ∈ hashOrder env.rank m.keys, ∃ j, m.lookup id = some j ∧ j.id = id := by
      intro id hid
      have hkey : id ∈ m := AList.mem_keys.mpr (hperm.mem_iff.mp hid)
      obtain ⟨j, hj⟩ := Option.isSome_iff_exists.mp (AList.lookup_isSome.mpr hkey)
      exact ⟨j, hj, h.keyed id j hj⟩
    generalize hashOrder env.rank m.keys = keys at hall
    induction keys with
    | nil => rfl
    | cons id rest ih =>
      obtain ⟨⟨j, hj, hid⟩, hrest⟩ := List.forall_mem_cons.mp hall
      have hcons : (id :: rest).filterMap (fun id => m.lookup id) =
          j :: rest.filterMap fun id => m.lookup id := by
        rw [List.filterMap_cons]
        simp only [hj]
      rw [hcons, List.map_cons, hid, ih hrest]
  have hnodup : ((intoValues env m).map fun j => (j.id, j)).map (·.1) |>.Nodup := by
    rw [List.map_map]
    show ((intoValues env m).map CronJob.id).Nodup
    rw [hids]
    exact hperm.nodup_iff.mpr m.nodupKeys
  funext id
  refine Option.ext fun j => ?_
  rw [contentOf, jobsMap, HashMap.lookup_collect hnodup, List.mem_map]
  constructor
  · rintro ⟨j', hj', heq⟩
    obtain ⟨rfl, rfl⟩ := Prod.mk.inj heq
    obtain ⟨id', -, hid'⟩ := List.mem_filterMap.mp hj'
    rw [h.keyed id' j' hid']
    exact hid'
  · intro hj
    have hkey : id ∈ m.keys := AList.mem_keys.mp (AList.lookup_isSome.mp (by rw [hj]; rfl))
    refine ⟨j, List.mem_filterMap.mpr ⟨id, hperm.mem_iff.mpr hkey, hj⟩, ?_⟩
    rw [h.keyed id j hj]

theorem written_intoValues (env : CronEnv) (h : Sound m) :
    ∀ job ∈ intoValues env m, job.written = job := by
  intro job hjob
  obtain ⟨id, -, hid⟩ := List.mem_filterMap.mp hjob
  exact h.written id job hid

theorem mergeLines_toLine (env : CronEnv) (h : ∀ job ∈ jobs, job.written = job) (ops : List Op) :
    contentOf (mergeLines env jobs (ops.map Op.toLine)).1 = changes (contentOf jobs) ops ∧
      (∀ job ∈ (mergeLines env jobs (ops.map Op.toLine)).1, job.written = job) ∧
      (mergeLines env jobs (ops.map Op.toLine)).2 = !ops.isEmpty := by
  obtain ⟨hsound, hcontent, hchanged⟩ := replay_toLine (sound_jobsMap h) false ops
  refine ⟨?_, written_intoValues env hsound, by rw [mergeLines, hchanged, Bool.false_or]⟩
  exact (contentOf_intoValues env hsound).trans hcontent

/-! ## The invariant -/

namespace World

variable {env : CronEnv} {w : World} {base : Content}

/-- The operations that were logged are those that have taken effect and those that the log still
holds. While the log is empty and the store not yet written, they are in memory. -/
structure Kept (base : Content) (w : World) (done pending : List Op) : Prop where
  logged : w.logged = done ++ pending
  file : w.phase ≠ .truncated → w.content = changes base done
  log : w.log.getD [] = pending.map Op.toLine
  loaded : w.phase = .loaded → ∃ st, w.store = some st ∧ contentOf st.jobs = changes base done ∧
    ∀ job ∈ st.jobs, job.written = job
  replayed : w.Locked → ∃ st, w.store = some st ∧ contentOf st.jobs = changes base w.logged ∧
    ∀ job ∈ st.jobs, job.written = job
  emptied : w.phase = .truncated → pending = []

/-- The process does not end between the two writes. -/
def Undisturbed (w : World) : Step → Prop
  | .crash => w.phase ≠ .truncated
  | _ => True

variable {w' : World} {done : List Op}

/-- A step that changes neither the files nor what is logged, and leaves the running process
outside of `load_store`. -/
theorem Kept.rest {pending : List Op} (h : Kept base w done pending)
    (hwindow : w.phase ≠ .truncated) (hfile : w'.content = w.content) (hlog : w'.log = w.log)
    (hlogged : w'.logged = w.logged) (hphase : w'.phase = .idle ∨ w'.phase = .down) :
    Kept base w' done pending where
  logged := hlogged.trans h.logged
  file _ := hfile.trans (h.file hwindow)
  log := by rw [hlog, h.log]
  loaded hloaded := by rcases hphase with hp | hp <;> simp [hp] at hloaded
  replayed hlocked := by rcases hphase with hp | hp <;> simp [Locked, hp] at hlocked
  emptied hwindow := by rcases hphase with hp | hp <;> simp [hp] at hwindow

theorem Kept.caller {pending : List Op} (h : Kept base w done pending)
    (hfile : w'.content = w.content) (hlog : w'.log = w.log) (hlogged : w'.logged = w.logged)
    (hphase : w'.phase = w.phase) (hstore : w'.store = w.store) : Kept base w' done pending where
  logged := hlogged.trans h.logged
  file hwindow := hfile.trans (h.file (hphase ▸ hwindow))
  log := by rw [hlog, h.log]
  loaded hloaded := by rw [hstore]; exact h.loaded (hphase ▸ hloaded)
  replayed hlocked := by
    rw [hstore, hlogged]
    exact h.replayed (by rwa [Locked, hphase] at hlocked)
  emptied hwindow := h.emptied (hphase ▸ hwindow)

theorem content_renamed (h : loadJobsFromDisk w.file = none) :
    contentOf ((loadJobsFromDisk .missing).getD {}).jobs = w.content := by
  rw [content, h]
  rfl

theorem Kept.loadStore {done pending : List Op} (h : Kept base w done pending) :
    Kept base w.loadStore done pending := by
  unfold World.loadStore
  split
  · next hidle =>
    have hwindow : w.phase ≠ .truncated := by simp [hidle.1]
    split
    · next store hload =>
      have hcontent : w.content = contentOf store.jobs := by rw [content, hload, Option.getD_some]
      refine ⟨h.logged, fun _ => h.file hwindow, h.log, fun _ => ?_, fun hlocked => ?_,
        fun hnow => by cases hnow⟩
      · exact ⟨store, rfl, hcontent ▸ h.file hwindow, written_of_load hload⟩
      · simp [Locked] at hlocked
    · next hload => exact h.rest hwindow (content_renamed hload) rfl rfl (Or.inl hidle.1)
  · exact h

theorem Kept.mergeAction {done pending : List Op} (h : Kept base w done pending) :
    Kept base (w.mergeAction env) done pending := by
  unfold World.mergeAction
  split
  · next store hphase hstore =>
    have hwindow : w.phase ≠ .truncated := by simp [hphase]
    split
    · exact h.rest hwindow rfl rfl rfl (Or.inl rfl)
    · next lines hlines =>
      have hpending : lines = pending.map Op.toLine := by
        have := h.log
        rwa [hlines, Option.getD_some] at this
      obtain ⟨st, hst, hcontent, hwritten⟩ := h.loaded hphase
      obtain rfl := Option.some.inj (hstore.symm.trans hst)
      obtain ⟨hmerged, hwrittenMerged, hchanged⟩ := mergeLines_toLine env hwritten pending
      have hnext : changes (contentOf store.jobs) pending = changes base w.logged := by
        rw [hcontent, h.logged, changes, changes, changes, List.foldl_append]
      subst hpending
      refine ⟨h.logged, fun _ => h.file hwindow, by rw [← h.log], fun hloaded => ?_, fun _ => ?_,
        fun hnow => ?_⟩
      · simp only at hloaded
        split at hloaded <;> cases hloaded
      · exact ⟨_, rfl, hmerged.trans hnext, hwrittenMerged⟩
      · simp only at hnow
        split at hnow <;> cases hnow
  · exact h

theorem Kept.truncate {done pending : List Op} (h : Kept base w done pending) :
    ∃ done pending, Kept base w.truncate done pending := by
  unfold World.truncate
  split
  · next hphase =>
    refine ⟨w.logged, [], (List.append_nil _).symm, fun hne => absurd rfl hne, rfl, fun hl => ?_,
      fun _ => h.replayed (Or.inl hphase), fun _ => rfl⟩
    cases hl
  · exact ⟨done, pending, h⟩

theorem Kept.save {done pending : List Op} (h : Kept base w done pending) :
    ∃ done pending, Kept base w.save done pending := by
  unfold World.save
  split
  · next store hphase hstore =>
    obtain ⟨st, hst, hcontent, hwritten⟩ := h.replayed (Or.inr hphase)
    obtain rfl := Option.some.inj (hstore.symm.trans hst)
    have hpending : pending = [] := h.emptied hphase
    have hlog := h.log
    rw [hpending] at hlog
    refine ⟨w.logged, [], (List.append_nil _).symm, fun _ => ?_, hlog, fun hl => (by cases hl),
      fun hlocked => ?_, fun hnow => by cases hnow⟩
    · show contentOf ((loadJobsFromDisk store.toFile).getD {}).jobs = _
      rw [load_toFile hwritten, hcontent]
    · simp [Locked] at hlocked
  · exact ⟨done, pending, h⟩

theorem Kept.call {done pending : List Op} (h : Kept base w done pending) (c : Call) :
    Kept base (w.call c) done pending := by
  unfold World.call
  split
  · exact h.caller rfl rfl rfl rfl rfl
  · split
    · exact h.caller rfl rfl rfl rfl rfl
    · next hload => exact h.caller (content_renamed hload) rfl rfl rfl rfl
  · exact h

theorem Kept.callMerge {done pending : List Op} (h : Kept base w done pending) :
    Kept base (w.callMerge env) done pending := by
  unfold World.callMerge
  split
  · split
    · exact h
    · split
      · exact h.caller rfl rfl rfl rfl rfl
      · exact h.caller rfl rfl rfl rfl rfl
  · exact h

theorem Kept.callAppend {done pending : List Op} (h : Kept base w done pending) :
    ∃ pending, Kept base (w.callAppend env) done pending := by
  unfold World.callAppend
  split
  · split
    · exact ⟨pending, h⟩
    · next hfree =>
      split
      · exact ⟨pending, h.caller rfl rfl rfl rfl rfl⟩
      · next store op _ =>
        refine ⟨pending ++ [op], ?_, h.file, ?_, h.loaded, fun hlocked => absurd hlocked hfree,
          fun hnow => absurd (Or.inr hnow) hfree⟩
        · show w.logged ++ [op] = _
          rw [h.logged, List.append_assoc]
        · show w.log.getD [] ++ [op.toLine] = _
          rw [h.log, List.map_append]
          rfl
  · exact ⟨pending, h⟩

theorem Kept.step {done pending : List Op} (h : Kept base w done pending) {a : Step}
    (ha : w.Undisturbed a) : ∃ done pending, Kept base (w.step env a) done pending := by
  cases a with
  | boot =>
    simp only [World.step]
    split
    · next hphase => exact ⟨done, pending, h.rest (by simp [hphase]) rfl rfl rfl (Or.inl rfl)⟩
    · exact ⟨done, pending, h⟩
  | crash => exact ⟨done, pending, h.rest ha rfl rfl rfl (Or.inr rfl)⟩
  | timer active =>
    simp only [World.step]
    split
    · exact ⟨done, pending, h.caller rfl rfl rfl rfl rfl⟩
    · exact ⟨done, pending, h⟩
  | loadStore => exact ⟨done, pending, h.loadStore⟩
  | mergeAction => exact ⟨done, pending, h.mergeAction⟩
  | truncate => exact h.truncate
  | save => exact h.save
  | call c => exact ⟨done, pending, h.call c⟩
  | callMerge => exact ⟨done, pending, h.callMerge⟩
  | callAppend => exact ⟨done, h.callAppend⟩

def fresh (file : StoreFile) : World := { file := file }

theorem kept_of_reach {file : StoreFile}
    (h : Runs.Reach (World.step env) Undisturbed (fresh file) w) :
    ∃ done pending, Kept (fresh file).content w done pending := by
  refine h.inv (I := fun v => ∃ done pending, Kept (fresh file).content v done pending) ?_
    fun v a ⟨done, pending, hv⟩ ha => hv.step ha
  refine ⟨[], [], rfl, fun _ => rfl, rfl, fun hl => (by cases hl), fun hlocked => ?_,
    fun hnow => by cases hnow⟩
  simp [Locked, fresh] at hlocked

/-! ## Each operation takes effect once -/

/-- The operations that were logged have taken effect in their order, up to the last ones, and
these are what the log holds. -/
def InOrder (base : Content) (w : World) : Prop :=
  ∃ done pending, w.logged = done ++ pending ∧ w.content = changes base done ∧
    w.log.getD [] = pending.map Op.toLine

/-- A call of `load_store` from its start to its end. -/
def loading : List Step := [.loadStore, .mergeAction, .truncate, .save]

theorem ends_loading (env : CronEnv) {pending : List Op} (h : Kept base w done pending)
    (hphase : w.phase = .idle) (hload : ¬ (w.timerActive ∧ w.store.isSome))
    (hfile : w.file ≠ .unreadable) : let v := ((w.loadStore.mergeAction env).truncate).save
    v.phase = .idle ∧ v.log.getD [] = [] ∧ v.logged = w.logged := by
  obtain ⟨store, hstore⟩ : ∃ store, loadJobsFromDisk w.file = some store := by
    cases hw : w.file with
    | unreadable => exact absurd hw hfile
    | missing => exact ⟨_, rfl⟩
    | value v => exact ⟨_, rfl⟩
  have hloaded : w.loadStore = { w with store := some store, phase := .loaded } := by
    rw [World.loadStore, if_pos ⟨hphase, hload⟩, hstore]
  rw [hloaded]
  cases hlog : w.log with
  | none => exact ⟨rfl, rfl, rfl⟩
  | some lines =>
    have hlines : lines = pending.map Op.toLine := by
      have := h.log
      rwa [hlog, Option.getD_some] at this
    obtain ⟨-, -, hchanged⟩ := mergeLines_toLine env (written_of_load hstore) pending
    cases pending with
    | nil =>
      subst hlines
      exact ⟨rfl, rfl, rfl⟩
    | cons op rest =>
      subst hlines
      have hwrites : (mergeLines env store.jobs (op.toLine :: rest.map Op.toLine)).2 = true :=
        hchanged
      simp [World.mergeAction, World.truncate, World.save, hwrites]

theorem content_loading {pending : List Op} (h : Kept base w done pending)
    (hphase : w.phase = .idle) (hload : ¬ (w.timerActive ∧ w.store.isSome))
    (hfile : w.file ≠ .unreadable) :
    (Runs.run (World.step env) w loading).content = changes base w.logged := by
  have hmerged : Kept base (w.loadStore.mergeAction env) done pending := h.loadStore.mergeAction
  obtain ⟨done₁, pending₁, h₁⟩ := hmerged.truncate
  obtain ⟨done₂, pending₂, h₂⟩ := h₁.save
  obtain ⟨hphase', hlog, hlogged⟩ := ends_loading env h hphase hload hfile
  have hpending : pending₂ = [] := by
    have := h₂.log
    rw [hlog] at this
    exact List.map_eq_nil_iff.mp this.symm
  show (((w.loadStore.mergeAction env).truncate).save).content = _
  rw [h₂.file (by simp [hphase']), ← hlogged, h₂.logged, hpending, List.append_nil]

/-- Where the process never ends between emptying the log and writing the store, each logged
operation takes effect once and in the order of the log: outside of the two writes the store has
the effect of the first ones and the log holds the others, and after a call of `load_store` the
store has the effect of all of them. -/
theorem inOrder_of_reach {file : StoreFile}
    (h : Runs.Reach (World.step env) Undisturbed (fresh file) w) :
    (w.phase ≠ .truncated → w.InOrder (fresh file).content) ∧
      (w.phase = .idle → ¬ (w.timerActive ∧ w.store.isSome) → w.file ≠ .unreadable →
        (Runs.run (World.step env) w loading).content = changes (fresh file).content w.logged) := by
  obtain ⟨done, pending, hkept⟩ := kept_of_reach h
  constructor
  · intro hwindow
    exact ⟨done, pending, hkept.logged, hkept.file hwindow, hkept.log⟩
  · exact content_loading hkept

/-! ## A reminder -/

/-- A job is added, and another one added and removed, while the service is stopped. -/
def reminders : List Step :=
  [.call (.add { name := "tea", schedule := { everyMs := some 60000 }, message := "tea" } "a" 0),
    .callAppend,
    .call (.add { name := "milk", schedule := { everyMs := some 60000 }, message := "milk" } "b" 0),
    .callAppend, .call (.remove "b"), .callMerge, .callAppend]

/-- The running service starts, reads the log and ends before it writes; the next one goes through
`load_store`. -/
def restarted : List Step :=
  reminders ++ [.boot, .loadStore, .mergeAction, .crash, .boot] ++ loading

def served : World := Runs.run (World.step noCron) (fresh .missing) restarted

/-- The one job is there and the other one is not. -/
theorem inOrder_served :
    served.InOrder (fresh .missing).content ∧
      ((served.content "a").map CronJob.name, (served.content "b").map CronJob.name) =
        (some "tea", none) := by
  have hmeets : Runs.Meets (World.step noCron) Undisturbed (fresh .missing) restarted := by
    simp [Runs.Meets, Undisturbed, restarted, reminders, loading]
    decide +kernel
  exact ⟨(inOrder_of_reach (Runs.reach_run hmeets)).1 (by decide +kernel), by decide +kernel⟩

/-- The process ends between the two writes. -/
def cutOff : List Step :=
  [.call (.add { name := "tea", schedule := { everyMs := some 60000 }, message := "tea" } "a" 0),
    .callAppend, .boot, .loadStore, .mergeAction, .truncate, .crash]

/-- The job that was added is neither in the store nor in the log. -/
theorem crash_loses_add :
    let w := Runs.run (World.step noCron) (fresh .missing) cutOff
    (∃ job, w.logged = [.add job]) ∧ w.phase = .down ∧ ¬ w.InOrder (fresh .missing).content := by
  refine ⟨⟨_, rfl⟩, rfl, ?_⟩
  rintro ⟨done, pending, hlogged, hcontent, hlog⟩
  have hpending : pending = [] := List.map_eq_nil_iff.mp hlog.symm
  rw [hpending, List.append_nil] at hlogged
  have hlost := congrArg Option.isSome (congrFun hcontent "a")
  rw [← hlogged] at hlost
  revert hlost
  decide +kernel

end World

end HiveClaw.Cron
