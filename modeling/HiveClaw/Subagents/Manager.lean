import Mathlib.Data.Finset.Card
import HiveClaw.Lib.Runs
import HiveClaw.RustStd

/-!
# The bookkeeping of `SubagentManager`

`spawn`, `cancel_by_session`, `running_count` and `running_count_by_session` of
`crates/agent/src/subagent.rs`. The maps are behind one lock, but `spawn` takes it once for each
map and the task it starts removes its own entries, so the unit of interleaving is one critical
section, together with what `tokio` does to a task: it is polled, it waits, and an abort takes
effect when it waits.

`task_statuses` is only ever written and is left out. A handle in `running_tasks` is the handle of
the task of that id.
-/

namespace HiveClaw.Subagents

/-- How far a call of `spawn` is. -/
inductive SpawnCall
  | statusSet
  | enlisted
  | launched
  | returned
deriving DecidableEq, Repr

/-- Where the body of a task is: `idle` and `polled` are within `runner.run`, waiting or not. From
there to its end the body does not wait again. -/
inductive Stage
  | unborn
  | idle
  | polled
  | announcing
  | announced
  | finished
  | killed
deriving DecidableEq, Repr

/-- The task has come to `announce_result`. -/
def Stage.Begun (stage : Stage) : Prop :=
  stage = .announcing ∨ stage = .announced ∨ stage = .finished

def Stage.Published (stage : Stage) : Prop := stage = .announced ∨ stage = .finished

instance (stage : Stage) : Decidable stage.Begun := inferInstanceAs (Decidable (_ ∨ _))

instance (stage : Stage) : Decidable stage.Published := inferInstanceAs (Decidable (_ ∨ _))

/-- A task with the call of `spawn` that makes it. -/
structure Task where
  session : Option String
  call : SpawnCall := .statusSet
  stage : Stage := .unborn
  abortRequested : Bool := false
deriving DecidableEq, Repr

namespace Task

-- `tokio::spawn`
def launch (t : Task) : Option Task :=
  if t.call = .enlisted then some { t with call := .launched, stage := .idle } else none

def resume (t : Task) : Option Task :=
  if t.stage = .idle then some { t with stage := .polled } else none

/-- The task waits within `runner.run`. A requested abort takes effect here. -/
def suspend (t : Task) : Option Task :=
  if t.stage = .polled then
    some { t with stage := if t.abortRequested then .killed else .idle }
  else none

/-- `runner.run` returns; up to `publish_inbound` nothing is awaited. -/
def finishRun (t : Task) : Option Task :=
  if t.stage = .polled then some { t with stage := .announcing } else none

/-- `publish_inbound`, which never waits. -/
def announce (t : Task) : Option Task :=
  if t.stage = .announcing then some { t with stage := .announced } else none

/-- `JoinHandle::abort`: a task that waits is not polled again. -/
def abort (t : Task) : Task :=
  { t with abortRequested := true, stage := if t.stage = .idle then .killed else t.stage }

end Task

/-- A call of `cancel_by_session`: the ids it returns, the handles it has yet to abort, and, once
it has returned, which of the tasks had begun to announce by then. -/
structure CancelCall where
  ids : Finset String
  toAbort : Finset String
  within : toAbort ⊆ ids
  returned : Option (Finset String) := none
deriving DecidableEq

/-- `Inner` with the tasks and the calls under way. -/
structure SubagentManager where
  runningTasks : Finset String := ∅
  sessionTasks : HashMap String (Finset String) := ∅
  tasks : HashMap String Task := ∅
  cancels : List CancelCall := []

inductive Event
  | spawn (id : String) (session : Option String)
  | enlist (id : String)
  | launch (id : String)
  | register (id : String)
  | resume (id : String)
  | suspend (id : String)
  | finishRun (id : String)
  | announce (id : String)
  | cleanUp (id : String)
  | cancel (key : String)
  | abort (n : Nat) (id : String)
  | cancelReturns (n : Nat)
deriving DecidableEq, Repr

namespace SubagentManager

variable (s : SubagentManager)

def sessionIds (key : String) : Finset String := (s.sessionTasks.lookup key).getD ∅

-- `running_count`
def runningCount : Nat := s.runningTasks.card

-- `running_count_by_session`
def runningCountBySession (key : String) : Nat :=
  match s.sessionTasks.lookup key with
  | some ids => (ids.filter fun id => id ∈ s.runningTasks).card
  | none => 0

def onTask (id : String) (f : Task → Option Task) : SubagentManager :=
  match (s.tasks.lookup id).bind f with
  | some t => { s with tasks := s.tasks.insert id t }
  | none => s

/-- The first critical section of `spawn`. The id is new. -/
def spawn (id : String) (session : Option String) : SubagentManager :=
  match s.tasks.lookup id with
  | some _ => s
  | none => { s with tasks := s.tasks.insert id { session := session } }

-- `entry(key).or_default().insert(id)`
def insertSession (key id : String) : HashMap String (Finset String) :=
  s.sessionTasks.insert key (insert id (s.sessionIds key))

/-- The second critical section, taken for a task with a session. -/
def enlist (id : String) : SubagentManager :=
  match s.tasks.lookup id with
  | none => s
  | some t =>
    if t.call = .statusSet then
      { s with
        tasks := s.tasks.insert id { t with call := .enlisted }
        sessionTasks := match t.session with
          | some key => s.insertSession key id
          | none => s.sessionTasks }
    else s

/-- The last critical section, after which `spawn` returns. -/
def register (id : String) : SubagentManager :=
  match s.tasks.lookup id with
  | none => s
  | some t =>
    if t.call = .launched then
      { s with
        tasks := s.tasks.insert id { t with call := .returned }
        runningTasks := insert id s.runningTasks }
    else s

/-- What the end of a task does to the entry of its session. -/
def removeSession (key id : String) : HashMap String (Finset String) :=
  match s.sessionTasks.lookup key with
  | none => s.sessionTasks
  | some ids =>
    if (ids.erase id) = ∅ then s.sessionTasks.erase key
    else s.sessionTasks.insert key (ids.erase id)

/-- The critical section at the end of a task. -/
def cleanUp (id : String) : SubagentManager :=
  match s.tasks.lookup id with
  | none => s
  | some t =>
    if t.stage = .announced then
      { s with
        tasks := s.tasks.insert id { t with stage := .finished }
        runningTasks := s.runningTasks.erase id
        sessionTasks := match t.session with
          | some key => s.removeSession key id
          | none => s.sessionTasks }
    else s

/-- The critical section of `cancel_by_session`. -/
def cancel (key : String) : SubagentManager :=
  let ids := s.sessionIds key
  { s with
    runningTasks := s.runningTasks \ ids
    sessionTasks := s.sessionTasks.erase key
    cancels := s.cancels ++
      [{ ids := ids, toAbort := ids ∩ s.runningTasks, within := Finset.inter_subset_left }] }

/-- The `n`-th cancelling call aborts a handle. -/
def abort (n : Nat) (id : String) : SubagentManager :=
  match s.cancels[n]? with
  | none => s
  | some c =>
    if id ∈ c.toAbort then
      { s with
        tasks := match s.tasks.lookup id with
          | some t => s.tasks.insert id t.abort
          | none => s.tasks
        cancels := s.cancels.set n
          { c with
            toAbort := c.toAbort.erase id
            within := (Finset.erase_subset id _).trans c.within } }
    else s

/-- A task that has come to `announce_result`. -/
def Begun (id : String) : Prop := ∃ t, s.tasks.lookup id = some t ∧ t.stage.Begun

instance (id : String) : Decidable (s.Begun id) :=
  match h : s.tasks.lookup id with
  | some t =>
    decidable_of_iff t.stage.Begun
      ⟨fun hbegun => ⟨t, h, hbegun⟩, fun ⟨_, ht, hbegun⟩ => Option.some.inj (h.symm.trans ht) ▸ hbegun⟩
  | none => isFalse fun ⟨_, ht, _⟩ => Option.some_ne_none _ (ht.symm.trans h)

/-- The `n`-th cancelling call returns. -/
def cancelReturns (n : Nat) : SubagentManager :=
  match s.cancels[n]? with
  | none => s
  | some c =>
    if c.toAbort = ∅ ∧ c.returned = none then
      { s with cancels := s.cancels.set n { c with returned := some (c.ids.filter s.Begun) } }
    else s

def step : Event → SubagentManager
  | .spawn id session => s.spawn id session
  | .enlist id => s.enlist id
  | .launch id => s.onTask id Task.launch
  | .register id => s.register id
  | .resume id => s.onTask id Task.resume
  | .suspend id => s.onTask id Task.suspend
  | .finishRun id => s.onTask id Task.finishRun
  | .announce id => s.onTask id Task.announce
  | .cleanUp id => s.cleanUp id
  | .cancel key => s.cancel key
  | .abort n id => s.abort n id
  | .cancelReturns n => s.cancelReturns n

end SubagentManager

end HiveClaw.Subagents
