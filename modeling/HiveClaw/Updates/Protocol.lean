import HiveClaw.Lib.VersionGuard
import HiveClaw.Agents.Service
import HiveClaw.Tools.Service
import HiveClaw.Hooks.Service

/-!
# Guarded updates of agents, tools and hooks

The three services that take the client's `updated_at`, as instances of
`Lib.Guard`: the row and its time stamp in seconds, the statements that check
and write it, and the results that count as success and as conflict.

The second half are the rules by which a service is seen to follow the
protocol, one for each kind of statement.
-/

namespace HiveClaw.Updates

open Lib Service

/-! ## The three kinds of updates -/

inductive Target where
  | agent (id : Int)
  | tool (id : Int)
  | hook (id : Int)
deriving DecidableEq, Repr

/-- A request on a row: its body, for an agent the role of the admin, for a
hook also the agent in the path. -/
def Request : Target → Type
  | .agent _ => Int × Agents.UpdateMeta
  | .tool _ => Tools.UpdateMeta
  | .hook _ => Int × Int × Hooks.UpdateHookRequest

/-- The `updated_at` a request carries. -/
def updatedAt : (t : Target) → Request t → DateTime
  | .agent _, r => r.2.updatedAt
  | .tool _, r => Tools.UpdateMeta.updatedAt r
  | .hook _, r => r.2.2.updatedAt

/-- What a successful request returns. -/
def Answer : Target → Type
  | .agent _ => Agents.AgentDetail
  | .tool _ => Tools.ToolListItem
  | .hook _ => AgentHook

/-- The service that handles the request. -/
def service (dep : Agents.Deployment) (lower : String → String) :
    (t : Target) → Request t → Service (Answer t)
  | .agent id, r => Agents.update dep r.1 id r.2
  | .tool id, r => Tools.update dep.mysql id r
  | .hook id, r => Hooks.updateHook dep.mysql lower r.1 id r.2.1 r.2.2

/-- A row of one of the three tables. -/
inductive Row where
  | agent (a : Agent)
  | tool (t : Tool)
  | hook (h : AgentHook)
deriving DecidableEq

def Row.updatedAt : Row → DateTime
  | .agent a => a.updatedAt
  | .tool t => t.updatedAt
  | .hook h => h.updatedAt

def row : Target → Store → Option Row
  | .agent id, s => (s.agent? id).map .agent
  | .tool id, s => (s.tool? id).map .tool
  | .hook id, s => (s.agentHook? id).map .hook

@[simp] theorem row_agent (id : Int) (s : Store) :
    row (.agent id) s = (s.agent? id).map .agent := rfl

@[simp] theorem row_tool (id : Int) (s : Store) :
    row (.tool id) s = (s.tool? id).map .tool := rfl

@[simp] theorem row_hook (id : Int) (s : Store) :
    row (.hook id) s = (s.agentHook? id).map .hook := rfl

def table : Target → String
  | .agent _ => "agents"
  | .tool _ => "tools"
  | .hook _ => "agent_hooks"

/-- The statements that write the row itself. -/
def rowWrites : Target → List String
  | .agent _ => ["agent update"]
  | .tool _ => ["builtin tool update", "tool update"]
  | .hook _ => ["hook update"]

/-- The error a lost update should end with. -/
def IsConflict {α : Type} (r : Except Failure α) : Prop :=
  ∃ m, r = .error (.error (.optimisticLockConflict m))

/-- The protocol of an update of `t` whose client carries `carried`. Versions
are compared in whole seconds; a hook update reports a database error during
its check as a conflict. -/
def guard (α : Type) (t : Target) (carried : DateTime) :
    Guard Stmt Input Store (Except Failure α) (Option Row) (Option Int) where
  row := row t
  ver r := r.map fun x => x.updatedAt.timestamp
  carried := some carried.timestamp
  stamp i := some i.now.timestamp
  isCheck l := l = .lockCheck (table t)
  isWrite l := ∃ what ∈ rowWrites t, l = .write what
  lost i := (∃ id, t = .hook id) ∧ i.fault "optimistic_lock fetch failed" ≠ none
  ok r := ∃ a, r = .ok a
  conflict := IsConflict

/-! ## Rules -/

section Rules

variable {t : Target} {carried : DateTime} {α β : Type}

/-- A program of statements that neither check nor write the row and leave it
alone, with results in `Q`. -/
inductive Quiet (t : Target) (Q : α → Prop) : Prog Stmt Input Store α → Prop
  | done {a : α} (ha : Q a) : Quiet t Q (.done a)
  | stmt {l : Stmt} {w : Input → Store → Store} {n : Input → Store → Prog Stmt Input Store α}
      (hc : l ≠ .lockCheck (table t)) (hw : ∀ what ∈ rowWrites t, l ≠ .write what)
      (hrow : ∀ i s, row t (w i s) = row t s) (hn : ∀ i s, Quiet t Q (n i s)) :
      Quiet t Q (.stmt l w n)

/-- The same with statements that only read. -/
inductive Reading (t : Target) (Q : α → Prop) : Prog Stmt Input Store α → Prop
  | done {a : α} (ha : Q a) : Reading t Q (.done a)
  | stmt {l : Stmt} {w : Input → Store → Store} {n : Input → Store → Prog Stmt Input Store α}
      (hc : l ≠ .lockCheck (table t)) (hw : ∀ what ∈ rowWrites t, l ≠ .write what)
      (hs : ∀ i s, w i s = s) (hn : ∀ i s, Reading t Q (n i s)) :
      Reading t Q (.stmt l w n)

variable {Q : α → Prop} {p : Prog Stmt Input Store α}

theorem Reading.quiet (h : Reading t Q p) : Quiet t Q p := by
  induction h with
  | done ha => exact .done ha
  | stmt hc hw hs _ ih => exact .stmt hc hw (fun i s => by rw [hs]) ih

def Calm (r : Except Failure α) : Prop := ¬ IsConflict r

theorem calm_ok (a : α) : Calm (.ok a : Except Failure α) := by
  rintro ⟨m, h⟩
  cases h

/-- An error passes through the rest of a service. -/
theorem calm_error {e : Failure} (h : Calm (.error e : Except Failure α)) :
    Calm (.error e : Except Failure β) := by
  rintro ⟨m, hm⟩
  exact h ⟨m, by rw [Except.error.inj hm]⟩

variable {e : AppError}

/-- Every error but the conflict itself. -/
theorem calm_failure (he : ∀ m, e ≠ .optimisticLockConflict m) :
    Calm (.error (.error e) : Except Failure α) := by
  rintro ⟨m, h⟩
  exact he m (Failure.error.inj (Except.error.inj h))

theorem calm_check (i : Input) (what : String) : Calm (i.check what) := by
  unfold Input.check
  cases i.fault what with
  | some e => exact calm_failure fun _ => nofun
  | none => exact calm_ok ()

/-- A service that only reads and does not end with a conflict. -/
def ReadsCalmly (t : Target) (m : Service α) : Prop := Reading t Calm m.run

/-- A service that leaves the row alone and does not end with a conflict. -/
def RunsCalmly (t : Target) (m : Service α) : Prop := Quiet t Calm m.run

variable {m : Service α}

theorem ReadsCalmly.runs (h : ReadsCalmly t m) : RunsCalmly t m :=
  Reading.quiet h

theorem readsCalmly_pure (a : α) : ReadsCalmly t (pure a : Service α) := .done (calm_ok a)

theorem readsCalmly_throw {e : Failure} (he : Calm (.error e : Except Failure α)) :
    ReadsCalmly t (throw e : Service α) := .done he

theorem readsCalmly_query (what : String) (read : Store → α) :
    ReadsCalmly t (query what read) := by
  refine .stmt (by simp) (by simp) (fun _ _ => rfl) fun i s => .done ?_
  show Calm (i.check what >>= fun _ => pure (read s))
  have hcheck := calm_check i what
  cases hres : i.check what with
  | error e =>
    rw [hres] at hcheck
    exact calm_error hcheck
  | ok u => exact calm_ok _

theorem readsCalmly_okOr (o : Option α) (he : Calm (.error (.error e) : Except Failure α)) :
    ReadsCalmly t (okOr o e) := by
  cases o with
  | none => exact readsCalmly_throw he
  | some a => exact readsCalmly_pure a

theorem readsCalmly_failIf (c : Prop) [Decidable c]
    (he : Calm (.error (.error e) : Except Failure Unit)) : ReadsCalmly t (failIf c e) := by
  unfold failIf
  split
  · exact readsCalmly_throw he
  · exact readsCalmly_pure ()

theorem readsCalmly_lift {r : Except AppError α}
    (hr : ∀ e, r = .error e → Calm (.error (.error e) : Except Failure α)) :
    ReadsCalmly t (lift r) := by
  cases r with
  | error e => exact readsCalmly_throw (hr e rfl)
  | ok a => exact readsCalmly_pure a

theorem readsCalmly_onSome (o : Option β) {f : β → Service Unit}
    (hf : ∀ b, ReadsCalmly t (f b)) : ReadsCalmly t (onSome o f) := by
  cases o with
  | none => exact readsCalmly_pure ()
  | some b => exact hf b

variable {R : β → Prop} {k : α → Prog Stmt Input Store β}

theorem Reading.bind (hp : Reading t Q p) (hk : ∀ a, Q a → Reading t R (k a)) :
    Reading t R (p.bind k) := by
  induction hp with
  | done ha => exact hk _ ha
  | stmt hc hw hs _ ih => exact .stmt hc hw hs ih

theorem Quiet.bind (hp : Quiet t Q p) (hk : ∀ a, Q a → Quiet t R (k a)) : Quiet t R (p.bind k) := by
  induction hp with
  | done ha => exact hk _ ha
  | stmt hc hw hrow _ ih => exact .stmt hc hw hrow ih

variable {f : α → Service β}

theorem readsCalmly_bind (hm : ReadsCalmly t m) (hf : ∀ a, ReadsCalmly t (f a)) :
    ReadsCalmly t (m >>= f) := by
  refine Reading.bind hm fun r hr => ?_
  cases r with
  | ok a => exact hf a
  | error e => exact .done (calm_error hr)

theorem runsCalmly_bind (hm : RunsCalmly t m) (hf : ∀ a, RunsCalmly t (f a)) :
    RunsCalmly t (m >>= f) := by
  refine Quiet.bind hm fun r hr => ?_
  cases r with
  | ok a => exact hf a
  | error e => exact .done (calm_error hr)

theorem runsCalmly_onSome (o : Option β) {f : β → Service Unit}
    (hf : ∀ b, RunsCalmly t (f b)) : RunsCalmly t (onSome o f) := by
  cases o with
  | none => exact (readsCalmly_pure ()).runs
  | some b => exact hf b

variable {what : String}

theorem runsCalmly_execute {f : Input → Store → Except Failure α × Store}
    (hw : what ∉ rowWrites t) (hrow : ∀ i s, row t (f i s).2 = row t s)
    (hcalm : ∀ i s, Calm (f i s).1) : RunsCalmly t (execute what f) := by
  refine .stmt (by simp) (fun w hw' h => ?_) hrow fun i s => .done (hcalm i s)
  rw [Stmt.write.inj h] at hw
  exact hw hw'

theorem runsCalmly_invalidateContentCache (agentId : Int) :
    RunsCalmly t (invalidateContentCache agentId) := by
  refine .stmt (by simp) (by simp) (fun i s => ?_) fun i s => .done ?_
  · dsimp only
    split
    · rfl
    · cases t <;> rfl
  · dsimp only
    split
    · exact calm_ok ()
    · exact calm_ok ()

/-! ## Phases of a service -/

theorem written_of_runsCalmly (h : RunsCalmly t m) : (guard α t carried).Written m.run := by
  have hprog : ∀ p : Prog Stmt Input Store (Except Failure α), Quiet t Calm p →
      (guard α t carried).Written p := by
    intro p hp
    induction hp with
    | done ha => exact .done ha
    | stmt hc hw hrow _ ih =>
      refine .stmt hc ?_ hrow ih
      rintro ⟨what, hwhat, hl⟩
      exact hw what hwhat hl
  exact hprog m.run h

theorem checked_bind (hm : RunsCalmly t m) (hf : ∀ a, (guard β t carried).Checked (f a).run) :
    (guard β t carried).Checked (m >>= f).run := by
  have hprog : ∀ p : Prog Stmt Input Store (Except Failure α), Quiet t Calm p →
      (guard β t carried).Checked (p.bind fun r => (ExceptT.bindCont f r : Prog _ _ _ _)) := by
    intro p hp
    induction hp with
    | @done r hr =>
      cases r with
      | ok a => exact hf a
      | error e => exact .done (calm_error hr)
    | stmt hc hw hrow _ ih =>
      refine .read hc ?_ hrow ih
      rintro ⟨what, hwhat, hl⟩
      exact hw what hwhat hl
  exact hprog m.run hm

theorem unchecked_bind (hm : ReadsCalmly t m) (hf : ∀ a, (guard β t carried).Unchecked (f a).run) :
    (guard β t carried).Unchecked (m >>= f).run := by
  have hprog : ∀ p : Prog Stmt Input Store (Except Failure α), Reading t Calm p →
      (guard β t carried).Unchecked (p.bind fun r => (ExceptT.bindCont f r : Prog _ _ _ _)) := by
    intro p hp
    induction hp with
    | @done r hr =>
      cases r with
      | ok a => exact hf a
      | error e =>
        refine .done ?_ (calm_error hr)
        rintro ⟨a, ha⟩
        cases ha
    | stmt hc hw hs _ ih =>
      refine .read hc ?_ hs ih
      rintro ⟨what, hwhat, hl⟩
      exact hw what hwhat hl
  exact hprog m.run hm

/-- The statement that writes the row. -/
theorem checked_write {g : Input → Store → Except Failure α × Store} (hwhat : what ∈ rowWrites t)
    (hrow : ∀ i s, row t (g i s).2 = row t s ∨
      (row t (g i s).2).map (fun x => x.updatedAt.timestamp) = some i.now.timestamp)
    (hcalm : ∀ i s, Calm (g i s).1) (hf : ∀ a, RunsCalmly t (f a)) :
    (guard β t carried).Checked (execute what g >>= f).run := by
  refine .write ?_ ⟨what, hwhat, rfl⟩ hrow fun i s => ?_
  · intro h
    cases h
  · have hr := hcalm i s
    show (guard β t carried).Written (ExceptT.bindCont f (g i s).1 : Prog _ _ _ _)
    cases hres : (g i s).1 with
    | ok a => exact written_of_runsCalmly (hf a)
    | error e =>
      rw [hres] at hr
      exact .done (calm_error hr)

/-- What `check_and_bump` finds, for the two services that pass its error
on. -/
theorem unchecked_checkAndBump {id : Int} {read : Store → Option DateTime} {u : DateTime}
    {f : Unit → Service β}
    (hread : ∀ s, (read s).map DateTime.timestamp =
      (row t s).map fun x => x.updatedAt.timestamp)
    (hnot : ¬ ∃ id, t = .hook id)
    (hf : ∀ a, (guard β t u).Checked (f a).run) :
    (guard β t u).Unchecked (OptimisticLock.checkAndBump (table t) id read u >>= f).run := by
  refine .check rfl ?_ (fun _ _ => rfl) fun i s => ?_
  · rintro ⟨what, -, h⟩
    cases h
  show (guard β t u).Outcome i s (ExceptT.bindCont f
    (OptimisticLock.checkRead (table t) id read u i s) : Prog _ _ _ _)
  have hnotok : ∀ e, ¬ (guard β t u).ok (.error e) := by
    rintro e ⟨a, ha⟩
    cases ha
  rcases OptimisticLock.checkRead_cases (table t) id read u i s with ⟨e, -, hres⟩ |
    ⟨-, ⟨hver, ⟨m, hres⟩ | ⟨m, hres⟩⟩ | ⟨hver, hres⟩⟩
  · rw [hres]
    exact Or.inl ⟨_, rfl, hnotok _, calm_failure fun _ => nofun⟩
  · rw [hres]
    exact Or.inl ⟨_, rfl, hnotok _, calm_failure fun _ => nofun⟩
  · rw [hres]
    refine Or.inr (Or.inl ⟨_, rfl, hnotok _, ⟨m, rfl⟩, Or.inl ?_⟩)
    rw [hread] at hver
    exact hver
  · rw [hres]
    refine Or.inr (Or.inr ⟨?_, fun hlost => hnot hlost.1, hf ()⟩)
    rw [hread] at hver
    exact hver

end Rules

end HiveClaw.Updates
