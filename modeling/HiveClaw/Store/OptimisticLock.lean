import HiveClaw.Store.Service

/-!
# The optimistic lock

`services/optimistic_lock.rs`. The client sends the `updated_at` it read; the
service compares it with the row before it writes. Despite its name
`check_and_bump` only reads: the row's time stamp moves when the later
`UPDATE` changes a column (`ON UPDATE CURRENT_TIMESTAMP`).
-/

namespace HiveClaw.OptimisticLock

open Lib

/-- What `check_and_bump` finds in the store it reads; `read` is the
`SELECT updated_at … WHERE id = ?`. -/
def checkRead (table : String) (id : Int) (read : Store → Option DateTime)
    (clientUpdatedAt : DateTime) (i : Input) (s : Store) : Except Failure Unit := do
  i.check "optimistic_lock fetch failed"
  match read s with
  | none => .error (.error (.notFound s!"{table} id={id} not found"))
  | some dbUpdatedAt =>
    -- both sides are cut to whole seconds
    if dbUpdatedAt.timestamp ≠ clientUpdatedAt.timestamp then
      .error (.error (.optimisticLockConflict "内容已被他人修改，请刷新后重试"))
    else pure ()

-- `check_and_bump`
def checkAndBump (table : String) (id : Int) (read : Store → Option DateTime)
    (clientUpdatedAt : DateTime) : Service Unit :=
  ExceptT.mk <| Prog.read (.lockCheck table) (checkRead table id read clientUpdatedAt)

theorem runs_checkAndBump {table : String} {id : Int} {read : Store → Option DateTime}
    {t : DateTime} {s s' : Store} {r : Except Failure Unit}
    (h : (checkAndBump table id read t).Runs s r s') : s' = s := by
  have hrun : (checkAndBump table id read t).Runs s r s' ↔ _ := Prog.runs_read_iff
  exact (hrun.mp h).2

/-- The check passes exactly on a row whose seconds agree, if the server
answers. -/
theorem checkRead_cases (table : String) (id : Int) (read : Store → Option DateTime)
    (t : DateTime) (i : Input) (s : Store) :
    (∃ e, i.fault "optimistic_lock fetch failed" = some e ∧
        checkRead table id read t i s = .error (internal "optimistic_lock fetch failed" e)) ∨
      (i.fault "optimistic_lock fetch failed" = none ∧
        (((read s).map DateTime.timestamp ≠ some t.timestamp ∧
            ((∃ m, checkRead table id read t i s = .error (.error (.notFound m))) ∨
              ∃ m, checkRead table id read t i s = .error (.error (.optimisticLockConflict m)))) ∨
          ((read s).map DateTime.timestamp = some t.timestamp ∧
            checkRead table id read t i s = .ok ()))) := by
  unfold checkRead Input.check
  cases hfault : i.fault "optimistic_lock fetch failed" with
  | some e => exact Or.inl ⟨e, rfl, rfl⟩
  | none =>
    refine Or.inr ⟨rfl, ?_⟩
    cases hread : read s with
    | none => exact Or.inl ⟨by simp, Or.inl ⟨_, rfl⟩⟩
    | some u =>
      by_cases hu : u.timestamp = t.timestamp
      · refine Or.inr ⟨by rw [Option.map_some, hu], ?_⟩
        show (if u.timestamp ≠ t.timestamp then _ else _) = _
        rw [if_neg fun h => h hu]
        rfl
      · refine Or.inl ⟨fun h => hu (Option.some.inj h),
          Or.inr ⟨"内容已被他人修改，请刷新后重试", ?_⟩⟩
        show (if u.timestamp ≠ t.timestamp then _ else _) = _
        rw [if_pos hu]

end HiveClaw.OptimisticLock
