import HiveClaw.Cron.Service

/-!
# Validation of schedules

`add_job` validates a schedule, and the scheduler computes its next run. A cron expression goes to
the parser as it is in the one place and with its missing fields in the other, and an interval is
added to the time unchecked. The two agree, and the next run lies ahead, exactly where the
expression has no five fields the scheduler could read and the sum stays below `2 ^ 63`
(`schedulesWell_iff`).
-/

namespace HiveClaw.Cron

/-- What the crate `cron` promises: an expression has six or seven fields, the seventh is the year
and may be left out, and the times of an expression lie behind the time it is asked for. -/
structure CronCrate (env : CronEnv) : Prop where
  fields : ∀ expr, env.parsesExpr expr = true → countFields expr = 6 ∨ countFields expr = 7
  year : ∀ expr, countFields expr = 6 → env.parsesExpr (expr ++ " *") = env.parsesExpr expr
  after : ∀ expr tz now t, env.after expr tz now = some t → now < t

/-- `add_job` accepts the schedule. -/
def Accepts (env : CronEnv) (schedule : CronSchedule) : Prop :=
  validateScheduleForAdd env schedule = .ok ()

/-- In a known time zone, an expression is accepted exactly if the scheduler can read it; and for
an accepted schedule the sum of time and interval has no overflow, and the next run is ahead. -/
structure SchedulesWell (env : CronEnv) (schedule : CronSchedule) (now : Int64) : Prop where
  agrees : schedule.kind = .cron → (∀ tz, schedule.tz = some tz → env.parsesTz tz = true) →
    ∀ expr, schedule.expr = some expr →
      (Accepts env schedule ↔ env.parsesExpr (normalizeCronExpr expr) = true)
  noOverflow : Accepts env schedule → schedule.kind = .every →
    ∀ every, schedule.everyMs = some every → 0 < every → now.toInt + every.toInt < 2 ^ 63
  ahead : Accepts env schedule → ∀ t, computeNextRun env schedule now = some t → now < t

/-- A cron schedule has no expression of five fields that is one with a second and a year. -/
def NoFiveFields (env : CronEnv) (schedule : CronSchedule) : Prop :=
  schedule.kind = .cron → (∀ tz, schedule.tz = some tz → env.parsesTz tz = true) →
    ∀ expr, schedule.expr = some expr →
      ¬ (countFields expr = 5 ∧ env.parsesExpr ("0 " ++ expr ++ " *") = true)

/-- An interval without a time zone ends before the last time of 64 bits. -/
def IntervalFits (schedule : CronSchedule) (now : Int64) : Prop :=
  schedule.kind = .every → schedule.tz = none →
    ∀ every, schedule.everyMs = some every → 0 < every → now.toInt + every.toInt < 2 ^ 63

section Agreement

variable {env : CronEnv} {schedule : CronSchedule} {now : Int64}

theorem accepts_cron (hkind : schedule.kind = .cron)
    (htz : ∀ tz, schedule.tz = some tz → env.parsesTz tz = true) {expr : String}
    (hexpr : schedule.expr = some expr) : Accepts env schedule ↔ env.parsesExpr expr = true := by
  have hknown : (schedule.tz.filter fun tz => !env.parsesTz tz) = none := by
    rw [Option.filter_eq_none_iff]
    intro tz hmem
    simp [htz tz hmem]
  unfold Accepts validateScheduleForAdd
  rw [if_neg (fun h => h.2 hkind), if_neg (fun h => h hkind), hknown, hexpr]
  cases hparses : env.parsesExpr expr with
  | true => simp [Option.filter, hparses]
  | false => simp [Option.filter, hparses]

theorem accepts_other (hkind : schedule.kind ≠ .cron) :
    Accepts env schedule ↔ schedule.tz = none := by
  unfold Accepts validateScheduleForAdd
  cases htz : schedule.tz with
  | none =>
    rw [if_neg (fun h => by simp at h), if_pos hkind]
    exact iff_of_true rfl rfl
  | some tz =>
    rw [if_pos ⟨rfl, hkind⟩]
    exact iff_of_false nofun nofun

theorem parses_normalized (hcrate : CronCrate env) (expr : String) :
    env.parsesExpr (normalizeCronExpr expr) = true ↔
      env.parsesExpr expr = true ∨
        (countFields expr = 5 ∧ env.parsesExpr ("0 " ++ expr ++ " *") = true) := by
  unfold normalizeCronExpr
  by_cases hfive : countFields expr = 5
  · have hnot : ¬ env.parsesExpr expr = true := fun h => by
      have := hcrate.fields expr h
      omega
    rw [if_pos hfive]
    constructor
    · exact fun h => .inr ⟨hfive, h⟩
    · rintro (h | ⟨-, h⟩)
      · exact absurd h hnot
      · exact h
  · rw [if_neg hfive, or_iff_left (fun h => hfive h.1)]
    by_cases hsix : countFields expr = 6
    · rw [if_pos hsix, hcrate.year expr hsix]
    · rw [if_neg hsix]

theorem lt_add_of_fits {every : Int64} (hpos : 0 < every)
    (hfits : now.toInt + every.toInt < 2 ^ 63) : now < now + every := by
  have hlow := Int64.le_toInt now
  have hevery : 0 < every.toInt := by
    rw [Int64.lt_iff_toInt_lt] at hpos
    exact hpos
  rw [Int64.lt_iff_toInt_lt, Int64.toInt_add]
  have hsum : (now.toInt + every.toInt).bmod (2 ^ 64) = now.toInt + every.toInt := by
    apply Int.bmod_eq_of_le <;> omega
  rw [hsum]
  omega

theorem computeNextRun_ahead (hcrate : CronCrate env) (haccepts : Accepts env schedule)
    (hfits : IntervalFits schedule now) {t : Int64} (h : computeNextRun env schedule now = some t) :
    now < t := by
  unfold computeNextRun at h
  cases hkind : schedule.kind with
  | «at» =>
    rw [hkind] at h
    exact of_decide_eq_true (Option.filter_eq_some_iff.mp h).2
  | every =>
    rw [hkind] at h
    obtain ⟨every, hevery, hnext⟩ := Option.bind_eq_some_iff.mp h
    by_cases hpos : every ≤ 0
    · rw [if_pos hpos] at hnext
      cases hnext
    · rw [if_neg hpos] at hnext
      have htz : schedule.tz = none := (accepts_other (by rw [hkind]; decide)).mp haccepts
      have hpos : 0 < every := Int64.not_le.mp hpos
      rw [← Option.some.inj hnext]
      exact lt_add_of_fits hpos (hfits hkind htz every hevery hpos)
  | cron =>
    rw [hkind] at h
    obtain ⟨expr, -, hnext⟩ := Option.bind_eq_some_iff.mp h
    dsimp only at hnext
    split at hnext
    · exact hcrate.after _ _ _ _ hnext
    · cases hnext

/-- **Validation and scheduling.** They agree on a schedule at a time exactly if its expression has
no five fields that the scheduler could read, and its interval ends within 64 bits. -/
theorem schedulesWell_iff (hcrate : CronCrate env) :
    SchedulesWell env schedule now ↔ NoFiveFields env schedule ∧ IntervalFits schedule now := by
  constructor
  · intro h
    refine ⟨?_, ?_⟩
    · rintro hkind htz expr hexpr ⟨hfive, hparses⟩
      have hagrees := h.agrees hkind htz expr hexpr
      rw [accepts_cron hkind htz hexpr, parses_normalized hcrate] at hagrees
      -- the text itself has too few fields for the parser
      have hfields := hcrate.fields expr (hagrees.mpr (.inr ⟨hfive, hparses⟩))
      omega
    · intro hkind htz
      exact h.noOverflow ((accepts_other (by rw [hkind]; decide)).mpr htz) hkind
  · rintro ⟨hnone, hfits⟩
    refine ⟨?_, ?_, ?_⟩
    · intro hkind htz expr hexpr
      rw [accepts_cron hkind htz hexpr, parses_normalized hcrate,
        or_iff_left (hnone hkind htz expr hexpr)]
    · intro haccepts hkind
      exact hfits hkind ((accepts_other (by rw [hkind]; decide)).mp haccepts)
    · intro haccepts t h
      exact computeNextRun_ahead hcrate haccepts hfits h

end Agreement

/-- The expression for nine o'clock every day, with six and with seven fields, as the crate reads
it from midnight on. -/
def nineDaily : CronEnv where
  parsesTz _ := false
  parsesExpr expr := expr = "0 0 9 * * *" || expr = "0 0 9 * * * *"
  after expr _ now :=
    if expr = "0 0 9 * * * *" ∧ now < 32400000 then some 32400000 else none
  rank _ := 0

theorem append_star_inj {expr : String} (other : String)
    (h : expr ++ " *" = other ++ " *") : expr = other := by
  have hlist := congrArg String.toList h
  rw [String.toList_append, String.toList_append] at hlist
  exact String.toList_injective (List.append_cancel_right hlist)

theorem cronCrate_nineDaily : CronCrate nineDaily where
  fields expr h := by
    simp only [nineDaily, Bool.or_eq_true, decide_eq_true_eq] at h
    rcases h with rfl | rfl
    · exact .inl (by decide +kernel)
    · exact .inr (by decide +kernel)
  year expr hsix := by
    have hseven : expr ≠ "0 0 9 * * * *" := by
      rintro rfl
      revert hsix
      decide +kernel
    have hstar : expr ++ " *" ≠ "0 0 9 * * *" := by
      intro h
      obtain rfl := append_star_inj "0 0 9 * *" h
      revert hsix
      decide +kernel
    have hyear : expr ++ " *" = "0 0 9 * * * *" ↔ expr = "0 0 9 * * *" :=
      ⟨append_star_inj "0 0 9 * * *", fun h => by rw [h]; decide⟩
    simp only [nineDaily, hseven, hstar, hyear, decide_false, Bool.false_or, Bool.or_false]
  after expr tz now t h := by
    simp only [nineDaily] at h
    split at h
    · rename_i hbefore
      rw [← Option.some.inj h]
      exact hbefore.2
    · cases h

def nineSchedule : CronSchedule := { kind := .cron, expr := some "0 0 9 * * *" }

theorem schedulesWell_nineSchedule : SchedulesWell nineDaily nineSchedule 0 := by
  refine (schedulesWell_iff cronCrate_nineDaily).mpr ⟨?_, ?_⟩
  · rintro - - expr hexpr ⟨hfive, -⟩
    obtain rfl := Option.some.inj hexpr
    revert hfive
    decide +kernel
  · intro hkind
    cases hkind

/-- Nine o'clock every day in five fields: the scheduler reads it, the validation refuses it. -/
theorem not_schedulesWell_fiveFields :
    ¬ SchedulesWell nineDaily { kind := .cron, expr := some "0 9 * * *" } 0 := by
  intro h
  have hagrees := h.agrees rfl nofun "0 9 * * *" rfl
  revert hagrees
  unfold Accepts
  decide +kernel

end HiveClaw.Cron
