import HiveClaw.Runner.Throttle

/-!
# The two modes of `execute_tools`

A run executes the tool calls of one response after another, with one set of counters. The
throttle of repeated lookups is meant to be the same whether the calls of a response may run
beside each other or not. It is exactly where every signature with more than two calls in the
run has each of them alone in its batch (`modesAgree_iff_settled`).
-/

namespace HiveClaw.Runner

open Providers

variable {ω : Type}

/-! ## Runs -/

/-- The calls of a response, and the world in which they start. -/
abbrev Response (ω : Type) := ω × List ToolCallRequest

/-- The tool calls of a run: one `execute_tools` for each response, over the same counters. -/
def executeAll (env : Env ω) (spec : AgentRunSpec) :
    List (Response ω) → Counts → List (List ToolOutcome)
  | [], _ => []
  | (w, calls) :: rest, counts =>
    let (outcomes, counts, _) := executeTools env spec calls counts w
    outcomes :: executeAll env spec rest counts

/-- The specification with concurrent tools switched on or off. -/
def AgentRunSpec.withMode (spec : AgentRunSpec) (concurrent : Bool) : AgentRunSpec :=
  { spec with concurrentTools := concurrent }

/-- The outcomes of a run in one of the modes. -/
def outcomesIn (env : Env ω) (spec : AgentRunSpec) (concurrent : Bool)
    (responses : List (Response ω)) : List (List ToolOutcome) :=
  executeAll env (spec.withMode concurrent) responses {}

/-- The executions of a signature in a run. -/
def executions (env : Env ω) (sig : String) (responses : List (Response ω))
    (outcomes : List (List ToolOutcome)) : Nat :=
  ((responses.zip outcomes).map fun p => executed env sig p.1.2 p.2).sum

/-- The call at this place of a response was blocked. -/
def BlockedAt (outcomes : List ToolOutcome) (i : Nat) : Prop :=
  ∃ o, outcomes[i]? = some o ∧ o.Blocked

/-- The two modes block the same calls. -/
def SameBlocked (outcomes outcomes' : List ToolOutcome) : Prop :=
  ∀ i, BlockedAt outcomes i ↔ BlockedAt outcomes' i

/-- **The throttle of a run.** The two modes block the same calls of every response, and neither
executes a signature more often than it may. -/
structure ModesAgree (env : Env ω) (spec : AgentRunSpec) (responses : List (Response ω)) :
    Prop where
  same : List.Forall₂ SameBlocked (outcomesIn env spec true responses)
    (outcomesIn env spec false responses)
  bound : ∀ concurrent sig,
    executions env sig responses (outcomesIn env spec concurrent responses) ≤
      maxRepeatExternalLookups

/-- The batches of a response when tools run concurrently. -/
def batchesOf (env : Env ω) (spec : AgentRunSpec) (response : Response ω) :
    List (List ToolCallRequest) :=
  partitionToolBatches env (spec.withMode true) response.1 response.2

/-- Every call of the signature is alone in its batch. -/
def Alone (env : Env ω) (spec : AgentRunSpec) (responses : List (Response ω)) (sig : String) :
    Prop :=
  ∀ response ∈ responses, ∀ batch ∈ batchesOf env spec response, 1 < batch.length →
    ∀ tc ∈ batch, lookupOf env tc ≠ some sig

/-- The signature has no more calls in the run than the throttle lets through. -/
def Few (env : Env ω) (responses : List (Response ω)) (sig : String) : Prop :=
  requested env sig (responses.flatMap Prod.snd) ≤ maxRepeatExternalLookups

/-- Every signature with more calls has each of them alone in its batch. -/
def Settled (env : Env ω) (spec : AgentRunSpec) (responses : List (Response ω)) : Prop :=
  ∀ sig, ¬ Few env responses sig → Alone env spec responses sig

variable {env : Env ω} {spec : AgentRunSpec}

/-! ## One mode -/

theorem executeBatches_singletons (hmode : spec.concurrentTools = false)
    (calls : List ToolCallRequest) (counts : Counts) (w : ω) :
    executeBatches env spec (calls.map fun tc => [tc]) counts w =
      executeSequential env spec calls counts w := by
  induction calls generalizing counts w with
  | nil => rfl
  | cons tc rest ih =>
    rw [List.map_cons]
    unfold executeBatches executeSequential executeBatch
    rw [hmode]
    simp only [Bool.false_and, Bool.false_eq_true, if_false, executeSequential]
    rcases executeSingleTool env spec tc counts w with ⟨outcome, counts', w'⟩
    dsimp only
    cases hfatal : outcome.fatal with
    | some err => simp [fatalOf, hfatal]
    | none => simp [fatalOf, hfatal, ih]

theorem executeTools_sequential (hmode : spec.concurrentTools = false)
    (calls : List ToolCallRequest) (counts : Counts) (w : ω) :
    executeTools env spec calls counts w = executeSequential env spec calls counts w := by
  unfold executeTools partitionToolBatches
  rw [hmode]
  exact executeBatches_singletons hmode calls counts w

theorem executions_cons (sig : String) (response : Response ω) (responses : List (Response ω))
    (os : List ToolOutcome) (outcomes : List (List ToolOutcome)) :
    executions env sig (response :: responses) (os :: outcomes) =
      executed env sig response.2 os + executions env sig responses outcomes := by
  unfold executions
  rw [List.zip_cons_cons, List.map_cons, List.sum_cons]

variable (env spec) in
theorem executions_sequential (hmode : spec.concurrentTools = false) (sig : String)
    (responses : List (Response ω)) (counts : Counts) :
    executions env sig responses (executeAll env spec responses counts) ≤ counts.left sig := by
  induction responses generalizing counts with
  | nil => exact Nat.zero_le _
  | cons response rest ih =>
    obtain ⟨w, calls⟩ := response
    have hleft := executeSequential_left env spec sig calls counts w
    unfold executeAll
    rw [executeTools_sequential hmode]
    rcases hrun : executeSequential env spec calls counts w with ⟨outcomes, counts', w'⟩
    rw [hrun] at hleft
    have hrest := ih counts'
    dsimp only at hleft ⊢
    rw [executions_cons]
    dsimp only
    omega

/-- The calls of the run that run beside others. -/
def jointAll (env : Env ω) (spec : AgentRunSpec) (responses : List (Response ω)) :
    List ToolCallRequest :=
  responses.flatMap fun response => joint (batchesOf env spec response)

variable (env spec) in
theorem executions_concurrent_le (sig : String) (responses : List (Response ω))
    (counts : Counts) :
    executions env sig responses (executeAll env (spec.withMode true) responses counts) ≤
      requested env sig (jointAll env spec responses) + counts.left sig := by
  induction responses generalizing counts with
  | nil => exact Nat.zero_le _
  | cons response rest ih =>
    obtain ⟨w, calls⟩ := response
    have hleft := executeBatches_left_le env (spec.withMode true) rfl sig
      (batchesOf env spec (w, calls)) counts w
    have hflat : (batchesOf env spec (w, calls)).flatten = calls :=
      flatten_partitionToolBatches env (spec.withMode true) w calls
    rw [hflat] at hleft
    unfold executeAll executeTools
    rcases hrun : executeBatches env (spec.withMode true) (batchesOf env spec (w, calls)) counts w
      with ⟨outcomes, counts', w'⟩
    have hrun' := hrun
    unfold batchesOf at hrun'
    rw [hrun] at hleft
    rw [hrun']
    have hrest := ih counts'
    dsimp only at hleft ⊢
    rw [executions_cons]
    unfold jointAll at hrest ⊢
    rw [List.flatMap_cons, requested_append]
    dsimp only
    omega

variable (env) in
/-- Where no tool error ends the run, the executions of a signature are those beside others and
those that the counters let through. -/
theorem executions_concurrent_exact (hfail : spec.failOnToolError = false) (sig : String)
    (responses : List (Response ω)) (counts : Counts) :
    ∃ last : Counts,
      executions env sig responses (executeAll env (spec.withMode true) responses counts) +
        last.left sig = requested env sig (jointAll env spec responses) + counts.left sig ∧
      last.lookups sig + requested env sig (jointAll env spec responses) =
        counts.lookups sig + requested env sig (responses.flatMap Prod.snd) := by
  induction responses generalizing counts with
  | nil => exact ⟨counts, by simp [executions, jointAll, requested], rfl⟩
  | cons response rest ih =>
    obtain ⟨w, calls⟩ := response
    have hexact := executeBatches_exact env (show (spec.withMode true).failOnToolError = false from hfail) rfl sig
      (batchesOf env spec (w, calls)) counts w
    have hflat : (batchesOf env spec (w, calls)).flatten = calls :=
      flatten_partitionToolBatches env (spec.withMode true) w calls
    rw [hflat] at hexact
    unfold executeAll executeTools
    rcases hrun : executeBatches env (spec.withMode true) (batchesOf env spec (w, calls)) counts w
      with ⟨outcomes, counts', w'⟩
    have hrun' := hrun
    unfold batchesOf at hrun'
    rw [hrun] at hexact
    rw [hrun']
    obtain ⟨last, hdone, hseen⟩ := ih counts'
    refine ⟨last, ?_⟩
    unfold jointAll at hdone hseen ⊢
    dsimp only at hexact ⊢
    rw [executions_cons, List.flatMap_cons, List.flatMap_cons, requested_append, requested_append]
    dsimp only
    omega

variable (env) in
theorem executed_le_requested (sig : String) (calls : List ToolCallRequest)
    (outcomes : List ToolOutcome) :
    executed env sig calls outcomes ≤ requested env sig calls := by
  induction calls generalizing outcomes with
  | nil => exact Nat.zero_le _
  | cons tc rest ih =>
    cases outcomes with
    | nil =>
      rw [executed_nil]
      exact Nat.zero_le _
    | cons o os =>
      have hrest := ih os
      rw [executed_cons, requested_cons]
      by_cases hsig : lookupOf env tc = some sig
      · rw [if_pos hsig]
        split <;> omega
      · rw [if_neg hsig, if_neg (fun h => hsig h.1)]
        omega

variable (env) in
theorem executions_le_requested (sig : String) (responses : List (Response ω))
    (outcomes : List (List ToolOutcome)) :
    executions env sig responses outcomes ≤ requested env sig (responses.flatMap Prod.snd) := by
  induction responses generalizing outcomes with
  | nil => exact Nat.zero_le _
  | cons response rest ih =>
    cases outcomes with
    | nil => exact Nat.zero_le _
    | cons os outcomes =>
      have hfirst := executed_le_requested env sig response.2 os
      have hrest := ih outcomes
      rw [executions_cons, List.flatMap_cons, requested_append]
      omega

/-! ## Both modes -/

/-- The counters of the two modes before the remaining calls of the run: they differ on
signatures only that neither of them blocks any more. -/
def Agree (env : Env ω) (light : String → Prop) (calls : List ToolCallRequest)
    (counts counts' : Counts) : Prop :=
  ∀ sig, (light sig → counts.lookups sig + requested env sig calls ≤ maxRepeatExternalLookups ∧
      counts'.lookups sig + requested env sig calls ≤ maxRepeatExternalLookups) ∧
    (¬ light sig → counts.lookups sig = counts'.lookups sig)

variable {light : String → Prop}

variable {tc : ToolCallRequest} {calls : List ToolCallRequest} {counts counts' : Counts}

theorem Agree.throttled_iff (h : Agree env light (tc :: calls) counts counts') :
    Throttled env counts tc ↔ Throttled env counts' tc := by
  unfold Throttled
  refine exists_congr fun sig => and_congr_right fun hsig => ?_
  obtain ⟨hlight, hheavy⟩ := h sig
  by_cases hl : light sig
  · have hboth := hlight hl
    rw [requested_cons, if_pos hsig] at hboth
    omega
  · rw [hheavy hl]

variable {next' : Counts}

theorem Agree.counted {next : Counts} (h : Agree env light (tc :: calls) counts counts')
    (hnext : Counted env counts tc next) (hnext' : Counted env counts' tc next') :
    Agree env light calls next next' := by
  intro sig
  obtain ⟨hlight, hheavy⟩ := h sig
  rw [hnext sig, hnext' sig]
  rw [requested_cons] at hlight
  exact ⟨fun hl => by have := hlight hl; omega, fun hl => by rw [hheavy hl]⟩

theorem Agree.drop {done : List ToolCallRequest}
    (h : Agree env light (done ++ calls) counts counts') :
    Agree env light calls counts counts' := by
  intro sig
  obtain ⟨hlight, hheavy⟩ := h sig
  rw [requested_append] at hlight
  exact ⟨fun hl => by have := hlight hl; omega, hheavy⟩

theorem SameBlocked.of_free {os os' : List ToolOutcome} (h : ∀ o ∈ os, ¬ o.Blocked)
    (h' : ∀ o ∈ os', ¬ o.Blocked) : SameBlocked os os' := by
  intro i
  constructor
  · rintro ⟨o, ho, hblocked⟩
    exact absurd hblocked (h o (List.mem_of_getElem? ho))
  · rintro ⟨o, ho, hblocked⟩
    exact absurd hblocked (h' o (List.mem_of_getElem? ho))

theorem SameBlocked.append {os₁ os₂ os₁' os₂' : List ToolOutcome}
    (hlength : os₁.length = os₁'.length) (h₁ : SameBlocked os₁ os₁')
    (h₂ : SameBlocked os₂ os₂') : SameBlocked (os₁ ++ os₂) (os₁' ++ os₂') := by
  intro i
  unfold BlockedAt
  by_cases hi : i < os₁.length
  · rw [List.getElem?_append_left hi, List.getElem?_append_left (hlength ▸ hi)]
    exact h₁ i
  · rw [List.getElem?_append_right (Nat.not_lt.mp hi),
      List.getElem?_append_right (hlength ▸ Nat.not_lt.mp hi), hlength]
    exact h₂ _

variable {spec' : AgentRunSpec} {w w₁ : ω} {o : ToolOutcome}

theorem Agree.single (hfail : spec.failOnToolError = spec'.failOnToolError) {next : Counts}
    {w₁' : ω} {o' : ToolOutcome} (h : Agree env light (tc :: calls) counts counts')
    (hrun : executeSingleTool env spec tc counts w = (o, next, w₁))
    (hrun' : executeSingleTool env spec' tc counts' w = (o', next', w₁')) :
    (o.Blocked ↔ o'.Blocked) ∧ o.fatal = o'.fatal ∧ w₁ = w₁' ∧
      Agree env light calls next next' := by
  have hagree := h.counted (counted_executeSingleTool hrun) (counted_executeSingleTool hrun')
  by_cases hthrottled : Throttled env counts tc
  · obtain ⟨hblocked, hnone, -, rfl⟩ := executeSingleTool_blocked hthrottled hrun
    obtain ⟨hblocked', hnone', -, rfl⟩ :=
      executeSingleTool_blocked (h.throttled_iff.mp hthrottled) hrun'
    exact ⟨iff_of_true hblocked hblocked', hnone.trans hnone'.symm, rfl, hagree⟩
  · obtain ⟨hfree, hfatal, -, rfl⟩ := executeSingleTool_executed hthrottled hrun
    obtain ⟨hfree', hfatal', -, rfl⟩ :=
      executeSingleTool_executed (mt h.throttled_iff.mpr hthrottled) hrun'
    refine ⟨iff_of_false hfree hfree', ?_, rfl, hagree⟩
    rw [hfatal, hfatal']
    unfold fatalError
    rw [hfail]

theorem Agree.not_throttled (h : Agree env light (tc :: calls) counts counts')
    (htc : ∀ sig, lookupOf env tc = some sig → light sig) : ¬ Throttled env counts' tc := by
  rintro ⟨sig, hsig, hmany⟩
  have hboth := (h sig).1 (htc sig hsig)
  rw [requested_cons, if_pos hsig] at hboth
  omega

theorem Agree.counted_right (h : Agree env light (tc :: calls) counts counts')
    (htc : ∀ sig, lookupOf env tc = some sig → light sig) (hnext' : Counted env counts' tc next') :
    Agree env light calls counts next' := by
  intro sig
  obtain ⟨hlight, hheavy⟩ := h sig
  rw [hnext' sig]
  rw [requested_cons] at hlight
  refine ⟨fun hl => by have := hlight hl; omega, fun hl => ?_⟩
  rw [hheavy hl, if_neg (fun hsig => hl (htc sig hsig)), Nat.add_zero]

theorem executeSequential_cons {next : Counts}
    (hrun : executeSingleTool env spec tc counts w = (o, next, w₁)) (calls : List ToolCallRequest) :
    executeSequential env spec (tc :: calls) counts w =
      if o.fatal.isSome then ([o], next, w₁)
      else (o :: (executeSequential env spec calls next w₁).1,
        (executeSequential env spec calls next w₁).2) := by
  rw [executeSequential, hrun]

theorem Agree.concurrent (hfail : spec.failOnToolError = spec'.failOnToolError)
    {batch later : List ToolCallRequest} (h : Agree env light (batch ++ later) counts counts')
    (hbatch : ∀ tc ∈ batch, ∀ sig, lookupOf env tc = some sig → light sig) (w : ω) :
    (∀ o ∈ (executeSequential env spec' batch counts' w).1, ¬ o.Blocked) ∧
    (fatalOf (executeConcurrent env spec batch w).1 = none ↔
      fatalOf (executeSequential env spec' batch counts' w).1 = none) ∧
    (fatalOf (executeSequential env spec' batch counts' w).1 = none →
      (executeConcurrent env spec batch w).2 = (executeSequential env spec' batch counts' w).2.2) ∧
    Agree env light later counts (executeSequential env spec' batch counts' w).2.1 := by
  induction batch generalizing counts' w with
  | nil => exact ⟨fun o ho => absurd ho List.not_mem_nil, Iff.rfl, fun _ => rfl, h⟩
  | cons tc rest ih =>
    have htc := hbatch tc List.mem_cons_self
    rcases hrun : executeSingleTool env spec tc {} w with ⟨o, next, w₁⟩
    rcases hrun' : executeSingleTool env spec' tc counts' w with ⟨o', next', w₁'⟩
    rw [executeSequential_cons hrun', executeConcurrent, hrun]
    obtain ⟨-, hfatal, -, rfl⟩ := executeSingleTool_executed (not_throttled_empty tc) hrun
    obtain ⟨hfree', hfatal', hcounted, rfl⟩ :=
      executeSingleTool_executed (h.not_throttled htc) hrun'
    have hsame : o.fatal = o'.fatal := by
      rw [hfatal, hfatal']
      unfold fatalError
      rw [hfail]
    have hnext := h.counted_right htc hcounted
    obtain ⟨hfree, hstop, hworld, hlater⟩ :=
      ih hnext (fun tc htc => hbatch tc (List.mem_cons_of_mem _ htc))
        (env.executeTool w tc.name (.obj tc.arguments)).2
    dsimp only
    cases hfatal₁ : o'.fatal with
    | some err =>
      rw [if_pos (by simp)]
      have hsome : fatalOf [o'] ≠ none := by simp [fatalOf, hfatal₁]
      refine ⟨?_, ?_, fun hnone => absurd hnone hsome, ?_⟩
      · intro o ho
        rw [List.mem_singleton.mp ho]
        exact hfree'
      · rw [fatalOf_cons_none, hsame, hfatal₁]
        simp [hsome]
      · exact hnext.drop
    | none =>
      rw [if_neg (by simp)]
      refine ⟨?_, ?_, fun hnone => hworld (fatalOf_cons_none.mp hnone).2, hlater⟩
      · intro o ho
        rcases List.mem_cons.mp ho with rfl | ho
        · exact hfree'
        · exact hfree o ho
      · rw [fatalOf_cons_none, fatalOf_cons_none, hsame, hstop]

theorem executeSequential_append (xs ys : List ToolCallRequest) (counts : Counts) (w : ω) :
    executeSequential env spec (xs ++ ys) counts w =
      if (fatalOf (executeSequential env spec xs counts w).1).isSome then
        executeSequential env spec xs counts w
      else
        ((executeSequential env spec xs counts w).1 ++
            (executeSequential env spec ys (executeSequential env spec xs counts w).2.1
              (executeSequential env spec xs counts w).2.2).1,
          (executeSequential env spec ys (executeSequential env spec xs counts w).2.1
              (executeSequential env spec xs counts w).2.2).2) := by
  induction xs generalizing counts w with
  | nil => rfl
  | cons tc rest ih =>
    rcases hrun : executeSingleTool env spec tc counts w with ⟨o, next, w₁⟩
    rw [List.cons_append, executeSequential_cons hrun, executeSequential_cons hrun]
    cases hfatal : o.fatal with
    | some err => simp [fatalOf, hfatal]
    | none =>
      have hcons : fatalOf (o :: (executeSequential env spec rest next w₁).1) =
          fatalOf (executeSequential env spec rest next w₁).1 := by
        simp [fatalOf, hfatal]
      simp only [Option.isSome_none, Bool.false_eq_true, if_false, hcons, ih next w₁]
      split <;> rfl

theorem Agree.batches {spec' : AgentRunSpec} (hmode : spec.concurrentTools = true)
    (hfail : spec.failOnToolError = spec'.failOnToolError) {batches : List (List ToolCallRequest)}
    {later : List ToolCallRequest} {counts counts' : Counts}
    (h : Agree env light (batches.flatten ++ later) counts counts')
    (hbatches : ∀ batch ∈ batches, 1 < batch.length →
      ∀ tc ∈ batch, ∀ sig, lookupOf env tc = some sig → light sig) (w : ω) :
    SameBlocked (executeBatches env spec batches counts w).1
      (executeSequential env spec' batches.flatten counts' w).1 ∧
    Agree env light later (executeBatches env spec batches counts w).2.1
      (executeSequential env spec' batches.flatten counts' w).2.1 := by
  induction batches generalizing counts counts' w with
  | nil => exact ⟨fun _ => Iff.rfl, h⟩
  | cons batch rest ih =>
    rw [List.flatten_cons, List.append_assoc] at h
    have hrest := fun batch hb => hbatches batch (List.mem_cons_of_mem _ hb)
    -- the first batch: blocked calls, stop, world and counters are the same
    have hfirst : SameBlocked (executeBatch env spec batch counts w).1
          (executeSequential env spec' batch counts' w).1 ∧
        (fatalOf (executeBatch env spec batch counts w).1 = none ↔
          fatalOf (executeSequential env spec' batch counts' w).1 = none) ∧
        (fatalOf (executeSequential env spec' batch counts' w).1 = none →
          (executeBatch env spec batch counts w).2.2 =
            (executeSequential env spec' batch counts' w).2.2) ∧
        Agree env light (rest.flatten ++ later) (executeBatch env spec batch counts w).2.1
          (executeSequential env spec' batch counts' w).2.1 := by
      unfold executeBatch
      by_cases hone : 1 < batch.length
      · obtain ⟨hfree, hstop, hworld, hnext⟩ := h.concurrent hfail
          (hbatches batch List.mem_cons_self hone) w
        rw [if_pos (by simp [hmode, hone])]
        exact ⟨.of_free (executeConcurrent_free batch w) hfree, hstop, hworld, hnext⟩
      · rw [if_neg (by simp [hone])]
        rcases batch with _ | ⟨tc, _ | ⟨tc', more⟩⟩
        · exact ⟨fun _ => Iff.rfl, Iff.rfl, fun _ => rfl, h⟩
        · rcases hrun : executeSingleTool env spec tc counts w with ⟨o, next, w₁⟩
          rcases hrun' : executeSingleTool env spec' tc counts' w with ⟨o', next', w₁'⟩
          obtain ⟨hblocked, hfatal, rfl, hnext⟩ := Agree.single hfail h hrun hrun'
          have hsame : SameBlocked [o] [o'] := by
            intro i
            unfold BlockedAt
            cases i with
            | zero => simpa using hblocked
            | succ i => simp
          have hstop : fatalOf [o] = none ↔ fatalOf [o'] = none := by
            rw [fatalOf_cons_none, fatalOf_cons_none, hfatal]
          rw [executeSequential_cons hrun, executeSequential_cons hrun', hfatal]
          simp only [executeSequential, ite_self]
          exact ⟨hsame, hstop, fun _ => trivial, hnext⟩
        · exact absurd (by simp) hone
    obtain ⟨hsame, hstop, hworld, hnext⟩ := hfirst
    rw [List.flatten_cons, executeSequential_append]
    unfold executeBatches
    by_cases hnone : fatalOf (executeBatch env spec batch counts w).1 = none
    · have hnone' := hstop.mp hnone
      rw [hnone', if_neg (by simp)]
      obtain ⟨hsame', hlater⟩ := ih hnext hrest (executeBatch env spec batch counts w).2.2
      rw [hworld hnone'] at hsame' hlater
      have hlength : (executeBatch env spec batch counts w).1.length =
          (executeSequential env spec' batch counts' w).1.length :=
        (length_executeBatch hnone).trans (length_executeSequential hnone').symm
      rcases hrun : executeBatch env spec batch counts w with ⟨outcomes, next, w₁⟩
      rw [hrun] at hnone hsame hsame' hlater hlength hworld
      have hw := hworld hnone'
      dsimp only at hnone hsame hsame' hlater hlength hw ⊢
      rw [hnone, if_neg (by simp), hw]
      exact ⟨hsame.append hlength hsame', hlater⟩
    · have hnone' := mt hstop.mpr hnone
      rcases hrun : executeBatch env spec batch counts w with ⟨outcomes, next, w₁⟩
      rw [hrun] at hnone hsame hnext
      dsimp only at hnone hsame hnext ⊢
      rw [if_pos (Option.isSome_iff_ne_none.mpr hnone),
        if_pos (Option.isSome_iff_ne_none.mpr hnone')]
      exact ⟨hsame, hnext.drop⟩

theorem Agree.executeAll {responses : List (Response ω)} {counts counts' : Counts}
    (h : Agree env light (responses.flatMap Prod.snd) counts counts')
    (hbatches : ∀ response ∈ responses, ∀ batch ∈ batchesOf env spec response, 1 < batch.length →
      ∀ tc ∈ batch, ∀ sig, lookupOf env tc = some sig → light sig) :
    List.Forall₂ SameBlocked (executeAll env (spec.withMode true) responses counts)
      (executeAll env (spec.withMode false) responses counts') := by
  induction responses generalizing counts counts' with
  | nil => exact .nil
  | cons response rest ih =>
    obtain ⟨w, calls⟩ := response
    have hflat : (batchesOf env spec (w, calls)).flatten = calls :=
      flatten_partitionToolBatches env (spec.withMode true) w calls
    rw [List.flatMap_cons, ← hflat] at h
    have hmode : (spec.withMode true).concurrentTools = true := rfl
    have hfail : (spec.withMode true).failOnToolError = (spec.withMode false).failOnToolError := rfl
    obtain ⟨hsame, hlater⟩ :=
      h.batches hmode hfail (hbatches (w, calls) List.mem_cons_self) w
    rw [hflat] at hsame hlater
    unfold Runner.executeAll
    have hoff : (spec.withMode false).concurrentTools = false := rfl
    rw [executeTools_sequential hoff]
    exact .cons hsame (ih hlater fun r hr => hbatches r (List.mem_cons_of_mem _ hr))

variable {sig : String}

theorem requested_eq_zero :
    requested env sig calls = 0 ↔ ∀ tc ∈ calls, lookupOf env tc ≠ some sig := by
  unfold requested
  rw [List.countP_eq_zero]
  simp

variable {responses : List (Response ω)}

theorem alone_iff :
    Alone env spec responses sig ↔ requested env sig (jointAll env spec responses) = 0 := by
  rw [requested_eq_zero]
  unfold Alone jointAll joint
  constructor
  · intro h tc htc
    obtain ⟨response, hresponse, htc⟩ := List.mem_flatMap.mp htc
    obtain ⟨batch, hbatch, htc⟩ := List.mem_flatten.mp htc
    obtain ⟨hbatch, hone⟩ := List.mem_filter.mp hbatch
    exact h response hresponse batch hbatch (by simpa using hone) tc htc
  · intro h response hresponse batch hbatch hone tc htc
    refine h tc (List.mem_flatMap.mpr ⟨response, hresponse, List.mem_flatten.mpr ⟨batch, ?_, htc⟩⟩)
    exact List.mem_filter.mpr ⟨hbatch, by simpa using hone⟩

theorem left_empty (sig : String) : Counts.left {} sig = maxRepeatExternalLookups := rfl

theorem modesAgree_of_settled (h : Settled env spec responses) : ModesAgree env spec responses := by
  refine ⟨?_, fun concurrent sig => ?_⟩
  · have hstart : Agree env (Few env responses) (responses.flatMap Prod.snd) {} {} := by
      refine fun sig => ⟨fun hfew => ?_, fun _ => rfl⟩
      unfold Few at hfew
      simpa [Counts.lookups] using hfew
    refine hstart.executeAll ?_
    intro response hresponse batch hbatch hone tc htc sig hsig
    by_contra hmany
    exact h sig hmany response hresponse batch hbatch hone tc htc hsig
  · unfold outcomesIn
    cases concurrent with
    | false =>
      have hbound := executions_sequential env (spec.withMode false) rfl sig
        responses {}
      rwa [left_empty] at hbound
    | true =>
      by_cases hfew : Few env responses sig
      · exact (executions_le_requested env sig responses _).trans hfew
      · have hbound := executions_concurrent_le env spec sig responses {}
        rwa [alone_iff.mp (h sig hfew), left_empty, Nat.zero_add] at hbound

/-- **The throttle in the two modes.** Where every signature with more than two calls in the run
has each of them alone in its batch, the two modes block the same calls and execute no signature
more than twice; and where no tool error ends a response early, only there. -/
theorem modesAgree_iff_settled (env : Env ω) (spec : AgentRunSpec)
    (responses : List (Response ω)) :
    (Settled env spec responses → ModesAgree env spec responses) ∧
    (spec.failOnToolError = false → ModesAgree env spec responses →
      Settled env spec responses) := by
  refine ⟨modesAgree_of_settled, fun hfail h sig hmany => ?_⟩
  obtain ⟨last, hdone, hseen⟩ := executions_concurrent_exact env hfail sig responses {}
  have hbound := h.bound true sig
  have hzero : Counts.lookups {} sig = 0 := rfl
  rw [left_empty] at hdone
  unfold outcomesIn at hbound
  unfold Few at hmany
  unfold Counts.left at hdone
  rw [alone_iff]
  -- a call beside others leaves the counters no room for two more
  omega

/-- Tools that all may run beside each other, with a fixed result. -/
def fetchEnv : Env Unit where
  requestModel _ _ := ({ content := none }, ())
  chatWithRetry _ _ := ({ content := none }, ())
  executeTool w _ _ := (.str "page", w)
  concurrencySafe _ _ := true

/-- A call of `web_fetch`. -/
def fetchCall (id : String) : ToolCallRequest :=
  { id, name := "web_fetch", arguments := [("url", .str "https://ex.com/foo")] }

/-- Three calls of one signature in one response are all executed when they run concurrently. -/
theorem not_modesAgree_fetchEnv :
    ¬ ModesAgree fetchEnv { initialMessages := [], maxIterations := 1 }
      [((), [fetchCall "a", fetchCall "b", fetchCall "c"])] := by
  intro h
  have hbound := h.bound true "web_fetch:https://ex.com/foo"
  revert hbound
  decide +kernel

end HiveClaw.Runner
