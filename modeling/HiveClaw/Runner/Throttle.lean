import HiveClaw.Runner.Pairing

/-!
# The throttle of repeated lookups over a run

`repeated_external_lookup_error` counts the calls of a signature and blocks those after the
second. `execute_tools` hands the counters of the run to the calls of a batch that it executes
one by one; the calls of a batch that it executes concurrently each get counters of their own,
so they are never blocked and never counted.

* `executeSingleTool_blocked`, `executeSingleTool_executed` — the two ways a call can go;
* `executeBatches_left_le` — the executions of a signature are bounded by what the counters
  leave and by the calls that run beside others.
-/

namespace HiveClaw.Runner

open Providers

variable {ω : Type}

/-! ## Blocked calls -/

/-- The text of `repeated_external_lookup_error`. -/
def lookupBlockedError : String :=
  "Error: repeated external lookup blocked. Use the results you already have " ++
  "to answer, or try a meaningfully different source."

/-- The outcome of a call that the throttle blocked: no executed tool gives this result with
this detail (`executeSingleTool_executed`). -/
def ToolOutcome.Blocked (o : ToolOutcome) : Prop :=
  o.result = .str (lookupBlockedError ++ errorHint) ∧
    o.event.detail = truncateText lookupBlockedError 120

instance (o : ToolOutcome) : Decidable o.Blocked := inferInstanceAs (Decidable (_ ∧ _))

def lookupOf (env : Env ω) (tc : ToolCallRequest) : Option String :=
  externalLookupSignature env tc.name (.obj tc.arguments)

/-- How often the counters have seen a signature. -/
def Counts.lookups (counts : Counts) (sig : String) : Nat :=
  (counts.externalLookup.lookup sig).getD 0

def Throttled (env : Env ω) (counts : Counts) (tc : ToolCallRequest) : Prop :=
  ∃ sig, lookupOf env tc = some sig ∧ maxRepeatExternalLookups ≤ counts.lookups sig

def Counted (env : Env ω) (counts : Counts) (tc : ToolCallRequest) (counts' : Counts) : Prop :=
  ∀ sig, counts'.lookups sig =
    counts.lookups sig + if lookupOf env tc = some sig then 1 else 0

variable {env : Env ω} {spec : AgentRunSpec}

variable {counts : Counts} {tc : ToolCallRequest} {seen : HashMap String Nat}

theorem repeatedExternalLookupError_spec {err : Option String}
    (h : repeatedExternalLookupError env tc.name (.obj tc.arguments) counts.externalLookup =
      (err, seen)) :
    (Throttled env counts tc → err = some lookupBlockedError) ∧
    (¬ Throttled env counts tc → err = none) ∧
    Counted env counts tc { counts with externalLookup := seen } := by
  unfold repeatedExternalLookupError at h
  unfold Throttled Counted lookupOf
  cases hsig : externalLookupSignature env tc.name (.obj tc.arguments) with
  | none =>
    rw [hsig] at h
    obtain ⟨rfl, rfl⟩ := Prod.mk.inj h
    simp [Counts.lookups]
  | some sig =>
    rw [hsig] at h
    obtain ⟨rfl, rfl⟩ := Prod.mk.inj h
    simp only [Option.some.injEq, exists_eq_left']
    refine ⟨fun hmany => ?_, fun hfew => ?_, fun sig' => ?_⟩
    · unfold Counts.lookups at hmany
      rw [if_neg (by omega)]
      rfl
    · unfold Counts.lookups at hfew
      rw [if_pos (by omega)]
    · unfold Counts.lookups
      rw [HashMap.lookup_insert_ite]
      by_cases heq : sig' = sig
      · subst heq
        simp
      · simp [heq, Ne.symm heq]

-- `raw_result` of `execute_single_tool`
def rawResult (env : Env ω) : Json → String
  | .str s => s
  | other => env.toJson other

/-- A result that is a boundary violation. -/
def Violates (env : Env ω) (raw : String) : Prop :=
  isSsrfViolation env raw = true ∨ isWorkspaceViolation env raw = true

instance (env : Env ω) (raw : String) : Decidable (Violates env raw) :=
  inferInstanceAs (Decidable (_ ∨ _))

/-- The error of the tool that ends the run. -/
def fatalError (env : Env ω) (spec : AgentRunSpec) (result : Json) : Option String :=
  if RustStr.startsWith (rawResult env result) "Error" ∧ ¬ Violates env (rawResult env result) ∧
      spec.failOnToolError = true
  then some (rawResult env result) else none

variable {counts' : Counts} {w w' : ω}

theorem executeSingleTool_blocked {outcome : ToolOutcome} (h : Throttled env counts tc)
    (hrun : executeSingleTool env spec tc counts w = (outcome, counts', w')) :
    outcome.Blocked ∧ outcome.fatal = none ∧ Counted env counts tc counts' ∧ w' = w := by
  unfold executeSingleTool at hrun
  rcases hrep : repeatedExternalLookupError env tc.name (.obj tc.arguments)
    counts.externalLookup with ⟨err, seen⟩
  obtain ⟨hblocked, -, hcounted⟩ := repeatedExternalLookupError_spec hrep
  obtain rfl : err = some lookupBlockedError := hblocked h
  simp only [hrep, Prod.mk.injEq] at hrun
  obtain ⟨rfl, rfl, rfl⟩ := hrun
  refine ⟨?_, rfl, hcounted, rfl⟩
  unfold ToolOutcome.Blocked
  simp only [and_self]

-- the detail of a violation begins with its label
theorem eventDetail_ne_blocked {label text : String} {c : Char} {rest : List Char}
    (hlabel : label.toList = c :: rest) (hc : c ≠ 'E') (limit : Nat) :
    eventDetail label text (limit + 1) ≠ truncateText lookupBlockedError 120 := by
  intro h
  have hleft : (eventDetail label text (limit + 1)).toList.head? = some c := by
    unfold eventDetail RustStr.takeChars
    rw [String.toList_ofList, String.toList_append, hlabel]
    rfl
  have hright : (truncateText lookupBlockedError 120).toList.head? = some 'E' := by
    decide +kernel
  rw [h, hright] at hleft
  exact hc (Option.some.inj hleft).symm

-- the texts of a blocked call, as no tool has them
variable {raw : String}

theorem not_blocked_of_error {event : ToolEvent} {fatal : Option String}
    (hdetail : event.detail = truncateText raw 200) :
    ¬ ToolOutcome.Blocked { result := .str (raw ++ errorHint), event, fatal } := by
  rintro ⟨hresult, hblocked⟩
  have hraw : raw = lookupBlockedError := by
    have htext : raw ++ errorHint = lookupBlockedError ++ errorHint := Json.str.inj hresult
    have hlist := congrArg String.toList htext
    rw [String.toList_append, String.toList_append] at hlist
    exact String.toList_injective (List.append_cancel_right hlist)
  rw [hdetail, hraw] at hblocked
  exact absurd hblocked (by decide +kernel)

theorem classifyViolation_spec {event : ToolEvent} {seen' : HashMap String Nat}
    {found : Option (Json × ToolEvent)}
    (h : classifyViolation env w raw event tc seen = (found, seen')) :
    (Violates env raw ∧ ∃ payload event', found = some (payload, event') ∧
      event'.detail ≠ truncateText lookupBlockedError 120) ∨
    (¬ Violates env raw ∧ found = none) := by
  unfold classifyViolation at h
  split at h
  · rename_i hssrf
    obtain ⟨rfl, -⟩ := Prod.mk.inj h
    exact .inl ⟨.inl hssrf, _, _, rfl, eventDetail_ne_blocked rfl (by decide) 159⟩
  · rename_i hssrf
    split at h
    · rename_i hspace
      split at h
      · obtain ⟨rfl, -⟩ := Prod.mk.inj h
        exact .inl ⟨.inr hspace, _, _, rfl, eventDetail_ne_blocked rfl (by decide) 159⟩
      · obtain ⟨rfl, -⟩ := Prod.mk.inj h
        exact .inl ⟨.inr hspace, _, _, rfl, eventDetail_ne_blocked rfl (by decide) 159⟩
    · rename_i hspace
      obtain ⟨rfl, -⟩ := Prod.mk.inj h
      exact .inr ⟨fun hviolates => hviolates.elim hssrf hspace, rfl⟩

/-- What `execute_single_tool` makes of the result of the tool. -/
def judge (env : Env ω) (spec : AgentRunSpec) (tc : ToolCallRequest) (counts : Counts)
    (result : Json) (w : ω) : ToolOutcome × Counts × ω :=
  let raw := rawResult env result
  let isError := RustStr.startsWith raw "Error"
  let event : ToolEvent := ⟨tc.name, if isError then "error" else "ok", truncateText raw 200⟩
  if isError then
    match classifyViolation env w raw event tc counts.workspaceViolation with
    | (some (payload, event), seen) =>
      ({ result := payload, event }, { counts with workspaceViolation := seen }, w)
    | (none, seen) =>
      ({ result := .str (raw ++ errorHint), event
         fatal := if spec.failOnToolError then some raw else none },
        { counts with workspaceViolation := seen }, w)
  else ({ result, event }, counts, w)

theorem executeSingleTool_eq_judge
    (h : repeatedExternalLookupError env tc.name (.obj tc.arguments) counts.externalLookup =
      (none, seen)) :
    executeSingleTool env spec tc counts w =
      judge env spec tc { counts with externalLookup := seen }
        (env.executeTool w tc.name (.obj tc.arguments)).1
        (env.executeTool w tc.name (.obj tc.arguments)).2 := by
  unfold executeSingleTool
  rw [h]
  rcases env.executeTool w tc.name (.obj tc.arguments) with ⟨result, w₁⟩
  cases result <;> rfl

theorem judge_spec {result : Json} {outcome : ToolOutcome}
    (h : judge env spec tc counts result w = (outcome, counts', w')) :
    ¬ outcome.Blocked ∧ outcome.fatal = fatalError env spec result ∧
    counts'.externalLookup = counts.externalLookup ∧ w' = w := by
  unfold judge at h
  unfold fatalError
  dsimp only at h
  split at h
  · rename_i herror
    split at h
    · rename_i payload event seen hclass
      simp only [Prod.mk.injEq] at h
      obtain ⟨rfl, rfl, rfl⟩ := h
      rcases classifyViolation_spec hclass with ⟨hviolates, _, _, hfound, hdetail⟩ | ⟨-, hnone⟩
      · obtain ⟨rfl, rfl⟩ := Prod.mk.inj (Option.some.inj hfound)
        exact ⟨fun hblocked => hdetail hblocked.2, by simp [hviolates], rfl, rfl⟩
      · cases hnone
    · rename_i seen hclass
      simp only [Prod.mk.injEq] at h
      obtain ⟨rfl, rfl, rfl⟩ := h
      rcases classifyViolation_spec hclass with ⟨-, _, _, hfound, -⟩ | ⟨hfine, -⟩
      · cases hfound
      · exact ⟨not_blocked_of_error rfl, by simp [herror, hfine], rfl, rfl⟩
  · rename_i herror
    simp only [Prod.mk.injEq] at h
    obtain ⟨rfl, rfl, rfl⟩ := h
    refine ⟨?_, by simp [herror], rfl, rfl⟩
    rintro ⟨hresult, -⟩
    dsimp only at hresult
    subst hresult
    have htext : RustStr.startsWith (lookupBlockedError ++ errorHint) "Error" = true := by
      decide +kernel
    exact herror htext

theorem executeSingleTool_executed {outcome : ToolOutcome} (h : ¬ Throttled env counts tc)
    (hrun : executeSingleTool env spec tc counts w = (outcome, counts', w')) :
    ¬ outcome.Blocked ∧
    outcome.fatal = fatalError env spec (env.executeTool w tc.name (.obj tc.arguments)).1 ∧
    Counted env counts tc counts' ∧ w' = (env.executeTool w tc.name (.obj tc.arguments)).2 := by
  rcases hrep : repeatedExternalLookupError env tc.name (.obj tc.arguments)
    counts.externalLookup with ⟨err, seen⟩
  obtain ⟨-, hfree, hcounted⟩ := repeatedExternalLookupError_spec hrep
  obtain rfl : err = none := hfree h
  rw [executeSingleTool_eq_judge hrep] at hrun
  obtain ⟨hblocked, hfatal, hsame, hworld⟩ := judge_spec hrun
  refine ⟨hblocked, hfatal, fun sig => ?_, hworld⟩
  rw [← hcounted sig]
  unfold Counts.lookups
  rw [hsame]

/-! ## What the counters bound -/

def requested (env : Env ω) (sig : String) (calls : List ToolCallRequest) : Nat :=
  calls.countP fun tc => lookupOf env tc = some sig

/-- The calls of a signature that were executed. -/
def executed (env : Env ω) (sig : String) (calls : List ToolCallRequest)
    (outcomes : List ToolOutcome) : Nat :=
  (calls.zip outcomes).countP fun p => lookupOf env p.1 = some sig ∧ ¬ p.2.Blocked

/-- The executions that the counters still allow. -/
def Counts.left (counts : Counts) (sig : String) : Nat :=
  maxRepeatExternalLookups - counts.lookups sig

theorem executed_cons (sig : String) (tc : ToolCallRequest) (calls : List ToolCallRequest)
    (o : ToolOutcome) (outcomes : List ToolOutcome) :
    executed env sig (tc :: calls) (o :: outcomes) =
      executed env sig calls outcomes + if lookupOf env tc = some sig ∧ ¬ o.Blocked then 1 else 0 := by
  unfold executed
  rw [List.zip_cons_cons, List.countP_cons]
  simp

theorem executed_nil (sig : String) (calls : List ToolCallRequest) :
    executed env sig calls [] = 0 := by
  unfold executed
  rw [List.zip_nil_right]
  rfl

theorem requested_append (sig : String) (xs ys : List ToolCallRequest) :
    requested env sig (xs ++ ys) = requested env sig xs + requested env sig ys :=
  List.countP_append

theorem requested_cons (sig : String) (tc : ToolCallRequest) (calls : List ToolCallRequest) :
    requested env sig (tc :: calls) =
      requested env sig calls + if lookupOf env tc = some sig then 1 else 0 := by
  unfold requested
  rw [List.countP_cons]
  simp

theorem executeSingleTool_left {outcome : ToolOutcome} (sig : String)
    (hrun : executeSingleTool env spec tc counts w = (outcome, counts', w')) :
    (if lookupOf env tc = some sig ∧ ¬ outcome.Blocked then 1 else 0) + counts'.left sig =
      counts.left sig := by
  unfold Counts.left
  by_cases hthrottled : Throttled env counts tc
  · obtain ⟨hblocked, -, hcounted, -⟩ := executeSingleTool_blocked hthrottled hrun
    obtain ⟨sig', hsig', hmany⟩ := hthrottled
    rw [if_neg (fun h => h.2 hblocked), hcounted sig]
    by_cases hsig : lookupOf env tc = some sig
    · obtain rfl : sig' = sig := Option.some.inj (hsig'.symm.trans hsig)
      rw [if_pos hsig]
      omega
    · rw [if_neg hsig]
      omega
  · obtain ⟨hfree, -, hcounted, -⟩ := executeSingleTool_executed hthrottled hrun
    rw [hcounted sig]
    by_cases hsig : lookupOf env tc = some sig
    · have hfew : counts.lookups sig < maxRepeatExternalLookups :=
        Nat.not_le.mp fun hmany => hthrottled ⟨sig, hsig, hmany⟩
      rw [if_pos ⟨hsig, hfree⟩, if_pos hsig]
      omega
    · rw [if_neg (fun h => hsig h.1), if_neg hsig]
      omega

theorem counted_executeSingleTool {outcome : ToolOutcome}
    (hrun : executeSingleTool env spec tc counts w = (outcome, counts', w')) :
    Counted env counts tc counts' := by
  by_cases hthrottled : Throttled env counts tc
  · exact (executeSingleTool_blocked hthrottled hrun).2.2.1
  · exact (executeSingleTool_executed hthrottled hrun).2.2.1

variable (env spec) in
/-- A batch one by one: every execution is one of those that were left. -/
theorem executeSequential_left (sig : String) (calls : List ToolCallRequest) (counts : Counts)
    (w : ω) :
    executed env sig calls (executeSequential env spec calls counts w).1 +
      (executeSequential env spec calls counts w).2.1.left sig = counts.left sig := by
  induction calls generalizing counts w with
  | nil => simp [executeSequential, executed]
  | cons tc rest ih =>
    unfold executeSequential
    rcases hrun : executeSingleTool env spec tc counts w with ⟨outcome, counts', w'⟩
    have hstep := executeSingleTool_left sig hrun
    dsimp only
    split
    · rw [executed_cons, executed_nil]
      dsimp only
      omega
    · have hrest := ih counts' w'
      rcases hmore : executeSequential env spec rest counts' w' with ⟨outcomes, counts'', w''⟩
      rw [hmore] at hrest
      rw [executed_cons]
      dsimp only at hrest ⊢
      omega

/-- No call is blocked by counters that have seen nothing. -/
theorem not_throttled_empty (tc : ToolCallRequest) : ¬ Throttled env {} tc := by
  rintro ⟨sig, -, hmany⟩
  simp [Counts.lookups, maxRepeatExternalLookups] at hmany

theorem executeConcurrent_free (calls : List ToolCallRequest) (w : ω) :
    ∀ o ∈ (executeConcurrent env spec calls w).1, ¬ o.Blocked := by
  induction calls generalizing w with
  | nil => exact fun o ho => absurd ho List.not_mem_nil
  | cons tc rest ih =>
    unfold executeConcurrent
    rcases hrun : executeSingleTool env spec tc {} w with ⟨outcome, counts', w'⟩
    dsimp only
    intro o ho
    rcases List.mem_cons.mp ho with rfl | ho
    · exact (executeSingleTool_executed (not_throttled_empty tc) hrun).1
    · exact ih w' o ho

theorem executed_executeConcurrent (sig : String) (calls : List ToolCallRequest) (w : ω) :
    executed env sig calls (executeConcurrent env spec calls w).1 = requested env sig calls := by
  induction calls generalizing w with
  | nil => rfl
  | cons tc rest ih =>
    unfold executeConcurrent
    rcases hrun : executeSingleTool env spec tc {} w with ⟨outcome, counts', w'⟩
    have hfree := (executeSingleTool_executed (not_throttled_empty tc) hrun).1
    dsimp only
    rw [executed_cons, ih w', requested_cons]
    simp [hfree]

/-- The calls that run beside others. -/
def joint (batches : List (List ToolCallRequest)) : List ToolCallRequest :=
  (batches.filter fun batch => 1 < batch.length).flatten

theorem joint_cons (batch : List ToolCallRequest) (batches : List (List ToolCallRequest)) :
    joint (batch :: batches) = if 1 < batch.length then batch ++ joint batches else joint batches := by
  unfold joint
  rw [List.filter_cons]
  split
  · rename_i h
    rw [if_pos (by simpa using h), List.flatten_cons]
  · rename_i h
    rw [if_neg (by simpa using h)]

variable {sig : String} {xs ys : List ToolCallRequest} {os : List ToolOutcome}

theorem executed_append {os' : List ToolOutcome} (h : os.length = xs.length) :
    executed env sig (xs ++ ys) (os ++ os') = executed env sig xs os + executed env sig ys os' := by
  unfold executed
  rw [List.zip_append h.symm, List.countP_append]

theorem executed_append_left (h : os.length ≤ xs.length) :
    executed env sig (xs ++ ys) os = executed env sig xs os := by
  unfold executed
  congr 1
  induction xs generalizing os with
  | nil =>
    obtain rfl : os = [] := List.length_eq_zero_iff.mp (Nat.le_zero.mp h)
    rw [List.zip_nil_right, List.zip_nil_right]
  | cons x xs ih =>
    cases os with
    | nil => rw [List.zip_nil_right, List.zip_nil_right]
    | cons o os =>
      rw [List.cons_append, List.zip_cons_cons, List.zip_cons_cons,
        ih (Nat.le_of_succ_le_succ h)]

variable (env spec) in
theorem length_executeSequential_le (calls : List ToolCallRequest) (counts : Counts) (w : ω) :
    (executeSequential env spec calls counts w).1.length ≤ calls.length := by
  induction calls generalizing counts w with
  | nil => exact Nat.le_refl 0
  | cons tc rest ih =>
    unfold executeSequential
    dsimp only
    split
    · simp
    · exact Nat.succ_le_succ (ih _ _)

variable (env spec) in
theorem length_executeBatch_le (batch : List ToolCallRequest) (counts : Counts) (w : ω) :
    (executeBatch env spec batch counts w).1.length ≤ batch.length := by
  unfold executeBatch
  split
  · exact (length_executeConcurrent env spec batch w).le
  · exact length_executeSequential_le env spec batch counts w

variable (env spec) in
theorem executeBatch_left (sig : String) (batch : List ToolCallRequest) (counts : Counts) (w : ω) :
    executed env sig batch (executeBatch env spec batch counts w).1 +
      (executeBatch env spec batch counts w).2.1.left sig =
    (if spec.concurrentTools && batch.length > 1 then requested env sig batch else 0) +
      counts.left sig := by
  unfold executeBatch
  split
  · rw [executed_executeConcurrent]
  · rw [executeSequential_left env spec, Nat.zero_add]

variable (env spec) in
/-- The executions of a signature by `execute_tools` are bounded by the counters and by the
calls that run beside others. -/
theorem executeBatches_left_le (hmode : spec.concurrentTools = true) (sig : String)
    (batches : List (List ToolCallRequest)) (counts : Counts) (w : ω) :
    executed env sig batches.flatten (executeBatches env spec batches counts w).1 +
      (executeBatches env spec batches counts w).2.1.left sig ≤
    requested env sig (joint batches) + counts.left sig := by
  induction batches generalizing counts w with
  | nil => simp [executeBatches, executed]
  | cons batch rest ih =>
    have hbatch := executeBatch_left env spec sig batch counts w
    have hlength := length_executeBatch_le env spec batch counts w
    unfold executeBatches
    rcases hrun : executeBatch env spec batch counts w with ⟨outcomes, counts', w'⟩
    rw [hrun] at hbatch hlength
    have hjoint : requested env sig (joint (batch :: rest)) =
        (if spec.concurrentTools && batch.length > 1 then requested env sig batch else 0) +
          requested env sig (joint rest) := by
      rw [joint_cons, hmode]
      by_cases hone : 1 < batch.length
      · simp [hone, requested_append]
      · simp [hone]
    dsimp only at hbatch hlength ⊢
    rw [List.flatten_cons, hjoint]
    split
    · rw [executed_append_left hlength]
      dsimp only
      omega
    · rename_i hfatal
      have hfull : outcomes.length = batch.length := by
        have h : fatalOf (executeBatch env spec batch counts w).1 = none →
            (executeBatch env spec batch counts w).1.length = batch.length := length_executeBatch
        rw [hrun] at h
        exact h (by simpa using hfatal)
      have hrest := ih counts' w'
      rcases hmore : executeBatches env spec rest counts' w' with ⟨more, counts'', w''⟩
      rw [hmore] at hrest
      rw [executed_append hfull]
      dsimp only at hrest ⊢
      omega

/-! ## Runs that no tool error ends -/

section NoFatal

variable (hfail : spec.failOnToolError = false)
include hfail

theorem executeSingleTool_fatal {counts counts' : Counts} {tc : ToolCallRequest} {w w' : ω}
    {outcome : ToolOutcome}
    (hrun : executeSingleTool env spec tc counts w = (outcome, counts', w')) :
    outcome.fatal = none := by
  by_cases hthrottled : Throttled env counts tc
  · exact (executeSingleTool_blocked hthrottled hrun).2.1
  · rw [(executeSingleTool_executed hthrottled hrun).2.1]
    simp [fatalError, hfail]

variable (env) in
theorem executeSequential_exact (sig : String) (calls : List ToolCallRequest) (counts : Counts)
    (w : ω) :
    fatalOf (executeSequential env spec calls counts w).1 = none ∧
    (executeSequential env spec calls counts w).2.1.lookups sig =
      counts.lookups sig + requested env sig calls := by
  induction calls generalizing counts w with
  | nil => exact ⟨rfl, rfl⟩
  | cons tc rest ih =>
    unfold executeSequential
    rcases hrun : executeSingleTool env spec tc counts w with ⟨outcome, counts', w'⟩
    have hfatal := executeSingleTool_fatal hfail hrun
    have hcounted := counted_executeSingleTool hrun sig
    obtain ⟨hnone, hrest⟩ := ih counts' w'
    dsimp only
    rw [hfatal, if_neg (by simp)]
    refine ⟨fatalOf_cons_none.mpr ⟨hfatal, hnone⟩, ?_⟩
    dsimp only
    rw [hrest, hcounted, requested_cons]
    omega

theorem executeConcurrent_fatal (calls : List ToolCallRequest) (w : ω) :
    fatalOf (executeConcurrent env spec calls w).1 = none := by
  induction calls generalizing w with
  | nil => rfl
  | cons tc rest ih =>
    unfold executeConcurrent
    rcases hrun : executeSingleTool env spec tc {} w with ⟨outcome, counts', w'⟩
    exact fatalOf_cons_none.mpr ⟨executeSingleTool_fatal hfail hrun, ih w'⟩

variable (env) in
/-- Where no tool error ends the run, exactly as many lookups are executed. -/
theorem executeBatches_exact (hmode : spec.concurrentTools = true) (sig : String)
    (batches : List (List ToolCallRequest)) (counts : Counts) (w : ω) :
    executed env sig batches.flatten (executeBatches env spec batches counts w).1 +
      (executeBatches env spec batches counts w).2.1.left sig =
    requested env sig (joint batches) + counts.left sig ∧
    (executeBatches env spec batches counts w).2.1.lookups sig + requested env sig (joint batches) =
      counts.lookups sig + requested env sig batches.flatten := by
  induction batches generalizing counts w with
  | nil => exact ⟨by simp [executeBatches, executed, joint, requested], rfl⟩
  | cons batch rest ih =>
    have hbatch := executeBatch_left env spec sig batch counts w
    have hseen : fatalOf (executeBatch env spec batch counts w).1 = none ∧
        (executeBatch env spec batch counts w).2.1.lookups sig +
          (if 1 < batch.length then requested env sig batch else 0) =
        counts.lookups sig + requested env sig batch := by
      unfold executeBatch
      by_cases hone : 1 < batch.length
      · simp [hmode, hone, executeConcurrent_fatal hfail]
      · obtain ⟨hnone, hseen⟩ :=
          executeSequential_exact env hfail sig batch counts w
        simp [hone, hnone, hseen]
    have hjoint : requested env sig (joint (batch :: rest)) =
        (if 1 < batch.length then requested env sig batch else 0) +
          requested env sig (joint rest) := by
      rw [joint_cons]
      split
      · rw [requested_append]
      · rw [Nat.zero_add]
    have hfull := length_executeBatch hseen.1
    unfold executeBatches
    rcases hrun : executeBatch env spec batch counts w with ⟨outcomes, counts', w'⟩
    have hrest := ih counts' w'
    rcases hmore : executeBatches env spec rest counts' w' with ⟨more, counts'', w''⟩
    rw [hrun] at hbatch hseen hfull
    rw [hmore] at hrest
    simp only [hmode, Bool.true_and, decide_eq_true_eq, gt_iff_lt] at hbatch
    dsimp only at hbatch hseen hfull hrest ⊢
    rw [hseen.1, if_neg (by simp), hmore, List.flatten_cons, executed_append hfull, hjoint,
      requested_append]
    dsimp only
    omega

end NoFatal

end HiveClaw.Runner
