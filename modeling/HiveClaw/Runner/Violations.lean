import HiveClaw.Runner.Throttle

/-!
# The throttle of workspace violations over a run

`repeated_workspace_violation_error` exists twice: in `crates/utils/src/runtime.rs`, where the
count of a signature is stored, and as a private copy in `crates/agent/src/runner.rs`, which reads
the count and never stores it. The runner calls its copy, so over a run it never refuses a
repeated violation (`not_escalated_of_fresh`); it does what the original does exactly as long as a
signature is violated no more than twice (`escalatesOnTime_iff`).
-/

namespace HiveClaw

/-! ## The version of the utilities -/

namespace Utils

/-- A character of `[^\s"'>;|<]`. -/
def isPathChar (c : Char) : Bool :=
  !(RustStr.isWhitespace c || c = '"' || c = '\'' || c = '>' || c = ';' || c = '|' || c = '<')

/-- `(?:/[^\s"'>;|<]+)|(?:~[^\s"'>;|<]+)` at the start of a text. -/
def pathAt : List Char → Option (List Char)
  | c :: rest =>
    if (c = '/' || c = '~') && !(rest.takeWhile isPathChar).isEmpty then
      some (c :: rest.takeWhile isPathChar)
    else none
  | [] => none

/-- The first path after one of `[\s|>'"]`. -/
def pathAfterSeparator : List Char → Option (List Char)
  | [] => none
  | c :: rest =>
    if RustStr.isWhitespace c || c = '|' || c = '>' || c = '\'' || c = '"' then
      (pathAt rest).orElse fun _ => pathAfterSeparator rest
    else pathAfterSeparator rest

/-- The capture of `OUTSIDE_PATH_RE`. -/
def outsidePath (cmd : String) : Option String :=
  ((pathAt cmd.toList).orElse fun _ => pathAfterSeparator cmd.toList).map String.ofList

-- `normalize_violation_target`
def normalizeViolationTarget (toLowercase : String → String) (raw : String) : String :=
  "violation:" ++ toLowercase (RustStr.replace raw "\\" "/")

-- `workspace_violation_signature`
def workspaceViolationSignature (toLowercase : String → String) (toolName : String)
    (arguments : Json) : Option String :=
  let paths := (["path", "file_path", "target", "source", "destination"].map
    (Runner.argument arguments)).filter (· ≠ "")
  let command := (outsidePath (Runner.argument arguments "command")).toList
  let cwd := [Runner.argument arguments "working_dir"].filter (· ≠ "")
  let targets := paths ++ if toolName = "exec" || toolName = "shell" then command ++ cwd else []
  targets.head?.map (normalizeViolationTarget toLowercase)

-- `repeated_workspace_violation_error`
def repeatedWorkspaceViolationError (toLowercase : String → String) (toolName : String)
    (arguments : Json) (seen : HashMap String Nat) : Option String × HashMap String Nat :=
  match workspaceViolationSignature toLowercase toolName arguments with
  | none => (none, seen)
  | some signature =>
    let count := (seen.lookup signature).getD 0 + 1
    let target := String.ofList (signature.toList.drop "violation:".length)
    (if count ≤ Runner.maxRepeatWorkspaceViolations then none
      else some (Runner.violationRefusal target count),
      seen.insert signature count)

end Utils

namespace Runner

open Providers

variable {ω : Type}

/-- The refusals of the original, threaded over the calls. -/
def utilsInTurn (env : Env ω) : List ToolCallRequest → HashMap String Nat → List (Option String)
  | [], _ => []
  | tc :: rest, seen =>
    let (refusal, seen) :=
      Utils.repeatedWorkspaceViolationError env.toLowercase tc.name (.obj tc.arguments) seen
    refusal :: utilsInTurn env rest seen

/-! ## The violations of a run -/

/-- The signature of the workspace violation that a call ends in, if it ends in one. -/
def violationOf (env : Env ω) (counts : Counts) (w : ω) (tc : ToolCallRequest) : Option String :=
  if (repeatedExternalLookupError env tc.name (.obj tc.arguments) counts.externalLookup).1.isSome
  then none
  else
    let (result, w) := env.executeTool w tc.name (.obj tc.arguments)
    let raw := rawResult env result
    if RustStr.startsWith raw "Error" && !isSsrfViolation env raw && isWorkspaceViolation env raw then
      workspaceViolationSignature env w tc.name (.obj tc.arguments)
    else none

/-- The calls of a run that end in a workspace violation with the signature, and their outcomes.
The calls run one by one, each in the world it finds. -/
def violations (env : Env ω) (spec : AgentRunSpec) (sig : String) :
    List (ω × ToolCallRequest) → Counts → List (ToolCallRequest × ToolOutcome)
  | [], _ => []
  | (w, tc) :: rest, counts =>
    let (outcome, counts', _) := executeSingleTool env spec tc counts w
    if violationOf env counts w tc = some sig then
      (tc, outcome) :: violations env spec sig rest counts'
    else violations env spec sig rest counts'

/-- The outcome of a violation that was refused: the label of its event says so. -/
def ToolOutcome.Escalated (o : ToolOutcome) : Prop :=
  RustStr.startsWith o.event.detail "workspace_violation_escalated: " = true

instance (o : ToolOutcome) : Decidable o.Escalated := inferInstanceAs (Decidable (_ = true))

/-- Exactly the violations after the second are refused. -/
def EscalatesOnTime (vs : List (ToolCallRequest × ToolOutcome)) : Prop :=
  ∀ (k : Nat) (v : ToolCallRequest × ToolOutcome), vs[k]? = some v →
    (v.2.Escalated ↔ maxRepeatWorkspaceViolations ≤ k)

/-- The violations that are refused are those that the original refuses. -/
def AgreesWithUtils (env : Env ω) (vs : List (ToolCallRequest × ToolOutcome)) : Prop :=
  ∀ (k : Nat) (v : ToolCallRequest × ToolOutcome), vs[k]? = some v →
    (v.2.Escalated ↔ ∃ refusal, (utilsInTurn env (vs.map Prod.fst) ∅)[k]? = some (some refusal))

variable {env : Env ω} {spec : AgentRunSpec}

/-! ## The original -/

variable {sig : String}

theorem utilsInTurn_refuses (calls : List ToolCallRequest) (hsig : ∀ tc ∈ calls,
      Utils.workspaceViolationSignature env.toLowercase tc.name (.obj tc.arguments) = some sig)
    (seen : HashMap String Nat) {k : Nat} (hk : k < calls.length) :
    (∃ refusal, (utilsInTurn env calls seen)[k]? = some (some refusal)) ↔
      maxRepeatWorkspaceViolations ≤ (seen.lookup sig).getD 0 + k := by
  induction calls generalizing seen k with
  | nil => exact absurd hk (Nat.not_lt_zero k)
  | cons tc rest ih =>
    have htc := hsig tc List.mem_cons_self
    unfold utilsInTurn Utils.repeatedWorkspaceViolationError
    rw [htc]
    cases k with
    | zero =>
      dsimp only
      rw [List.getElem?_cons_zero, Nat.add_zero]
      split
      · simp only [Option.some.injEq, reduceCtorEq, exists_false, false_iff]
        omega
      · simp only [Option.some.injEq, exists_eq', true_iff]
        omega
    | succ k =>
      dsimp only
      rw [List.getElem?_cons_succ, ih (fun tc h => hsig tc (List.mem_cons_of_mem _ h)) _
        (Nat.lt_of_succ_lt_succ hk), AList.lookup_insert]
      simp only [Option.getD_some]
      omega

/-! ## The copy of the runner -/

def Fresh (seen : HashMap String Nat) : Prop := ∀ sig, (seen.lookup sig).getD 0 = 0

theorem Fresh.empty : Fresh ∅ := fun _ => rfl

variable {w : ω} {seen seen' : HashMap String Nat}

theorem repeatedWorkspaceViolationError_fresh {toolName : String} {arguments : Json}
    {refusal : Option String} (h : Fresh seen)
    (hrun : repeatedWorkspaceViolationError env w toolName arguments seen = (refusal, seen')) :
    refusal = none ∧ Fresh seen' := by
  unfold repeatedWorkspaceViolationError at hrun
  split at hrun
  · obtain ⟨rfl, rfl⟩ := Prod.mk.inj hrun
    exact ⟨rfl, h⟩
  · rename_i sig hsig
    simp only [h sig] at hrun
    obtain ⟨rfl, rfl⟩ := Prod.mk.inj hrun
    refine ⟨by simp [maxRepeatWorkspaceViolations], fun sig' => ?_⟩
    rw [HashMap.lookup_insert_ite]
    split
    · rfl
    · exact h sig'

theorem not_escalated_of_label (text : String) :
    RustStr.startsWith (eventDetail "workspace_violation: " text 160)
      "workspace_violation_escalated: " = false := by
  -- the labels part at their twentieth character
  have hlabel : (eventDetail "workspace_violation: " text 160).toList[19]? = some ':' := by
    unfold eventDetail RustStr.takeChars
    rw [String.toList_ofList, List.getElem?_take_of_lt (by omega), String.toList_append,
      List.getElem?_append_left (by decide +kernel)]
    decide +kernel
  by_contra hstart
  obtain ⟨rest, hrest⟩ := List.isPrefixOf_iff_prefix.mp (Bool.not_eq_false _ ▸ hstart)
  rw [← hrest, List.getElem?_append_left (by decide +kernel)] at hlabel
  exact absurd hlabel (by decide +kernel)

variable {tc : ToolCallRequest}

theorem classifyViolation_fresh {raw : String} {event : ToolEvent}
    {found : Option (Json × ToolEvent)} (h : Fresh seen)
    (hrun : classifyViolation env w raw event tc seen = (found, seen')) :
    Fresh seen' ∧
    (isSsrfViolation env raw = false → isWorkspaceViolation env raw = true →
      found = some (.str raw, { event with detail := eventDetail "workspace_violation: " raw 160 })) := by
  unfold classifyViolation at hrun
  split at hrun
  · rename_i hssrf
    obtain ⟨-, rfl⟩ := Prod.mk.inj hrun
    exact ⟨h, fun hno => by simp [hssrf] at hno⟩
  · split at hrun
    · rcases hrep : repeatedWorkspaceViolationError env w tc.name (.obj tc.arguments) seen
        with ⟨refusal, seen₁⟩
      obtain ⟨rfl, hfresh⟩ := repeatedWorkspaceViolationError_fresh h hrep
      rw [hrep] at hrun
      obtain ⟨rfl, rfl⟩ := Prod.mk.inj hrun
      exact ⟨hfresh, fun _ _ => rfl⟩
    · rename_i hspace
      obtain ⟨-, rfl⟩ := Prod.mk.inj hrun
      exact ⟨h, fun _ hno => absurd hno hspace⟩

variable {counts counts' : Counts} {w' : ω}

theorem judge_fresh {result : Json} {outcome : ToolOutcome} (h : Fresh counts.workspaceViolation)
    (hrun : judge env spec tc counts result w = (outcome, counts', w')) :
    Fresh counts'.workspaceViolation ∧
    (RustStr.startsWith (rawResult env result) "Error" = true →
      isSsrfViolation env (rawResult env result) = false →
      isWorkspaceViolation env (rawResult env result) = true → ¬ outcome.Escalated) := by
  unfold judge at hrun
  dsimp only at hrun
  split at hrun
  · rename_i herror
    split at hrun
    · rename_i payload event seen hclass
      simp only [Prod.mk.injEq] at hrun
      obtain ⟨rfl, rfl, -⟩ := hrun
      obtain ⟨hfresh, hsoft⟩ := classifyViolation_fresh h hclass
      refine ⟨hfresh, fun _ hssrf hspace => ?_⟩
      obtain ⟨-, rfl⟩ := Prod.mk.inj (Option.some.inj (hsoft hssrf hspace))
      unfold ToolOutcome.Escalated
      rw [not_escalated_of_label]
      simp
    · rename_i seen hclass
      simp only [Prod.mk.injEq] at hrun
      obtain ⟨rfl, rfl, -⟩ := hrun
      obtain ⟨hfresh, hsoft⟩ := classifyViolation_fresh h hclass
      exact ⟨hfresh, fun _ hssrf hspace => by cases hsoft hssrf hspace⟩
  · rename_i herror
    simp only [Prod.mk.injEq] at hrun
    obtain ⟨rfl, rfl, -⟩ := hrun
    exact ⟨h, fun hyes => absurd hyes herror⟩

theorem executeSingleTool_fresh {outcome : ToolOutcome} (h : Fresh counts.workspaceViolation)
    (hrun : executeSingleTool env spec tc counts w = (outcome, counts', w')) :
    Fresh counts'.workspaceViolation ∧
    ∀ sig, violationOf env counts w tc = some sig → ¬ outcome.Escalated := by
  rcases hrep : repeatedExternalLookupError env tc.name (.obj tc.arguments)
    counts.externalLookup with ⟨err, seen⟩
  unfold violationOf
  rw [hrep]
  cases err with
  | some err =>
    unfold executeSingleTool at hrun
    simp only [hrep, Prod.mk.injEq] at hrun
    obtain ⟨-, rfl, -⟩ := hrun
    exact ⟨h, fun sig hsig => by simp at hsig⟩
  | none =>
    rw [executeSingleTool_eq_judge hrep] at hrun
    have hcounts : Fresh ({ counts with externalLookup := seen } : Counts).workspaceViolation := h
    obtain ⟨hfresh, hnot⟩ := judge_fresh hcounts hrun
    refine ⟨hfresh, fun sig hsig => ?_⟩
    rw [if_neg (by simp)] at hsig
    dsimp only at hsig
    split at hsig
    · rename_i hcond
      simp only [Bool.and_eq_true, Bool.not_eq_true'] at hcond
      exact hnot hcond.1.1 hcond.1.2 hcond.2
    · cases hsig

variable (env spec) in
theorem not_escalated_of_fresh (steps : List (ω × ToolCallRequest))
    (h : Fresh counts.workspaceViolation) :
    ∀ v ∈ violations env spec sig steps counts, ¬ v.2.Escalated := by
  induction steps generalizing counts with
  | nil => exact fun v hv => absurd hv List.not_mem_nil
  | cons step rest ih =>
    obtain ⟨w, tc⟩ := step
    rcases hrun : executeSingleTool env spec tc counts w with ⟨outcome, counts', w'⟩
    obtain ⟨hfresh, hnot⟩ := executeSingleTool_fresh h hrun
    unfold violations
    rw [hrun]
    dsimp only
    split
    · rename_i hviolation
      intro v hv
      rcases List.mem_cons.mp hv with rfl | hv
      · exact hnot sig hviolation
      · exact ih hfresh v hv
    · exact ih hfresh

theorem forall_not_le_iff {α : Type} {vs : List α} {n : Nat} :
    (∀ (k : Nat) (v : α), vs[k]? = some v → ¬ n ≤ k) ↔ vs.length ≤ n := by
  constructor
  · intro h
    by_contra hlong
    have hlt : n < vs.length := Nat.not_le.mp hlong
    exact h n _ (List.getElem?_eq_getElem hlt) (Nat.le_refl n)
  · intro h k v hk hle
    have hlt := (List.getElem?_eq_some_iff.mp hk).1
    omega

/-- **The throttle of workspace violations.** Over every run of calls one by one and for every
signature, the runner refuses exactly the violations after the second, and refuses what the
version of the utilities threaded over the same calls refuses, if and only if at most two of the
calls end in a violation with the signature. -/
theorem escalatesOnTime_iff (env : Env ω) (spec : AgentRunSpec) (sig : String)
    (steps : List (ω × ToolCallRequest)) :
    (EscalatesOnTime (violations env spec sig steps {}) ↔
      (violations env spec sig steps {}).length ≤ maxRepeatWorkspaceViolations) ∧
    ∀ sig', (∀ v ∈ violations env spec sig steps {},
        Utils.workspaceViolationSignature env.toLowercase v.1.name (.obj v.1.arguments) =
          some sig') →
      (AgreesWithUtils env (violations env spec sig steps {}) ↔
        (violations env spec sig steps {}).length ≤ maxRepeatWorkspaceViolations) := by
  have hnever : ∀ v ∈ violations env spec sig steps {}, ¬ v.2.Escalated :=
    not_escalated_of_fresh env spec steps Fresh.empty
  generalize violations env spec sig steps {} = vs at hnever ⊢
  refine ⟨?_, fun sig' hsig' => ?_⟩
  · rw [← forall_not_le_iff]
    refine forall₃_congr fun k v hv => ?_
    rw [iff_false_left (hnever v (List.mem_of_getElem? hv))]
  · rw [← forall_not_le_iff]
    refine forall₃_congr fun k v hv => ?_
    have hk : k < (vs.map Prod.fst).length := by
      rw [List.length_map]
      exact (List.getElem?_eq_some_iff.mp hv).1
    have hcalls : ∀ tc ∈ vs.map Prod.fst,
        Utils.workspaceViolationSignature env.toLowercase tc.name (.obj tc.arguments) =
          some sig' := by
      intro tc htc
      obtain ⟨v, hv, rfl⟩ := List.mem_map.mp htc
      exact hsig' v hv
    rw [iff_false_left (hnever v (List.mem_of_getElem? hv)),
      utilsInTurn_refuses (vs.map Prod.fst) hcalls ∅ hk]
    simp

/-- A tool that refuses a path outside the workspace. -/
def readEnv : Env Unit where
  requestModel _ _ := ({ content := none }, ())
  chatWithRetry _ _ := ({ content := none }, ())
  executeTool w _ _ := (.str "Error: Path /etc/passwd is outside allowed directory /work", w)

/-- A call of `read_file`. -/
def readCall (id : String) : ToolCallRequest :=
  { id, name := "read_file", arguments := [("path", .str "/etc/passwd")] }

/-- The third violation is not refused. -/
theorem not_escalatesOnTime_readEnv :
    ¬ EscalatesOnTime (violations readEnv { initialMessages := [], maxIterations := 1 }
      "violation:/etc/passwd" [((), readCall "a"), ((), readCall "b"), ((), readCall "c")] {}) := by
  have hthree : (violations readEnv { initialMessages := [], maxIterations := 1 }
      "violation:/etc/passwd" [((), readCall "a"), ((), readCall "b"), ((), readCall "c")]
      {}).map (fun v => decide v.2.Escalated) = [false, false, false] := by
    decide +kernel
  intro h
  have hthird := congrArg (fun l : List Bool => l[2]?) hthree
  simp only [List.getElem?_map, List.getElem?_cons_succ, List.getElem?_cons_zero,
    Option.map_eq_some_iff] at hthird
  obtain ⟨v, hv, hnot⟩ := hthird
  exact of_decide_eq_false hnot ((h 2 v hv).mpr (Nat.le_refl 2))

end Runner

end HiveClaw
