import HiveClaw.Runner.Steps

/-!
# Tool calls and their answers in the result

The loop appends an assistant message with tool calls and then one tool message for each
result of `execute_tools`. A fatal error that stops `execute_tools` before its last batch
leaves calls without a result, and no exit fills them in. In all other runs the messages of
the result are paired if the initial messages are (`toolPaired_run`).
-/

namespace HiveClaw.Runner

open Providers

variable {ω : Type} {env : Env ω} {spec : AgentRunSpec}

/-! ## Paired messages -/

/-- A tool message answers the call before the next assistant message. -/
def Answered (id : String) : List Json → Prop
  | [] => False
  | m :: rest => role m ≠ some "assistant" ∧ (answers m = some id ∨ Answered id rest)

/-- Every tool call of every assistant message is answered. -/
def ToolPaired : List Json → Prop
  | [] => True
  | m :: rest => (∀ id ∈ callIds m, Answered id rest) ∧ ToolPaired rest

instance instDecidableAnswered (id : String) :
    (messages : List Json) → Decidable (Answered id messages)
  | [] => isFalse nofun
  | _ :: rest =>
    have := instDecidableAnswered id rest
    inferInstanceAs (Decidable (_ ∧ (_ ∨ Answered id rest)))

instance instDecidableToolPaired : (messages : List Json) → Decidable (ToolPaired messages)
  | [] => isTrue trivial
  | m :: rest =>
    have := instDecidableToolPaired rest
    inferInstanceAs (Decidable ((∀ id ∈ callIds m, Answered id rest) ∧ ToolPaired rest))

variable {ms : List Json}

/-- What comes before a turn and what begins with it are answered apart. -/
theorem Answered.append {id : String} (h : Answered id ms) (ns : List Json) :
    Answered id (ms ++ ns) := by
  induction ms with
  | nil => exact h.elim
  | cons m rest ih => exact ⟨h.1, h.2.imp_right ih⟩

variable {ns : List Json}

theorem toolPaired_append (hms : ToolPaired ms) (hns : ToolPaired ns) : ToolPaired (ms ++ ns) := by
  induction ms with
  | nil => exact hns
  | cons m rest ih => exact ⟨fun id hid => (hms.1 id hid).append ns, ih hms.2⟩

variable {m : Json}

theorem toolPaired_push (hms : ToolPaired ms) (hm : callIds m = []) : ToolPaired (ms ++ [m]) :=
  toolPaired_append hms ⟨by simp [hm], trivial⟩

/-- What pairing looks at in a message. -/
def pairingView (m : Json) : Option String × List String × Option String :=
  (role m, callIds m, answers m)

theorem answered_congr {id : String} (h : ms.map pairingView = ns.map pairingView) :
    Answered id ms ↔ Answered id ns := by
  induction ms generalizing ns with
  | nil =>
    rw [List.map_eq_nil_iff.mp h.symm]
  | cons m ms ih =>
    cases ns with
    | nil => exact absurd h nofun
    | cons n ns =>
      obtain ⟨hview, hrest⟩ := List.cons.inj h
      obtain ⟨hrole, hview⟩ := Prod.mk.inj hview
      rw [Answered, Answered, hrole, (Prod.mk.inj hview).2, ih hrest]

theorem toolPaired_congr (h : ms.map pairingView = ns.map pairingView) :
    ToolPaired ms ↔ ToolPaired ns := by
  induction ms generalizing ns with
  | nil =>
    rw [List.map_eq_nil_iff.mp h.symm]
  | cons m ms ih =>
    cases ns with
    | nil => exact absurd h nofun
    | cons n ns =>
      obtain ⟨hview, hrest⟩ := List.cons.inj h
      have hids : callIds m = callIds n := (Prod.mk.inj (Prod.mk.inj hview).2).1
      rw [ToolPaired, ToolPaired, hids, ih hrest]
      simp only [answered_congr hrest]

variable {m' : Json}

theorem answered_replace {id : String} (hm : role m = some "user") (h : Answered id (ms ++ [m])) :
    Answered id (ms ++ [m']) := by
  induction ms with
  | nil =>
    have hanswers : answers m = none := answers_of_role_ne (by simp [hm])
    rcases h.2 with h | h
    · cases hanswers.symm.trans h
    · exact h.elim
  | cons n rest ih => exact ⟨h.1, h.2.imp_right ih⟩

theorem callIds_of_user (hm : role m = some "user") : callIds m = [] :=
  callIds_of_role_ne (by simp [hm])

theorem toolPaired_replace (hm : role m = some "user") (hm' : role m' = some "user")
    (h : ToolPaired (ms ++ [m])) : ToolPaired (ms ++ [m']) := by
  induction ms with
  | nil => exact ⟨by simp [callIds_of_user hm'], trivial⟩
  | cons n rest ih => exact ⟨fun id hid => answered_replace hm (h.1 id hid), ih h.2⟩

/-! ## The messages that a run appends -/

theorem callIds_buildAssistantMessage (content : Option String) (toolCalls : List Json)
    (reasoning : Option String) (thinking : Option (List Json)) :
    callIds (buildAssistantMessage content toolCalls reasoning thinking) =
      toolCalls.filterMap fun tc => tc.getStr "id" := by
  have hrole : role (buildAssistantMessage content toolCalls reasoning thinking) =
      some "assistant" := rfl
  rw [callIds, if_pos hrole]
  cases toolCalls with
  | cons tc tcs => rfl
  | nil =>
    unfold buildAssistantMessage
    rw [if_pos List.isEmpty_nil]
    split <;> split <;> rfl

theorem callIds_toolCalls (env : Env ω) (response : LLMResponse) :
    callIds (buildAssistantMessage response.content (response.toolCalls.map (toOpenaiToolCall env))
      response.reasoningContent response.thinkingBlocks) =
      response.toolCalls.map ToolCallRequest.id := by
  rw [callIds_buildAssistantMessage, List.filterMap_map]
  have hid : ((fun tc => tc.getStr "id") ∘ toOpenaiToolCall env) =
      fun tc : ToolCallRequest => some tc.id := rfl
  rw [hid, List.filterMap_eq_map']

theorem toolPaired_appendFinalMessage (h : ToolPaired ms) (content : String) :
    ToolPaired (appendFinalMessage ms content) := by
  unfold appendFinalMessage
  split
  · exact h
  · exact toolPaired_push h rfl

theorem toolPaired_appendModelErrorPlaceholder (h : ToolPaired ms) :
    ToolPaired (appendModelErrorPlaceholder ms) := by
  unfold appendModelErrorPlaceholder
  split
  · exact h
  · exact toolPaired_push h rfl

theorem toolPaired_appendInjected (h : ToolPaired ms) {injection : Json}
    (huser : role injection = some "user") : ToolPaired (appendInjected env ms injection) := by
  unfold appendInjected
  split
  · exact toolPaired_push h (callIds_of_user huser)
  case h_2 last hlast =>
    split
    case isTrue hroles =>
      have hsplit := List.dropLast_append_getLast? last hlast
      rw [← hsplit] at h
      exact toolPaired_replace hroles.2 ((role_setContent _ _).trans hroles.2) h
    case isFalse => exact toolPaired_push h (callIds_of_user huser)

theorem toolPaired_foldl_appendInjected {injected : List Json} (h : ToolPaired ms)
    (husers : ∀ m ∈ injected, role m = some "user") :
    ToolPaired (injected.foldl (appendInjected env) ms) := by
  induction injected generalizing ms with
  | nil => exact h
  | cons m injected ih =>
    obtain ⟨hm, hrest⟩ := List.forall_mem_cons.mp husers
    exact ih (toolPaired_appendInjected h hm) hrest

/-! ## Batches -/

variable {calls : List ToolCallRequest} {results : List Json}

theorem answered_of_answers {outcomes : List ToolOutcome} (h : Answers calls outcomes results)
    (hall : calls.length ≤ outcomes.length) : ∀ tc ∈ calls, Answered tc.id results := by
  induction h with
  | nil calls =>
    intro tc htc
    rw [List.eq_nil_of_length_eq_zero (Nat.le_zero.mp hall)] at htc
    exact absurd htc List.not_mem_nil
  | extra => exact fun tc htc => absurd htc List.not_mem_nil
  | cons tc outcome content _ ih =>
    have hrest := ih (Nat.le_of_succ_le_succ hall)
    intro tc' htc'
    refine ⟨by simp, ?_⟩
    rcases List.mem_cons.mp htc' with rfl | htc'
    · exact .inl rfl
    · exact .inr (hrest tc' htc')

theorem toolPaired_of_answers {outcomes : List ToolOutcome} (h : Answers calls outcomes results) :
    ToolPaired results := by
  induction h with
  | nil => trivial
  | extra => trivial
  | cons tc outcome content _ ih => 
    have hids : callIds (toolMessage (.str tc.id) tc.name content) = [] :=
      callIds_of_role_ne (by simp)
    exact ⟨by simp [hids], ih⟩

/-- No fatal error stopped the batch before its last call. -/
def RunEvent.NotStopped : RunEvent → Prop
  | .executed calls outcomes => fatalOf outcomes = none ∨ calls.length ≤ outcomes.length
  | _ => True

instance : (e : RunEvent) → Decidable e.NotStopped
  | .executed calls outcomes =>
    inferInstanceAs (Decidable (fatalOf outcomes = none ∨ calls.length ≤ outcomes.length))
  | .request _ | .finalizationRetry _ | .drained _ _ _ => isTrue trivial

theorem length_executeConcurrent (env : Env ω) (spec : AgentRunSpec)
    (calls : List ToolCallRequest) (w : ω) :
    (executeConcurrent env spec calls w).1.length = calls.length := by
  induction calls generalizing w with
  | nil => rfl
  | cons tc rest ih =>
    rw [executeConcurrent, List.length_cons, List.length_cons, ih]

theorem fatalOf_cons_none {outcome : ToolOutcome} {outcomes : List ToolOutcome} :
    fatalOf (outcome :: outcomes) = none ↔ outcome.fatal = none ∧ fatalOf outcomes = none := by
  unfold fatalOf
  rw [List.getLast?_eq_none_iff, List.getLast?_eq_none_iff, List.filterMap_eq_nil_iff,
    List.filterMap_eq_nil_iff, List.forall_mem_cons]

theorem fatalOf_append_none {as bs : List ToolOutcome} :
    fatalOf (as ++ bs) = none ↔ fatalOf as = none ∧ fatalOf bs = none := by
  induction as with
  | nil => simp [fatalOf]
  | cons a as ih => rw [List.cons_append, fatalOf_cons_none, fatalOf_cons_none, ih, and_assoc]

variable {counts : Counts} {w : ω}

theorem length_executeSequential
    (h : fatalOf (executeSequential env spec calls counts w).1 = none) :
    (executeSequential env spec calls counts w).1.length = calls.length := by
  induction calls generalizing counts w with
  | nil => rfl
  | cons tc rest ih =>
    unfold executeSequential at h ⊢
    dsimp only at h ⊢
    split at h
    case isTrue hfatal =>
      rw [(fatalOf_cons_none.mp h).1] at hfatal
      exact absurd hfatal (by decide)
    case isFalse hfatal =>
      rw [if_neg hfatal, List.length_cons, List.length_cons, ih (fatalOf_cons_none.mp h).2]

theorem length_executeBatch {batch : List ToolCallRequest}
    (h : fatalOf (executeBatch env spec batch counts w).1 = none) :
    (executeBatch env spec batch counts w).1.length = batch.length := by
  unfold executeBatch at h ⊢
  split
  case isTrue => exact length_executeConcurrent env spec batch w
  case isFalse hcond =>
    rw [if_neg hcond] at h
    exact length_executeSequential h

theorem length_executeBatches {batches : List (List ToolCallRequest)}
    (h : fatalOf (executeBatches env spec batches counts w).1 = none) :
    (executeBatches env spec batches counts w).1.length = batches.flatten.length := by
  induction batches generalizing counts w with
  | nil => rfl
  | cons batch rest ih =>
    unfold executeBatches at h ⊢
    dsimp only at h ⊢
    split at h
    case isTrue hfatal =>
      rw [h] at hfatal
      exact absurd hfatal (by decide)
    case isFalse hfatal =>
      obtain ⟨hbatch, hrest⟩ := fatalOf_append_none.mp h
      rw [if_neg hfatal, List.length_append, length_executeBatch hbatch, ih hrest,
        List.flatten_cons, List.length_append]

theorem flatten_partition_fold (safe : String → Bool) (calls : List ToolCallRequest)
    (st : List (List ToolCallRequest) × List ToolCallRequest) :
    (calls.foldl (partitionStep safe) st).1.flatten ++ (calls.foldl (partitionStep safe) st).2 =
      st.1.flatten ++ st.2 ++ calls := by
  induction calls generalizing st with
  | nil => simp
  | cons tc rest ih =>
    rw [List.foldl_cons, ih]
    unfold partitionStep
    split
    · simp
    · split
      case isTrue hempty => simp [List.isEmpty_iff.mp hempty]
      case isFalse => simp

/-- The batches are the calls, in order. -/
theorem flatten_partitionToolBatches (env : Env ω) (spec : AgentRunSpec) (w : ω)
    (calls : List ToolCallRequest) : (partitionToolBatches env spec w calls).flatten = calls := by
  unfold partitionToolBatches
  split
  · induction calls with
    | nil => rfl
    | cons tc rest ih => rw [List.map_cons, List.flatten_cons, ih, List.singleton_append]
  · have hfold := flatten_partition_fold (env.concurrencySafe w) calls ([], [])
    rw [List.flatten_nil, List.nil_append, List.nil_append] at hfold
    dsimp only
    split
    case isTrue hempty =>
      rw [List.isEmpty_iff.mp hempty, List.append_nil] at hfold
      exact hfold
    case isFalse => rw [List.flatten_append, List.flatten_singleton, hfold]

theorem length_executeTools (h : fatalOf (executeTools env spec calls counts w).1 = none) :
    (executeTools env spec calls counts w).1.length = calls.length := by
  unfold executeTools at h ⊢
  rw [length_executeBatches h, flatten_partitionToolBatches]

/-! ## Steps -/

/-- The messages are paired, unless a batch was stopped. -/
def Core.Paired (c : Core) : Prop := (∀ e ∈ c.log, e.NotStopped) → ToolPaired c.messages

variable {c c' : Core}

theorem Drain.paired {site : DrainSite} {iteration : Nat} {assistant : Option Json} {d : Bool}
    (hdrain : Drain env site iteration assistant c d c') (hplain : ∀ m ∈ assistant, PlainAnswer m)
    (h : c.Paired) : c'.Paired := by
  cases hdrain with
  | nothing => exact h
  | injected injected hsome husers =>
    intro hlog
    refine toolPaired_foldl_appendInjected ?_ husers
    have hpaired := h fun e he => hlog e (List.mem_append_left _ he)
    cases assistant with
    | none =>
      rw [Option.toList_none, List.append_nil]
      exact hpaired
    | some m =>
      obtain ⟨content, reasoning, thinking, rfl⟩ := hplain m rfl
      exact toolPaired_push hpaired (callIds_buildAssistantMessage content [] reasoning thinking)

theorem ToolRun.paired {fatal : Option String} (hrun : ToolRun env spec c fatal c') (h : c.Paired) :
    c'.Paired := by
  cases hrun with
  | run response counts w results _ hanswers =>
    intro hlog
    have hpaired := h fun e he => hlog e (List.mem_append_left _ he)
    have hwhole : response.toolCalls.length ≤
        (executeTools env spec response.toolCalls counts w).1.length := by
      rcases hlog _ (List.mem_append_right _ (List.mem_singleton_self _)) with hnone | hle
      · exact Nat.le_of_eq (length_executeTools hnone).symm
      · exact hle
    refine toolPaired_append hpaired ⟨?_, toolPaired_of_answers hanswers⟩
    rw [callIds_toolCalls]
    intro id hid
    obtain ⟨tc, htc, rfl⟩ := List.mem_map.mp hid
    exact answered_of_answers hanswers hwhole tc htc

theorem FinalExit.paired {c c' : Core} {iteration : Nat} (hexit : FinalExit env iteration c c')
    (h : c.Paired) : c'.Paired := by
  cases hexit with
  | injected assistant hplain hdrain => exact hdrain.paired hplain h
  | modelError d hdrain =>
    exact hdrain.paired nofun fun hlog => toolPaired_appendModelErrorPlaceholder (h hlog)
  | emptyAnswer d hdrain =>
    exact hdrain.paired nofun fun hlog =>
      toolPaired_appendFinalMessage (h hlog) emptyFinalResponseMessage
  | answer m hplain =>
    obtain ⟨content, reasoning, thinking, rfl⟩ := hplain
    exact fun hlog =>
      toolPaired_push (h hlog) (callIds_buildAssistantMessage content [] reasoning thinking)

theorem Core.Paired.log (h : c.Paired) (events : List RunEvent) :
    Core.Paired { c with log := c.log ++ events } :=
  fun hlog => h fun e he => hlog e (List.mem_append_left _ he)

/-- The state an iteration leads to. -/
def Target.core : Target → Core
  | .again c => c
  | .leave c => c
  | .done c => c

theorem Turn.paired {c : Core} {iteration : Nat} {t : Target}
    (hturn : Turn env spec iteration c t) (h : c.Paired) : t.core.Paired := by
  cases hturn with
  | fatalAgain w err htools hdrain =>
    have hpaired : Core.Paired _ := htools.paired (h.log _)
    exact hdrain.paired nofun fun hlog =>
      toolPaired_appendFinalMessage (hpaired hlog) ("Error: " ++ err)
  | fatalLeave w err htools hdrain =>
    have hpaired : Core.Paired _ := htools.paired (h.log _)
    exact hdrain.paired nofun fun hlog =>
      toolPaired_appendFinalMessage (hpaired hlog) ("Error: " ++ err)
  | tools w d htools hdrain => exact hdrain.paired nofun (htools.paired (h.log _))
  | emptyRetry w => exact h.log _
  | lengthRecovery w m hplain =>
    obtain ⟨content, reasoning, thinking, rfl⟩ := hplain
    intro hlog
    have hpaired := toolPaired_push (h.log _ hlog)
      (callIds_buildAssistantMessage content [] reasoning thinking)
    have hboth := toolPaired_push hpaired (callIds_of_user (m := lengthRecoveryMessage) rfl)
    rw [List.append_assoc] at hboth
    exact hboth
  | finalContent w hexit => exact hexit.paired (h.log _)
  | finalization w hexit => exact hexit.paired (h.log _)

/-! ## Runs -/

/-- In a run in which no fatal error stops a batch before its last call, the messages of the
result are paired if the initial ones are. -/
theorem toolPaired_run (env : Env ω) (spec : AgentRunSpec) (w : ω)
    (hinit : ToolPaired spec.initialMessages)
    (hlog : ∀ e ∈ (run env spec w).2.log, e.NotStopped) :
    ToolPaired (run env spec w).1.messages := by
  have hpaired := loop_rule env spec
    (P := fun _ c => c.Paired)
    (Q := fun r c => (∀ e ∈ c.log, e.NotStopped) → ToolPaired r.messages)
    (fun iteration c c' h _ hturn => hturn.paired h)
    (fun iteration c c' r h _ hturn hmessages _ _ hlog => hmessages ▸ hturn.paired h hlog)
    (fun iteration c c' r h _ hturn hmessages _ _ hlog => hmessages ▸ hturn.paired h hlog)
    (fun c d c' r h hdrain hmessages _ _ hlog => hmessages ▸
      hdrain.paired nofun (fun hlog => toolPaired_appendFinalMessage (h hlog) _) hlog)
    w (fun _ => hinit)
  exact hpaired hlog

/-- A model that asks for two tools and then answers; the first tool returns `text`. -/
def callsTwoTools (text : String) : Env Nat :=
  { requestModel := fun requests _ =>
      match requests with
      | 0 => ({ toolCalls := [{ id := "call_1", name := "exec" }, { id := "call_2", name := "grep" }]
                finishReason := "tool_calls" }, 1)
      | n => ({ content := some "Done." }, n + 1)
    chatWithRetry := fun requests _ => ({}, requests)
    executeTool := fun requests name _ =>
      (.str (if name = "exec" then text else "no matches"), requests) }

def twoToolsSpec : AgentRunSpec :=
  { initialMessages := [textMessage "user" "Look it up."], maxIterations := 5
    failOnToolError := true }

-- else the elaborator evaluates the run to see whether `ToolPaired` of it is a function type
attribute [local irreducible] run

theorem toolPaired_run_twoTools :
    ToolPaired (run (callsTwoTools "text") twoToolsSpec 0).1.messages :=
  toolPaired_run (callsTwoTools "text") twoToolsSpec 0 (by decide +kernel) (by decide +kernel)

/-- The first of two tools fails: the second call of the response stays unanswered. -/
theorem fatal_error_leaves_call :
    ToolPaired twoToolsSpec.initialMessages ∧
      (run (callsTwoTools "Error: disk full") twoToolsSpec 0).1.stopReason = "tool_error" ∧
      ¬ ToolPaired (run (callsTwoTools "Error: disk full") twoToolsSpec 0).1.messages := by
  have hview : (run (callsTwoTools "Error: disk full") twoToolsSpec 0).1.messages.map pairingView =
      [textMessage "user" "Look it up.",
        buildAssistantMessage none [.obj [("id", .str "call_1")], .obj [("id", .str "call_2")]]
          none none,
        toolMessage (.str "call_1") "exec" .null,
        textMessage "assistant" "Error: Error: disk full"].map pairingView := by
    decide +kernel
  refine ⟨by decide +kernel, by decide +kernel, ?_⟩
  rw [toolPaired_congr hview]
  decide +kernel

end HiveClaw.Runner
