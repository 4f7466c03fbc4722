import HiveClaw.Runner.Pairing
import HiveClaw.Turns.SaveTurn

/-!
# An interrupted turn is restored once

The checkpoints that `AgentRunner::run` emits around the tool calls of a response, and what
`restore_runtime_checkpoint` makes of one. Whatever part of the turn an interrupted save has
already stored, the session ends with the whole of it: the assistant message, and one answer for
each of its calls (`restoreRuntimeCheckpoint_exact`).

The search for what is already there compares messages by a key without the timestamp. It finds no
more than the stored part as long as the messages before it declare none of the calls: a longer
match would put the assistant message among them.
-/

namespace HiveClaw.Turns

open Providers Sessions Runner

variable {ω : Type}

/-! ## The checkpoints of the runner -/

/-- The payload of a checkpoint of a round with tool calls. -/
def toolCheckpoint (phase : String) (iteration : Nat) (model : String) (assistantMessage : Json)
    (completed pending : List Json) : JsonMap :=
  [("phase", .str phase), ("iteration", .num (.int iteration)), ("model", .str model),
    ("assistant_message", assistantMessage), ("completed_tool_results", .arr completed),
    ("pending_tool_calls", .arr pending)]

/-- A round of the runner with tool calls. The objects of the calls hold each key once, as every
`serde_json::Map` does. -/
structure Round (ω : Type) where
  env : Env ω
  spec : AgentRunSpec
  iteration : Nat
  model : String
  response : LLMResponse
  counts : Counts
  world : ω
  executes : response.shouldExecuteTools = true
  proper : ∀ tc ∈ response.toolCalls, (toOpenaiToolCall env tc).Proper

namespace Round

variable (r : Round ω)

def ids : List String := r.response.toolCalls.map ToolCallRequest.id

-- `tool_calls_json`
def toolCallsJson : List Json := r.response.toolCalls.map (toOpenaiToolCall r.env)

-- `assistant_message`
def assistantMessage : Json :=
  buildAssistantMessage r.response.content r.toolCallsJson r.response.reasoningContent
    r.response.thinkingBlocks

def outcomes : List ToolOutcome :=
  (executeTools r.env r.spec r.response.toolCalls r.counts r.world).1

-- `completed_tool_results`
def completedToolResults : List Json :=
  (toolMessages r.env r.response.toolCalls r.outcomes
    (executeTools r.env r.spec r.response.toolCalls r.counts r.world).2.2).1

/-- The checkpoints of the round: one before its tool calls, and one after them unless a fatal
error ended it. -/
def checkpoints : List JsonMap :=
  toolCheckpoint "awaiting_tools" r.iteration r.model r.assistantMessage [] r.toolCallsJson ::
    if (fatalOf r.outcomes).isSome then []
    else [toolCheckpoint "tools_completed" r.iteration r.model r.assistantMessage
      r.completedToolResults []]

end Round

/-! ## Timestamps -/

/-- A message without its timestamp. -/
def untimed : Json → Json
  | .obj fields => .obj (fields.filter fun f => f.1 ≠ "timestamp")
  | v => v

variable {key : String}

theorem get_untimed (m : Json) (h : key ≠ "timestamp") : (untimed m).get key = m.get key := by
  cases m with
  | obj fields =>
    show List.lookup key (fields.filter fun f => f.1 ≠ "timestamp") = List.lookup key fields
    induction fields with
    | nil => rfl
    | cons f rest ih =>
      obtain ⟨k, v⟩ := f
      rw [List.filter_cons, List.lookup_cons]
      by_cases hk : k = "timestamp"
      · rw [if_neg (by simp [hk]), ih, hk, beq_false_of_ne h]
      · rw [if_pos (by simp [hk]), List.lookup_cons, ih]
  | _ => rfl

theorem filter_insert_self (fields : JsonMap) (key : String) (v : Json) :
    (JsonMap.insert fields key v).filter (fun f => f.1 ≠ key) =
      fields.filter fun f => f.1 ≠ key := by
  induction fields with
  | nil => simp [JsonMap.insert]
  | cons f rest ih =>
    obtain ⟨k, w⟩ := f
    rw [JsonMap.insert]
    split
    · next hk => simp [hk]
    · rw [List.filter_cons, List.filter_cons, ih]

theorem untimed_stamp (now : String) (m : Json) : untimed (stamp now m) = untimed m := by
  cases m with
  | obj fields =>
    rw [stamp]
    split
    · rfl
    · exact congrArg Json.obj (filter_insert_self fields "timestamp" (.str now))
  | _ => rfl

theorem getStr_untimed (m : Json) (h : key ≠ "timestamp") : (untimed m).getStr key = m.getStr key :=
  congrArg (Option.bind · Json.asStr) (get_untimed m h)

theorem messageKey_untimed (m : Json) : messageKey (untimed m) = messageKey m := by
  unfold messageKey
  rw [getStr_untimed m (by decide), getStr_untimed m (by decide), getStr_untimed m (by decide),
    getStr_untimed m (by decide), get_untimed m (by decide), get_untimed m (by decide)]

theorem answers_untimed (m : Json) : answers (untimed m) = answers m := by
  unfold answers Runner.role
  rw [getStr_untimed m (by decide), getStr_untimed m (by decide)]

theorem callIds_untimed (m : Json) : callIds (untimed m) = callIds m := by
  unfold callIds Runner.role
  rw [getStr_untimed m (by decide), get_untimed m (by decide)]

theorem map_zipIdx {α β : Type} {f : Nat → α → β} {g : α → β} (h : ∀ i a, f i a = g a)
    (items : List α) (k : Nat) : (items.zipIdx k).map (fun p => f p.2 p.1) = items.map g := by
  have hfst : (items.zipIdx k).map (g ∘ Prod.fst) = items.map g := by
    rw [← List.map_map, List.zipIdx_map_fst]
  rw [← hfst]
  exact List.map_congr_left fun p _ => h p.2 p.1

/-- The messages of a checkpoint are the same at every reading of the clock. -/
theorem untimed_checkpointMessages (utcNow : Nat → String) (checkpoint : JsonMap) :
    (checkpointMessages utcNow checkpoint).map untimed =
      ((checkpoint.get "assistant_message").toList ++
        ((checkpoint.get "completed_tool_results").bind Json.asArray).getD []).map untimed ++
      (((checkpoint.get "pending_tool_calls").bind Json.asArray).getD []).map fun call =>
        untimed (interruptedResult "" call) := by
  unfold checkpointMessages
  rw [List.map_append, List.map_map, List.map_map]
  congr 1
  · exact map_zipIdx (f := fun i m => untimed (stamp (utcNow i) m))
      (fun i m => untimed_stamp (utcNow i) m) _ 0
  · exact map_zipIdx (f := fun i call => untimed (interruptedResult (utcNow i) call))
      (fun _ _ => rfl) _ _

/-! ## What is restored -/

/-- The messages of a round: the assistant message, then one answer for each of its calls. -/
def Round.Turn (r : Round ω) (messages : List Json) : Prop :=
  ∃ results, messages.map untimed = untimed r.assistantMessage :: results ∧
    results.map answers = r.ids.map some ∧
    ∀ m ∈ results, m.get "tool_calls" = none ∧ m.get "reasoning_content" = none

variable {calls : List ToolCallRequest} {results : List Json}

theorem answers_of_answers {outcomes : List ToolOutcome} (h : Answers calls outcomes results)
    (hall : calls.length ≤ outcomes.length) :
    results.map answers = (calls.map ToolCallRequest.id).map some := by
  induction h with
  | nil calls =>
    rw [List.eq_nil_of_length_eq_zero (Nat.le_zero.mp hall)]
    rfl
  | extra => rfl
  | cons tc outcome content _ ih =>
    rw [List.map_cons, List.map_cons, List.map_cons, ih (Nat.le_of_succ_le_succ hall),
      answers_toolMessage]

theorem plain_of_answers {outcomes : List ToolOutcome} (h : Answers calls outcomes results) :
    ∀ m ∈ results, m.get "tool_calls" = none ∧ m.get "reasoning_content" = none := by
  induction h with
  | nil => exact List.forall_mem_nil _
  | extra => exact List.forall_mem_nil _
  | cons tc outcome content _ ih => exact List.forall_mem_cons.mpr ⟨⟨rfl, rfl⟩, ih⟩

theorem untimed_toolCheckpoint (utcNow : Nat → String) (phase : String) (iteration : Nat)
    (model : String) (assistantMessage : Json) (completed pending : List Json) :
    (checkpointMessages utcNow (toolCheckpoint phase iteration model assistantMessage completed
      pending)).map untimed =
      untimed assistantMessage :: (completed.map untimed ++
        pending.map fun call => untimed (interruptedResult "" call)) :=
  untimed_checkpointMessages utcNow _

theorem turn_of_checkpoint {r : Round ω} {checkpoint : JsonMap} (h : checkpoint ∈ r.checkpoints)
    (utcNow : Nat → String) : r.Turn (checkpointMessages utcNow checkpoint) := by
  unfold Round.Turn
  rcases List.mem_cons.mp h with rfl | hdone
  · refine ⟨_, untimed_toolCheckpoint .., ?_, ?_⟩
    · rw [List.map_nil, List.nil_append, Round.toolCallsJson, Round.ids, List.map_map, List.map_map,
        List.map_map]
      refine List.map_congr_left fun tc _ => ?_
      show answers (untimed (interruptedResult "" (toOpenaiToolCall r.env tc))) = _
      rw [answers_untimed]
      rfl
    · intro m hm
      obtain ⟨call, -, rfl⟩ := List.mem_map.mp hm
      exact ⟨rfl, rfl⟩
  · split at hdone
    · cases hdone
    · next hfatal =>
      obtain rfl := List.mem_singleton.mp hdone
      have hlength : r.outcomes.length = r.response.toolCalls.length :=
        length_executeTools (Option.not_isSome_iff_eq_none.mp hfatal)
      have hanswers : Answers r.response.toolCalls r.outcomes r.completedToolResults :=
        answers_toolMessages ..
      refine ⟨_, untimed_toolCheckpoint .., ?_, ?_⟩
      · rw [List.map_nil, List.append_nil, List.map_map, Round.ids,
          ← answers_of_answers hanswers hlength.ge]
        exact List.map_congr_left fun m _ => answers_untimed m
      · rw [List.map_nil, List.append_nil]
        intro m hm
        obtain ⟨m', hm', rfl⟩ := List.mem_map.mp hm
        obtain ⟨htools, hreasoning⟩ := plain_of_answers hanswers m' hm'
        rw [get_untimed m' (by decide), get_untimed m' (by decide)]
        exact ⟨htools, hreasoning⟩

/-! ## The overlap -/

theorem sameOption_refl {v : Option Json} (h : ∀ w ∈ v, w.Proper) : Json.sameOption v v = true := by
  cases v with
  | none => rfl
  | some w => exact (h w rfl).same

theorem MessageKey.same_refl {k : MessageKey} (htools : ∀ v ∈ k.toolCalls, v.Proper)
    (hreasoning : ∀ v ∈ k.reasoningContent, v.Proper) : k.same k = true := by
  rw [MessageKey.same, sameOption_refl htools, sameOption_refl hreasoning]
  simp

variable {size : Nat}

theorem find_reverse_range {p : Nat → Bool} {n : Nat} (hsize : size ≤ n)
    (h : 0 < size → p size = true) (hmax : ∀ k ≤ n, size < k → p k = false) :
    (((List.range n).reverse.map (· + 1)).find? p).getD 0 = size := by
  induction n with
  | zero => exact (Nat.le_zero.mp hsize).symm
  | succ n ih =>
    rw [List.range_succ, List.reverse_append, List.reverse_singleton, List.singleton_append,
      List.map_cons]
    by_cases hlast : size = n + 1
    · rw [List.find?_cons_of_pos (by rw [← hlast]; exact h (by omega)), Option.getD_some, hlast]
    · have hlarger : ¬ p (n + 1) = true := by
        rw [hmax (n + 1) (Nat.le_refl _) (by omega)]
        decide
      rw [List.find?_cons_of_neg hlarger]
      exact ih (by omega) fun k hk => hmax k (by omega)

/-- The largest overlap is the one found. -/
theorem findMessageOverlap_eq {existing restored : List Json} (hexisting : size ≤ existing.length)
    (hrestored : size ≤ restored.length) (h : 0 < size → overlaps existing restored size = true)
    (hmax : ∀ k ≤ existing.length, k ≤ restored.length → size < k →
      overlaps existing restored k = false) : findMessageOverlap existing restored = size :=
  find_reverse_range (Nat.le_min.mpr ⟨hexisting, hrestored⟩) h fun k hk =>
    hmax k (Nat.le_min.mp hk).1 (Nat.le_min.mp hk).2

theorem all_same_of_map_eq {as bs : List Json} (h : as.map messageKey = bs.map messageKey)
    (hrefl : ∀ m ∈ bs, (messageKey m).same (messageKey m) = true) :
    ((as.zip bs).all fun p => (messageKey p.1).same (messageKey p.2)) = true := by
  induction as generalizing bs with
  | nil => rfl
  | cons a as ih =>
    cases bs with
    | nil => rfl
    | cons b bs =>
      obtain ⟨hhead, htail⟩ := List.cons.inj h
      obtain ⟨hb, hrest⟩ := List.forall_mem_cons.mp hrefl
      rw [List.zip_cons_cons, List.all_cons, ih htail hrest, Bool.and_true]
      show (messageKey a).same (messageKey b) = true
      rw [hhead]
      exact hb

namespace Round

variable {r : Round ω}

theorem toolCalls_ne_nil (r : Round ω) : r.response.toolCalls ≠ [] := by
  intro hnil
  have hcalls := r.executes
  rw [LLMResponse.shouldExecuteTools, LLMResponse.hasToolCalls, hnil] at hcalls
  cases hcalls

theorem get_toolCalls (r : Round ω) :
    r.assistantMessage.get "tool_calls" = some (.arr r.toolCallsJson) := by
  have hne : r.toolCallsJson.isEmpty = false := by
    rw [toolCallsJson, List.isEmpty_map]
    exact List.isEmpty_eq_false_iff.mpr r.toolCalls_ne_nil
  unfold assistantMessage buildAssistantMessage
  rw [hne]
  rfl

theorem get_reasoning (r : Round ω) :
    ∀ v ∈ r.assistantMessage.get "reasoning_content", v.Proper := by
  have hne : r.toolCallsJson.isEmpty = false := by
    rw [toolCallsJson, List.isEmpty_map]
    exact List.isEmpty_eq_false_iff.mpr r.toolCalls_ne_nil
  unfold assistantMessage buildAssistantMessage
  rw [hne]
  intro v hv
  by_cases hreasoning : (r.response.reasoningContent.isSome || r.response.thinkingBlocks.isSome) = true
  · rw [if_pos hreasoning] at hv
    cases hv
    exact .str _
  · rw [if_neg hreasoning] at hv
    by_cases hthinking : (r.response.thinkingBlocks.getD []).isEmpty = true
    · rw [if_pos hthinking] at hv
      cases hv
    · rw [if_neg hthinking] at hv
      cases hv

theorem callIds_assistantMessage (r : Round ω) : callIds r.assistantMessage = r.ids :=
  callIds_toolCalls r.env r.response

theorem proper_toolCallsJson (r : Round ω) : (Json.arr r.toolCallsJson).Proper := by
  refine .arr _ fun v hv => ?_
  obtain ⟨tc, htc, rfl⟩ := List.mem_map.mp hv
  exact r.proper tc htc

/-- The keys of the messages of a round are comparable. -/
theorem Turn.same_refl {messages : List Json} (h : r.Turn messages) :
    ∀ m ∈ messages, (messageKey m).same (messageKey m) = true := by
  obtain ⟨results, hmessages, -, hplain⟩ := h
  intro m hm
  have hmem : untimed m ∈ untimed r.assistantMessage :: results := by
    rw [← hmessages]
    exact List.mem_map_of_mem hm
  rw [← messageKey_untimed]
  rcases List.mem_cons.mp hmem with hassistant | hresult
  · rw [hassistant, messageKey_untimed]
    refine MessageKey.same_refl ?_ r.get_reasoning
    intro v hv
    cases r.get_toolCalls.symm.trans hv
    exact r.proper_toolCallsJson
  · obtain ⟨htools, hreasoning⟩ := hplain _ hresult
    refine MessageKey.same_refl ?_ ?_
    · intro v hv
      cases htools.symm.trans hv
    · intro v hv
      cases hreasoning.symm.trans hv

theorem filterMap_id_of_same {env : Env ω} {items : List Json} {calls : List ToolCallRequest}
    (h : List.Forall₂ (fun a b => Json.same a b = true) items (calls.map (toOpenaiToolCall env))) :
    items.filterMap (fun tc => tc.getStr "id") = calls.map ToolCallRequest.id := by
  induction calls generalizing items with
  | nil =>
    cases h
    rfl
  | cons tc calls ih =>
    cases h with
    | cons hhead htail =>
      have hid : Json.getStr _ "id" = some tc.id := Json.getStr_of_same hhead rfl
      rw [List.filterMap_cons, hid, ih htail]
      rfl

theorem callIds_of_same {m first : Json} (hfirst : untimed first = untimed r.assistantMessage)
    (h : (messageKey m).same (messageKey first) = true) : callIds m = r.ids := by
  rw [← messageKey_untimed first, hfirst, messageKey_untimed, MessageKey.same] at h
  simp only [Bool.and_eq_true, decide_eq_true_eq] at h
  obtain ⟨⟨⟨⟨⟨hrole, -⟩, -⟩, -⟩, htools⟩, -⟩ := h
  have hassistant : Runner.role m = some "assistant" := hrole
  have hcalls : Json.sameOption (m.get "tool_calls") (r.assistantMessage.get "tool_calls") = true :=
    htools
  rw [callIds, if_pos hassistant]
  rw [r.get_toolCalls] at hcalls
  cases hm : m.get "tool_calls" with
  | none =>
    rw [hm] at hcalls
    cases hcalls
  | some v =>
    rw [hm] at hcalls
    cases v with
    | arr items => exact filterMap_id_of_same (Json.forall₂_of_sameItems hcalls)
    | _ => cases hcalls

theorem findMessageOverlap_stored {stored restored before : List Json} (hturn : r.Turn restored)
    (hstored : stored.map untimed <+: restored.map untimed)
    (hbefore : ∀ m ∈ before, ∀ id ∈ callIds m, id ∉ r.ids) :
    findMessageOverlap (before ++ stored) restored = stored.length := by
  have hlength : stored.length ≤ restored.length := by
    have hle := hstored.length_le
    rwa [List.length_map, List.length_map] at hle
  refine findMessageOverlap_eq ?_ hlength (fun _ => ?_) fun k hk _ hlonger => ?_
  · rw [List.length_append]
    omega
  · have hkeys : stored.map messageKey = (restored.take stored.length).map messageKey := by
      have huntimed : stored.map untimed = (restored.take stored.length).map untimed := by
        rw [List.map_take]
        have htake := List.prefix_iff_eq_take.mp hstored
        rwa [List.length_map] at htake
      have hkey : messageKey ∘ untimed = messageKey := funext messageKey_untimed
      rw [← hkey, ← List.map_map, huntimed, List.map_map]
    unfold overlaps
    rw [List.length_append, Nat.add_sub_cancel, List.drop_left]
    exact all_same_of_map_eq hkeys fun m hm => hturn.same_refl m (List.mem_of_mem_take hm)
  · -- a longer match has the assistant message among the messages before
    obtain ⟨results, hrestored, -⟩ := hturn
    cases restored with
    | nil => cases hrestored
    | cons first rest =>
      have hfirst := (List.cons.inj hrestored).1
      rw [List.length_append] at hk
      have hdrop : before.length + stored.length - k < before.length := by omega
      obtain ⟨m, tail, htail⟩ := List.exists_cons_of_ne_nil
        (List.ne_nil_of_length_pos (by rw [List.length_drop]; omega) :
          before.drop (before.length + stored.length - k) ≠ [])
      have hm : m ∈ before := List.mem_of_mem_drop (htail ▸ List.mem_cons_self)
      obtain ⟨j, rfl⟩ : ∃ j, k = j + 1 := ⟨k - 1, by omega⟩
      unfold overlaps
      rw [List.length_append, List.drop_append_of_le_length hdrop.le, htail, List.cons_append,
        List.take_succ_cons, List.zip_cons_cons, List.all_cons, Bool.and_eq_false_iff]
      refine .inl (Bool.eq_false_iff.mpr fun hsame => ?_)
      have hids := callIds_of_same hfirst hsame
      obtain ⟨tc, calls, hcalls⟩ := List.exists_cons_of_ne_nil r.toolCalls_ne_nil
      have htc : tc.id ∈ r.ids := by
        rw [ids, hcalls]
        exact List.mem_cons_self
      exact hbefore m hm tc.id (hids ▸ htc) htc

end Round

/-- From a checkpoint of a round and any part of the round that is stored already, the session ends
with its earlier messages and the whole round: the assistant message and one answer for each of its
calls. The marks are gone. -/
theorem restoreRuntimeCheckpoint_exact (r : Round ω) (utcNow : Nat → String) {checkpoint : JsonMap}
    (hcheckpoint : checkpoint ∈ r.checkpoints) {session : Session Json} {before stored : List Json}
    (hmark : session.metadata.lookup runtimeCheckpointKey = some (.obj checkpoint))
    (hmessages : session.messages = before ++ stored)
    (hbefore : ∀ m ∈ before, ∀ id ∈ callIds m, id ∉ r.ids)
    (hstored : stored.map untimed <+: (checkpointMessages utcNow checkpoint).map untimed) :
    ∃ session' first results, restoreRuntimeCheckpoint utcNow session = some session' ∧
      session'.messages = before ++ first :: results ∧
      (first :: results).map untimed = (checkpointMessages utcNow checkpoint).map untimed ∧
      callIds first = r.ids ∧ results.map answers = r.ids.map some ∧
      session'.metadata.lookup runtimeCheckpointKey = none ∧
      session'.metadata.lookup pendingUserTurnKey = none := by
  have hturn := turn_of_checkpoint hcheckpoint utcNow
  have hoverlap := Round.findMessageOverlap_stored hturn hstored hbefore
  have hround : (stored ++ (checkpointMessages utcNow checkpoint).drop stored.length).map untimed =
      (checkpointMessages utcNow checkpoint).map untimed := by
    have htake := List.prefix_iff_eq_take.mp hstored
    rw [List.length_map] at htake
    rw [List.map_append, List.map_drop, htake]
    exact List.take_append_drop ..
  obtain ⟨answered, hanswered, hids, -⟩ := hturn
  obtain ⟨first, results, hwhole, hfirst, hresults⟩ :=
    List.map_eq_cons_iff.mp (hround.trans hanswered)
  rw [hwhole] at hround
  have hrestore : restoreRuntimeCheckpoint utcNow session =
      some (clearRuntimeCheckpoint (clearPendingUserTurn { session with
        messages := session.messages ++ (checkpointMessages utcNow checkpoint).drop
          (findMessageOverlap session.messages (checkpointMessages utcNow checkpoint)) })) := by
    rw [restoreRuntimeCheckpoint, hmark]
  refine ⟨_, first, results, hrestore, ?_, hround, ?_, ?_, ?_, ?_⟩
  · show session.messages ++ _ = _
    rw [hmessages, hoverlap, List.append_assoc, hwhole]
  · rw [← callIds_untimed, hfirst, callIds_untimed, r.callIds_assistantMessage]
  · have hanswers : answers ∘ untimed = answers := funext answers_untimed
    rw [← hids, ← hresults, List.map_map, hanswers]
  · exact AList.lookup_erase ..
  · show (AList.erase _ (AList.erase _ session.metadata)).lookup pendingUserTurnKey = none
    rw [AList.lookup_erase_ne (by decide), AList.lookup_erase]

theorem proper_toOpenaiToolCall (env : Env ω) (id name : String) :
    (toOpenaiToolCall env { id, name }).Proper := by
  refine .obj _ (show ["id", "type", "function"].Nodup by decide) ?_
  have hfunction :
      (Json.obj [("name", .str name), ("arguments", .str (env.toJson (.obj [])))]).Proper :=
    .obj _ (show ["name", "arguments"].Nodup by decide) (List.forall_mem_cons.mpr
      ⟨.str _, List.forall_mem_cons.mpr ⟨.str _, List.forall_mem_nil _⟩⟩)
  exact List.forall_mem_cons.mpr ⟨.str _, List.forall_mem_cons.mpr ⟨.str _,
    List.forall_mem_cons.mpr ⟨hfunction, List.forall_mem_nil _⟩⟩⟩

def twoCalls : Round Nat where
  env := callsTwoTools "text"
  spec := twoToolsSpec
  iteration := 0
  model := "gpt-4"
  response :=
    { toolCalls := [{ id := "call_1", name := "exec" }, { id := "call_2", name := "grep" }]
      finishReason := "tool_calls" }
  counts := {}
  world := 0
  executes := by decide
  proper := List.forall_mem_cons.mpr ⟨proper_toOpenaiToolCall .., List.forall_mem_cons.mpr
    ⟨proper_toOpenaiToolCall .., List.forall_mem_nil _⟩⟩

def awaitingTwoCalls : JsonMap :=
  toolCheckpoint "awaiting_tools" 0 "gpt-4" twoCalls.assistantMessage [] twoCalls.toolCallsJson

/-- An earlier save stored the assistant message and the first answer. -/
def savedOneAnswer : Session Json :=
  { key := "cli:direct"
    messages := [textMessage "user" "Look it up."] ++
      (checkpointMessages (fun _ => "10:00") awaitingTwoCalls).take 2
    createdAt := 0
    updatedAt := 0
    metadata := AList.insert runtimeCheckpointKey (.obj awaitingTwoCalls) ∅ }

theorem restoreRuntimeCheckpoint_savedOneAnswer :
    ∃ session' first results,
      restoreRuntimeCheckpoint (fun _ => "11:00") savedOneAnswer = some session' ∧
      session'.messages = [textMessage "user" "Look it up."] ++ first :: results ∧
      (first :: results).map untimed =
        (checkpointMessages (fun _ => "11:00") awaitingTwoCalls).map untimed ∧
      callIds first = twoCalls.ids ∧ results.map answers = twoCalls.ids.map some ∧
      session'.metadata.lookup runtimeCheckpointKey = none ∧
      session'.metadata.lookup pendingUserTurnKey = none := by
  have hcheckpoint : awaitingTwoCalls ∈ twoCalls.checkpoints := List.mem_cons_self
  refine restoreRuntimeCheckpoint_exact twoCalls (fun _ => "11:00") hcheckpoint
    (AList.lookup_insert _) rfl ?_ ?_
  · intro m hm
    rw [List.mem_singleton.mp hm]
    exact List.forall_mem_nil _
  · rw [List.map_take, untimed_checkpointMessages, untimed_checkpointMessages]
    exact List.take_prefix ..

end HiveClaw.Turns
