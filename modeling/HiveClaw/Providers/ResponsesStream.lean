import HiveClaw.Providers.Responses

/-!
# A streamed response and the complete one

The output of a response is a list of message items and function call items
(`OutputItem`), a stream for it a list of events (`Event`) in which those of
several calls may be interleaved. An event about arguments carries the call id,
or the item id only; the loops look at the call id.

* `Effect` — an event changes the buffer of its own call only.
* `agree_iff` — when that gives what `parse_response_output` makes of the
  complete response.
-/

namespace HiveClaw.Providers.Responses

/-! ## Outputs and their streams -/

/-- A function call item, with its call id and its arguments. -/
structure Call where
  item : Json
  callId : String
  arguments : String
  type_eq : item.getStr "type" = some "function_call"
  callId_eq : item.getStr "call_id" = some callId
  arguments_eq : item.getStr "arguments" = some arguments
  nonempty : arguments ≠ ""

namespace Call

def itemId (call : Call) : String := (call.item.getStr "id").getD "fc_0"

def name (call : Call) : String := (call.item.getStr "name").getD ""

def id (call : Call) : String := call.callId ++ "|" ++ call.itemId

def buffer (call : Call) (arguments : String) : CallBuffer where
  id := call.itemId
  name := call.name
  arguments := arguments

end Call

inductive OutputItem where
  | message (item : Json) (type_eq : item.getStr "type" = some "message")
  | functionCall (call : Call)

namespace OutputItem

def json : OutputItem → Json
  | .message item _ => item
  | .functionCall call => call.item

def texts : OutputItem → List String
  | .message item _ => outputTexts item
  | .functionCall _ => []

def call? : OutputItem → Option Call
  | .message _ _ => none
  | .functionCall call => some call

end OutputItem

/-- What happens in a stream. `byCallId` tells whether an event about arguments carries the call
id. -/
inductive Event where
  | textDelta (piece : String)
  | added (call : Call)
  | argumentsDelta (call : Call) (byCallId : Bool) (piece : String)
  | argumentsDone (call : Call) (byCallId : Bool) (arguments : String)
  | itemDone (call : Call)
  | completed
  | other

namespace Event

/-- The call that the event is about. -/
def call? : Event → Option Call
  | .added call | .argumentsDelta call _ _ | .argumentsDone call _ _ | .itemDone call => some call
  | .textDelta _ | .completed | .other => none

/-- The event is about the call with that id. -/
def isAbout (callId : String) (e : Event) : Bool := e.call?.any fun call => call.callId = callId

/-- The text that the event adds to the content. -/
def piece : Event → String
  | .textDelta piece => piece
  | _ => ""

def closed? : Event → Option Call
  | .itemDone call => some call
  | _ => none

/-- The event brings the complete arguments. -/
def isArgumentsDone : Event → Bool
  | .argumentsDone _ _ _ => true
  | _ => false

def isArguments : Event → Bool
  | .argumentsDelta _ _ _ => true
  | .argumentsDone _ _ _ => true
  | _ => false

end Event

/-- The JSON event names the call, by its call id or by its item id only. -/
def Identifies (event : Json) (call : Call) : Bool → Prop
  | true => event.getStr "call_id" = some call.callId
  | false => event.get "call_id" = none ∧ event.getStr "item_id" = some call.itemId

/-- The item announces the call: it has its ids and its name, and no arguments yet. -/
structure Announces (item : Json) (call : Call) : Prop where
  type_eq : item.getStr "type" = some "function_call"
  callId_eq : item.getStr "call_id" = some call.callId
  id_eq : item.getStr "id" = call.item.getStr "id"
  name_eq : item.getStr "name" = call.item.getStr "name"
  arguments_eq : item.getStr "arguments" = some ""

/-- The JSON event that an event of the stream of a response is sent as. -/
def SentAs (response : Json) (e : Event) (event : Json) : Prop :=
  match e with
  | .textDelta piece => kindOf event = .textDelta ∧ event.getStr "delta" = some piece
  | .added call => kindOf event = .itemAdded ∧ ∃ item, event.get "item" = some item ∧
      Announces item call
  | .argumentsDelta call byCallId piece => kindOf event = .argumentsDelta ∧
      Identifies event call byCallId ∧ event.getStr "delta" = some piece
  | .argumentsDone call byCallId arguments => kindOf event = .argumentsDone ∧
      Identifies event call byCallId ∧ event.getStr "arguments" = some arguments
  | .itemDone call => kindOf event = .itemDone ∧ event.get "item" = some call.item
  | .completed => kindOf event = .completed ∧
      ((event.get "response").bind fun r => r.getStr "status") = response.getStr "status"
  | .other => kindOf event = .other ∨
      (kindOf event = .itemAdded ∨ kindOf event = .itemDone) ∧ functionCall event = none

def callsOf (output : List OutputItem) : List Call := output.filterMap OutputItem.call?

/-- The calls in the order in which a stream closes them. -/
def closedCalls (stream : List Event) : List Call := stream.filterMap Event.closed?

/-- A stream for an output: its text deltas give the text, each call is announced, may get its
arguments, and is closed, and the response is completed. -/
structure StreamFor (output : List OutputItem) (stream : List Event) : Prop where
  text : String.join (stream.map Event.piece) = String.join (output.flatMap OutputItem.texts)
  known : ∀ e ∈ stream, ∀ call, e.call? = some call → call ∈ callsOf output
  phases : ∀ call ∈ callsOf output, ∃ between,
    stream.filter (·.isAbout call.callId) = .added call :: (between ++ [.itemDone call]) ∧
      (∀ e ∈ between, e.isArguments) ∧ between.countP Event.isArgumentsDone ≤ 1
  completed : .completed ∈ stream

/-- The response has that output, and its calls have distinct ids. -/
structure HasOutput (response : Json) (output : List OutputItem) : Prop where
  output_eq : response.get "output" = some (.arr (output.map OutputItem.json))
  distinct : ((callsOf output).map Call.callId).Nodup

/-! ## When both agree -/

variable (c : Codec)

/-- Both loops return what `parse_response_output` makes of the response. -/
def Agree (response : Json) (events : List Json) : Prop :=
  ∃ r, parseResponseOutput c response = some r ∧
    consumeEvents c events = .ok (r.content.getD "", r.toolCalls, r.finishReason) ∧
    ∃ s, consumeSdkStream c events = some s ∧ s.content = r.content.getD "" ∧
      s.toolCalls = r.toolCalls ∧ s.finishReason = r.finishReason

/-- What an event with a call id does to the text of its arguments. -/
def assemble (callId text : String) : Event → String
  | .argumentsDelta call true piece => if call.callId = callId then text ++ piece else text
  | .argumentsDone call true arguments => if call.callId = callId then arguments else text
  | _ => text

/-- The arguments of a call as the events with its call id tell them: each delta is appended, the
complete arguments replace what is there, and `{}` stands for nothing. -/
def streamedText (stream : List Event) (callId : String) : String :=
  let text := stream.foldl (assemble callId) ""
  if text = "" then "{}" else text

/-- The arguments that a text stands for. -/
def Codec.argumentsOf (s : String) : JsonMap := (c.parseObject s).getD [("raw", .str s)]

/-- The text can be shown in a warning, where there is one: byte 200 is not inside a character. -/
def Codec.Previewable (s : String) : Prop :=
  c.warns = true → c.parseObject s = none → Lib.IsCharBoundary s.toList (min s.utf8ByteSize 200)

/-- The call that is closed and the one at its place in the output become the same tool call. -/
structure SameCall (stream : List Event) (closed call : Call) : Prop where
  id : closed.id = call.id
  name : closed.name = call.name
  arguments : c.argumentsOf (streamedText stream closed.callId) = c.argumentsOf call.arguments
  streamed : c.Previewable (streamedText stream closed.callId)
  own : c.Previewable call.arguments

variable {s : String}

theorem Codec.decodeArguments_eq_some_iff {arguments : JsonMap} :
    c.decodeArguments s = some arguments ↔ c.Previewable s ∧ c.argumentsOf s = arguments := by
  unfold Codec.decodeArguments Codec.Previewable Codec.argumentsOf
  cases hparse : c.parseObject s with
  | some fields => simp
  | none =>
    have hshown : preview s ≠ none ↔ Lib.IsCharBoundary s.toList (min s.utf8ByteSize 200) := by
      rw [← Lib.isSome_takeBytes_iff, Option.isSome_iff_ne_none]
      rfl
    dsimp only
    rw [← hshown, Option.getD_none]
    by_cases hpanic : c.warns = true ∧ preview s = none
    · rw [if_pos hpanic]
      exact ⟨nofun, fun h => absurd hpanic.2 (h.1 hpanic.1 rfl)⟩
    · rw [if_neg hpanic, Option.some.injEq]
      exact ⟨fun h => ⟨fun hwarns _ hnone => hpanic ⟨hwarns, hnone⟩, h⟩, fun h => h.2⟩

/-! ## One event -/

/-- What an event about a call makes of its buffer. -/
def bufferOf (callId : String) (buf : Option CallBuffer) : Event → Option CallBuffer
  | .added call => some (call.buffer "")
  | .itemDone _ => none
  | e => buf.map fun buf => { buf with arguments := assemble callId buf.arguments e }

/-- What an event makes of the buffer of the call with that id. -/
def bufferAfter (callId : String) (buf : Option CallBuffer) (e : Event) : Option CallBuffer :=
  if e.isAbout callId then bufferOf callId buf e else buf

variable {e : Event}

theorem bufferAfter_eq {call : Call} (h : e.call? = some call) (callId : String)
    (buf : Option CallBuffer) :
    bufferAfter callId buf e = if call.callId = callId then bufferOf callId buf e else buf := by
  have habout : e.isAbout callId = true ↔ call.callId = callId := by
    unfold Event.isAbout
    rw [h, Option.any_some, decide_eq_true_eq]
  unfold bufferAfter
  simp only [habout]

/-- The finish reason behind an event. -/
def finishAfter (response : Json) (finishReason : String) : Event → String
  | .completed => mapFinishReason (response.getStr "status")
  | _ => finishReason

/-- What an event changes, apart from the tool calls. -/
structure Effect (response : Json) (e : Event) (a a' : Acc) : Prop where
  content : a'.content = a.content ++ e.piece
  finishReason : a'.finishReason = finishAfter response a.finishReason e
  buffers : ∀ k, a'.toolCallBuffers.lookup k = bufferAfter k (a.toolCallBuffers.lookup k) e

theorem functionCall_eq {event item : Json} {callId : String} (h : event.get "item" = some item)
    (htype : item.getStr "type" = some "function_call")
    (hid : item.getStr "call_id" = some callId) : functionCall event = some (callId, item) := by
  unfold functionCall
  rw [h, Option.bind_some, if_pos htype, hid, Option.map_some]

variable {response : Json}

theorem Acc.effect_amend {event : Json} {call : Call} {byCallId : Bool} {change : String → String}
    (a : Acc) (hid : Identifies event call byCallId) (hcall : e.call? = some call)
    (hargs : e.isArguments = true)
    (hchange : ∀ text, assemble call.callId text e = if byCallId then change text else text) :
    Effect response e a (a.amend event change) ∧
      (a.amend event change).toolCalls = a.toolCalls := by
  have hof : ∀ k buf, bufferOf k buf e =
      buf.map fun buf => { buf with arguments := assemble k buf.arguments e } := by
    intro k buf
    cases e with
    | argumentsDelta _ _ _ => rfl
    | argumentsDone _ _ _ => rfl
    | _ => cases hargs
  have hpiece : e.piece = "" ∧
      ∀ finishReason, finishAfter response finishReason e = finishReason := by
    cases e with
    | argumentsDelta _ _ _ => exact ⟨rfl, fun _ => rfl⟩
    | argumentsDone _ _ _ => exact ⟨rfl, fun _ => rfl⟩
    | _ => cases hargs
  cases byCallId with
  | false =>
    -- the call id is missing, so no buffer is found
    have hnone : a.buffer event = none := by
      unfold Acc.buffer Json.getStr
      rw [hid.1, Option.bind_none, Option.bind_none]
    have hsame : a.amend event change = a := by
      unfold Acc.amend
      rw [hnone]
    rw [hsame]
    refine ⟨⟨by rw [hpiece.1, String.append_empty], (hpiece.2 _).symm, fun k => ?_⟩, rfl⟩
    rw [bufferAfter_eq hcall, hof]
    split
    · next hk =>
      subst hk
      cases a.toolCallBuffers.lookup call.callId with
      | none => rfl
      | some buf =>
        rw [Option.map_some, hchange]
        rfl
    · rfl
  | true =>
    have hbuffer : a.buffer event =
        (a.toolCallBuffers.lookup call.callId).map fun buf => (call.callId, buf) := by
      unfold Acc.buffer
      rw [show event.getStr "call_id" = some call.callId from hid, Option.bind_some]
    unfold Acc.amend
    rw [hbuffer]
    cases hlookup : a.toolCallBuffers.lookup call.callId with
    | none =>
      refine ⟨⟨by rw [hpiece.1, String.append_empty]; rfl, (hpiece.2 _).symm, fun k => ?_⟩, rfl⟩
      show a.toolCallBuffers.lookup k = _
      rw [bufferAfter_eq hcall, hof]
      by_cases hk : call.callId = k
      · rw [if_pos hk, ← hk, hlookup, Option.map_none]
      · rw [if_neg hk]
    | some buf =>
      refine ⟨⟨by rw [hpiece.1, String.append_empty]; rfl, (hpiece.2 _).symm, fun k => ?_⟩, rfl⟩
      show (a.toolCallBuffers.insert _ _).lookup k = _
      rw [HashMap.lookup_insert_ite, bufferAfter_eq hcall, hof]
      by_cases hk : call.callId = k
      · subst hk
        rw [if_pos rfl, if_pos rfl, hlookup, Option.map_some, hchange, if_pos rfl]
      · rw [if_neg (Ne.symm hk), if_neg hk]

theorem Acc.event_of_open {event : Json} (a : Acc) (h : SentAs response e event)
    (hopen : e.closed? = none) :
    ∃ a', a.event c event = some a' ∧ Effect response e a a' ∧ a'.toolCalls = a.toolCalls := by
  unfold Acc.event
  cases e with
  | textDelta piece =>
    rw [h.1]
    exact ⟨_, rfl, ⟨by rw [h.2]; rfl, rfl, fun _ => rfl⟩, rfl⟩
  | added call =>
    obtain ⟨hkind, item, hitem, hannounced⟩ := h
    rw [hkind]
    refine ⟨_, rfl, ?_⟩
    unfold Acc.itemAdded
    rw [functionCall_eq hitem hannounced.type_eq hannounced.callId_eq]
    refine ⟨⟨(String.append_empty).symm, rfl, fun k => ?_⟩, rfl⟩
    show (a.toolCallBuffers.insert _ _).lookup k = _
    have hbuf : CallBuffer.ofItem item "" = call.buffer "" := by
      unfold CallBuffer.ofItem Call.buffer Call.itemId Call.name
      rw [hannounced.id_eq, hannounced.name_eq, hannounced.arguments_eq]
      rfl
    rw [HashMap.lookup_insert_ite, hbuf, bufferAfter_eq rfl]
    simp only [eq_comm, bufferOf]
  | argumentsDelta call byCallId piece =>
    rw [h.1]
    refine ⟨_, rfl, a.effect_amend h.2.1 rfl rfl fun text => ?_⟩
    rw [h.2.2]
    cases byCallId with
    | true => exact if_pos rfl
    | false => rfl
  | argumentsDone call byCallId arguments =>
    rw [h.1]
    refine ⟨_, rfl, a.effect_amend h.2.1 rfl rfl fun text => ?_⟩
    rw [h.2.2]
    cases byCallId with
    | true => exact if_pos rfl
    | false => rfl
  | itemDone call => cases hopen
  | completed =>
    rw [h.1]
    refine ⟨_, rfl, ⟨(String.append_empty).symm, ?_, fun _ => rfl⟩, rfl⟩
    exact congrArg mapFinishReason h.2
  | other =>
    have hsame : ∃ a', a.event c event = some a' ∧ a' = a := by
      unfold Acc.event
      rcases h with hkind | ⟨hkind | hkind, hnone⟩
      · rw [hkind]
        exact ⟨_, rfl, rfl⟩
      · rw [hkind]
        refine ⟨_, rfl, ?_⟩
        unfold Acc.itemAdded
        rw [hnone]
      · rw [hkind]
        dsimp only
        unfold Acc.itemDone
        rw [hnone]
        exact ⟨_, rfl, rfl⟩
    obtain ⟨a', hevent, rfl⟩ := hsame
    exact ⟨a', hevent, ⟨(String.append_empty).symm, rfl, fun _ => rfl⟩, rfl⟩

theorem Acc.event_of_itemDone {event : Json} {call : Call} (a : Acc)
    (h : SentAs response (.itemDone call) event) {buf : CallBuffer}
    (hbuf : a.toolCallBuffers.lookup call.callId = some buf) :
    a.event c event =
      (c.decodeArguments (if buf.arguments = "" then "{}" else buf.arguments)).map
        (a.close call.callId buf) := by
  unfold Acc.event
  rw [h.1]
  dsimp only
  unfold Acc.itemDone
  rw [functionCall_eq h.2 call.type_eq call.callId_eq]
  dsimp only
  rw [hbuf, Option.getD_some]

theorem Acc.effect_close (response : Json) (call : Call) (a : Acc) (buf : CallBuffer)
    (args : JsonMap) : Effect response (.itemDone call) a (a.close call.callId buf args) := by
  refine ⟨(String.append_empty).symm, rfl, fun k => ?_⟩
  show (a.toolCallBuffers.erase call.callId).lookup k = _
  rw [bufferAfter_eq rfl]
  by_cases hk : call.callId = k
  · subst hk
    rw [if_pos rfl, AList.lookup_erase]
    rfl
  · rw [if_neg hk, AList.lookup_erase_ne (Ne.symm hk)]

/-! ## A whole stream -/

/-- The variables after the events of `before`. -/
structure Reached (response : Json) (before : List Event) (a : Acc) : Prop where
  content : a.content = String.join (before.map Event.piece)
  finishReason : a.finishReason = before.foldl (finishAfter response) "stop"
  buffers : ∀ k, a.toolCallBuffers.lookup k = before.foldl (bufferAfter k) none

variable {before : List Event} {a : Acc}

theorem Reached.concat {a' : Acc} (h : Reached response before a)
    (heffect : Effect response e a a') :
    Reached response (before ++ [e]) a' where
  content := by
    rw [heffect.content, h.content, List.map_append, String.join_append]
    rw [List.map_singleton, String.join_cons, String.join_nil, String.append_empty]
  finishReason := by
    rw [heffect.finishReason, h.finishReason, List.foldl_concat]
  buffers k := by
    rw [heffect.buffers, h.buffers, List.foldl_concat]

theorem foldl_bufferAfter_filter (callId : String) (stream : List Event) (buf : Option CallBuffer) :
    stream.foldl (bufferAfter callId) buf =
      (stream.filter (·.isAbout callId)).foldl (bufferOf callId) buf := by
  induction stream generalizing buf with
  | nil => rfl
  | cons e rest ih =>
    rw [List.foldl_cons, ih, List.filter_cons]
    unfold bufferAfter
    split
    · rw [List.foldl_cons]
    · rfl

theorem foldl_assemble_filter (callId : String) (stream : List Event) (text : String) :
    stream.foldl (assemble callId) text =
      (stream.filter (·.isAbout callId)).foldl (assemble callId) text := by
  induction stream generalizing text with
  | nil => rfl
  | cons e rest ih =>
    rw [List.foldl_cons, ih, List.filter_cons]
    split
    · rw [List.foldl_cons]
    · next hother =>
      have hsame : assemble callId text e = text := by
        unfold assemble
        unfold Event.isAbout at hother
        split
        · exact if_neg (by simpa [Event.call?] using hother)
        · exact if_neg (by simpa [Event.call?] using hother)
        · rfl
      rw [hsame]

theorem foldl_bufferOf {between : List Event} (h : ∀ e ∈ between, e.isArguments = true)
    (callId : String) (buf : CallBuffer) :
    between.foldl (bufferOf callId) (some buf) =
      some { buf with arguments := between.foldl (assemble callId) buf.arguments } := by
  induction between generalizing buf with
  | nil => rfl
  | cons e rest ih =>
    have hof : bufferOf callId (some buf) e =
        some { buf with arguments := assemble callId buf.arguments e } := by
      have hargs := h e List.mem_cons_self
      cases e with
      | argumentsDelta _ _ _ => rfl
      | argumentsDone _ _ _ => rfl
      | _ => cases hargs
    rw [List.foldl_cons, hof, ih fun e' he' => h e' (List.mem_cons_of_mem _ he')]
    rfl

variable {α : Type}

theorem eq_of_append_cons_eq {x : α} {front rest start : List α}
    (h : front ++ x :: rest = start ++ [x]) (hx : x ∉ start) : front = start := by
  rcases List.eq_nil_or_concat rest with rfl | ⟨init, last, rfl⟩
  · exact List.append_cancel_right h
  · rw [List.concat_eq_append, ← List.cons_append, ← List.append_assoc] at h
    have hinit : front ++ x :: init = start := (List.append_inj' h rfl).1
    exact absurd (hinit ▸ List.mem_append_right _ List.mem_cons_self) hx

variable {output : List OutputItem} {after stream : List Event}

theorem StreamFor.buffer_of_closed {call : Call} (h : StreamFor output stream)
    (hstream : stream = before ++ .itemDone call :: after) :
    before.foldl (bufferAfter call.callId) none =
      some (call.buffer (stream.foldl (assemble call.callId) "")) := by
  have hknown : call ∈ callsOf output :=
    h.known (.itemDone call) (by rw [hstream]; simp) call rfl
  obtain ⟨between, hphases, hargs, -⟩ := h.phases call hknown
  have habout : (Event.itemDone call).isAbout call.callId = true := by
    simp [Event.isAbout, Event.call?]
  have hbefore : before.filter (·.isAbout call.callId) = .added call :: between := by
    have hsplit : before.filter (·.isAbout call.callId) ++
        Event.itemDone call :: after.filter (·.isAbout call.callId) =
          (.added call :: between) ++ [.itemDone call] := by
      rw [List.cons_append, ← hphases, hstream, List.filter_append, List.filter_cons, if_pos habout]
    refine eq_of_append_cons_eq hsplit ?_
    rw [List.mem_cons]
    rintro (heq | hmem)
    · cases heq
    · cases hargs _ hmem
  rw [foldl_bufferAfter_filter, hbefore, List.foldl_cons]
  show between.foldl _ (some (call.buffer "")) = _
  rw [foldl_bufferOf hargs, foldl_assemble_filter call.callId stream, hphases, List.foldl_cons,
    List.foldl_append]
  rfl

/-- The tool call that the loops make of a call. -/
def streamedCall (stream : List Event) (call : Call) : Option ToolCallRequest :=
  (c.decodeArguments (streamedText stream call.callId)).map
    (toolCall call.callId call.itemId call.name)

/-- What is returned of the variables. -/
def Acc.result (a : Acc) : String × List ToolCallRequest × String :=
  (a.content, a.toolCalls, a.finishReason)

variable {events : List Json}

/-- The loops make one tool call of each closed item, from the text that the events with its call id
assemble. -/
theorem run_after (h : StreamFor output stream)
    (hsent : List.Forall₂ (SentAs response) after events) (hstream : stream = before ++ after)
    (hreached : Reached response before a) :
    (events.foldlM (Acc.event c) a).map Acc.result =
      ((closedCalls after).mapM (streamedCall c stream)).map fun calls =>
        (String.join (stream.map Event.piece), a.toolCalls ++ calls,
          stream.foldl (finishAfter response) "stop") := by
  induction hsent generalizing before a with
  | nil =>
    rw [List.append_nil] at hstream
    show some (a.content, a.toolCalls, a.finishReason) = some (_, a.toolCalls ++ [], _)
    rw [hreached.content, hreached.finishReason, hstream, List.append_nil]
  | @cons e event after events hevent _ ih =>
    have hnext : stream = (before ++ [e]) ++ after := by
      rw [hstream, List.append_assoc, List.singleton_append]
    rw [List.foldlM_cons]
    by_cases hopen : e.closed? = none
    · obtain ⟨a', hrun, heffect, hcalls⟩ := a.event_of_open c hevent hopen
      have hclosed : closedCalls (e :: after) = closedCalls after :=
        List.filterMap_cons_none hopen
      rw [hrun, hclosed, ← hcalls]
      exact ih hnext (hreached.concat heffect)
    · obtain ⟨call, rfl⟩ : ∃ call, e = .itemDone call := by
        cases e with
        | itemDone call => exact ⟨call, rfl⟩
        | _ => exact absurd rfl hopen
      have hbuf := (hreached.buffers call.callId).trans (h.buffer_of_closed hstream)
      have hrun : a.event c event = (c.decodeArguments (streamedText stream call.callId)).map
          (a.close call.callId (call.buffer (stream.foldl (assemble call.callId) ""))) :=
        a.event_of_itemDone c hevent hbuf
      have hmapM : (closedCalls (.itemDone call :: after)).mapM (streamedCall c stream) =
          (streamedCall c stream call).bind fun request =>
            ((closedCalls after).mapM (streamedCall c stream)).map (request :: ·) := by
        show (call :: closedCalls after).mapM (streamedCall c stream) = _
        rw [List.mapM_cons]
        cases streamedCall c stream call <;>
          cases (closedCalls after).mapM (streamedCall c stream) <;> rfl
      rw [hrun, hmapM]
      unfold streamedCall
      cases c.decodeArguments (streamedText stream call.callId) with
      | none => rfl
      | some args =>
        show Option.map Acc.result (events.foldlM (Acc.event c) _) = Option.map _ (Option.map _ _)
        rw [ih hnext (hreached.concat (a.effect_close response call _ args)), Option.map_map]
        refine Option.map_congr fun calls _ => ?_
        simp [Acc.close, Call.buffer]

/-! ## Both loops -/

theorem SentAs.kindOf_ne {event : Json} (h : SentAs response e event) :
    kindOf event ≠ .failure := by
  intro hkind
  cases e with
  | other => rcases h with hother | ⟨hother | hother, -⟩ <;> rw [hother] at hkind <;> cases hkind
  | _ => cases h.1.symm.trans hkind

theorem kinds_of_sent (h : List.Forall₂ (SentAs response) stream events) :
    ∀ event ∈ events, kindOf event ≠ .failure := by
  induction h with
  | nil => nofun
  | cons hevent _ ih => exact List.forall_mem_cons.mpr ⟨hevent.kindOf_ne, ih⟩

theorem foldlM_consumeEvent (h : ∀ event ∈ events, kindOf event ≠ .failure) (a : Acc) :
    events.foldlM (consumeEvent c) a = orPanic (events.foldlM (Acc.event c) a) := by
  induction events generalizing a with
  | nil => rfl
  | cons event rest ih =>
    rw [List.foldlM_cons, List.foldlM_cons]
    have hstep : consumeEvent c a event = orPanic (a.event c event) :=
      if_neg (h event List.mem_cons_self)
    rw [hstep]
    cases a.event c event with
    | none => rfl
    | some a' => exact ih (fun e he => h e (List.mem_cons_of_mem _ he)) a'

theorem foldlM_consumeSdkEvent (h : ∀ event ∈ events, kindOf event ≠ .failure) (s : Sdk) :
    (events.foldlM (consumeSdkEvent c) s).map Sdk.toAcc =
      events.foldlM (Acc.event c) s.toAcc := by
  induction events generalizing s with
  | nil => rfl
  | cons event rest ih =>
    rw [List.foldlM_cons, List.foldlM_cons]
    have hstep : (consumeSdkEvent c s event).map Sdk.toAcc = s.toAcc.event c event := by
      unfold consumeSdkEvent
      rw [Option.map_map]
      have hkeep := h event List.mem_cons_self
      cases hkind : kindOf event with
      | failure => exact absurd hkind hkeep
      | _ => exact Option.map_id'
    rw [← hstep]
    cases consumeSdkEvent c s event with
    | none => rfl
    | some s' => exact ih (fun e he => h e (List.mem_cons_of_mem _ he)) s'

theorem consumeEvents_eq_ok_iff (h : ∀ event ∈ events, kindOf event ≠ .failure)
    (result : String × List ToolCallRequest × String) :
    consumeEvents c events = .ok result ↔
      (events.foldlM (Acc.event c) {}).map Acc.result = some result := by
  unfold consumeEvents
  rw [foldlM_consumeEvent c h]
  cases events.foldlM (Acc.event c) {} with
  | none => exact iff_of_false nofun nofun
  | some a =>
    exact ⟨fun hok => congrArg some (Except.ok.inj hok),
      fun hsome => congrArg Except.ok (Option.some.inj hsome)⟩

theorem consumeSdkStream_iff (h : ∀ event ∈ events, kindOf event ≠ .failure)
    (result : String × List ToolCallRequest × String) :
    (∃ s, consumeSdkStream c events = some s ∧ s.content = result.1 ∧
        s.toolCalls = result.2.1 ∧ s.finishReason = result.2.2) ↔
      (events.foldlM (Acc.event c) {}).map Acc.result = some result := by
  have hrun : (consumeSdkStream c events).map Sdk.toAcc = events.foldlM (Acc.event c) {} :=
    foldlM_consumeSdkEvent c h {}
  rw [← hrun, Option.map_map, Option.map_eq_some_iff]
  refine exists_congr fun s => and_congr_right fun _ => ?_
  constructor
  · rintro ⟨hcontent, hcalls, hfinish⟩
    show (s.content, s.toolCalls, s.finishReason) = result
    rw [hcontent, hcalls, hfinish]
  · rintro rfl
    exact ⟨rfl, rfl, rfl⟩

/-! ## The complete response -/

/-- The tool call that `parse_response_output` makes of a call. -/
def ownCall (call : Call) : Option ToolCallRequest :=
  (c.decodeArguments call.arguments).map (toolCall call.callId call.itemId call.name)

theorem get_of_getStr {v : Json} {key : String} (h : v.getStr key = some s) :
    v.get key = some (.str s) := by
  obtain ⟨w, hw, hs⟩ := Option.bind_eq_some_iff.mp h
  rw [hw]
  cases w with
  | str s' => rw [Option.some.inj hs]
  | _ => cases hs

theorem parseItem_call (call : Call) (p : Parsed) :
    parseItem c p call.item = (ownCall c call).map fun request =>
      { p with toolCalls := p.toolCalls ++ [request] } := by
  have harguments : itemArguments c call.item = c.decodeArguments call.arguments := by
    unfold itemArguments
    rw [get_of_getStr call.arguments_eq, Option.getD_some]
  unfold parseItem ownCall
  rw [call.type_eq, if_neg (by decide), if_pos rfl, harguments, call.callId_eq, Option.map_map]
  rfl

theorem foldlM_parseItem (output : List OutputItem) (p : Parsed) :
    (output.map OutputItem.json).foldlM (parseItem c) p =
      ((callsOf output).mapM (ownCall c)).map fun calls =>
        { p with
          contentParts := p.contentParts ++ output.flatMap OutputItem.texts
          toolCalls := p.toolCalls ++ calls } := by
  induction output generalizing p with
  | nil => simp [callsOf]
  | cons item rest ih =>
    rw [List.map_cons, List.foldlM_cons]
    cases item with
    | message item htype =>
      have hstep : parseItem c p item =
          some { p with contentParts := p.contentParts ++ outputTexts item } := if_pos htype
      show (parseItem c p item).bind _ = _
      rw [hstep, Option.bind_some, ih]
      refine Option.map_congr fun calls _ => ?_
      simp [OutputItem.texts]
    | functionCall call =>
      show (parseItem c p call.item).bind _ = Option.map _ ((call :: callsOf rest).mapM _)
      rw [parseItem_call, List.mapM_cons]
      cases ownCall c call with
      | none => rfl
      | some request =>
        rw [Option.map_some, Option.bind_some, ih]
        cases (callsOf rest).mapM (ownCall c) with
        | none => rfl
        | some calls => simp [OutputItem.texts]

/-- The response that `parse_response_output` returns for those tool calls. -/
def responseWith (response : Json) (output : List OutputItem) (calls : List ToolCallRequest) :
    LLMResponse :=
  let texts := output.flatMap OutputItem.texts
  { content := if texts.isEmpty then none else some (String.join texts)
    toolCalls := calls
    finishReason := mapFinishReason (response.getStr "status")
    usage := addUsage ∅ response
    reasoningContent := none }

theorem content_responseWith (response : Json) (output : List OutputItem)
    (calls : List ToolCallRequest) :
    (responseWith response output calls).content.getD "" =
      String.join (output.flatMap OutputItem.texts) := by
  show (if (output.flatMap OutputItem.texts).isEmpty then none else some _).getD "" = _
  cases output.flatMap OutputItem.texts with
  | nil => rfl
  | cons text texts => rfl

theorem parseResponseOutput_eq (h : HasOutput response output) :
    parseResponseOutput c response =
      ((callsOf output).mapM (ownCall c)).map (responseWith response output) := by
  unfold parseResponseOutput
  rw [h.output_eq, Option.bind_some]
  show Option.map _ ((output.map OutputItem.json).foldlM _ _) = _
  rw [foldlM_parseItem, Option.map_map]
  rfl

/-! ## The comparison -/

theorem finish_of_completed (h : .completed ∈ stream) (finishReason : String) :
    stream.foldl (finishAfter response) finishReason =
      mapFinishReason (response.getStr "status") := by
  have hkeep : ∀ rest : List Event,
      rest.foldl (finishAfter response) (mapFinishReason (response.getStr "status")) =
        mapFinishReason (response.getStr "status") := by
    intro rest
    induction rest with
    | nil => rfl
    | cons e rest ih => cases e <;> exact ih
  obtain ⟨before, after, rfl⟩ := List.append_of_mem h
  rw [List.foldl_append, List.foldl_cons]
  exact hkeep after

theorem exists_mapM_iff {β γ : Type} {f : α → Option γ} {g : β → Option γ} {xs : List α}
    {ys : List β} :
    (∃ zs, xs.mapM f = some zs ∧ ys.mapM g = some zs) ↔
      List.Forall₂ (fun x y => ∃ z, f x = some z ∧ g y = some z) xs ys := by
  induction xs generalizing ys with
  | nil =>
    cases ys with
    | nil => simp
    | cons y ys => simp [List.mapM_cons, Option.bind_eq_some_iff]
  | cons x xs ih =>
    cases ys with
    | nil => simp [List.mapM_cons, Option.bind_eq_some_iff]
    | cons y ys =>
      rw [List.forall₂_cons, ← ih]
      simp only [List.mapM_cons, bind, Option.bind_eq_some_iff, pure, Option.some.injEq]
      constructor
      · rintro ⟨_, ⟨z, hz, zs, hzs, rfl⟩, z', hz', zs', hzs', heq⟩
        obtain ⟨rfl, rfl⟩ := List.cons.inj heq
        exact ⟨⟨z', hz, hz'⟩, zs', hzs, hzs'⟩
      · rintro ⟨⟨z, hz, hz'⟩, zs, hzs, hzs'⟩
        exact ⟨z :: zs, ⟨z, hz, zs, hzs, rfl⟩, z, hz', zs, hzs', rfl⟩

theorem sameCall_iff (stream : List Event) (closed call : Call) :
    (∃ request, streamedCall c stream closed = some request ∧ ownCall c call = some request) ↔
      SameCall c stream closed call := by
  unfold streamedCall ownCall
  simp only [Option.map_eq_some_iff, Codec.decodeArguments_eq_some_iff]
  constructor
  · rintro ⟨request, ⟨_, ⟨hstreamed, rfl⟩, hclosed⟩, _, ⟨hown, rfl⟩, hcall⟩
    rw [← hcall] at hclosed
    obtain ⟨hid, hname, harguments, -⟩ := ToolCallRequest.mk.inj hclosed
    exact ⟨hid, hname, harguments, hstreamed, hown⟩
  · rintro ⟨hid, hname, harguments, hstreamed, hown⟩
    refine ⟨_, ⟨_, ⟨hstreamed, rfl⟩, ?_⟩, _, ⟨hown, rfl⟩, rfl⟩
    show ToolCallRequest.mk closed.id closed.name _ _ _ _ =
      ToolCallRequest.mk call.id call.name _ _ _ _
    rw [hid, hname, harguments]

/-- The loops agree with `parse_response_output` exactly if the calls are closed in the order of the
output and, for each of them, the events with its call id tell the arguments that the complete item
has, in texts that can be shown. -/
theorem agree_iff {response : Json} {output : List OutputItem} {stream : List Event}
    {events : List Json} (hresponse : HasOutput response output) (hstream : StreamFor output stream)
    (hsent : List.Forall₂ (SentAs response) stream events) :
    Agree c response events ↔
      List.Forall₂ (SameCall c stream) (closedCalls stream) (callsOf output) := by
  have hrun := run_after c (a := {}) hstream hsent (List.nil_append stream).symm
    ⟨rfl, rfl, fun _ => rfl⟩
  rw [hstream.text, finish_of_completed hstream.completed] at hrun
  have hparse := parseResponseOutput_eq c hresponse
  have hkinds := kinds_of_sent hsent
  have hagree : Agree c response events ↔
      ∃ calls, (closedCalls stream).mapM (streamedCall c stream) = some calls ∧
        (callsOf output).mapM (ownCall c) = some calls := by
    unfold Agree
    simp only [consumeEvents_eq_ok_iff c hkinds, hparse]
    constructor
    · rintro ⟨r, hr, hevents, -⟩
      obtain ⟨calls, hcalls, rfl⟩ := Option.map_eq_some_iff.mp hr
      rw [hrun] at hevents
      obtain ⟨streamed, hstreamed, hresult⟩ := Option.map_eq_some_iff.mp hevents
      have heq : streamed = calls := congrArg (fun result => result.2.1) hresult
      exact ⟨calls, heq ▸ hstreamed, hcalls⟩
    · rintro ⟨calls, hstreamed, hcalls⟩
      have hresult : (events.foldlM (Acc.event c) {}).map Acc.result =
          some ((responseWith response output calls).content.getD "", calls,
            mapFinishReason (response.getStr "status")) := by
        rw [hrun, hstreamed, content_responseWith]
        rfl
      exact ⟨responseWith response output calls, by rw [hcalls]; rfl, hresult,
        (consumeSdkStream_iff c hkinds _).mpr hresult⟩
  rw [hagree, exists_mapM_iff]
  exact ⟨fun h => h.imp fun closed call => (sameCall_iff c stream closed call).mp,
    fun h => h.imp fun closed call => (sameCall_iff c stream closed call).mpr⟩

/-- A reader of the texts `\x7b\x7d` and `\x7b"a":1\x7d`, and of no others. -/
def sampleCodec : Codec where
  fromStr s :=
    if s = "\x7b\x7d" then some (.obj [])
    else if s = "\x7b\"a\":1\x7d" then some (.obj [("a", .num (.int 1))])
    else none
  toText _ := ""
  warns := true

/-- The item of a call, with its arguments. -/
def sampleItem (arguments : String) : Json :=
  .obj [("type", .str "function_call"), ("id", .str "fc1"), ("call_id", .str "c1"),
    ("name", .str "x"), ("arguments", .str arguments)]

/-- A call of `x`. -/
def sampleCall : Call where
  item := sampleItem "\x7b\"a\":1\x7d"
  callId := "c1"
  arguments := "\x7b\"a\":1\x7d"
  type_eq := rfl
  callId_eq := rfl
  arguments_eq := rfl
  nonempty := by decide

def sampleResponse : Json :=
  .obj [("status", .str "completed"), ("output", .arr [sampleCall.item])]

/-- A stream in which the arguments come in one delta. -/
def sampleStream (byCallId : Bool) : List Event :=
  [.added sampleCall, .argumentsDelta sampleCall byCallId "\x7b\"a\":1\x7d", .itemDone sampleCall,
    .completed]

def sampleEvents (byCallId : Bool) : List Json :=
  [.obj [("type", .str "response.output_item.added"), ("item", sampleItem "")],
    .obj [("type", .str "response.function_call_arguments.delta"),
      if byCallId then ("call_id", .str "c1") else ("item_id", .str "fc1"),
      ("delta", .str "\x7b\"a\":1\x7d")],
    .obj [("type", .str "response.output_item.done"), ("item", sampleCall.item)],
    .obj [("type", .str "response.completed"), ("response", sampleResponse)]]

theorem hasOutput_sample : HasOutput sampleResponse [.functionCall sampleCall] :=
  ⟨rfl, by decide⟩

theorem streamFor_sample (byCallId : Bool) :
    StreamFor [.functionCall sampleCall] (sampleStream byCallId) where
  text := rfl
  known e he call hcall := by
    have hcalls : callsOf [.functionCall sampleCall] = [sampleCall] := rfl
    rw [hcalls, List.mem_singleton]
    simp only [sampleStream, List.mem_cons, List.not_mem_nil, or_false] at he
    rcases he with rfl | rfl | rfl | rfl
    · exact (Option.some.inj hcall).symm
    · exact (Option.some.inj hcall).symm
    · exact (Option.some.inj hcall).symm
    · cases hcall
  phases call hcall := by
    have hcalls : callsOf [.functionCall sampleCall] = [sampleCall] := rfl
    rw [hcalls, List.mem_singleton] at hcall
    subst hcall
    exact ⟨[.argumentsDelta sampleCall byCallId _], rfl, by simp [Event.isArguments],
      Nat.zero_le 1⟩
  completed := by simp [sampleStream]

theorem sent_sample (byCallId : Bool) :
    List.Forall₂ (SentAs sampleResponse) (sampleStream byCallId) (sampleEvents byCallId) := by
  refine .cons ⟨by decide, _, rfl, rfl, rfl, rfl, rfl, rfl⟩ (.cons ?_ (.cons ⟨by decide, rfl⟩
    (.cons ⟨by decide, rfl⟩ .nil)))
  cases byCallId with
  | true => exact ⟨by decide, rfl, rfl⟩
  | false => exact ⟨by decide, ⟨rfl, rfl⟩, rfl⟩

/-- With the call id in the delta, the call gets its arguments. -/
theorem agree_sample : Agree sampleCodec sampleResponse (sampleEvents true) :=
  (agree_iff sampleCodec hasOutput_sample (streamFor_sample true) (sent_sample true)).mpr
    (.cons ⟨rfl, rfl, by decide, fun _ h => absurd h (by decide), fun _ h => absurd h (by decide)⟩
      .nil)

/-- With the item id only, the call gets no arguments. -/
theorem not_agree_item_id :
    HasOutput sampleResponse [.functionCall sampleCall] ∧
      StreamFor [.functionCall sampleCall] (sampleStream false) ∧
      List.Forall₂ (SentAs sampleResponse) (sampleStream false) (sampleEvents false) ∧
      ¬ Agree sampleCodec sampleResponse (sampleEvents false) := by
  refine ⟨hasOutput_sample, streamFor_sample false, sent_sample false, ?_⟩
  rintro ⟨r, hr, hevents, -⟩
  have hcomplete : (parseResponseOutput sampleCodec sampleResponse).map LLMResponse.toolCalls =
      some [toolCall "c1" "fc1" "x" [("a", .num (.int 1))]] := by decide
  have hstreamed : (consumeEvents sampleCodec (sampleEvents false)).map (fun result => result.2.1) =
      .ok [toolCall "c1" "fc1" "x" []] := by decide
  rw [hr] at hcomplete
  rw [hevents] at hstreamed
  have hcalls : [toolCall "c1" "fc1" "x" [("a", .num (.int 1))]] = [toolCall "c1" "fc1" "x" []] :=
    (Option.some.inj hcomplete).symm.trans (Except.ok.inj hstreamed)
  exact absurd hcalls (by decide)

end HiveClaw.Providers.Responses
