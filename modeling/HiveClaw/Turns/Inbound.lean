import HiveClaw.Turns.Turn
import HiveClaw.Lib.Pool

/-!
# Turns that run at once

`AgentLoop::process_inbound` and `apply_tool_contexts` of `crates/agent/src/loop_.rs`, which
`AgentLoop::run` spawns for every inbound message, with `MessageTool` of
`crates/agent/src/tools/message.rs`.

The turns share the sessions, one `MessageContext` and the outbound lane of the bus. A
statement of a turn (`Section`) is what it does under one lock: of the sessions, or of the
message context. Between two statements of a turn any statements of the others may be
executed. The runner is any program that calls the message tool (`Script`); what it does
besides touches nothing that is shared here. The hooks and the contexts of the other tools
are left out.
-/

namespace HiveClaw.Turns

open Sessions Lib

/-! ## The message tool -/

-- `MessageContext`
structure MessageContext where
  channel : String := ""
  chatId : String := ""
  messageId : Option String := none
  sentInTurn : Bool := false
  metadata : HashMap String Json := ∅
  turnDeliveredMedia : List String := []

namespace MessageContext

-- `set_context`
def setContext (ctx : MessageContext) (msg : InboundMessage) : MessageContext :=
  { ctx with
    channel := msg.channel
    chatId := msg.chatId
    messageId := (msg.metadata.lookup "message_id").bind Json.asStr
    metadata := msg.metadata }

-- `start_turn`
def startTurn (ctx : MessageContext) : MessageContext :=
  { ctx with sentInTurn := false, turnDeliveredMedia := [] }

/-- The end of `execute` for a message to the chat of the context. -/
def markSent (ctx : MessageContext) (media : List String) : MessageContext :=
  { ctx with sentInTurn := true, turnDeliveredMedia := ctx.turnDeliveredMedia ++ media }

end MessageContext

/-- What the message tool needs of the helpers and the file system. -/
structure MessageTool where
  stripThink : String → String := id
  resolveMedia : List String → Except String (List String) := .ok

/-- A message that the tool sends, and whether it goes to the chat of the context. -/
structure Delivery where
  msg : OutboundMessage
  sameTarget : Bool

namespace MessageTool

/-- A string parameter that is not empty. -/
def target (params : Json) (key : String) : Option String :=
  (params.getStr key).filter fun s => s ≠ ""

/-- The strings of an array parameter. -/
def stringsOf (v : Option Json) : List String :=
  match v with
  | some (.arr items) => Json.strings items
  | _ => []

/-- `execute` up to the sending: the message, or the error that the tool returns. -/
def deliver (tool : MessageTool) (ctx : MessageContext) (params : Json) : Except String Delivery :=
  let channel := (target params "channel").getD ctx.channel
  let explicitChatId := target params "chat_id"
  let mismatch : Bool := match explicitChatId with
    | some chatId => decide (RustStr.trim chatId ≠ RustStr.trim ctx.chatId)
    | none => false
  if ctx.channel = "websocket" ∧ channel = "websocket" ∧ mismatch = true then
    .error ("Error: chat_id does not match the active WebSocket conversation. " ++
      "Omit chat_id (and usually channel) so delivery uses the current " ++
      "conversation id from context — WebSocket client_id strings " ++
      "(e.g. anon-…) are not chat ids.")
  else
    let chatId := explicitChatId.getD ctx.chatId
    let sameTarget := decide (channel = ctx.channel ∧ chatId = ctx.chatId)
    let messageId := if sameTarget then (params.getStr "message_id").or ctx.messageId else none
    if channel = "" ∨ chatId = "" then .error "Error: No target channel/chat specified"
    else
      let paths := stringsOf (params.get "media")
      match if paths.isEmpty then .ok [] else tool.resolveMedia paths with
      | .error e => .error ("Error: " ++ e)
      | .ok media =>
        let metadata := if sameTarget then ctx.metadata else ∅
        let metadata := match messageId with
          | some id => metadata.insert "message_id" (.str id)
          | none => metadata
        let metadata :=
          if (metadata.lookup "_record_channel_delivery").isNone && !media.isEmpty then
            metadata.insert "_record_channel_delivery" (.bool true)
          else metadata
        .ok
          { msg :=
              { channel, chatId, content := tool.stripThink ((params.getStr "content").getD "")
                media, metadata }
            sameTarget }

/-- The text that `execute` returns for a message that it sent. -/
def sentText (params : Json) (msg : OutboundMessage) : String :=
  let rows : List (List String) := match params.get "buttons" with
    | some (.arr rows) => rows.filterMap fun row => row.asArray.map Json.strings
    | _ => []
  let mediaInfo :=
    if msg.media.isEmpty then "" else " with " ++ toString msg.media.length ++ " attachments"
  let buttonInfo :=
    if rows.isEmpty then ""
    else " with " ++ toString (rows.map List.length).sum ++ " button(s)"
  "Message sent to " ++ msg.channel ++ ":" ++ msg.chatId ++ mediaInfo ++ buttonInfo

end MessageTool

/-! ## What the turns share -/

/-- Who put a message on the bus: a tool call with its parameters, the end of a turn, or the
prefilter. -/
inductive Via where
  | tool (params : Json)
  | final
  | prefilter

/-- A message on the bus and the turn that put it there. -/
structure Posted where
  turn : Nat
  via : Via
  msg : OutboundMessage

/-- An exchange that a turn recorded. -/
structure Exchange where
  turn : Nat
  user : String
  assistant : String
  userStamp : String
  assistantStamp : String

/-- The two messages of an exchange. -/
def Exchange.messages (e : Exchange) : List Json :=
  [.obj [("role", .str "user"), ("content", .str e.user), ("timestamp", .str e.userStamp)],
    .obj [("role", .str "assistant"), ("content", .str e.assistant),
      ("timestamp", .str e.assistantStamp)]]

/-- The sessions, the message context and the bus; `exchanges` records in which order the
turns stored their exchanges. -/
structure Shared where
  sessions : SessionManager
  context : MessageContext := {}
  outbox : List Posted := []
  exchanges : List Exchange := []

/-- The clock and the disk, as one statement finds them. -/
structure Tick where
  io : Io := {}
  stamps : Nat → String := fun _ => ""

/-- What a turn does under one lock. -/
inductive Section where
  | reply (content : String)
  | restore
  | setContext
  | startTurn
  | history
  | send (params : Json)
  | mark (media : List String)
  | record (content : String)
  | clear
  | finish (content : Option String)

/-- `process_inbound` as a program. -/
abbrev InboundProg := Prog Section Tick Shared

/-- What the run of a turn does with the message tool, and its result. -/
inductive Script where
  | finish (result : Runner.AgentRunResult)
  | call (params : Json) (next : Json → Script)

inductive Outcome where
  | shortCircuit (reply : String)
  | ran (result : Runner.AgentRunResult)

/-- `AgentLoop`, as far as `process_inbound` uses it. -/
structure InboundLoop where
  codec : Codec
  context : ContextBuilder
  messageTool : MessageTool := {}
  commandPrefilter : InboundMessage → Option String := fun _ => none
  /-- The behaviour of the runner in a turn, for a prompt. -/
  runner : Nat → List Json → Script

namespace InboundLoop

variable (l : InboundLoop)

/-! ## The sections that hold the lock of the sessions -/

/-- Restoring an interrupted turn. -/
def restoreSection (tick : Tick) (m : SessionManager) (key : String) : SessionManager :=
  let (session, m) := m.getOrCreate l.codec tick.io key
  match restoreRuntimeCheckpoint tick.stamps session with
  | some session => (m.save l.codec tick.io session).2
  | none =>
    match restorePendingUserTurn (tick.stamps 0) session with
    | some session => (m.save l.codec tick.io session).2
    | none => m

def recordSection (tick : Tick) (m : SessionManager) (key user assistant : String) :
    SessionManager :=
  let (session, m) := m.getOrCreate l.codec tick.io key
  let session := addMessage (tick.stamps 0) tick.io.now session "user" user
  let session := addMessage (tick.stamps 1) tick.io.now session "assistant" assistant
  (m.save l.codec tick.io session).2

def clearSection (tick : Tick) (m : SessionManager) (key : String) : SessionManager :=
  let (session, m) := m.getOrCreate l.codec tick.io key
  let session := clearPendingUserTurn (clearRuntimeCheckpoint session)
  (m.save l.codec tick.io session).2

/-! ## The turn -/

/-- The answer at the end of a turn. -/
def answer (msg : InboundMessage) (content : String) : OutboundMessage :=
  { channel := msg.channel, chatId := msg.chatId, content }

/-- What a section of a turn does to what is shared. -/
def effect (turn : Nat) (msg : InboundMessage) : Section → Tick → Shared → Shared
  | .reply content, _, s =>
    { s with outbox := s.outbox ++ [⟨turn, .prefilter, answer msg content⟩] }
  | .restore, tick, s => { s with sessions := l.restoreSection tick s.sessions msg.sessionKey }
  | .setContext, _, s => { s with context := s.context.setContext msg }
  | .startTurn, _, s => { s with context := s.context.startTurn }
  | .history, tick, s =>
    { s with sessions := (s.sessions.getOrCreate l.codec tick.io msg.sessionKey).2 }
  | .send params, _, s =>
    match l.messageTool.deliver s.context params with
    | .ok d => { s with outbox := s.outbox ++ [⟨turn, .tool params, d.msg⟩] }
    | .error _ => s
  | .mark media, _, s => { s with context := s.context.markSent media }
  | .record content, tick, s =>
    { s with
      sessions := l.recordSection tick s.sessions msg.sessionKey msg.content content
      exchanges := s.exchanges ++
        [⟨turn, msg.content, content, tick.stamps 0, tick.stamps 1⟩] }
  | .clear, tick, s => { s with sessions := l.clearSection tick s.sessions msg.sessionKey }
  | .finish content, _, s =>
    match content with
    | some content =>
      if s.context.sentInTurn then s
      else { s with outbox := s.outbox ++ [⟨turn, .final, answer msg content⟩] }
    | none => s

/-- A section that returns what `f` reads. -/
def perform {α : Type} (turn : Nat) (msg : InboundMessage) (label : Section)
    (f : Tick → Shared → α) : InboundProg α :=
  .stmt label (l.effect turn msg label) fun tick s => .done (f tick s)

-- `MessageTool::execute`
def execute (turn : Nat) (msg : InboundMessage) (params : Json) : InboundProg Json := do
  match ← l.perform turn msg (.send params) fun _ s => l.messageTool.deliver s.context params with
  | .error text => return .str text
  | .ok d =>
    if d.sameTarget then
      l.perform turn msg (.mark d.msg.media) fun _ _ => ()
    return .str (MessageTool.sentText params d.msg)

-- `AgentRunner::run`
def runScript (turn : Nat) (msg : InboundMessage) : Script → InboundProg Runner.AgentRunResult
  | .finish result => .done result
  | .call params next => (l.execute turn msg params).bind fun v => runScript turn msg (next v)

-- `apply_tool_contexts`
def applyToolContexts (turn : Nat) (msg : InboundMessage) : InboundProg Unit := do
  l.perform turn msg .setContext fun _ _ => ()
  l.perform turn msg .startTurn fun _ _ => ()

/-- Records the exchange if there is a final content. -/
def recordExchange (turn : Nat) (msg : InboundMessage) (content : Option String) :
    InboundProg Unit :=
  match content with
  | some content => l.perform turn msg (.record content) fun _ _ => ()
  | none => .done ()

/-- The end of a turn, after its run. -/
def completeTurn (turn : Nat) (msg : InboundMessage) (result : Runner.AgentRunResult) :
    InboundProg Outcome := do
  l.recordExchange turn msg result.finalContent
  l.perform turn msg .clear fun _ _ => ()
  l.perform turn msg (.finish result.finalContent) fun _ _ => ()
  return .ran result

-- `process_inbound`
def processInbound (turn : Nat) (msg : InboundMessage) : InboundProg Outcome :=
  match l.commandPrefilter msg with
  | some reply => do
    l.perform turn msg (.reply reply) fun _ _ => ()
    return .shortCircuit reply
  | none => do
    l.perform turn msg .restore fun _ _ => ()
    l.applyToolContexts turn msg
    let history ← l.perform turn msg .history fun tick s =>
      (s.sessions.getOrCreate l.codec tick.io msg.sessionKey).1.messages
    let result ← l.runScript turn msg (l.runner turn (l.context.buildMessages history msg none))
    l.completeTurn turn msg result

/-- The turns that `AgentLoop::run` spawns. -/
def system : System InboundMessage Section Tick Shared Outcome Empty where
  program := l.processInbound
  outside := nofun

end InboundLoop

/-! ## The order of the sections -/

/-- How far a turn is with the message context. -/
inductive Stage where
  | early
  | contextSet
  | started
  | finished (content : Option String)
deriving DecidableEq

/-- The stage of a turn, whether its tool calls sent a message, and what it recorded. -/
structure Progress where
  stage : Stage := .early
  sent : Bool := false
  recorded : Option String := none

namespace InboundLoop

variable (l : InboundLoop)

def progress (q : Progress) (label : Section) (s : Shared) : Progress :=
  match label with
  | .setContext => { q with stage := .contextSet }
  | .startTurn => { q with stage := .started }
  | .send params =>
    match l.messageTool.deliver s.context params with
    | .ok _ => { q with sent := true }
    | .error _ => q
  | .record content => { q with recorded := some content }
  | .finish content => { q with stage := .finished content }
  | .reply _ | .restore | .history | .mark _ | .clear => q

def Due (q : Progress) : Section → Prop
  | .setContext => q.stage = .early
  | .startTurn => q.stage = .contextSet
  | .send _ => q.stage = .started
  | .mark _ => q.stage = .started ∧ q.sent = true
  | .record _ => q.recorded = none
  | .finish _ => q.stage = .started
  | .reply _ | .restore | .history | .clear => True

def inbound (turn : Nat) (msg : InboundMessage) : Protocol Progress Section Tick Shared where
  init := {}
  next q label _ s := l.progress q label s
  allows q label tick s s' := Due q label ∧ s' = l.effect turn msg label tick s

/-- How a turn may end: a run is finished and recorded with its final content. -/
def Ends (q : Progress) : Outcome → Prop
  | .shortCircuit _ => q.recorded = none
  | .ran result => q.stage = .finished result.finalContent ∧ q.recorded = result.finalContent

section Follows

variable {l} {turn : Nat} {msg : InboundMessage} {q : Progress}

theorem follows_perform {α : Type} {E : Progress → α → Prop} {label : Section}
    {f : Tick → Shared → α} (hdue : Due q label)
    (hend : ∀ tick s, E (l.progress q label s) (f tick s)) :
    Follows (l.inbound turn msg) E q (l.perform turn msg label f) :=
  .stmt (fun _ _ => ⟨hdue, rfl⟩) fun tick s => .done (hend tick s)

def Running (q : Progress) : Prop := q.stage = .started ∧ q.recorded = none

theorem follows_execute (hq : Running q) (params : Json) :
    Follows (l.inbound turn msg) (fun q' _ => Running q') q (l.execute turn msg params) := by
  -- a delivery comes back only if the message was put on the bus
  have hsend : Follows (l.inbound turn msg)
      (fun q' r => Running q' ∧ ∀ d, r = .ok d → q'.sent = true) q
      (l.perform turn msg (.send params) fun _ s => l.messageTool.deliver s.context params) := by
    refine follows_perform (show Due q (.send params) from hq.1) fun tick s => ?_
    simp only [progress]
    cases l.messageTool.deliver s.context params with
    | error e => exact ⟨hq, nofun⟩
    | ok d => exact ⟨hq, fun _ _ => rfl⟩
  refine hsend.bind fun q' r hr => ?_
  cases r with
  | error text => exact .done hr.1
  | ok d =>
    dsimp only
    split
    · refine Follows.bind (E := fun q' _ => Running q') ?_ fun q'' _ h => .done h
      exact follows_perform (show Due q' (.mark d.msg.media) from ⟨hr.1.1, hr.2 d rfl⟩)
        fun _ _ => hr.1
    · exact .done hr.1

theorem follows_runScript (script : Script) (hq : Running q) :
    Follows (l.inbound turn msg) (fun q' _ => Running q') q (l.runScript turn msg script) := by
  induction script generalizing q with
  | finish result => exact .done hq
  | call params next ih => exact (follows_execute hq params).bind fun q' v h => ih v h

theorem follows_completeTurn (result : Runner.AgentRunResult) (hq : Running q) :
    Follows (l.inbound turn msg) Ends q (l.completeTurn turn msg result) := by
  have hrecord : Follows (l.inbound turn msg)
      (fun q' _ => q'.stage = .started ∧ q'.recorded = result.finalContent) q
      (l.recordExchange turn msg result.finalContent) := by
    cases hcontent : result.finalContent with
    | some content => exact follows_perform hq.2 fun _ _ => ⟨hq.1, rfl⟩
    | none => exact .done hq
  refine hrecord.bind fun q' _ hq' => ?_
  refine Follows.bind (E := fun q'' _ => q'' = q') (follows_perform trivial fun _ _ => rfl) ?_
  rintro q' _ rfl
  refine Follows.bind (E := fun q'' _ => q'' = { q' with stage := .finished result.finalContent })
    (follows_perform hq'.1 fun _ _ => rfl) ?_
  rintro _ _ rfl
  exact .done ⟨rfl, hq'.2⟩

theorem follows_processInbound (turn : Nat) (msg : InboundMessage) :
    Follows (l.inbound turn msg) Ends {} (l.processInbound turn msg) := by
  unfold processInbound
  cases l.commandPrefilter msg with
  | some reply =>
    refine Follows.bind (E := fun q _ => q = {}) (follows_perform trivial fun _ _ => rfl) ?_
    rintro _ _ rfl
    exact .done rfl
  | none =>
    refine Follows.bind (E := fun q _ => q = {}) (follows_perform trivial fun _ _ => rfl) ?_
    rintro _ _ rfl
    have happly : Follows (l.inbound turn msg) (fun q _ => Running q) {}
        (l.applyToolContexts turn msg) := by
      refine Follows.bind (E := fun q _ => q = { stage := .contextSet })
        (follows_perform rfl fun _ _ => rfl) ?_
      rintro _ _ rfl
      exact follows_perform rfl fun _ _ => ⟨rfl, rfl⟩
    refine happly.bind fun q _ hq => ?_
    refine Follows.bind (E := fun q' _ => q' = q) (follows_perform trivial fun _ _ => rfl) ?_
    rintro _ history rfl
    exact (follows_runScript _ hq).bind fun q' result h => follows_completeTurn result h

/-- A turn that has ended has ended as it may. -/
theorem ends_of_result {c : Pool InboundMessage Section Tick Shared Outcome}
    (hobeys : Obeys l.inbound (fun _ _ => Ends) c) {i : Nat}
    {th : Thread InboundMessage Section Tick Shared Outcome} (hth : c.threads[i]? = some th)
    {outcome : Outcome} (h : th.result = some outcome) : Ends (th.phase l.inbound) outcome := by
  have hfollows := hobeys th (List.mem_of_getElem? hth)
  unfold Thread.result at h
  split at h
  · cases h
  · split at h
    case h_1 a hprog =>
      rw [hprog] at hfollows
      rw [← Option.some.inj h]
      exact follows_done_iff.mp hfollows
    case h_2 => cases h

end Follows

end InboundLoop

end HiveClaw.Turns
