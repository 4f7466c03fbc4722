import HiveClaw.Turns.SaveTurn
import HiveClaw.Runner.Run

/-!
# A turn of the agent

`AgentLoop::process_message` of `crates/agent/src/loop_.rs`: the states of a turn, their
handlers and the table of transitions, with `ContextBuilder::build_messages` of
`crates/agent/src/context/builder.rs` and `AutoCompact::prepare_session` of
`crates/agent/src/autocompact.rs`.

The sessions, the flag of the message tool and the variables of the turn are one record
(`Turn`). The runner is a parameter, so a turn runs with any behaviour of the runner; so are
the texts of the prompt, the clock, the files and the `Consolidator`, a trait with no
implementation in the repository. The consolidation that is spawned after the save runs
beside later turns and is left out, as are the trace and the tool contexts.
-/

namespace HiveClaw.Turns

open Providers Sessions

/-! ## Messages of the bus -/

-- `InboundMessage`
structure InboundMessage where
  channel : String
  senderId : String := ""
  chatId : String
  content : String
  media : List String := []
  metadata : HashMap String Json := ∅
  sessionKeyOverride : Option String := none

-- `InboundMessage::session_key`
def InboundMessage.sessionKey (msg : InboundMessage) : String :=
  match msg.sessionKeyOverride.filter fun key => key ≠ "" with
  | some key => key
  | none => msg.channel ++ ":" ++ msg.chatId

-- `OutboundMessage`
structure OutboundMessage where
  channel : String
  chatId : String
  content : String
  replyTo : Option String := none
  media : List String := []
  metadata : HashMap String Json := ∅

/-! ## The prompt -/

/-- What `ContextBuilder` reads from the workspace, the clock and the media files. -/
structure ContextBuilder where
  /-- `build_system_prompt` for a channel and a summary. -/
  systemPrompt : String → Option String → String
  /-- `current_time_str`. -/
  currentTime : String
  /-- The MIME type and the base64 text of a file that is an image. -/
  image : String → Option (String × String)
  /-- `Value::to_string`. -/
  toJson : Json → String

namespace ContextBuilder

variable (b : ContextBuilder)

/-- `build_runtime_context` for a channel and a chat. -/
def buildRuntimeContext (channel chatId : String) : String :=
  runtimeContextTag ++ "\n" ++ "Current Time: " ++ b.currentTime ++ "\n" ++
    "Channel: " ++ channel ++ "\n" ++ "Chat ID: " ++ chatId ++ "\n" ++ "[/Runtime Context]"

def textBlock (text : String) : Json := .obj [("type", .str "text"), ("text", .str text)]

-- `build_user_content`
def buildUserContent (text : String) (media : List String) : Json :=
  let images := media.filterMap fun path => (b.image path).map fun (mime, b64) =>
    Json.obj [("type", .str "image_url"),
      ("image_url", .obj [("url", .str ("data:" ++ mime ++ ";base64," ++ b64))]),
      ("_meta", .obj [("path", .str path)])]
  if images.isEmpty then .str text else .arr (images ++ [textBlock text])

-- `to_blocks`
def toBlocks (v : Json) : List Json :=
  let block (v : Json) : Json := textBlock (v.asStr.getD (b.toJson v))
  match v with
  | .arr items => items.map fun item => if item.asObject.isSome then item else block item
  | .null => []
  | other => [block other]

-- `merge_message_content`
def mergeMessageContent (left right : Json) : Json :=
  match left, right with
  | .str l, .str r => if l = "" then .str r else .str (l ++ "\n\n" ++ r)
  | left, right => .arr (b.toBlocks left ++ b.toBlocks right)

/-- `build_messages` as `build_initial_messages` calls it. -/
def buildMessages (history : List Json) (msg : InboundMessage) (summary : Option String) :
    List Json :=
  let runtimeCtx := b.buildRuntimeContext msg.channel msg.chatId
  let merged :=
    match b.buildUserContent msg.content msg.media with
    | .str s => Json.str (s ++ "\n\n" ++ runtimeCtx)
    | .arr blocks => .arr (blocks ++ [textBlock runtimeCtx])
    | other => other
  let system := Json.obj
    [("role", .str "system"), ("content", .str (b.systemPrompt msg.channel summary))]
  let messages := system :: history
  match messages.getLast? with
  | some last =>
    if last.getStr "role" = some "user" then
      let map := last.asObject.getD []
      let prev := (JsonMap.get map "content").getD .null
      messages.dropLast ++
        [.obj (JsonMap.insert (JsonMap.remove map "content") "content" (b.mergeMessageContent prev merged))]
    else messages ++ [.obj [("role", .str "user"), ("content", merged)]]
  | none => messages ++ [.obj [("role", .str "user"), ("content", merged)]]

/-- The prompt is the system message, the history and the message of the user, which takes
the place of a user message at the end of the history. -/
theorem length_buildMessages (history : List Json) (msg : InboundMessage)
    (summary : Option String) :
    (b.buildMessages history msg summary).length ≤ history.length + 2 := by
  unfold buildMessages
  simp only
  split
  · split <;> simp
  · simp

end ContextBuilder

/-! ## Compaction -/

/-- `AutoCompact`; `parseRfc3339` is that of `chrono`. -/
structure AutoCompact where
  ttlMinutes : Int
  archiving : List String := []
  summaries : HashMap String (String × DateTime) := ∅
  parseRfc3339 : String → Option DateTime

/-- `is_expired`; times are in microseconds. -/
def AutoCompact.isExpired (ac : AutoCompact) (ts now : DateTime) : Bool :=
  0 < ac.ttlMinutes && (now - ts).tdiv 1000000 ≥ ac.ttlMinutes * 60

-- `format_summary`
def formatSummary (codec : Codec) (text : String) (lastActive : DateTime) : String :=
  "Previous conversation summary (last active " ++ codec.toRfc3339 lastActive ++ "):\n" ++ text

/-- `prepare_session`: the session, the summary and the sessions after it. -/
def AutoCompact.prepareSession (ac : AutoCompact) (codec : Codec) (io : Io) (m : SessionManager)
    (session : Session Json) (key : String) : Session Json × Option String × SessionManager :=
  let (session, m) :=
    if decide (key ∈ ac.archiving) || ac.isExpired session.updatedAt io.now then
      m.getOrCreate codec io key
    else (session, m)
  match ac.summaries.lookup key, session.metadata.lookup "_last_summary" with
  | some (text, ts), _ => (session, some (formatSummary codec text ts), m)
  | none, some summary =>
    let ts := ((summary.getStr "last_active").bind ac.parseRfc3339).getD io.now
    (session, some (formatSummary codec ((summary.getStr "text").getD "") ts), m)
  | none, none => (session, none, m)

/-- `Consolidator`: the estimate of the prompt and the consolidation of a session. -/
structure Consolidator where
  estimateSessionPromptTokens : SessionManager → String → Nat → Nat
  maybeConsolidateByTokens : SessionManager → String → SessionManager

/-! ## The states of a turn -/

-- `TurnState`
inductive TurnState where
  | restore
  | compact
  | command
  | build
  | run
  | save
  | respond
  | done
deriving DecidableEq, Repr

-- `TRANSITIONS`
def transitions : List (TurnState × String × TurnState) :=
  [(.restore, "ok", .compact),
    (.compact, "ok", .command),
    (.command, "dispatch", .build),
    (.command, "shortcut", .done),
    (.build, "ok", .run),
    (.run, "ok", .save),
    (.save, "ok", .respond),
    (.respond, "ok", .done)]

-- `find_transition`
def findTransition (state : TurnState) (event : String) : Option TurnState :=
  (transitions.find? fun t => t.1 = state && t.2.1 = event).map fun t => t.2.2

/-- The places of a turn that use the clock and the disk. -/
inductive Site where
  | restore
  | restoreCheckpoint
  | restorePending
  | compact
  | consolidated
  | history
  | persistEarly
  | save
deriving DecidableEq, Repr

/-- `AgentLoop`, with what it calls. -/
structure AgentLoop where
  codec : Codec
  io : Site → Io
  /-- The readings of the clock at a place. -/
  utcNow : Site → Nat → String
  /-- The text of the error with which a save fails. -/
  saveError : String := ""
  maxToolResultChars : Nat
  contextWindowTokens : Nat
  context : ContextBuilder
  messageTool : Bool
  autoCompact : Option AutoCompact := none
  consolidator : Option Consolidator := none
  /-- `run_agent_loop`, and whether the message tool sent a message in it. -/
  runAgentLoop : List Json → String → Runner.AgentRunResult × Bool
  /-- How long the turn took. -/
  latencyMs : Nat

/-- `TurnContext`, with the sessions and the flag of the message tool. -/
structure Turn where
  msg : InboundMessage
  sessionKey : String
  state : TurnState := .restore
  session : Option (Session Json) := none
  history : List Json := []
  initialMessages : List Json := []
  finalContent : Option String := none
  allMessages : List Json := []
  stopReason : String := ""
  hadInjections : Bool := false
  userPersistedEarly : Bool := false
  saveSkip : Nat := 0
  outbound : Option OutboundMessage := none
  pendingSummary : Option String := none
  turnLatencyMs : Option Nat := none
  sessions : SessionManager
  sentInTurn : Bool := false

namespace AgentLoop

variable (a : AgentLoop)

-- `replay_token_budget`
def replayTokenBudget : Nat :=
  let ctx := a.contextWindowTokens
  if ctx = 0 then 0
  else
    let budget := ctx - 4096 - 1024
    if 0 < budget then budget else max 128 (ctx / 2)

/-- The save after a restore that changed the session. -/
def saveRestored (site : Site) (sessions : SessionManager) (session : Session Json)
    (restored : Option (Session Json)) : Except Failure (Session Json × SessionManager) :=
  match restored with
  | none => .ok (session, sessions)
  | some restored =>
    match sessions.save a.codec (a.io site) restored with
    | (true, sessions) => .ok (restored, sessions)
    | (false, _) => .error (.error a.saveError)

/-- What `state_restore` and `assemble_outbound` log of a text. -/
def preview (text : String) (n : Nat) : Except Failure String :=
  if text.utf8ByteSize > n then (cut text n).map fun front => front ++ "..." else .ok text

def sessionOf (t : Turn) : Session Json × SessionManager :=
  match t.session with
  | some session => (session, t.sessions)
  | none => t.sessions.getOrCreate a.codec (a.io .restore) t.sessionKey

-- `state_restore`
def stateRestore (t : Turn) : Except Failure (String × Turn) := do
  let _ ← preview t.msg.content 80
  let (session, sessions) := a.sessionOf t
  let (session, sessions) ← a.saveRestored .restoreCheckpoint sessions session
    (restoreRuntimeCheckpoint (a.utcNow .restoreCheckpoint) session)
  let (session, sessions) ← a.saveRestored .restorePending sessions session
    (restorePendingUserTurn (a.utcNow .restorePending 0) session)
  return ("ok", { t with session := some session, sessions })

/-- The body of `state_compact`. -/
def prepareSession (t : Turn) : Turn :=
  match a.autoCompact, t.session with
  | some ac, some session =>
    let (session, summary, sessions) :=
      ac.prepareSession a.codec (a.io .compact) t.sessions session t.sessionKey
    { t with session := some session, sessions, pendingSummary := summary.or t.pendingSummary }
  | _, _ => t

-- `state_compact`
def stateCompact (t : Turn) : Except Failure (String × Turn) := .ok ("ok", a.prepareSession t)

-- `state_command`
def stateCommand (t : Turn) : Except Failure (String × Turn) := .ok ("dispatch", t)

/-- The first part of `state_build`. -/
def consolidateOverBudget (t : Turn) : Turn :=
  match a.consolidator with
  | none => t
  | some c =>
    if c.estimateSessionPromptTokens t.sessions t.sessionKey t.history.length > a.replayTokenBudget then
      let sessions := c.maybeConsolidateByTokens t.sessions t.sessionKey
      let (session, sessions) := sessions.getOrCreate a.codec (a.io .consolidated) t.sessionKey
      { t with history := session.messages, sessions }
    else t

/-- `persist_user_message_early`: whether it added the message, and the session. -/
def persistUserMessageEarly (msg : InboundMessage) (session : Session Json) :
    Bool × Session Json :=
  if RustStr.trim msg.content ≠ "" || !msg.media.isEmpty then
    (true, markPendingUserTurn
      (addMessage (a.utcNow .persistEarly 0) (a.io .persistEarly).now session "user" msg.content))
  else (false, session)

/-- The rest of `state_build`. The session that `persist_user_message_early` changes is a
clone, and is dropped. -/
def buildPrompt (t : Turn) : Turn :=
  let (session, sessions) := t.sessions.getOrCreate a.codec (a.io .history) t.sessionKey
  let history := session.messages
  let initialMessages := a.context.buildMessages history t.msg t.pendingSummary
  let (session, sessions) := sessions.getOrCreate a.codec (a.io .persistEarly) t.sessionKey
  let (userPersistedEarly, _) := a.persistUserMessageEarly t.msg session
  { t with history, initialMessages, userPersistedEarly, sessions, sentInTurn := false }

-- `state_build`
def stateBuild (t : Turn) : Except Failure (String × Turn) :=
  .ok ("ok", a.buildPrompt (a.consolidateOverBudget t))

/-- The body of `state_run`. -/
def runPrompt (t : Turn) : Turn :=
  let (result, sentInTurn) := a.runAgentLoop t.initialMessages t.sessionKey
  { t with
    finalContent := result.finalContent
    allMessages := result.messages
    stopReason := result.stopReason
    hadInjections := result.hadInjections
    sentInTurn := a.messageTool && sentInTurn }

-- `state_run`
def stateRun (t : Turn) : Except Failure (String × Turn) := .ok ("ok", a.runPrompt t)

/-- The final content, or the excuse that `state_save` puts in its place. -/
def finalContentOf (content : Option String) : String :=
  match content with
  | some content =>
    if RustStr.trim content = "" then "Sorry, I couldn't generate a response." else content
  | none => "Sorry, I couldn't generate a response."

-- `state_save`
def stateSave (t : Turn) : Except Failure (String × Turn) := do
  let saveSkip := 1 + t.history.length + if t.userPersistedEarly then 1 else 0
  let (session, sessions) := t.sessions.getOrCreate a.codec (a.io .save) t.sessionKey
  let session ← saveTurn a.maxToolResultChars (a.utcNow .save 0) (a.io .save).now session
    t.allMessages saveSkip (some a.latencyMs)
  let session := clearRuntimeCheckpoint (clearPendingUserTurn session)
  match sessions.save a.codec (a.io .save) session with
  | (true, sessions) =>
    return ("ok", { t with
      finalContent := some (finalContentOf t.finalContent), saveSkip
      turnLatencyMs := some a.latencyMs, sessions })
  | (false, _) => throw (.error a.saveError)

-- `assemble_outbound`
def assembleOutbound (sentInTurn : Bool) (msg : InboundMessage) (finalContent : String)
    (hadInjections : Bool) (stopReason : String) (turnLatencyMs : Option Nat) :
    Except Failure (Option OutboundMessage) :=
  if sentInTurn && (!hadInjections || stopReason = "empty_final_response") then .ok none
  else do
    let _ ← preview finalContent 120
    let metadata :=
      match turnLatencyMs with
      | some latency => msg.metadata.insert "latency_ms" (.num (.int latency))
      | none => msg.metadata
    return some { channel := msg.channel, chatId := msg.chatId, content := finalContent, metadata }

-- `state_respond`
def stateRespond (t : Turn) : Except Failure (String × Turn) := do
  let outbound ← assembleOutbound t.sentInTurn t.msg (t.finalContent.getD "") t.hadInjections
    t.stopReason t.turnLatencyMs
  return ("ok", { t with outbound })

def handle (t : Turn) : Except Failure (String × Turn) :=
  match t.state with
  | .restore => a.stateRestore t
  | .compact => a.stateCompact t
  | .command => stateCommand t
  | .build => a.stateBuild t
  | .run => a.stateRun t
  | .save => a.stateSave t
  | .respond => stateRespond t
  | .done => .ok ("ok", t)

/-- The loop of `process_message`; the number bounds its rounds. -/
def turnLoop : Nat → Turn → Except Failure Turn
  | 0, t => .ok t
  | n + 1, t =>
    if t.state = .done then .ok t
    else do
      let (event, t') ← a.handle t
      match findTransition t.state event with
      | some next => turnLoop n { t' with state := next }
      | none => throw (.error "No transition")

def startTurn (sessions : SessionManager) (msg : InboundMessage) (sessionKey : Option String) :
    Turn :=
  { msg, sessionKey := sessionKey.getD msg.sessionKey, sessions }

/-- `process_message`: the answer, and the sessions after the turn. -/
def processMessage (sessions : SessionManager) (msg : InboundMessage)
    (sessionKey : Option String) : Except Failure (Option OutboundMessage × SessionManager) :=
  (a.turnLoop 8 (startTurn sessions msg sessionKey)).map fun t => (t.outbound, t.sessions)

/-! ## The states in order -/

variable {a}

variable {α β : Type}

theorem ok_bind (x : α) (f : α → Except Failure β) : (Except.ok x).bind f = f x := rfl

theorem error_bind (e : Failure) (f : α → Except Failure β) :
    (Except.error e).bind f = .error e := rfl

variable {t : Turn}

theorem turnLoop_succ (n : Nat) (state next : TurnState) (hstate : t.state = state)
    (hdone : state ≠ .done)
    (hnext : ∀ event t', a.handle t = .ok (event, t') → findTransition state event = some next) :
    a.turnLoop (n + 1) t = (a.handle t).bind fun r => a.turnLoop n { r.2 with state := next } := by
  subst hstate
  rw [turnLoop, if_neg hdone]
  cases h : a.handle t with
  | error e => rfl
  | ok r =>
    obtain ⟨event, t'⟩ := r
    show (match findTransition t.state event with
      | some next => a.turnLoop n { t' with state := next }
      | none => _) = a.turnLoop n { t' with state := next }
    rw [hnext event t' h]

variable {t' : Turn}

/-- A round whose handler cannot fail. -/
theorem turnLoop_succ_of_ok (n : Nat) (state next : TurnState) {event : String}
    (hstate : t.state = state) (hdone : state ≠ .done) (hok : a.handle t = .ok (event, t'))
    (hnext : findTransition state event = some next) :
    a.turnLoop (n + 1) t = a.turnLoop n { t' with state := next } := by
  rw [turnLoop_succ n state next hstate hdone (fun event' t'' h => ?_), hok]
  · rfl
  · rw [hok] at h
    obtain ⟨rfl, -⟩ := Prod.mk.inj (Except.ok.inj h)
    exact hnext

theorem stateRestore_event {event : String} (h : a.stateRestore t = .ok (event, t')) : event = "ok" := by
  unfold stateRestore at h
  cases hpreview : preview t.msg.content 80 with
  | error e => rw [hpreview] at h; cases h
  | ok text =>
    rw [hpreview] at h
    simp only [bind, Except.bind] at h
    split at h
    · cases h
    · split at h
      · cases h
      · exact (Prod.mk.inj (Except.ok.inj h)).1.symm

theorem stateSave_event {event : String} (h : a.stateSave t = .ok (event, t')) : event = "ok" := by
  unfold stateSave at h
  simp only [bind, Except.bind] at h
  split at h
  · cases h
  · split at h
    · exact (Prod.mk.inj (Except.ok.inj h)).1.symm
    · cases h

theorem stateRespond_event {event : String} (h : stateRespond t = .ok (event, t')) : event = "ok" := by
  unfold stateRespond at h
  simp only [bind, Except.bind] at h
  split at h
  · cases h
  · exact (Prod.mk.inj (Except.ok.inj h)).1.symm

variable (a)

/-- The turn when its prompt is about to be built. -/
def ready (t : Turn) : Turn :=
  a.consolidateOverBudget
    { a.prepareSession { t with state := .compact } with state := .build }

def ran (t : Turn) : Turn :=
  { a.runPrompt { a.buildPrompt (a.ready t) with state := .run } with state := .save }

variable {a}

theorem turnLoop_compact (n : Nat) (t : Turn) :
    a.turnLoop (n + 4) { t with state := .compact } = a.turnLoop n (a.ran t) := by
  rw [turnLoop_succ_of_ok (n + 3) .compact .command rfl (by decide) rfl (by decide),
    turnLoop_succ_of_ok (n + 2) .command .build rfl (by decide) rfl (by decide),
    turnLoop_succ_of_ok (n + 1) .build .run rfl (by decide) rfl (by decide),
    turnLoop_succ_of_ok n .run .save rfl (by decide) rfl (by decide)]
  rfl

theorem handle_restore (sessions : SessionManager) (msg : InboundMessage)
    (sessionKey : Option String) :
    a.handle (startTurn sessions msg sessionKey) = a.stateRestore (startTurn sessions msg sessionKey) :=
  rfl

theorem handle_ran (t : Turn) : a.handle (a.ran t) = a.stateSave (a.ran t) := rfl

theorem map_turnLoop_save (t : Turn) :
    (a.turnLoop 3 (a.ran t)).map (fun t => (t.outbound, t.sessions)) =
      (a.stateSave (a.ran t)).bind fun r =>
        (stateRespond { r.2 with state := .respond }).map fun r => (r.2.outbound, r.2.sessions) := by
  rw [turnLoop_succ 2 .save .respond rfl (by decide)
    fun event t' h => by rw [handle_ran] at h; rw [stateSave_event h]; decide, handle_ran]
  cases a.stateSave (a.ran t) with
  | error e => rfl
  | ok r =>
    rw [ok_bind, ok_bind, turnLoop_succ 1 .respond .done rfl (by decide)
      fun event t' h => by rw [stateRespond_event h]; decide]
    simp only [handle]
    cases stateRespond { r.2 with state := .respond } with
    | error e => rfl
    | ok r => rfl

theorem processMessage_eq (sessions : SessionManager) (msg : InboundMessage)
    (sessionKey : Option String) :
    a.processMessage sessions msg sessionKey =
      (a.stateRestore (startTurn sessions msg sessionKey)).bind fun r =>
        (a.stateSave (a.ran r.2)).bind fun r =>
          (stateRespond { r.2 with state := .respond }).map fun r =>
            (r.2.outbound, r.2.sessions) := by
  rw [processMessage, turnLoop_succ 7 .restore .compact rfl (by decide)
    fun event t' h => by rw [stateRestore_event h]; decide]
  cases hrestore : a.stateRestore (startTurn sessions msg sessionKey) with
  | error e => rw [handle_restore, hrestore]; rfl
  | ok r =>
    obtain ⟨event, t⟩ := r
    have hran : a.turnLoop 7 { t with state := .compact } = a.turnLoop 3 (a.ran t) :=
      turnLoop_compact 3 t
    rw [handle_restore, hrestore, ok_bind, ok_bind]
    dsimp only
    rw [hran, map_turnLoop_save]

end AgentLoop

end HiveClaw.Turns
