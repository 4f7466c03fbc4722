import HiveClaw.Turns.Turn

/-!
# What a turn leaves in its session

The messages that are stored after a turn are the old ones and what `save_turn` makes of the
messages behind the prompt. The message of the user is among neither:
`persist_user_message_early` adds it to a clone of the session that nobody saves, and
`state_save` then skips it as already stored. So no turn with a text records it
(`not_recorded`).
-/

namespace HiveClaw.Turns

open Sessions

/-! ## Clones of a session -/

section Manager

variable {codec : Codec} {io : Io} {m : SessionManager} {key : String}

variable {s : Session Json}

theorem getOrCreate_of_lookup (h : m.cache.lookup key = some s) :
    m.getOrCreate codec io key = (s, m) := by
  unfold SessionManager.getOrCreate
  rw [h]

theorem lookup_getOrCreate :
    (m.getOrCreate codec io key).2.cache.lookup key = some (m.getOrCreate codec io key).1 := by
  cases h : m.cache.lookup key with
  | some s => rw [getOrCreate_of_lookup h]; exact h
  | none =>
    unfold SessionManager.getOrCreate
    rw [h]
    exact AList.lookup_insert _

theorem getOrCreate_getOrCreate (io' : Io) :
    (m.getOrCreate codec io key).2.getOrCreate codec io' key = m.getOrCreate codec io key :=
  getOrCreate_of_lookup lookup_getOrCreate

theorem cache_save (h : (m.save codec io s).1 = true) :
    (m.save codec io s).2.cache = m.cache.insert s.key s := by
  unfold SessionManager.save at h ⊢
  cases hend : io.saveEnd with
  | saved => rfl
  | createFails => rw [hend] at h; cases h
  | writeFails n => rw [hend] at h; cases h
  | renameFails => rw [hend] at h; cases h

end Manager

/-! ## How much `save_turn` pushes -/

section Pushes

variable (maxToolResultChars : Nat) (now : String)

/-- The loop of `save_turn` pushes an entry for the message. -/
def pushes (m : Json) : Bool :=
  match m.getStr "role" with
  | none => false
  | some role =>
    match savedEntry maxToolResultChars now role m with
    | .ok (some _) => true
    | _ => false

variable {maxToolResultChars now}

variable {acc acc' : List Json × Option Nat}

theorem length_saveMessage {m : Json} (h : saveMessage maxToolResultChars now acc m = .ok acc') :
    acc'.1.length = acc.1.length + if pushes maxToolResultChars now m then 1 else 0 := by
  unfold saveMessage at h
  unfold pushes
  cases hrole : m.getStr "role" with
  | none =>
    rw [hrole] at h
    rw [← Except.ok.inj h]
    rfl
  | some role =>
    rw [hrole] at h
    simp only [bind, Except.bind] at h
    cases hentry : savedEntry maxToolResultChars now role m with
    | error e => rw [hentry] at h; cases h
    | ok entry =>
      rw [hentry] at h
      simp only [hentry]
      cases entry with
      | none => rw [← Except.ok.inj h]; rfl
      | some entry =>
        rw [← Except.ok.inj h]
        show (acc.1 ++ [entry]).length = acc.1.length + 1
        rw [List.length_append, List.length_singleton]

theorem length_foldlM_saveMessage {msgs : List Json}
    (h : msgs.foldlM (saveMessage maxToolResultChars now) acc = .ok acc') :
    acc'.1.length = acc.1.length + msgs.countP (pushes maxToolResultChars now) := by
  induction msgs generalizing acc with
  | nil => rw [← Except.ok.inj h]; rfl
  | cons m msgs ih =>
    rw [List.foldlM_cons] at h
    cases hstep : saveMessage maxToolResultChars now acc m with
    | error e => rw [hstep] at h; cases h
    | ok acc₁ =>
      rw [hstep] at h
      rw [ih h, length_saveMessage hstep, List.countP_cons]
      omega

theorem length_saveTurn {updatedAt : DateTime} {session session' : Session Json}
    {messages : List Json} {skip : Nat} {latency : Option Nat}
    (h : saveTurn maxToolResultChars now updatedAt session messages skip latency = .ok session') :
    session'.key = session.key ∧
      session'.messages.length =
        session.messages.length + (messages.drop skip).countP (pushes maxToolResultChars now) := by
  unfold saveTurn at h
  simp only [bind, Except.bind] at h
  split at h
  · cases h
  case h_2 acc hfold =>
    rw [← Except.ok.inj h, ← length_foldlM_saveMessage hfold]
    refine ⟨rfl, ?_⟩
    dsimp only
    split
    · exact List.length_modify _ _ _
    · rfl

end Pushes

/-! ## The turn -/

namespace AgentLoop

variable {a : AgentLoop}

/-- The messages of a session as the next reader finds them. -/
def storedMessages (a : AgentLoop) (m : SessionManager) (key : String) : List Json :=
  (m.getOrCreate a.codec (a.io .history) key).1.messages

/-- The prompt of a turn is built from the stored messages; the sessions change only if the
session was not cached. -/
theorem buildPrompt_eq (t : Turn) :
    a.buildPrompt t =
      { t with
        history := a.storedMessages t.sessions t.sessionKey
        initialMessages := a.context.buildMessages (a.storedMessages t.sessions t.sessionKey)
          t.msg t.pendingSummary
        userPersistedEarly := decide (RustStr.trim t.msg.content ≠ "") || !t.msg.media.isEmpty
        sessions := (t.sessions.getOrCreate a.codec (a.io .history) t.sessionKey).2
        sentInTurn := false } := by
  have hpersist (msg : InboundMessage) (session : Session Json) :
      (a.persistUserMessageEarly msg session).1 =
        (decide (RustStr.trim msg.content ≠ "") || !msg.media.isEmpty) := by
    unfold persistUserMessageEarly
    split
    case isTrue h => exact h.symm
    case isFalse h => exact (Bool.eq_false_iff.mpr h).symm
  unfold buildPrompt
  simp only [getOrCreate_getOrCreate, hpersist]
  rfl

variable {t t' : Turn}

theorem of_stateSave {event : String} (h : a.stateSave t = .ok (event, t')) :
    ∃ session', saveTurn a.maxToolResultChars (a.utcNow .save 0) (a.io .save).now
        (t.sessions.getOrCreate a.codec (a.io .save) t.sessionKey).1 t.allMessages
        (1 + t.history.length + if t.userPersistedEarly then 1 else 0) (some a.latencyMs) =
          .ok session' ∧
      t'.sessions.cache =
        (t.sessions.getOrCreate a.codec (a.io .save) t.sessionKey).2.cache.insert session'.key
          (clearRuntimeCheckpoint (clearPendingUserTurn session')) := by
  unfold stateSave at h
  simp only [bind, Except.bind] at h
  split at h
  · cases h
  case h_2 session' hsave =>
    refine ⟨session', hsave, ?_⟩
    split at h
    case h_1 sessions hok =>
      have hcache := cache_save (congrArg Prod.fst hok)
      rw [hok] at hcache
      rw [← (Prod.mk.inj (Except.ok.inj h)).2]
      exact hcache
    case h_2 => cases h

theorem sessions_stateRespond {event : String} (h : stateRespond t = .ok (event, t')) :
    t'.sessions = t.sessions := by
  unfold stateRespond at h
  simp only [bind, Except.bind] at h
  split at h
  · cases h
  · rw [← (Prod.mk.inj (Except.ok.inj h)).2]

/-- The messages that the runner appended to the prompt of the turn. -/
def appended (a : AgentLoop) (t : Turn) : List Json :=
  (a.ran t).allMessages.drop (a.ran t).initialMessages.length

/-- After the turn the stored messages are the old ones, the message of the user, and the
messages of the runner as `save_turn` stores them. The old messages are those of the session
when the prompt is built, with an interrupted turn restored. -/
def Recorded (a : AgentLoop) (m : SessionManager) (msg : InboundMessage)
    (sessionKey : Option String) (m' : SessionManager) : Prop :=
  ∃ (event : String) (t : Turn) (entry : Json) (session saved : Session Json),
    a.stateRestore (startTurn m msg sessionKey) = .ok (event, t) ∧
    entry.getStr "role" = some "user" ∧ entry.getStr "content" = some msg.content ∧
    session.messages = [] ∧
    saveTurn a.maxToolResultChars (a.utcNow .save 0) (a.io .save).now session (a.appended t) 0
      (some a.latencyMs) = .ok saved ∧
    a.storedMessages m' t.sessionKey =
      a.storedMessages (a.ready t).sessions t.sessionKey ++ entry :: saved.messages

theorem sessionKey_ready (t : Turn) : (a.ready t).sessionKey = t.sessionKey := by
  have hprepare (t : Turn) : (a.prepareSession t).sessionKey = t.sessionKey := by
    unfold prepareSession
    split <;> rfl
  unfold ready consolidateOverBudget
  simp only
  split
  · exact hprepare _
  · split
    · exact hprepare _
    · exact hprepare _

theorem msg_ready (t : Turn) : (a.ready t).msg = t.msg := by
  have hprepare (t : Turn) : (a.prepareSession t).msg = t.msg := by
    unfold prepareSession
    split <;> rfl
  unfold ready consolidateOverBudget
  simp only
  split
  · exact hprepare _
  · split
    · exact hprepare _
    · exact hprepare _

theorem ran_keeps (t : Turn) :
    (a.ran t).sessionKey = (a.buildPrompt (a.ready t)).sessionKey ∧
      (a.ran t).sessions = (a.buildPrompt (a.ready t)).sessions ∧
      (a.ran t).history = (a.buildPrompt (a.ready t)).history ∧
      (a.ran t).initialMessages = (a.buildPrompt (a.ready t)).initialMessages ∧
      (a.ran t).userPersistedEarly = (a.buildPrompt (a.ready t)).userPersistedEarly := by
  unfold ran
  generalize a.buildPrompt (a.ready t) = built
  exact ⟨rfl, rfl, rfl, rfl, rfl⟩

theorem sessionKey_ran (t : Turn) : (a.ran t).sessionKey = t.sessionKey := by
  obtain ⟨hbuild, -⟩ := ran_keeps (a := a) t
  rw [hbuild, buildPrompt_eq]
  exact sessionKey_ready t

theorem sessions_ran (t : Turn) : (a.ran t).sessions =
    ((a.ready t).sessions.getOrCreate a.codec (a.io .history) t.sessionKey).2 := by
  obtain ⟨-, hbuild, -⟩ := ran_keeps (a := a) t
  rw [hbuild, buildPrompt_eq, sessionKey_ready]

theorem history_ran (t : Turn) :
    (a.ran t).history = a.storedMessages (a.ready t).sessions t.sessionKey := by
  obtain ⟨-, -, hbuild, -⟩ := ran_keeps (a := a) t
  rw [hbuild, buildPrompt_eq, sessionKey_ready]

theorem length_initialMessages_ran (t : Turn) :
    (a.ran t).initialMessages.length ≤ (a.ran t).history.length + 2 := by
  obtain ⟨-, -, -, hbuild, -⟩ := ran_keeps (a := a) t
  rw [hbuild, history_ran, buildPrompt_eq, sessionKey_ready]
  exact a.context.length_buildMessages _ _ _

theorem userPersistedEarly_ran (hcontent : RustStr.trim t.msg.content ≠ "") :
    (a.ran t).userPersistedEarly = true := by
  obtain ⟨-, -, -, -, hbuild⟩ := ran_keeps (a := a) t
  rw [hbuild, buildPrompt_eq, msg_ready, decide_eq_true hcontent, Bool.true_or]

/-- A turn with a text stores the old messages and entries for messages behind the prompt
only. -/
theorem length_storedMessages_le {event : String} (hcontent : RustStr.trim t.msg.content ≠ "")
    (h : a.stateSave (a.ran t) = .ok (event, t')) :
    (a.storedMessages t'.sessions t.sessionKey).length ≤
      (a.storedMessages (a.ready t).sessions t.sessionKey).length +
        (a.appended t).countP (pushes a.maxToolResultChars (a.utcNow .save 0)) := by
  obtain ⟨session', hsave, hcache⟩ := of_stateSave h
  rw [userPersistedEarly_ran hcontent, if_pos rfl, sessions_ran, sessionKey_ran,
    getOrCreate_getOrCreate] at hsave
  rw [sessions_ran, sessionKey_ran, getOrCreate_getOrCreate] at hcache
  obtain ⟨-, hlength⟩ := length_saveTurn hsave
  -- the messages that are saved lie behind the prompt
  have hsuffix : ((a.ran t).allMessages.drop (1 + (a.ran t).history.length + 1)).countP
      (pushes a.maxToolResultChars (a.utcNow .save 0)) ≤
      (a.appended t).countP (pushes a.maxToolResultChars (a.utcNow .save 0)) := by
    have hinitial := length_initialMessages_ran (a := a) t
    have hskip : 1 + (a.ran t).history.length + 1 = (a.ran t).initialMessages.length +
        (1 + (a.ran t).history.length + 1 - (a.ran t).initialMessages.length) := by omega
    rw [hskip, ← List.drop_drop]
    exact (List.drop_sublist _ _).countP_le
  have hstored : (a.storedMessages (a.ready t).sessions t.sessionKey).length =
      ((a.ready t).sessions.getOrCreate a.codec (a.io .history) t.sessionKey).1.messages.length :=
    rfl
  -- whether the session is cached under the key of the turn makes no difference
  by_cases hsame : session'.key = t.sessionKey
  · have hlookup : t'.sessions.cache.lookup t.sessionKey =
        some (clearRuntimeCheckpoint (clearPendingUserTurn session')) := by
      rw [hcache, ← hsame]
      exact AList.lookup_insert _
    have hafter : a.storedMessages t'.sessions t.sessionKey = session'.messages := by
      rw [storedMessages, getOrCreate_of_lookup hlookup]
      rfl
    rw [hafter, hlength]
    omega
  · have hlookup : t'.sessions.cache.lookup t.sessionKey =
        some ((a.ready t).sessions.getOrCreate a.codec (a.io .history) t.sessionKey).1 := by
      rw [hcache, AList.lookup_insert_ne (Ne.symm hsame)]
      exact lookup_getOrCreate
    have hafter : a.storedMessages t'.sessions t.sessionKey =
        a.storedMessages (a.ready t).sessions t.sessionKey := by
      rw [storedMessages, getOrCreate_of_lookup hlookup]
      rfl
    rw [hafter]
    omega

theorem msg_stateRestore {event : String} (h : a.stateRestore t = .ok (event, t')) :
    t'.msg = t.msg ∧ t'.sessionKey = t.sessionKey := by
  unfold stateRestore at h
  simp only [bind, Except.bind] at h
  split at h
  · cases h
  · split at h
    · cases h
    · split at h
      · cases h
      · rw [← (Prod.mk.inj (Except.ok.inj h)).2]
        exact ⟨rfl, rfl⟩

/-- No turn with a text records it. -/
theorem not_recorded {m m' : SessionManager} {msg : InboundMessage} {sessionKey : Option String}
    {outbound : Option OutboundMessage} (hcontent : RustStr.trim msg.content ≠ "")
    (h : a.processMessage m msg sessionKey = .ok (outbound, m')) :
    ¬ a.Recorded m msg sessionKey m' := by
  rintro ⟨event, t, entry, session, saved, hrestored, -, -, hempty, hsaved, heq⟩
  have hmsg : t.msg = msg := (msg_stateRestore hrestored).1
  rw [processMessage_eq, hrestored, ok_bind] at h
  cases hsave : a.stateSave (a.ran t) with
  | error e => rw [hsave] at h; cases h
  | ok r =>
    obtain ⟨event', t'⟩ := r
    rw [hsave, ok_bind] at h
    cases hrespond : stateRespond { t' with state := .respond } with
    | error e => rw [hrespond] at h; cases h
    | ok r =>
      rw [hrespond] at h
      have hsessions := sessions_stateRespond hrespond
      have hm' : m' = t'.sessions := by
        rw [← (Prod.mk.inj (Except.ok.inj h)).2]
        exact hsessions
      have hle := length_storedMessages_le (by rw [hmsg]; exact hcontent) hsave
      obtain ⟨-, hlength⟩ := length_saveTurn hsaved
      rw [← hm', heq, List.length_append, List.length_cons, hlength, hempty, List.drop_zero,
        List.length_nil] at hle
      omega

/-! ## A first message -/

/-- An agent whose runner answers "Hi!" and whose disk works. -/
def greeter : AgentLoop where
  codec :=
    { toJson := fun _ => ""
      fromJson := fun _ => none
      toRfc3339 := fun _ => ""
      parseIsoformat := fun _ => none }
  io := fun _ => {}
  utcNow := fun _ _ => "2026-01-01T00:00:00Z"
  maxToolResultChars := 40000
  contextWindowTokens := 0
  context :=
    { systemPrompt := fun _ _ => "You are an agent."
      currentTime := "2026-01-01"
      image := fun _ => none
      toJson := fun _ => "" }
  messageTool := false
  runAgentLoop := fun initial _ =>
    ({ finalContent := some "Hi!"
       messages := initial ++ [Runner.textMessage "assistant" "Hi!"]
       stopReason := "completed" }, false)
  latencyMs := 0

/-- A message of the command line. -/
def hello : InboundMessage := { channel := "cli", chatId := "direct", content := "Hello" }

def noSessions : SessionManager :=
  { sessionsDir := "sessions", legacySessionsDir := "legacy", files := ∅ }

def helloStored : Option (List Json) :=
  match greeter.processMessage noSessions hello none with
  | .ok (_, m') => some (greeter.storedMessages m' "cli:direct")
  | .error _ => none

theorem helloStored_eq : helloStored =
    some [.obj [("role", .str "assistant"), ("content", .str "Hi!"),
      ("timestamp", .str "2026-01-01T00:00:00Z"), ("latency_ms", .num (.int 0))]] := by
  decide +kernel

theorem processMessage_hello :
    ∃ outbound m', greeter.processMessage noSessions hello none = .ok (outbound, m') ∧
      greeter.storedMessages m' "cli:direct" =
        [.obj [("role", .str "assistant"), ("content", .str "Hi!"),
          ("timestamp", .str "2026-01-01T00:00:00Z"), ("latency_ms", .num (.int 0))]] := by
  have h := helloStored_eq
  unfold helloStored at h
  split at h
  case h_1 outbound m' hok => exact ⟨outbound, m', hok, Option.some.inj h⟩
  case h_2 => cases h

theorem not_recorded_hello :
    ∃ outbound m', greeter.processMessage noSessions hello none = .ok (outbound, m') ∧
      ¬ greeter.Recorded noSessions hello none m' := by
  obtain ⟨outbound, m', hok, -⟩ := processMessage_hello
  exact ⟨outbound, m', hok, not_recorded (by decide) hok⟩

/-- The answer to the first message is stored, the message is not. -/
theorem hello_not_stored :
    ¬ ∀ (a : AgentLoop) (m m' : SessionManager) (msg : InboundMessage)
      (sessionKey : Option String) (outbound : Option OutboundMessage),
      RustStr.trim msg.content ≠ "" → a.processMessage m msg sessionKey = .ok (outbound, m') →
        a.Recorded m msg sessionKey m' := by
  intro h
  obtain ⟨outbound, m', hok, hstored⟩ := processMessage_hello
  obtain ⟨event, t, entry, session, saved, hrestored, hrole, -, -, -, heq⟩ :=
    h greeter noSessions m' hello none outbound (by decide) hok
  have hkey : t.sessionKey = "cli:direct" := (msg_stateRestore hrestored).2
  have hmem : entry ∈ greeter.storedMessages m' "cli:direct" := by
    rw [← hkey, heq]
    exact List.mem_append_right _ List.mem_cons_self
  rw [hstored, List.mem_singleton] at hmem
  rw [hmem] at hrole
  exact absurd hrole (by decide)

end AgentLoop

end HiveClaw.Turns
