import HiveClaw.Turns.Inbound
import HiveClaw.Turns.Stored

/-!
# The exchanges of turns on one session

Every turn works on clones of the session, but no clone outlives the lock under which it was
made: each section that saves has read the session in the same section. So however the turns
on one session are interleaved, the session holds its first messages and then the exchanges
the turns recorded, each once and whole (`exchanges_stored`).
-/

namespace HiveClaw.Turns

open Sessions Lib

/-! ## Reading a session -/

/-- The sessions are cached under their own keys. -/
def WellKeyed (m : SessionManager) : Prop :=
  ∀ key s, m.cache.lookup key = some s → s.key = key

def ReadsLike (disk io : Io) : Prop := io.opens = disk.opens ∧ io.migrates = disk.migrates

/-- No interrupted turn is pending. -/
def NoCheckpoint (session : Session Json) : Prop :=
  (∀ fields, session.metadata.lookup runtimeCheckpointKey ≠ some (.obj fields)) ∧
    session.metadata.lookup pendingUserTurnKey ≠ some (.bool true)

theorem NoCheckpoint.restoreRuntimeCheckpoint {session : Session Json} (h : NoCheckpoint session)
    (stamps : Nat → String) : restoreRuntimeCheckpoint stamps session = none := by
  unfold Turns.restoreRuntimeCheckpoint
  split
  case h_1 fields heq => exact absurd heq (h.1 fields)
  case h_2 => rfl

theorem NoCheckpoint.restorePendingUserTurn {session : Session Json} (h : NoCheckpoint session)
    (now : String) : restorePendingUserTurn now session = none := by
  unfold Turns.restorePendingUserTurn
  split
  case h_1 heq => exact absurd heq h.2
  case h_2 => rfl

theorem NoCheckpoint.clear (session : Session Json) :
    NoCheckpoint (clearPendingUserTurn (clearRuntimeCheckpoint session)) := by
  have hne : runtimeCheckpointKey ≠ pendingUserTurnKey := by decide
  constructor
  · intro fields
    show ((session.metadata.erase runtimeCheckpointKey).erase pendingUserTurnKey).lookup
      runtimeCheckpointKey ≠ _
    rw [AList.lookup_erase_ne hne, AList.lookup_erase]
    nofun
  · show ((session.metadata.erase runtimeCheckpointKey).erase pendingUserTurnKey).lookup
      pendingUserTurnKey ≠ _
    rw [AList.lookup_erase]
    nofun

section Read

variable {codec : Codec} {io io' : Io} {m : SessionManager} {key : String}

/-- The parts of a session that do not depend on the clock. -/
def content (s : Session Json) : String × List Json × HashMap String Json :=
  (s.key, s.messages, s.metadata)

theorem readSession_congr (h : ReadsLike io io') (text : FileText) :
    (SessionManager.readSession codec io' key text).map content =
      (SessionManager.readSession codec io key text).map content := by
  unfold SessionManager.readSession SessionManager.repair
  rw [h.1]
  cases (if io.opens then SessionManager.readLines codec {} text else none) with
  | some r => rfl
  | none =>
    dsimp only
    split
    · split
      · rfl
      · rfl
    · rfl

theorem load_readsLike (h : ReadsLike io io') :
    (m.load codec io' key).2 = (m.load codec io key).2 ∧
      (m.load codec io' key).1.map content = (m.load codec io key).1.map content := by
  have hmigrate : m.migrateLegacy io' key = m.migrateLegacy io key := by
    unfold SessionManager.migrateLegacy
    rw [h.2]
  unfold SessionManager.load
  rw [hmigrate]
  refine ⟨rfl, ?_⟩
  rw [Option.map_bind, Option.map_bind]
  exact congrArg _ (funext (readSession_congr h))

theorem getOrCreate_readsLike (h : ReadsLike io io') :
    content (m.getOrCreate codec io' key).1 = content (m.getOrCreate codec io key).1 := by
  unfold SessionManager.getOrCreate
  cases m.cache.lookup key with
  | some s => rfl
  | none =>
    have hload : (m.load codec io' key).1.map content = (m.load codec io key).1.map content :=
      (load_readsLike h).2
    dsimp only
    cases hio : (m.load codec io key).1 with
    | none =>
      rw [hio, Option.map_none, Option.map_eq_none_iff] at hload
      rw [hload]
      rfl
    | some s =>
      rw [hio] at hload
      obtain ⟨s', hs', heq⟩ := Option.map_eq_some_iff.mp hload
      rw [hs']
      exact heq

theorem key_readSession {text : FileText} {s : Session Json}
    (h : SessionManager.readSession codec io key text = some s) : s.key = key := by
  unfold SessionManager.readSession SessionManager.repair at h
  split at h
  · rw [← Option.some.inj h]
    rfl
  · split at h
    · dsimp only at h
      split at h
      · cases h
      · rw [← Option.some.inj h]
        rfl
    · cases h

theorem key_getOrCreate (hkeyed : WellKeyed m) : (m.getOrCreate codec io key).1.key = key := by
  unfold SessionManager.getOrCreate
  cases hcache : m.cache.lookup key with
  | some s => exact hkeyed key s hcache
  | none =>
    dsimp only
    cases hload : (m.load codec io key).1 with
    | none => rfl
    | some s =>
      unfold SessionManager.load at hload
      obtain ⟨text, -, hread⟩ := Option.bind_eq_some_iff.mp hload
      exact key_readSession hread

end Read

theorem cache_getOrCreate (codec : Codec) (io : Io) (m : SessionManager) (key : String) :
    (m.getOrCreate codec io key).2.cache = m.cache ∨
      (m.getOrCreate codec io key).2.cache =
        m.cache.insert key (m.getOrCreate codec io key).1 := by
  have hload : (m.load codec io key).2.cache = m.cache := by
    unfold SessionManager.load SessionManager.migrateLegacy
    dsimp only
    split
    · split
      · rfl
      · split <;> rfl
    · rfl
  cases hold : m.cache.lookup key with
  | some s =>
    rw [getOrCreate_of_lookup hold]
    exact .inl rfl
  | none =>
    unfold SessionManager.getOrCreate
    rw [hold]
    dsimp only
    rw [hload]
    exact .inr rfl

theorem WellKeyed.step {codec : Codec} {io : Io} {m : SessionManager} (h : WellKeyed m) (op : Op) :
    WellKeyed (op.step codec io m) := by
  have hinsert (s : Session Json) (k : String) (hk : s.key = k) (key : String) (s' : Session Json)
      (hlookup : (m.cache.insert k s).lookup key = some s') : s'.key = key := by
    by_cases hkey : key = k
    · rw [hkey, AList.lookup_insert] at hlookup
      rw [← Option.some.inj hlookup, hk, hkey]
    · rw [AList.lookup_insert_ne hkey] at hlookup
      exact h key s' hlookup
  have herase (k key : String) (s' : Session Json)
      (hlookup : (m.cache.erase k).lookup key = some s') : s'.key = key := by
    by_cases hkey : key = k
    · rw [hkey, AList.lookup_erase] at hlookup
      cases hlookup
    · rw [AList.lookup_erase_ne hkey] at hlookup
      exact h key s' hlookup
  cases op with
  | getOrCreate k =>
    intro key s' hlookup
    have hafter : (m.getOrCreate codec io k).2.cache.lookup key = some s' := hlookup
    rcases cache_getOrCreate codec io m k with hcache | hcache
    · rw [hcache] at hafter
      exact h key s' hafter
    · rw [hcache] at hafter
      exact hinsert _ k (key_getOrCreate h) key s' hafter
  | save s =>
    intro key s' hlookup
    unfold Op.step SessionManager.save at hlookup
    cases hend : io.saveEnd with
    | saved =>
      rw [hend] at hlookup
      exact hinsert s s.key rfl key s' hlookup
    | createFails => rw [hend] at hlookup; exact h key s' hlookup
    | writeFails n => rw [hend] at hlookup; exact h key s' hlookup
    | renameFails => rw [hend] at hlookup; exact h key s' hlookup
  | invalidate k => exact herase k
  | deleteSession k =>
    intro key s' hlookup
    refine herase k key s' ?_
    unfold Op.step SessionManager.deleteSession at hlookup
    dsimp only at hlookup
    split at hlookup
    · exact hlookup
    · split at hlookup
      · exact hlookup
      · exact hlookup

/-- **Keys.** Over every run of the operations, with any outcome of their file operations, each
session in the cache stands under its own key. -/
theorem wellKeyed_run (codec : Codec) {m : SessionManager} (hm : m.cache = ∅)
    (ops : List (Op × Io)) : WellKeyed (Sessions.run codec m ops) := by
  have hrun (m : SessionManager) (h : WellKeyed m) : WellKeyed (Sessions.run codec m ops) := by
    unfold Sessions.run
    induction ops generalizing m with
    | nil => exact h
    | cons op ops ih => exact ih _ (h.step op.1)
  refine hrun m fun key s hlookup => ?_
  rw [hm] at hlookup
  cases hlookup

/-- The session `cli_a` is on disk. -/
def cliFile : SessionManager :=
  { AgentLoop.noSessions with files := AList.insert ⟨"sessions", "cli_a.jsonl"⟩ [some cliLine] ∅ }

/-- A session is read from its file, another one is new and saved; the first one is thrown away and
read again. -/
theorem wellKeyed_run_cli :
    (cliFile.load cliCodec {} "cli:a").1.isSome = true ∧
      WellKeyed (Sessions.run cliCodec cliFile
        [(.getOrCreate "cli:a", {}), (.getOrCreate "cli:other", {}),
          (.save { key := "cli:other", createdAt := 0, updatedAt := 0 }, {}),
          (.invalidate "cli:a", {}), (.getOrCreate "cli:a", {})]) :=
  ⟨by decide +kernel, wellKeyed_run cliCodec rfl _⟩

/-! ## What the sections do to the session -/

namespace InboundLoop

variable {l : InboundLoop} {disk : Io} {key : String} {initial : List Json}

/-- Whoever reads the session finds the first messages and the exchanges, and no interrupted
turn. -/
def Stored (l : InboundLoop) (disk : Io) (key : String) (initial : List Json) (s : Shared) : Prop :=
  ∀ io, ReadsLike disk io →
    (s.sessions.getOrCreate l.codec io key).1.key = key ∧
    (s.sessions.getOrCreate l.codec io key).1.messages =
      initial ++ s.exchanges.flatMap Exchange.messages ∧
    NoCheckpoint (s.sessions.getOrCreate l.codec io key).1

variable {m : SessionManager} {s : Shared}

theorem stored_init (hkeyed : WellKeyed m)
    (hnone : NoCheckpoint (m.getOrCreate l.codec disk key).1) (hsessions : s.sessions = m)
    (hempty : s.exchanges = []) :
    l.Stored disk key (m.getOrCreate l.codec disk key).1.messages s := by
  intro io hio
  have hcontent : content (m.getOrCreate l.codec io key).1 =
      content (m.getOrCreate l.codec disk key).1 := getOrCreate_readsLike hio
  obtain ⟨-, hrest⟩ := Prod.mk.inj hcontent
  obtain ⟨hmessages, hmetadata⟩ := Prod.mk.inj hrest
  rw [hsessions, hempty, List.flatMap_nil, List.append_nil]
  refine ⟨key_getOrCreate hkeyed, hmessages, ?_⟩
  unfold NoCheckpoint at hnone ⊢
  rw [hmetadata]
  exact hnone

theorem Stored.of_eq {s' : Shared} (h : l.Stored disk key initial s)
    (hsessions : s'.sessions = s.sessions) (hexchanges : s'.exchanges = s.exchanges) :
    l.Stored disk key initial s' := by
  unfold Stored
  rw [hsessions, hexchanges]
  exact h

theorem Stored.getOrCreate (h : l.Stored disk key initial s) {io : Io} (hio : ReadsLike disk io) :
    l.Stored disk key initial
      { s with sessions := (s.sessions.getOrCreate l.codec io key).2 } := by
  intro io' _
  rw [getOrCreate_getOrCreate]
  exact h io hio

theorem Stored.save {s : Shared} {io : Io} {session : Session Json} {exchanges : List Exchange}
    (hsaves : io.saveEnd = .saved) (m : SessionManager) (hkey : session.key = key)
    (hmessages : session.messages = initial ++ exchanges.flatMap Exchange.messages)
    (hnone : NoCheckpoint session) :
    l.Stored disk key initial
      { s with sessions := (m.save l.codec io session).2, exchanges } := by
  have hok : (m.save l.codec io session).1 = true := by
    unfold SessionManager.save
    rw [hsaves]
  intro io' _
  have hlookup : (m.save l.codec io session).2.cache.lookup key = some session := by
    rw [cache_save hok, ← hkey]
    exact AList.lookup_insert _
  rw [getOrCreate_of_lookup hlookup]
  exact ⟨hkey, hmessages, hnone⟩

theorem Stored.effect {s : Shared} {turn : Nat} {msg : InboundMessage} {label : Section}
    {tick : Tick} (h : l.Stored disk key initial s) (hmsg : msg.sessionKey = key)
    (hio : ReadsLike disk tick.io) (hsaves : tick.io.saveEnd = .saved) :
    l.Stored disk key initial (l.effect turn msg label tick s) := by
  obtain ⟨hkey, hmessages, hnone⟩ := h tick.io hio
  cases label with
  | reply content => exact h.of_eq rfl rfl
  | setContext => exact h.of_eq rfl rfl
  | startTurn => exact h.of_eq rfl rfl
  | mark media => exact h.of_eq rfl rfl
  | send params =>
    unfold InboundLoop.effect
    dsimp only
    split <;> exact h.of_eq rfl rfl
  | finish content =>
    unfold InboundLoop.effect
    dsimp only
    split
    · split <;> exact h.of_eq rfl rfl
    · exact h
  | history =>
    show l.Stored disk key initial
      { s with sessions := (s.sessions.getOrCreate l.codec tick.io msg.sessionKey).2 }
    rw [hmsg]
    exact h.getOrCreate hio
  | restore =>
    have hrestore : l.restoreSection tick s.sessions msg.sessionKey =
        (s.sessions.getOrCreate l.codec tick.io key).2 := by
      unfold restoreSection
      rw [hmsg]
      simp only [hnone.restoreRuntimeCheckpoint, hnone.restorePendingUserTurn]
    show l.Stored disk key initial
      { s with sessions := l.restoreSection tick s.sessions msg.sessionKey }
    rw [hrestore]
    exact h.getOrCreate hio
  | record content =>
    simp only [InboundLoop.effect, recordSection, hmsg]
    refine Stored.save hsaves _ hkey ?_ hnone
    rw [List.flatMap_append, ← List.append_assoc, ← hmessages]
    exact List.append_assoc _ _ _
  | clear =>
    simp only [InboundLoop.effect, clearSection, hmsg]
    exact Stored.save hsaves _ hkey hmessages (NoCheckpoint.clear _)

/-! ## Who recorded what -/

/-- The text that a section records. -/
def recordedBy : Section → Option String
  | .record content => some content
  | _ => none

/-- The exchanges that a turn recorded: the text of the user and the answer. -/
def exchangesOf (s : Shared) (turn : Nat) : List (String × String) :=
  (s.exchanges.filter fun e => e.turn = turn).map fun e => (e.user, e.assistant)

theorem exchanges_effect (turn : Nat) (msg : InboundMessage) (label : Section) (tick : Tick)
    (s : Shared) :
    (l.effect turn msg label tick s).exchanges = s.exchanges ++ (recordedBy label).toList.map
      fun content => ⟨turn, msg.content, content, tick.stamps 0, tick.stamps 1⟩ := by
  cases label with
  | record content => rfl
  | send params =>
    simp only [InboundLoop.effect, recordedBy, Option.toList_none, List.map_nil, List.append_nil]
    split <;> rfl
  | finish content =>
    simp only [InboundLoop.effect, recordedBy, Option.toList_none, List.map_nil, List.append_nil]
    split
    · split <;> rfl
    · rfl
  | _ => exact (List.append_nil _).symm

theorem recorded_progress (q : Progress) (label : Section) (s : Shared) :
    (l.progress q label s).recorded = (recordedBy label).or q.recorded := by
  cases label with
  | send params =>
    simp only [progress, recordedBy, Option.none_or]
    split <;> rfl
  | _ => rfl

/-- A section of a turn adds to the exchanges of the turn what it records, and nothing to
those of the others. -/
theorem exchangesOf_effect (turn i : Nat) (msg : InboundMessage) (label : Section) (tick : Tick)
    (s : Shared) :
    exchangesOf (l.effect turn msg label tick s) i = exchangesOf s i ++
      if turn = i then (recordedBy label).toList.map fun content => (msg.content, content)
      else [] := by
  unfold exchangesOf
  rw [exchanges_effect, List.filter_append, List.map_append]
  congr 1
  cases recordedBy label with
  | none => split <;> rfl
  | some content =>
    by_cases hturn : turn = i
    · simp [hturn]
    · simp [hturn]

/-! ## Any interleaving -/

/-- The turns of the inbound lane. -/
abbrev Lane := Pool InboundMessage Section Tick Shared Outcome

/-- The messages are for one session, the saves succeed and the files are read alike. A turn
may be aborted. -/
def OnKey (key : String) (disk : Io) (_ : Lane) : Act InboundMessage Tick Empty → Prop
  | .start msg => msg.sessionKey = key
  | .move _ tick => ReadsLike disk tick.io ∧ tick.io.saveEnd = .saved
  | .crash _ => True
  | .outside _ => True

/-- What holds in every interleaving. -/
structure Inv (l : InboundLoop) (disk : Io) (key : String) (initial : List Json) (c : Lane) :
    Prop where
  obeys : Obeys l.inbound (fun _ _ => Ends) c
  numbered : Numbered c
  onKey : ∀ th ∈ c.threads, th.req.sessionKey = key
  stored : l.Stored disk key initial c.store
  inRange : ∀ e ∈ c.store.exchanges, e.turn < c.threads.length
  recorded : ∀ i (th : Thread InboundMessage Section Tick Shared Outcome),
    c.threads[i]? = some th → exchangesOf c.store i =
      (th.phase l.inbound).recorded.toList.map fun content => (th.req.content, content)

theorem exchangesOf_of_inRange {n : Nat} (h : ∀ e ∈ s.exchanges, e.turn < n) :
    exchangesOf s n = [] := by
  unfold exchangesOf
  rw [List.map_eq_nil_iff, List.filter_eq_nil_iff]
  intro e he heq
  have hlt := h e he
  have hturn : e.turn = n := of_decide_eq_true heq
  omega

theorem recorded_once {q : Progress} (msg : InboundMessage) (label : Section) (s : Shared)
    (hdue : Due q label) :
    (q.recorded.toList.map fun content => (msg.content, content)) ++
        ((recordedBy label).toList.map fun content => (msg.content, content)) =
      (l.progress q label s).recorded.toList.map fun content => (msg.content, content) := by
  rw [recorded_progress]
  cases label with
  | record content =>
    have hnone : q.recorded = none := hdue
    rw [hnone]
    rfl
  | _ => exact List.append_nil _

theorem Inv.step {c : Lane} (h : l.Inv disk key initial c) {a : Act InboundMessage Tick Empty}
    (ha : OnKey key disk c a) : l.Inv disk key initial (l.system.step c a) := by
  have hobeys : Obeys l.inbound (fun _ _ => Ends) (l.system.step c a) :=
    Obeys.step follows_processInbound h.obeys a
  have hnumbered := Numbered.step l.system h.numbered a
  rcases step_cases l.system h.obeys a with heq | ⟨msg, rfl, heq⟩ |
    ⟨i, tick, th, label, w, n, rfl, hth, hcrashed, hprog, -, ⟨hdue, hw⟩, heq⟩ |
    ⟨i, th, rfl, hth, heq⟩ | ⟨e, -, -⟩
  · rw [heq]
    exact h
  · -- a message arrives
    rw [heq] at hobeys hnumbered ⊢
    refine ⟨hobeys, hnumbered, ?_, h.stored, ?_, ?_⟩
    · intro th hmem
      rcases List.mem_append.mp hmem with hmem | hmem
      · exact h.onKey th hmem
      · rw [List.mem_singleton.mp hmem]
        exact ha
    · intro e he
      rw [List.length_append]
      exact Nat.lt_add_right 1 (h.inRange e he)
    · intro i th hth
      rcases getElem?_concat_cases hth with hold | ⟨rfl, rfl⟩
      · exact h.recorded i th hold
      · exact exchangesOf_of_inRange h.inRange
  · -- a turn executes one statement
    have hno : th.no = i := h.numbered i th hth
    have hmem : th ∈ c.threads := List.mem_of_getElem? hth
    rw [heq, hw, hno] at hobeys hnumbered ⊢
    refine ⟨hobeys, hnumbered, ?_, h.stored.effect (h.onKey th hmem) ha.1 ha.2, ?_, ?_⟩
    · refine forall_mem_set h.onKey ?_ i
      exact h.onKey th hmem
    · intro e he
      rw [List.length_set]
      rw [exchanges_effect, List.mem_append] at he
      rcases he with he | he
      · exact h.inRange e he
      · obtain ⟨content, -, rfl⟩ := List.mem_map.mp he
        exact (List.getElem?_eq_some_iff.mp hth).1
    · intro j th' hj
      rw [exchangesOf_effect]
      rcases getElem?_set_cases hj with ⟨rfl, rfl⟩ | ⟨hne, hj⟩
      · rw [if_pos rfl, h.recorded j th hth, phase_advance]
        exact recorded_once th.req label c.store hdue
      · rw [if_neg (Ne.symm hne), List.append_nil]
        exact h.recorded j th' hj
  · -- a turn crashes
    rw [heq] at hobeys hnumbered ⊢
    refine ⟨hobeys, hnumbered, ?_, h.stored, ?_, ?_⟩
    · refine forall_mem_set h.onKey ?_ i
      exact h.onKey th (List.mem_of_getElem? hth)
    · intro e he
      rw [List.length_set]
      exact h.inRange e he
    · intro j th' hj
      rcases getElem?_set_cases hj with ⟨rfl, rfl⟩ | ⟨-, hj⟩
      · exact h.recorded j th hth
      · exact h.recorded j th' hj
  · exact e.elim

/-- The lane before the first turn. -/
def idle (m : SessionManager) (context : MessageContext) : Lane :=
  { threads := [], store := { sessions := m, context } }

theorem Inv.init (context : MessageContext) (hkeyed : WellKeyed m)
    (hnone : NoCheckpoint (m.getOrCreate l.codec disk key).1) :
    l.Inv disk key (m.getOrCreate l.codec disk key).1.messages (idle m context) where
  obeys := nofun
  numbered := nofun
  onKey := nofun
  stored := stored_init hkeyed hnone rfl rfl
  inRange := nofun
  recorded := nofun

/-- **The exchanges of a session.** In every interleaving of turns on one session, with the
saves succeeding and no interrupted turn pending at the start, the session holds its first
messages and then the exchanges in the order in which they were recorded; a turn that ended
has recorded one exchange if its run had a final content, and none otherwise. -/
theorem exchanges_stored {m : SessionManager} {context : MessageContext} (hkeyed : WellKeyed m)
    (hnone : NoCheckpoint (m.getOrCreate l.codec disk key).1) {c : Lane}
    (h : l.system.Reach (OnKey key disk) (idle m context) c) :
    (∀ io, ReadsLike disk io → (c.store.sessions.getOrCreate l.codec io key).1.messages =
      (m.getOrCreate l.codec disk key).1.messages ++
        c.store.exchanges.flatMap Exchange.messages) ∧
    (∀ i (th : Thread InboundMessage Section Tick Shared Outcome), c.threads[i]? = some th →
      (∀ result, th.result = some (.ran result) → exchangesOf c.store i =
        result.finalContent.toList.map fun content => (th.req.content, content)) ∧
      ∀ reply, th.result = some (.shortCircuit reply) → exchangesOf c.store i = []) ∧
    ∀ e ∈ c.store.exchanges, e.turn < c.threads.length := by
  have hinv : l.Inv disk key (m.getOrCreate l.codec disk key).1.messages c :=
    h.inv (Inv.init context hkeyed hnone) fun c a hc ha => hc.step ha
  refine ⟨fun io hio => (hinv.stored io hio).2.1, ?_, hinv.inRange⟩
  intro i th hth
  have hrecorded := hinv.recorded i th hth
  constructor
  · intro result hran
    rw [hrecorded, (ends_of_result hinv.obeys hth hran).2]
  · intro reply hshort
    have hnone : (th.phase l.inbound).recorded = none := ends_of_result hinv.obeys hth hshort
    rw [hrecorded, hnone]
    rfl

/-! ## Two turns at once -/

/-- A lane whose runner answers with the number of the turn. -/
def echo : InboundLoop where
  codec := AgentLoop.greeter.codec
  context := AgentLoop.greeter.context
  runner := fun turn _ => .finish { finalContent := some ("answer " ++ toString turn) }

/-- Two turns start, alternate up to their runs, and end in the other order. -/
def alternating : List (Act InboundMessage Tick Empty) :=
  [.start AgentLoop.hello, .start AgentLoop.hello] ++
    [0, 1, 0, 1, 0, 1, 0, 1, 1, 0, 0, 1, 1, 0].map fun i => .move i {}

def bothDone : Lane := echo.system.run (idle AgentLoop.noSessions {}) alternating

theorem reach_bothDone :
    echo.system.Reach (OnKey "cli:direct" {}) (idle AgentLoop.noSessions {}) bothDone := by
  apply System.reach_run
  simp only [alternating, List.map_cons, List.map_nil, List.cons_append, List.nil_append,
    System.Meets, OnKey, ReadsLike, and_true]
  decide

theorem exchanges_stored_bothDone :
    (bothDone.store.sessions.getOrCreate echo.codec {} "cli:direct").1.messages =
        bothDone.store.exchanges.flatMap Exchange.messages ∧
      bothDone.store.exchanges.map (fun e => (e.turn, e.assistant)) =
        [(1, "answer 1"), (0, "answer 0")] := by
  have hkeyed : WellKeyed AgentLoop.noSessions := nofun
  have hnone : NoCheckpoint (AgentLoop.noSessions.getOrCreate echo.codec {} "cli:direct").1 :=
    ⟨nofun, nofun⟩
  obtain ⟨hmessages, -, -⟩ := exchanges_stored hkeyed hnone reach_bothDone
  exact ⟨hmessages {} ⟨rfl, rfl⟩, by decide +kernel⟩

end InboundLoop

end HiveClaw.Turns
