import HiveClaw.Turns.Stored
import HiveClaw.Lib.FailsUnless

/-!
# Where a turn cuts texts

A turn cuts the text of the user at byte 80 and its answer at byte 120, to log them, and the
tool results and text blocks that it stores at byte `max_tool_result_chars`. The lengths are
compared in bytes and nothing moves the cut to a character boundary. So a turn panics unless
every text it cuts has such a boundary at the cut (`ne_panic_iff_legalCuts`).
-/

namespace HiveClaw.Turns

open Sessions Lib

/-- The text is not cut at byte `n`, or can be. -/
def LegalCut (n : Nat) (text : String) : Prop :=
  text.utf8ByteSize ≤ n ∨ RustStr.IsCharBoundary text n

instance (n : Nat) (text : String) : Decidable (LegalCut n text) :=
  inferInstanceAs (Decidable (_ ∨ _))

theorem legalCut_iff_of_gt {n : Nat} {text : String} (h : text.utf8ByteSize > n) :
    RustStr.IsCharBoundary text n ↔ LegalCut n text :=
  ⟨.inr, fun hlegal => hlegal.resolve_left (Nat.not_le.mpr h)⟩

theorem cut_failsUnless (text : String) (n : Nat) :
    FailsUnless .panic (RustStr.IsCharBoundary text n) (cut text n) := by
  unfold cut RustStr.sliceTo
  cases h : takeBytes text.toList n with
  | some front => exact .of_ok _ (isSome_takeBytes_iff.mp (by rw [h]; rfl))
  | none =>
    refine .inr ⟨rfl, fun hboundary => ?_⟩
    have hsome := isSome_takeBytes_iff.mpr hboundary
    rw [h] at hsome
    cases hsome

theorem truncateTextFn_failsUnless (text : String) (n : Nat) :
    FailsUnless .panic (LegalCut n text) (truncateTextFn text n) := by
  unfold truncateTextFn
  apply FailsUnless.ite
  · intro hle
    exact .of_ok text (.inl hle)
  · intro hgt
    exact ((cut_failsUnless text n).map _).congr (legalCut_iff_of_gt (Nat.not_le.mp hgt))

theorem preview_failsUnless (text : String) (n : Nat) :
    FailsUnless .panic (LegalCut n text) (AgentLoop.preview text n) := by
  unfold AgentLoop.preview
  apply FailsUnless.ite
  · intro hgt
    exact ((cut_failsUnless text n).map _).congr (legalCut_iff_of_gt hgt)
  · intro hle
    exact .of_ok text (.inl (Nat.not_lt.mp hle))

/-! ## What `save_turn` cuts -/

def blockText (block : Json) : Option String :=
  if (block.getStr "type").getD "" = "text" then block.getStr "text" else none

/-- The texts of the blocks of a content. -/
def blockTexts (content : Option Json) : List String :=
  match content with
  | some (.arr blocks) => blocks.filterMap blockText
  | _ => []

section Truncated

variable (maxToolResultChars : Nat) (now : String)

theorem getStr_of_not_object {block : Json} (h : block.asObject.isNone = true) (key : String) :
    block.getStr key = none := by
  cases block with
  | obj fields => cases h
  | _ => rfl

theorem sanitizeBlock_failsUnless (block : Json) :
    FailsUnless .panic (∀ text ∈ blockText block, LegalCut maxToolResultChars text)
      (sanitizeBlock maxToolResultChars true false block) := by
  have hnone (h : blockText block = none) :
      ∀ text ∈ blockText block, LegalCut maxToolResultChars text := by
    rw [h]
    nofun
  unfold sanitizeBlock
  simp only [Bool.false_and, Bool.false_eq_true, if_false, Bool.true_and]
  apply FailsUnless.ite
  · intro hobject
    refine .of_ok _ (hnone ?_)
    unfold blockText
    rw [getStr_of_not_object hobject, getStr_of_not_object hobject]
    exact ite_self _
  intro _
  apply FailsUnless.ite
  · intro himage
    refine .of_ok _ (hnone ?_)
    have htype : (block.getStr "type").getD "" = "image_url" :=
      of_decide_eq_true (Bool.and_eq_true_iff.mp himage).1
    unfold blockText
    rw [htype, if_neg (by decide)]
  intro _
  have hfold : (if (block.getStr "type").getD "" = "text" then block.getStr "text" else none) =
      blockText block := rfl
  rw [hfold]
  cases htext : blockText block with
  | none => exact .of_ok _ nofun
  | some text =>
    have hone : LegalCut maxToolResultChars text ↔
        ∀ text' ∈ some text, LegalCut maxToolResultChars text' := by
      simp only [Option.mem_def, Option.some.injEq, forall_eq']
    refine FailsUnless.congr ?_ hone
    apply FailsUnless.ite
    · intro _
      exact (truncateTextFn_failsUnless text maxToolResultChars).map _
    · intro hle
      refine .of_ok _ (.inl (Nat.not_lt.mp fun hgt => hle ?_))
      exact decide_eq_true hgt

theorem sanitizePersistedBlocks_failsUnless (blocks : List Json) :
    FailsUnless .panic
      (∀ text ∈ blockTexts (some (.arr blocks)), LegalCut maxToolResultChars text)
      (sanitizePersistedBlocks maxToolResultChars (.arr blocks) true false) := by
  unfold sanitizePersistedBlocks
  have hblocks := FailsUnless.filterMapM
    (sanitizeBlock_failsUnless maxToolResultChars) blocks
  refine (hblocks.bind fun filtered _ => FailsUnless.of_ok _ trivial).congr ?_
  rw [and_true]
  constructor
  · intro h text htext
    obtain ⟨block, hblock, hmem⟩ := List.mem_filterMap.mp htext
    exact h block hblock text hmem
  · intro h block hblock text hmem
    exact h text (List.mem_filterMap.mpr ⟨block, hblock, hmem⟩)

theorem savedAssistant_failsUnless (m : Json) :
    FailsUnless .panic (∀ text ∈ blockTexts (m.get "content"), LegalCut maxToolResultChars text)
      (savedAssistant maxToolResultChars now m) := by
  unfold savedAssistant
  cases m.get "content" with
  | none => exact .of_ok _ (by simp [blockTexts])
  | some v =>
    cases v with
    | arr blocks =>
      have hsanitize := sanitizePersistedBlocks_failsUnless maxToolResultChars blocks
      refine (hsanitize.bind fun sanitized _ => ?_).congr (Iff.of_eq (and_true _))
      cases sanitized with
      | none => exact .of_ok _ trivial
      | some s => exact .of_ok _ trivial
    | _ => exact .of_ok _ (by simp [blockTexts])

/-- The texts that the tool branch truncates. -/
def toolTexts (content : Option Json) : List String :=
  match content with
  | some (.str s) => [s]
  | content => blockTexts content

theorem savedTool_failsUnless (m : Json) :
    FailsUnless .panic (∀ text ∈ toolTexts (m.get "content"), LegalCut maxToolResultChars text)
      (savedTool maxToolResultChars now m) := by
  unfold savedTool
  cases m.get "content" with
  | none => exact .of_ok _ (by simp [toolTexts, blockTexts])
  | some v =>
    cases v with
    | str s =>
      refine FailsUnless.congr (P := LegalCut maxToolResultChars s) ?_ (by simp [toolTexts])
      apply FailsUnless.ite
      · intro _
        refine ((truncateTextFn_failsUnless s maxToolResultChars).bind fun truncated _ => ?_).congr
          (Iff.of_eq (and_true _))
        exact .of_ok _ trivial
      · intro hle
        exact .of_ok _ (.inl (Nat.not_lt.mp hle))
    | arr blocks =>
      have hsanitize := sanitizePersistedBlocks_failsUnless maxToolResultChars blocks
      refine (hsanitize.bind fun sanitized _ => ?_).congr (Iff.of_eq (and_true _))
      exact .of_ok _ trivial
    | _ => exact .of_ok _ (by simp [toolTexts, blockTexts])

theorem savedUser_failsUnless (m : Json) : FailsUnless .panic True (savedUser now m) := by
  unfold savedUser
  split
  case h_1 s tagPos hfind =>
    obtain ⟨s', -, hmap⟩ := Option.bind_eq_some_iff.mp hfind
    obtain ⟨pos, hpos, heq⟩ := Option.map_eq_some_iff.mp hmap
    obtain ⟨rfl, rfl⟩ := Prod.mk.inj heq
    -- a text can be cut where a pattern was found
    have hboundary : RustStr.IsCharBoundary s' pos := isCharBoundary_of_findBytes hpos
    refine FailsUnless.congr (P := RustStr.IsCharBoundary s' pos ∧ True) ?_
      ⟨fun _ => trivial, fun _ => ⟨hboundary, trivial⟩⟩
    exact (cut_failsUnless s' pos).bind fun front _ => .of_ok _ trivial
  case h_2 => exact .of_ok _ trivial

/-- The texts that `save_turn` truncates in a message. -/
def truncatedTexts (m : Json) : List String :=
  match m.getStr "role" with
  | some role =>
    if role = "assistant" then blockTexts (m.get "content")
    else if role = "tool" then toolTexts (m.get "content")
    else []
  | none => []

theorem saveMessage_failsUnless (acc : List Json × Option Nat) (m : Json) :
    FailsUnless .panic (∀ text ∈ truncatedTexts m, LegalCut maxToolResultChars text)
      (saveMessage maxToolResultChars now acc m) := by
  unfold saveMessage truncatedTexts
  cases m.getStr "role" with
  | none => exact .of_ok _ (by simp)
  | some role =>
    simp only
    refine FailsUnless.congr (FailsUnless.bind ?_ fun entry _ => ?_) (Iff.of_eq (and_true _))
    · unfold savedEntry
      split
      · exact savedAssistant_failsUnless maxToolResultChars now m
      · split
        · exact savedTool_failsUnless maxToolResultChars now m
        · split
          · exact (savedUser_failsUnless now m).congr (by simp)
          · exact .of_ok _ (by simp)
    · cases entry with
      | none => exact .of_ok _ trivial
      | some entry => exact .of_ok _ trivial

theorem saveTurn_failsUnless (updatedAt : DateTime) (session : Session Json)
    (messages : List Json) (skip : Nat) (latency : Option Nat) :
    FailsUnless .panic
      (∀ m ∈ messages.drop skip, ∀ text ∈ truncatedTexts m, LegalCut maxToolResultChars text)
      (saveTurn maxToolResultChars now updatedAt session messages skip latency) := by
  unfold saveTurn
  have hloop := FailsUnless.foldlM (saveMessage_failsUnless maxToolResultChars now)
    (messages.drop skip) (session.messages, none)
  refine (hloop.bind fun r _ => ?_).congr (Iff.of_eq (and_true _))
  exact .of_ok _ trivial

end Truncated

/-! ## The turn -/

namespace AgentLoop

variable {a : AgentLoop}

/-- The messages that `state_save` stores. -/
def savedMessages (a : AgentLoop) (t : Turn) : List Json :=
  (a.ran t).allMessages.drop
    (1 + (a.ran t).history.length + if (a.ran t).userPersistedEarly then 1 else 0)

/-- No answer is sent, because the message tool already sent one. -/
def Suppressed (t : Turn) : Prop :=
  (t.sentInTurn && (!t.hadInjections || decide (t.stopReason = "empty_final_response"))) = true

/-- The text of the user, the stored texts and the answer can be cut where they are. The
stored texts count once the session is restored, the answer once the session is saved. -/
def LegalCuts (a : AgentLoop) (m : SessionManager) (msg : InboundMessage)
    (sessionKey : Option String) : Prop :=
  LegalCut 80 msg.content ∧
    ∀ event t, a.stateRestore (startTurn m msg sessionKey) = .ok (event, t) →
      (∀ entry ∈ a.savedMessages t, ∀ text ∈ truncatedTexts entry,
        LegalCut a.maxToolResultChars text) ∧
      ((a.io .save).saveEnd = .saved →
        Suppressed (a.ran t) ∨ LegalCut 120 (finalContentOf (a.ran t).finalContent))

theorem saveRestored_ne_panic (site : Site) (sessions : SessionManager) (session : Session Json)
    (restored : Option (Session Json)) :
    a.saveRestored site sessions session restored ≠ .error .panic := by
  unfold saveRestored
  split
  · nofun
  · split <;> nofun

theorem stateRestore_ne_panic_iff (t : Turn) :
    a.stateRestore t ≠ .error .panic ↔ LegalCut 80 t.msg.content := by
  have hpreview := preview_failsUnless t.msg.content 80
  unfold stateRestore
  rcases hpreview with ⟨⟨text, hok⟩, hlegal⟩ | ⟨herror, hillegal⟩
  · rw [hok]
    refine ⟨fun _ => hlegal, fun _ h => ?_⟩
    simp only [bind, Except.bind] at h
    split at h
    case h_1 e he =>
      rw [Except.error.inj h] at he
      exact saveRestored_ne_panic _ _ _ _ he
    case h_2 =>
      split at h
      case h_1 e he =>
        rw [Except.error.inj h] at he
        exact saveRestored_ne_panic _ _ _ _ he
      case h_2 => cases h
  · rw [herror]
    exact ⟨fun h => absurd rfl h, fun h => absurd h hillegal⟩

theorem save_fst (codec : Codec) (io : Io) (m : SessionManager) (s : Session Json) :
    (m.save codec io s).1 = true ↔ io.saveEnd = .saved := by
  unfold SessionManager.save
  cases io.saveEnd <;> simp

/-- How `state_save` ends. -/
theorem stateSave_cases (t : Turn) :
    (a.stateSave (a.ran t) = .error .panic ∧
        ¬ ∀ entry ∈ a.savedMessages t, ∀ text ∈ truncatedTexts entry,
          LegalCut a.maxToolResultChars text) ∨
      (∀ entry ∈ a.savedMessages t, ∀ text ∈ truncatedTexts entry,
          LegalCut a.maxToolResultChars text) ∧
        ((a.stateSave (a.ran t) = .error (.error a.saveError) ∧ (a.io .save).saveEnd ≠ .saved) ∨
          ((a.io .save).saveEnd = .saved ∧
            ∃ t', a.stateSave (a.ran t) = .ok ("ok", t') ∧ t'.sentInTurn = (a.ran t).sentInTurn ∧
              t'.hadInjections = (a.ran t).hadInjections ∧ t'.stopReason = (a.ran t).stopReason ∧
              t'.finalContent = some (finalContentOf (a.ran t).finalContent))) := by
  have hsave := saveTurn_failsUnless a.maxToolResultChars (a.utcNow .save 0) (a.io .save).now
    ((a.ran t).sessions.getOrCreate a.codec (a.io .save) (a.ran t).sessionKey).1
    (a.ran t).allMessages
    (1 + (a.ran t).history.length + if (a.ran t).userPersistedEarly then 1 else 0)
    (some a.latencyMs)
  unfold stateSave
  rcases hsave with ⟨⟨session, hok⟩, hlegal⟩ | ⟨herror, hillegal⟩
  · refine .inr ⟨hlegal, ?_⟩
    simp only [bind, Except.bind, hok]
    split
    case h_1 sessions hsaved =>
      exact .inr ⟨(save_fst _ _ _ _).mp (congrArg Prod.fst hsaved), _, rfl, rfl, rfl, rfl, rfl⟩
    case h_2 sessions hfailed =>
      refine .inl ⟨rfl, fun h => ?_⟩
      exact Bool.false_ne_true ((congrArg Prod.fst hfailed).symm.trans ((save_fst _ _ _ _).mpr h))
  · refine .inl ⟨?_, hillegal⟩
    simp only [bind, Except.bind, herror]

theorem stateRespond_failsUnless (t : Turn) :
    FailsUnless .panic (Suppressed t ∨ LegalCut 120 (t.finalContent.getD "")) (stateRespond t) := by
  unfold stateRespond
  refine FailsUnless.congr (FailsUnless.bind ?_ fun outbound _ => .of_ok _ trivial)
    (Iff.of_eq (and_true _))
  unfold assembleOutbound
  apply FailsUnless.ite
  · intro hsent
    exact .of_ok _ (.inl hsent)
  · intro hsent
    refine FailsUnless.congr (FailsUnless.bind (preview_failsUnless _ 120)
      fun text _ => .of_ok _ trivial) ?_
    rw [and_true]
    exact ⟨.inr, fun h => h.resolve_left hsent⟩

/-- A turn panics unless it can cut the texts where it cuts them. -/
theorem ne_panic_iff_legalCuts (m : SessionManager) (msg : InboundMessage)
    (sessionKey : Option String) :
    a.processMessage m msg sessionKey ≠ .error .panic ↔ a.LegalCuts m msg sessionKey := by
  have hfirst : a.stateRestore (startTurn m msg sessionKey) ≠ .error .panic ↔
      LegalCut 80 msg.content := stateRestore_ne_panic_iff _
  unfold LegalCuts
  rw [processMessage_eq, ← hfirst]
  cases a.stateRestore (startTurn m msg sessionKey) with
  | error e =>
    rw [error_bind]
    constructor
    · intro h
      refine ⟨fun he => h ?_, fun event t hok => by cases hok⟩
      rw [Except.error.inj he]
    · rintro ⟨hne, -⟩ h
      apply hne
      rw [Except.error.inj h]
  | ok r =>
    obtain ⟨event, t⟩ := r
    rw [ok_bind]
    refine Iff.trans ?_ (and_iff_right fun h => by cases h).symm
    have hone {C : Turn → Prop} :
        (∀ event' t', Except.ok (event, t) = (.ok (event', t') : Except Failure _) → C t') ↔ C t :=
      ⟨fun h => h event t rfl, fun h event' t' heq => (Prod.mk.inj (Except.ok.inj heq)).2 ▸ h⟩
    rw [hone]
    rcases stateSave_cases (a := a) t with
      ⟨hpanic, hillegal⟩ | ⟨hlegal, ⟨herror, hend⟩ | ⟨hend, t', hok, hsent, hinjections, hstop, hfinal⟩⟩
    · rw [hpanic, error_bind]
      exact ⟨fun h => absurd rfl h, fun h => absurd h.1 hillegal⟩
    · rw [herror, error_bind]
      exact ⟨fun _ => ⟨hlegal, fun h => absurd h hend⟩, fun _ h => by cases h⟩
    · rw [hok, ok_bind]
      have hrespond := ((stateRespond_failsUnless { t' with state := .respond }).map
        fun r => (r.2.outbound, r.2.sessions)).ne_error_iff
      refine hrespond.trans ?_
      unfold Suppressed
      simp only [hsent, hinjections, hstop, hfinal, Option.getD_some]
      exact ⟨fun h => ⟨hlegal, fun _ => h⟩, fun h => h.2 hend⟩

theorem panic_of_not_legalCut (m : SessionManager) {msg : InboundMessage}
    (sessionKey : Option String) (h : ¬ LegalCut 80 msg.content) :
    a.processMessage m msg sessionKey = .error .panic := by
  have hrestore : a.stateRestore (startTurn m msg sessionKey) = .error .panic := by
    by_contra hne
    exact h ((stateRestore_ne_panic_iff _).mp hne)
  rw [processMessage_eq, hrestore, error_bind]

/-- A text of 27 characters of three bytes each: byte 80 lies inside the last one. -/
def longGreeting : InboundMessage :=
  { channel := "cli", chatId := "direct", content := String.ofList (List.replicate 27 '工') }

theorem longGreeting_panics :
    greeter.processMessage noSessions longGreeting none = .error .panic ∧
      ¬ ∀ (a : AgentLoop) (m : SessionManager) (msg : InboundMessage)
        (sessionKey : Option String), a.processMessage m msg sessionKey ≠ .error .panic := by
  have hpanic := panic_of_not_legalCut (a := greeter) noSessions none
    (show ¬ LegalCut 80 longGreeting.content by decide +kernel)
  exact ⟨hpanic, fun h => h _ _ _ _ hpanic⟩

end AgentLoop

end HiveClaw.Turns
