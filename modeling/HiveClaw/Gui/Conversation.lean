import HiveClaw.Sessions.Retention

/-!
# The conversation of the desktop client

`Conversation` of `crates/hivegui/src/model/conversation.rs`: the turns of a chat, of which at
most one is pending, and the operations of the user and of the stream that answers.

The identifiers are those of `Uuid::new_v4`; an operation gets the one it would draw and the
readings of the clock it would take (`Moment`). The id of the conversation and the time of its
start are left out: no operation reads them.
-/

namespace HiveClaw.Gui

/-! ## Turns -/

/-- The `Uuid` that `TurnId` and `PendingTurnId` wrap. -/
abbrev Uuid := Nat

-- `Author`
inductive Author where
  | user
  | assistant
deriving DecidableEq, Repr

/-- `Attachment`, with the one payload there is. -/
structure Attachment where
  id : Uuid
  filename : String
  mime : String
  sizeBytes : Nat
  base64DataUri : String
deriving DecidableEq, Repr

-- `TurnContent`
inductive TurnContent where
  | userMessage (text : String) (attachments : List Attachment)
  | assistantText (buffer : String)
deriving DecidableEq, Repr

-- `TurnErrorKind`
inductive TurnErrorKind where
  | unreachable
  | transportFailure
  | serverError
deriving DecidableEq, Repr

-- `TurnError`
structure TurnError where
  kind : TurnErrorKind
  messageZh : String
deriving DecidableEq, Repr

-- `TurnStatus`
inductive TurnStatus where
  | pending
  | delivered
  | failed (retryable : Bool)
deriving DecidableEq, Repr

-- `ConversationTurn`
structure ConversationTurn where
  id : Uuid
  author : Author
  content : TurnContent
  status : TurnStatus
  createdAt : DateTime
  completedAt : Option DateTime := none
  error : Option TurnError := none
deriving DecidableEq, Repr

def ConversationTurn.buffer (t : ConversationTurn) : Option String :=
  match t.content with
  | .assistantText buffer => some buffer
  | .userMessage .. => none

-- `Conversation`
structure Conversation where
  turns : List ConversationTurn := []
  pending : Option Uuid := none
deriving DecidableEq, Repr

-- `MAX_ATTACHMENTS_PER_TURN`
def maxAttachmentsPerTurn : Nat := 8

-- `TOTAL_ATTACHMENTS_MAX_BYTES`
def totalAttachmentsMaxBytes : Nat := 4 * 1024 * 1024

-- `SendError`
inductive SendError where
  | busy
  | empty
  | tooManyAttachments
  | totalTooLarge
deriving DecidableEq, Repr

-- `RetryError`
inductive RetryError where
  | notFound
  | notRetryable
  | busy
deriving DecidableEq, Repr

/-- What an operation takes from outside: a new identifier and the readings of the clock. -/
structure Moment where
  newId : Uuid
  /-- For `created_at`. -/
  created : DateTime
  /-- For `completed_at`. -/
  completed : DateTime := created
  /-- For the `completed_at` of the user turn that is resolved. -/
  resolved : DateTime := completed
  /-- Where `user_turn_started` does not find the turn. -/
  fallback : DateTime := created
deriving DecidableEq, Repr

/-! ## Lists -/

/-- `iter_mut().find(p)` and a change of what was found. -/
def updateFirst {α : Type} (p : α → Bool) (f : α → α) : List α → List α
  | [] => []
  | x :: rest => if p x then f x :: rest else x :: updateFirst p f rest

/-- `iter_mut().rev().find(p)` and a change of what was found. -/
def updateLast {α : Type} (p : α → Bool) (f : α → α) (l : List α) : List α :=
  (updateFirst p f l.reverse).reverse

variable {α : Type}

theorem updateFirst_append {p : α → Bool} {f : α → α} {xs : List α} {a : α} (ys : List α)
    (hxs : ∀ x ∈ xs, p x = false) (ha : p a = true) :
    updateFirst p f (xs ++ a :: ys) = xs ++ f a :: ys := by
  induction xs with
  | nil => simp [updateFirst, ha]
  | cons x xs ih =>
    have hx : p x = false := hxs x List.mem_cons_self
    simp [updateFirst, hx, ih fun y hy => hxs y (List.mem_cons_of_mem _ hy)]

theorem updateLast_append {p : α → Bool} {f : α → α} {ys : List α} {a : α} (xs : List α)
    (hys : ∀ y ∈ ys, p y = false) (ha : p a = true) :
    updateLast p f (xs ++ a :: ys) = xs ++ f a :: ys := by
  have hrev : (xs ++ a :: ys).reverse = ys.reverse ++ a :: xs.reverse := by simp
  rw [updateLast, hrev,
    updateFirst_append xs.reverse (fun y hy => hys y (List.mem_reverse.mp hy)) ha]
  simp

/-- A change that keeps a property of each element keeps it for all. -/
theorem forall_mem_updateFirst {p : α → Bool} {f : α → α} {P : α → Prop} {l : List α}
    (hf : ∀ x ∈ l, p x = true → P x → P (f x)) (h : ∀ x ∈ l, P x) :
    ∀ x ∈ updateFirst p f l, P x := by
  induction l with
  | nil => exact h
  | cons y rest ih =>
    have hrest := ih (fun x hx => hf x (List.mem_cons_of_mem _ hx))
      (fun x hx => h x (List.mem_cons_of_mem _ hx))
    rw [updateFirst]
    split
    case isTrue hy =>
      intro x hx
      rcases List.mem_cons.mp hx with rfl | hx
      · exact hf y List.mem_cons_self hy (h y List.mem_cons_self)
      · exact h x (List.mem_cons_of_mem _ hx)
    case isFalse =>
      intro x hx
      rcases List.mem_cons.mp hx with rfl | hx
      · exact h x List.mem_cons_self
      · exact hrest x hx

variable {β : Type}

theorem map_updateFirst {p : α → Bool} {f : α → α} (g : α → β) {l : List α}
    (hg : ∀ x, g (f x) = g x) : (updateFirst p f l).map g = l.map g := by
  induction l with
  | nil => rfl
  | cons x rest ih =>
    rw [updateFirst]
    split
    · rw [List.map_cons, List.map_cons, hg]
    · rw [List.map_cons, List.map_cons, ih]

theorem map_updateLast {p : α → Bool} {f : α → α} (g : α → β) {l : List α}
    (hg : ∀ x, g (f x) = g x) : (updateLast p f l).map g = l.map g := by
  rw [updateLast, List.map_reverse, map_updateFirst g hg, List.map_reverse, List.reverse_reverse]

/-! ## The operations -/

namespace Conversation

variable (m : Moment) (c : Conversation)

/-- The turn of the user that `send_user_message` and `retry` add. -/
def userTurn (m : Moment) (content : TurnContent) : ConversationTurn :=
  { id := m.newId, author := .user, content, status := .pending, createdAt := m.created }

/-- The turn of the assistant that is added for a chunk or a reply. -/
def assistantTurn (m : Moment) (buffer : String) : ConversationTurn :=
  { id := m.newId, author := .assistant, content := .assistantText buffer, status := .delivered
    createdAt := m.created, completedAt := some m.completed }

/-- `send_user_message`; the sizes are `u64` and so is their sum. -/
def sendUserMessage (text : String) (attachments : List Attachment) :
    Except SendError (Uuid × Conversation) :=
  if c.pending.isSome then .error .busy
  else if text = "" ∧ attachments = [] then .error .empty
  else if maxAttachmentsPerTurn < attachments.length then .error .tooManyAttachments
  else if totalAttachmentsMaxBytes < (attachments.map Attachment.sizeBytes).sum % 2 ^ 64 then
    .error .totalTooLarge
  else
    .ok (m.newId,
      { turns := c.turns ++ [userTurn m (.userMessage text attachments)], pending := some m.newId })

-- `user_turn_started`
def userTurnStarted (pending : Uuid) : DateTime :=
  ((c.turns.find? fun t => t.id = pending).map ConversationTurn.createdAt).getD m.fallback

def byAssistant (t : ConversationTurn) : Bool := t.author = .assistant

/-- Appends to the text of a reply. -/
def pushStr (chunk : String) (t : ConversationTurn) : ConversationTurn :=
  match t.content with
  | .assistantText buffer => { t with content := .assistantText (buffer ++ chunk) }
  | .userMessage .. => t

-- `append_assistant_chunk`
def appendAssistantChunk (pending : Uuid) (chunk : String) : Conversation :=
  if c.pending ≠ some pending then c
  else
    let started := c.userTurnStarted m pending
    let alreadyHasAssistant := c.turns.any fun t =>
      byAssistant t && t.buffer.isSome && decide (started ≤ t.createdAt)
    if alreadyHasAssistant then { c with turns := updateLast byAssistant (pushStr chunk) c.turns }
    else { c with turns := c.turns ++ [assistantTurn m chunk] }

/-- Makes a text the final one of a reply. -/
def finalize (m : Moment) (text : String) (t : ConversationTurn) : ConversationTurn :=
  { t with
    content := match t.content with
      | .assistantText _ => .assistantText text
      | .userMessage text attachments => .userMessage text attachments
    completedAt := some m.completed
    status := .delivered }

/-- Changes the turns with an identifier. -/
def resolve (pending : Uuid) (f : ConversationTurn → ConversationTurn)
    (turns : List ConversationTurn) : List ConversationTurn :=
  turns.map fun t => if t.id = pending then f t else t

-- `record_assistant_reply`
def recordAssistantReply (pending : Uuid) (reply : String) : Conversation :=
  if c.pending ≠ some pending then c
  else
    let started := c.userTurnStarted m pending
    let assistantExists := c.turns.any fun t => byAssistant t && decide (started ≤ t.createdAt)
    let turns :=
      if assistantExists then updateLast byAssistant (finalize m reply) c.turns
      else c.turns ++ [assistantTurn m reply]
    { turns := resolve pending
        (fun t => { t with status := .delivered, completedAt := some m.resolved }) turns
      pending := none }

-- `record_failure`
def recordFailure (pending : Uuid) (error : TurnError) : Conversation :=
  if c.pending ≠ some pending then c
  else
    { turns := resolve pending
        (fun t => { t with
          status := .failed true, completedAt := some m.resolved, error := some error }) c.turns
      pending := none }

-- `retry`
def retry (failed : Uuid) : Except RetryError (Uuid × Conversation) :=
  if c.pending.isSome then .error .busy
  else
    match c.turns.find? fun t => t.id = failed with
    | none => .error .notFound
    | some t =>
      if t.status ≠ .failed true then .error .notRetryable
      else
        match t.content with
        | .userMessage text attachments =>
          .ok (m.newId,
            { turns := c.turns ++ [userTurn m (.userMessage text attachments)]
              pending := some m.newId })
        | .assistantText _ => .error .notRetryable

/-- Takes the retry from a failed turn. -/
def dismissed (t : ConversationTurn) : ConversationTurn :=
  match t.status with
  | .failed _ => { t with status := .failed false }
  | .pending | .delivered => t

-- `dismiss_failure`
def dismissFailure (failed : Uuid) : Conversation :=
  { c with turns := updateFirst (fun t => t.id = failed) dismissed c.turns }

end Conversation

/-! ## Sequences of operations -/

/-- An operation on a conversation. -/
inductive Op where
  | sendUserMessage (text : String) (attachments : List Attachment)
  | appendAssistantChunk (pending : Uuid) (chunk : String)
  | recordAssistantReply (pending : Uuid) (reply : String)
  | recordFailure (pending : Uuid) (error : TurnError)
  | retry (failed : Uuid)
  | dismissFailure (failed : Uuid)
deriving DecidableEq, Repr

/-- What an operation that may fail leaves behind. -/
def Conversation.afterwards {ε : Type} (c : Conversation) (r : Except ε (Uuid × Conversation)) :
    Conversation :=
  match r with
  | .ok (_, c') => c'
  | .error _ => c

/-- The conversation after an operation. -/
def Conversation.step (m : Moment) (c : Conversation) : Op → Conversation
  | .sendUserMessage text attachments => c.afterwards (c.sendUserMessage m text attachments)
  | .appendAssistantChunk pending chunk => c.appendAssistantChunk m pending chunk
  | .recordAssistantReply pending reply => c.recordAssistantReply m pending reply
  | .recordFailure pending error => c.recordFailure m pending error
  | .retry failed => c.afterwards (c.retry m failed)
  | .dismissFailure failed => c.dismissFailure failed

/-- A chunk or a reply that was taken for the pending turn. -/
inductive Event where
  | chunk (turn : Uuid) (text : String)
  | reply (turn : Uuid) (text : String)
deriving DecidableEq, Repr

/-- What an operation adds to the history of the answers. -/
def Conversation.heard (c : Conversation) : Op → List Event
  | .appendAssistantChunk pending chunk => if c.pending = some pending then [.chunk pending chunk] else []
  | .recordAssistantReply pending reply => if c.pending = some pending then [.reply pending reply] else []
  | .sendUserMessage .. | .recordFailure .. | .retry _ | .dismissFailure _ => []

/-- The states of a conversation with the history of its answers, where each operation draws a
new identifier and meets `ok`. -/
inductive Reachable (ok : Conversation → Moment → Op → Prop) : Conversation → List Event → Prop
  | new : Reachable ok {} []
  | step {c : Conversation} {log : List Event} (m : Moment) (op : Op) : Reachable ok c log →
      (∀ t ∈ c.turns, t.id ≠ m.newId) → ok c m op →
      Reachable ok (c.step m op) (log ++ c.heard op)

/-- A run of operations, each at its moment. -/
def run (s : Conversation × List Event) : List (Moment × Op) → Conversation × List Event
  | [] => s
  | (m, op) :: rest => run (s.1.step m op, s.2 ++ s.1.heard op) rest

/-- Each operation of a run draws a new identifier and meets `ok`. -/
def Meets (ok : Conversation → Moment → Op → Prop) (s : Conversation × List Event) :
    List (Moment × Op) → Prop
  | [] => True
  | (m, op) :: rest =>
    (∀ t ∈ s.1.turns, t.id ≠ m.newId) ∧ ok s.1 m op ∧
      Meets ok (s.1.step m op, s.2 ++ s.1.heard op) rest

instance Meets.decidable (ok : Conversation → Moment → Op → Prop) [∀ c m op, Decidable (ok c m op)] :
    (s : Conversation × List Event) → (ops : List (Moment × Op)) → Decidable (Meets ok s ops)
  | _, [] => isTrue trivial
  | s, (m, op) :: rest =>
    have := Meets.decidable ok (s.1.step m op, s.2 ++ s.1.heard op) rest
    inferInstanceAs (Decidable (_ ∧ _ ∧ _))

theorem Reachable.run {ok : Conversation → Moment → Op → Prop} {s : Conversation × List Event}
    (h : Reachable ok s.1 s.2) {ops : List (Moment × Op)} (hmeets : Meets ok s ops) :
    Reachable ok (Gui.run s ops).1 (Gui.run s ops).2 := by
  induction ops generalizing s with
  | nil => exact h
  | cons op rest ih =>
    obtain ⟨hfresh, hok, hrest⟩ := hmeets
    exact ih (.step op.1 op.2 h hfresh hok) hrest

end HiveClaw.Gui
