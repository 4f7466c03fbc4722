import HiveClaw.Gui.Conversation

/-!
# Which reply belongs to which turn

A chunk or a reply is meant for the pending turn of the user. The code looks for a turn of the
assistant that is not older than the pending turn and then changes the last turn of the
assistant. So the replies are told apart by the clock: with readings that advance each user
turn has its own reply (`paired_of_clockAdvances`), with equal readings a chunk is written into
the reply to the turn before (`sameInstant_shares_reply`).
-/

namespace HiveClaw.Gui

open Conversation

/-! ## The pending turn -/

/-- Exactly the turn named by `pending` is pending. -/
structure PendingExact (c : Conversation) : Prop where
  status : ∀ t ∈ c.turns, t.status = .pending ↔ c.pending = some t.id
  present : ∀ p, c.pending = some p → ∃ t ∈ c.turns, t.id = p

/-- With it, no identifier is used twice. -/
structure Sound (c : Conversation) : Prop extends PendingExact c where
  nodup : (c.turns.map ConversationTurn.id).Nodup

section Sound

variable {c : Conversation} {m : Moment} {op : Op}

theorem pendingExact_of_settled (h : c.pending = none)
    (hstatus : ∀ t ∈ c.turns, t.status ≠ .pending) : PendingExact c where
  status t ht := by simp [h, hstatus t ht]
  present p hp := by simp [h] at hp

theorem Sound.userTurn (hc : Sound c) (hfresh : ∀ t ∈ c.turns, t.id ≠ m.newId)
    (hpending : c.pending = none) (content : TurnContent) :
    Sound { turns := c.turns ++ [userTurn m content], pending := some m.newId } where
  nodup := by
    rw [List.map_append, List.nodup_append]
    refine ⟨hc.nodup, List.nodup_singleton _, ?_⟩
    rintro i hi j hj
    obtain ⟨t, ht, rfl⟩ := List.mem_map.mp hi
    rw [List.mem_singleton.mp hj]
    exact hfresh t ht
  status t ht := by
    rcases List.mem_append.mp ht with ht | ht
    · have hold : t.status ≠ .pending := by simp [hc.status t ht, hpending]
      have hnew : some m.newId ≠ some t.id := fun h => hfresh t ht (Option.some.inj h).symm
      simp [hold, hnew]
    · rw [List.mem_singleton.mp ht]
      exact iff_of_true rfl rfl
  present p hp := by
    refine ⟨Conversation.userTurn m content, by simp, ?_⟩
    exact Option.some.inj hp

theorem id_pushStr (chunk : String) (t : ConversationTurn) : (pushStr chunk t).id = t.id := by
  unfold pushStr
  split <;> rfl

theorem status_pushStr (chunk : String) (t : ConversationTurn) :
    (pushStr chunk t).status = t.status := by
  unfold pushStr
  split <;> rfl

theorem Sound.of_map_eq (hc : Sound c) {turns : List ConversationTurn}
    (h : turns.map (fun t => (t.id, t.status)) = c.turns.map fun t => (t.id, t.status)) :
    Sound { c with turns := turns } := by
  have hmem : ∀ {xs ys : List ConversationTurn},
      xs.map (fun t => (t.id, t.status)) = ys.map (fun t => (t.id, t.status)) →
      ∀ t ∈ xs, ∃ t' ∈ ys, t'.id = t.id ∧ t'.status = t.status := by
    intro xs ys heq t ht
    have hin : (t.id, t.status) ∈ ys.map fun t => (t.id, t.status) :=
      heq ▸ List.mem_map_of_mem (f := fun t : ConversationTurn => (t.id, t.status)) ht
    obtain ⟨t', ht', heq'⟩ := List.mem_map.mp hin
    exact ⟨t', ht', Prod.mk.inj heq'⟩
  refine ⟨⟨fun t ht => ?_, fun p hp => ?_⟩, ?_⟩
  · obtain ⟨t', ht', hid, hstatus⟩ := hmem h t ht
    rw [← hid, ← hstatus]
    exact hc.status t' ht'
  · obtain ⟨t, ht, hid⟩ := hc.present p hp
    obtain ⟨t', ht', hid', -⟩ := hmem h.symm t ht
    exact ⟨t', ht', hid'.trans hid⟩
  · have hids := congrArg (List.map Prod.fst) h
    simp only [List.map_map, Function.comp_def] at hids
    show (turns.map fun t => t.id).Nodup
    rw [hids]
    exact hc.nodup

theorem Sound.assistantTurn (hc : Sound c) (hfresh : ∀ t ∈ c.turns, t.id ≠ m.newId)
    (buffer : String) : Sound { c with turns := c.turns ++ [assistantTurn m buffer] } where
  nodup := by
    rw [List.map_append, List.nodup_append]
    refine ⟨hc.nodup, List.nodup_singleton _, ?_⟩
    rintro i hi j hj
    obtain ⟨t, ht, rfl⟩ := List.mem_map.mp hi
    rw [List.mem_singleton.mp hj]
    exact hfresh t ht
  status t ht := by
    rcases List.mem_append.mp ht with ht | ht
    · exact hc.status t ht
    · rw [List.mem_singleton.mp ht]
      refine iff_of_false (fun h => by cases h) fun hp => ?_
      obtain ⟨t', ht', hid⟩ := hc.present _ hp
      exact hfresh t' ht' hid
  present p hp := by
    obtain ⟨t, ht, hid⟩ := hc.present p hp
    exact ⟨t, List.mem_append_left _ ht, hid⟩

variable {p : Uuid}

theorem map_id_resolve {f : ConversationTurn → ConversationTurn} (hf : ∀ t, (f t).id = t.id)
    (turns : List ConversationTurn) :
    (resolve p f turns).map ConversationTurn.id = turns.map ConversationTurn.id := by
  rw [resolve, List.map_map]
  refine List.map_congr_left fun t _ => ?_
  show (if t.id = p then f t else t).id = t.id
  split
  · exact hf t
  · rfl

theorem Sound.resolve {p : Uuid} {f : ConversationTurn → ConversationTurn}
    {turns : List ConversationTurn} (hf : ∀ t, (f t).id = t.id)
    (hdone : ∀ t, (f t).status ≠ .pending)
    (hnodup : (turns.map ConversationTurn.id).Nodup)
    (hothers : ∀ t ∈ turns, t.id ≠ p → t.status ≠ .pending) :
    Sound { turns := Conversation.resolve p f turns, pending := none } where
  toPendingExact := by
    refine pendingExact_of_settled rfl fun t ht => ?_
    obtain ⟨t', ht', rfl⟩ := List.mem_map.mp ht
    split
    · exact hdone t'
    · next hid => exact hothers t' ht' hid
  nodup := by
    show ((Conversation.resolve p f turns).map ConversationTurn.id).Nodup
    rw [map_id_resolve hf]
    exact hnodup

theorem Sound.others (hc : Sound c) (hp : c.pending = some p) :
    ∀ t ∈ c.turns, t.id ≠ p → t.status ≠ .pending := by
  intro t ht hid hstatus
  have hpending := (hc.status t ht).mp hstatus
  rw [hp, Option.some.injEq] at hpending
  exact hid hpending.symm

theorem Sound.recordAssistantReply (hc : Sound c) (hfresh : ∀ t ∈ c.turns, t.id ≠ m.newId)
    {p : Uuid} (hp : c.pending = some p) (reply : String) :
    Sound (c.recordAssistantReply m p reply) := by
  rw [Conversation.recordAssistantReply, if_neg (not_not_intro hp)]
  dsimp only
  refine Sound.resolve (fun _ => rfl) (fun _ h => by cases h) ?_ ?_
  · split
    · have hids : (updateLast byAssistant (finalize m reply) c.turns).map ConversationTurn.id =
          c.turns.map ConversationTurn.id := map_updateLast _ fun _ => rfl
      rw [hids]
      exact hc.nodup
    · exact (hc.assistantTurn hfresh reply).nodup
  · split
    · intro t ht
      rw [updateLast, List.mem_reverse] at ht
      refine forall_mem_updateFirst (P := fun t => t.id ≠ p → t.status ≠ .pending)
        (fun _ _ _ _ _ h => by cases h) (fun t ht => ?_) t ht
      exact hc.others hp t (List.mem_reverse.mp ht)
    · intro t ht hid
      rcases List.mem_append.mp ht with ht | ht
      · exact hc.others hp t ht hid
      · rw [List.mem_singleton.mp ht]
        exact fun h => by cases h

/-- The turns stay sound under every operation, whatever the clock says. -/
theorem Sound.step (hc : Sound c) (hfresh : ∀ t ∈ c.turns, t.id ≠ m.newId) :
    Sound (c.step m op) := by
  cases op with
  | sendUserMessage text attachments =>
    simp only [Conversation.step, sendUserMessage]
    split
    · exact hc
    · next hpending =>
      rw [Bool.not_eq_true, Option.isSome_eq_false_iff, Option.isNone_iff_eq_none] at hpending
      split
      · exact hc
      · split
        · exact hc
        · split
          · exact hc
          · exact hc.userTurn hfresh hpending _
  | appendAssistantChunk p chunk =>
    simp only [Conversation.step, appendAssistantChunk]
    split
    · exact hc
    · split
      · refine hc.of_map_eq (map_updateLast _ fun t => ?_)
        rw [id_pushStr, status_pushStr]
      · exact hc.assistantTurn hfresh chunk
  | recordAssistantReply p reply =>
    by_cases hp : c.pending = some p
    · exact hc.recordAssistantReply hfresh hp reply
    · rw [Conversation.step, Conversation.recordAssistantReply, if_pos hp]
      exact hc
  | recordFailure p error =>
    simp only [Conversation.step, recordFailure]
    split
    · exact hc
    · next hp =>
      exact Sound.resolve (fun _ => rfl) (fun _ h => by cases h) hc.nodup
        (hc.others (not_not.mp hp))
  | retry failed =>
    simp only [Conversation.step, retry]
    split
    · exact hc
    · next hpending =>
      rw [Bool.not_eq_true, Option.isSome_eq_false_iff, Option.isNone_iff_eq_none] at hpending
      split
      · exact hc
      · split
        · exact hc
        · split
          · exact hc.userTurn hfresh hpending _
          · exact hc
  | dismissFailure failed =>
    have hid : ∀ t : ConversationTurn, (dismissed t).id = t.id := by
      intro t
      unfold dismissed
      split <;> rfl
    have hstatus : ∀ t : ConversationTurn, (dismissed t).status = .pending ↔ t.status = .pending := by
      intro t
      unfold dismissed
      split
      · next h => simp [h]
      · exact Iff.rfl
      · exact Iff.rfl
    -- dismissing renames no turn and leaves none pending
    have hids : (c.dismissFailure failed).turns.map ConversationTurn.id =
        c.turns.map ConversationTurn.id := map_updateFirst _ hid
    refine ⟨⟨?_, fun p hp => ?_⟩, ?_⟩
    · refine forall_mem_updateFirst (fun t _ _ ht => ?_) hc.status
      rw [hstatus, hid]
      exact ht
    · obtain ⟨t, ht, rfl⟩ := hc.present p hp
      have hmem : t.id ∈ (c.dismissFailure failed).turns.map ConversationTurn.id :=
        hids ▸ List.mem_map_of_mem ht
      obtain ⟨t', ht', hid'⟩ := List.mem_map.mp hmem
      exact ⟨t', ht', hid'⟩
    · show ((c.dismissFailure failed).turns.map ConversationTurn.id).Nodup
      rw [hids]
      exact hc.nodup

theorem Sound.new : Sound {} where
  status t ht := absurd ht List.not_mem_nil
  present p hp := by cases hp
  nodup := List.nodup_nil

theorem Sound.of_reachable {ok : Conversation → Moment → Op → Prop} {log : List Event}
    (h : Reachable ok c log) : Sound c := by
  induction h with
  | new => exact .new
  | step m op _ hfresh _ ih => exact ih.step hfresh

end Sound

/-! ## Replies and the turns they answer -/

/-- The turns of the assistant, each with the turn of the user before it. -/
def repliesFrom (owner : Option Uuid) :
    List ConversationTurn → List (Option Uuid × ConversationTurn)
  | [] => []
  | t :: rest =>
    if t.author = .user then repliesFrom (some t.id) rest
    else (owner, t) :: repliesFrom owner rest

/-- The replies of a conversation. -/
def replies (turns : List ConversationTurn) : List (Option Uuid × ConversationTurn) :=
  repliesFrom none turns

/-- The chunks that were taken for a turn. -/
def chunksOf (log : List Event) (turn : Uuid) : List String :=
  log.filterMap fun
    | .chunk u text => if u = turn then some text else none
    | .reply .. => none

/-- The replies that were taken for a turn. -/
def finalsOf (log : List Event) (turn : Uuid) : List String :=
  log.filterMap fun
    | .reply u text => if u = turn then some text else none
    | .chunk .. => none

/-- What the reply to a turn should say: the final text, or else all chunks. -/
def replyText (log : List Event) (turn : Uuid) : String :=
  (finalsOf log turn).getLast?.getD (String.join (chunksOf log turn))

def Event.turn : Event → Uuid
  | .chunk turn _ | .reply turn _ => turn

/-- Each reply answers one turn of the user, with its text, and no turn has two. -/
structure Paired (turns : List ConversationTurn) (log : List Event) : Prop where
  owned : ∀ x ∈ replies turns, ∃ u, x.1 = some u ∧ x.2.buffer = some (replyText log u)
  once : ((replies turns).map Prod.fst).Nodup

section Replies

variable {turns before after : List ConversationTurn} {u : ConversationTurn} {log : List Event}

theorem repliesFrom_append (hu : u.author = .user) (owner : Option Uuid) :
    repliesFrom owner (before ++ u :: after) =
      repliesFrom owner before ++ repliesFrom (some u.id) after := by
  induction before generalizing owner with
  | nil => simp [repliesFrom, hu]
  | cons t rest ih =>
    simp only [List.cons_append, repliesFrom]
    split
    · exact ih _
    · rw [ih, List.cons_append]

theorem owner_of_mem {owner : Option Uuid} {x : Option Uuid × ConversationTurn}
    (hx : x ∈ repliesFrom owner turns) : x.1 = owner ∨ ∃ t ∈ turns, x.1 = some t.id := by
  induction turns generalizing owner with
  | nil => cases hx
  | cons t rest ih =>
    rw [repliesFrom] at hx
    split at hx
    · rcases ih hx with h | ⟨t', ht', h⟩
      · exact .inr ⟨t, List.mem_cons_self, h⟩
      · exact .inr ⟨t', List.mem_cons_of_mem _ ht', h⟩
    · rcases List.mem_cons.mp hx with rfl | hx
      · exact .inl rfl
      · rcases ih hx with h | ⟨t', ht', h⟩
        · exact .inl h
        · exact .inr ⟨t', List.mem_cons_of_mem _ ht', h⟩

theorem repliesFrom_updateFirst {p : ConversationTurn → Bool}
    {f : ConversationTurn → ConversationTurn} (hid : ∀ t, (f t).id = t.id)
    (hauthor : ∀ t, (f t).author = t.author)
    (hreply : ∀ t ∈ turns, t.author = .assistant → f t = t) (owner : Option Uuid) :
    repliesFrom owner (updateFirst p f turns) = repliesFrom owner turns := by
  induction turns generalizing owner with
  | nil => rfl
  | cons t rest ih =>
    have ih := ih fun t' ht' => hreply t' (List.mem_cons_of_mem _ ht')
    rw [updateFirst]
    split
    · simp only [repliesFrom, hauthor, hid]
      split
      · rfl
      · next hnot =>
        have hassistant : t.author = .assistant := by
          cases h : t.author with
          | user => exact absurd h hnot
          | assistant => rfl
        rw [hreply t List.mem_cons_self hassistant]
    · simp only [repliesFrom, ih]

variable {p : Uuid} {s : String}

theorem replyText_append {e : Event} {v : Uuid} (he : e = .chunk p s ∨ e = .reply p s)
    (hv : v ≠ p) : replyText (log ++ [e]) v = replyText log v := by
  have hchunks : chunksOf (log ++ [e]) v = chunksOf log v := by
    rcases he with rfl | rfl <;> simp [chunksOf, List.filterMap_append, Ne.symm hv]
  have hfinals : finalsOf (log ++ [e]) v = finalsOf log v := by
    rcases he with rfl | rfl <;> simp [finalsOf, List.filterMap_append, Ne.symm hv]
  rw [replyText, replyText, hchunks, hfinals]

/-- A conversation whose last turn of the user has at most one turn after it is paired again
when that turn and its reply change. -/
theorem Paired.change {log' : List Event} {u' : ConversationTurn} {after' : List ConversationTurn}
    (h : Paired (before ++ u :: after) log) (hu : u.author = .user)
    (hnew : u.id ∉ before.map ConversationTurn.id) (hu' : u'.author = .user)
    (hid : u'.id = u.id)
    (hafter : after' = [] ∨ ∃ a, after' = [a] ∧ a.author = .assistant ∧
      a.buffer = some (replyText log' u.id))
    (hlog : ∀ v, v ≠ u.id → replyText log' v = replyText log v) :
    Paired (before ++ u' :: after') log' := by
  have hold : replies (before ++ u :: after) = replies before ++ repliesFrom (some u.id) after :=
    repliesFrom_append hu none
  have hreplies : replies (before ++ u' :: after') =
      replies before ++ repliesFrom (some u.id) after' := by
    rw [replies, repliesFrom_append hu', hid]
    rfl
  -- the replies before the turn keep their owners, which are other turns
  have hbefore : ∀ x ∈ replies before, ∃ v, x.1 = some v ∧ v ≠ u.id ∧
      x.2.buffer = some (replyText log v) := by
    intro x hx
    obtain ⟨v, hv, htext⟩ := h.owned x (hold ▸ List.mem_append_left _ hx)
    refine ⟨v, hv, fun hvu => hnew ?_, htext⟩
    rcases owner_of_mem hx with hnone | ⟨t, ht, howner⟩
    · rw [hv] at hnone
      cases hnone
    · rw [hv, Option.some.injEq] at howner
      rw [← hvu, howner]
      exact List.mem_map_of_mem ht
  have honce : ((replies before).map Prod.fst).Nodup := by
    have hall := h.once
    rw [hold, List.map_append] at hall
    exact (List.nodup_append.mp hall).1
  rcases hafter with rfl | ⟨a, rfl, hauthor, htext⟩
  · rw [repliesFrom, List.append_nil] at hreplies
    refine ⟨fun x hx => ?_, hreplies ▸ honce⟩
    rw [hreplies] at hx
    obtain ⟨v, hv, hne, hbuffer⟩ := hbefore x hx
    exact ⟨v, hv, by rw [hbuffer, hlog v hne]⟩
  · have hlast : repliesFrom (some u.id) [a] = [(some u.id, a)] := by
      simp [repliesFrom, hauthor]
    rw [hlast] at hreplies
    refine ⟨fun x hx => ?_, ?_⟩
    · rw [hreplies] at hx
      rcases List.mem_append.mp hx with hx | hx
      · obtain ⟨v, hv, hne, hbuffer⟩ := hbefore x hx
        exact ⟨v, hv, by rw [hbuffer, hlog v hne]⟩
      · rw [List.mem_singleton.mp hx]
        exact ⟨u.id, rfl, htext⟩
    · rw [hreplies, List.map_append, List.nodup_append]
      refine ⟨honce, List.nodup_singleton _, ?_⟩
      rintro o ho o' ho'
      obtain ⟨x, hx, rfl⟩ := List.mem_map.mp ho
      obtain ⟨v, hv, hne, -⟩ := hbefore x hx
      rw [List.mem_singleton.mp ho', hv]
      exact fun heq => hne (Option.some.inj heq)

theorem chunksOf_chunk (p : Uuid) (s : String) :
    chunksOf (log ++ [.chunk p s]) p = chunksOf log p ++ [s] := by
  simp [chunksOf, List.filterMap_append]

theorem finalsOf_chunk (p v : Uuid) (s : String) :
    finalsOf (log ++ [.chunk p s]) v = finalsOf log v := by
  simp [finalsOf, List.filterMap_append]

theorem replyText_chunk (hfinals : finalsOf log p = []) :
    replyText (log ++ [.chunk p s]) p = replyText log p ++ s := by
  simp only [replyText, chunksOf_chunk, finalsOf_chunk, hfinals, List.getLast?_nil,
    Option.getD_none, String.join_append, String.join_cons, String.join_nil, String.append_empty]

theorem replyText_reply (p : Uuid) (s : String) : replyText (log ++ [.reply p s]) p = s := by
  simp [replyText, finalsOf, List.filterMap_append]

theorem history_of_new (h : ∀ e ∈ log, e.turn ≠ p) : finalsOf log p = [] ∧ chunksOf log p = [] := by
  simp only [finalsOf, chunksOf, List.filterMap_eq_nil_iff]
  constructor
  · intro e he
    cases e with
    | chunk u text => rfl
    | reply u text => simpa [Event.turn] using h _ he
  · intro e he
    cases e with
    | chunk u text => simpa [Event.turn] using h _ he
    | reply u text => rfl

end Replies

/-! ## Clocks that advance -/

/-- A new turn of the user is later than every reply before it, and a reply is not earlier than
the turn it answers. -/
def ClockAdvances (c : Conversation) (m : Moment) : Op → Prop
  | .sendUserMessage .. | .retry _ =>
    ∀ t ∈ c.turns, t.author = .assistant → t.createdAt < m.created
  | .appendAssistantChunk p _ | .recordAssistantReply p _ =>
    ∀ t ∈ c.turns, t.id = p → t.createdAt ≤ m.created
  | .recordFailure .. | .dismissFailure _ => True

/-- The pending turn, what stands before it and its reply, as far as there is one. -/
structure Open (c : Conversation) (log : List Event) (p : Uuid) (before : List ConversationTurn)
    (u : ConversationTurn) (after : List ConversationTurn) : Prop where
  turns : c.turns = before ++ u :: after
  id : u.id = p
  author : u.author = .user
  older : ∀ t ∈ before, t.author = .assistant → t.createdAt < u.createdAt
  finals : finalsOf log p = []
  reply : (after = [] ∧ chunksOf log p = []) ∨
    ∃ a, after = [a] ∧ a.author = .assistant ∧ u.createdAt ≤ a.createdAt

/-- What holds of the conversation along a run with such a clock. -/
structure Inv (c : Conversation) (log : List Event) : Prop extends Sound c where
  assistants : ∀ t ∈ c.turns, t.author = .assistant → t.buffer.isSome = true ∧ t.status = .delivered
  logged : ∀ e ∈ log, ∃ t ∈ c.turns, t.author = .user ∧ t.id = e.turn
  paired : Paired c.turns log
  pendingOpen : ∀ p, c.pending = some p → ∃ before u after, Open c log p before u after

section Inv

variable {c : Conversation} {m : Moment} {log : List Event} {p : Uuid}
  {before after : List ConversationTurn} {u : ConversationTurn}

theorem Open.not_mem (h : Open c log p before u after) (hc : Sound c) :
    u.id ∉ before.map ConversationTurn.id := by
  have hnodup := hc.nodup
  rw [h.turns, List.map_append, List.map_cons, List.nodup_append] at hnodup
  exact fun hmem => hnodup.2.2 _ hmem _ List.mem_cons_self rfl

theorem Open.started (h : Open c log p before u after) (hc : Sound c) :
    c.userTurnStarted m p = u.createdAt := by
  have hbefore : before.find? (fun t => t.id = p) = none := by
    rw [List.find?_eq_none]
    intro t ht hid
    refine h.not_mem hc ?_
    rw [h.id, ← of_decide_eq_true hid]
    exact List.mem_map_of_mem ht
  unfold userTurnStarted
  rw [h.turns, List.find?_append, hbefore, List.find?_cons_of_pos (by simp [h.id])]
  rfl

theorem Open.any_iff (h : Open c log p before u after) :
    (c.turns.any fun t => byAssistant t && decide (u.createdAt ≤ t.createdAt)) = true ↔
      after ≠ [] := by
  rw [List.any_eq_true]
  constructor
  · rintro ⟨t, ht, htrue⟩ rfl
    obtain ⟨hassistant, hle⟩ := (Bool.and_eq_true ..).mp htrue
    have hassistant : t.author = .assistant := of_decide_eq_true hassistant
    have hle : u.createdAt ≤ t.createdAt := of_decide_eq_true hle
    rw [h.turns] at ht
    rcases List.mem_append.mp ht with ht | ht
    · exact absurd hle (not_le.mpr (h.older t ht hassistant))
    · rw [List.mem_singleton.mp ht, h.author] at hassistant
      cases hassistant
  · intro hne
    rcases h.reply with ⟨hnil, -⟩ | ⟨a, rfl, hauthor, hle⟩
    · exact absurd hnil hne
    · refine ⟨a, ?_, ?_⟩
      · rw [h.turns]
        simp
      · simp [byAssistant, hauthor, hle]

theorem Inv.any_buffer (hc : Inv c log) (started : DateTime) :
    (c.turns.any fun t => byAssistant t && t.buffer.isSome && decide (started ≤ t.createdAt)) =
      c.turns.any fun t => byAssistant t && decide (started ≤ t.createdAt) := by
  rw [Bool.eq_iff_iff, List.any_eq_true, List.any_eq_true]
  refine exists_congr fun t => and_congr_right fun ht => ?_
  by_cases hauthor : t.author = .assistant
  · simp [(hc.assistants t ht hauthor).1]
  · simp [byAssistant, hauthor]

/-- The pending turn or its reply changed, and what was taken for it. -/
structure Changed (c' : Conversation) (log log' : List Event) (before : List ConversationTurn)
    (u : ConversationTurn) : Prop where
  change : ∃ u' after', c'.turns = before ++ u' :: after' ∧ u'.author = .user ∧ u'.id = u.id ∧
    (after' = [] ∨ ∃ a, after' = [a] ∧ a.author = .assistant ∧ a.status = .delivered ∧
      a.buffer = some (replyText log' u.id)) ∧
    (c'.pending = none ∨ ∃ a, c'.pending = some u.id ∧ u' = u ∧ after' = [a] ∧
      a.author = .assistant ∧ finalsOf log' u.id = [] ∧ u.createdAt ≤ a.createdAt)
  texts : ∀ v, v ≠ u.id → replyText log' v = replyText log v
  events : ∀ e ∈ log', e ∈ log ∨ e.turn = u.id

theorem Changed.inv (hc : Inv c log) (h : Open c log p before u after) {c' : Conversation}
    {log' : List Event} (hsound : Sound c') (hchange : Changed c' log log' before u) :
    Inv c' log' := by
  obtain ⟨u', after', hturns, hauthor, hid, hafter, hpending⟩ := hchange.change
  have hu : u ∈ c.turns := h.turns ▸ List.mem_append_right _ List.mem_cons_self
  have hu' : u' ∈ c'.turns := hturns ▸ List.mem_append_right _ List.mem_cons_self
  refine ⟨hsound, ?_, ?_, ?_, ?_⟩
  · intro t ht hassistant
    rw [hturns] at ht
    rcases List.mem_append.mp ht with ht | ht
    · exact hc.assistants t (h.turns ▸ List.mem_append_left _ ht) hassistant
    · rcases List.mem_cons.mp ht with rfl | ht
      · rw [hauthor] at hassistant
        cases hassistant
      · rcases hafter with rfl | ⟨a, rfl, -, hstatus, hbuffer⟩
        · cases ht
        · rw [List.mem_singleton.mp ht]
          exact ⟨by rw [hbuffer, Option.isSome_some], hstatus⟩
  · intro e he
    rcases hchange.events e he with he | heq
    · obtain ⟨t, ht, huser, htid⟩ := hc.logged e he
      rw [h.turns] at ht
      rcases List.mem_append.mp ht with ht | ht
      · exact ⟨t, hturns ▸ List.mem_append_left _ ht, huser, htid⟩
      · rcases List.mem_cons.mp ht with rfl | ht
        · exact ⟨u', hu', hauthor, hid.trans htid⟩
        · rcases h.reply with ⟨rfl, -⟩ | ⟨a, rfl, hassistant, -⟩
          · cases ht
          · rw [List.mem_singleton.mp ht, hassistant] at huser
            cases huser
    · exact ⟨u', hu', hauthor, hid.trans heq.symm⟩
  · rw [hturns]
    have hpaired := hc.paired
    rw [h.turns] at hpaired
    refine hpaired.change h.author (h.not_mem hc.toSound) hauthor hid ?_ hchange.texts
    rcases hafter with rfl | ⟨a, rfl, hassistant, -, hbuffer⟩
    · exact .inl rfl
    · exact .inr ⟨a, rfl, hassistant, hbuffer⟩
  · intro q hq
    rcases hpending with hnone | ⟨a, hsome, rfl, rfl, hassistant, hfinals, hle⟩
    · rw [hnone] at hq
      cases hq
    · rw [hsome, Option.some.injEq] at hq
      subst hq
      exact ⟨before, u', [a], hturns, rfl, hauthor, h.older, hfinals,
        .inr ⟨a, rfl, hassistant, hle⟩⟩

theorem resolve_split {f : ConversationTurn → ConversationTurn}
    (hbefore : u.id ∉ before.map ConversationTurn.id)
    (hafter : u.id ∉ after.map ConversationTurn.id) :
    resolve u.id f (before ++ u :: after) = before ++ f u :: after := by
  have hothers : ∀ {xs : List ConversationTurn}, u.id ∉ xs.map ConversationTurn.id →
      xs.map (fun t => if t.id = u.id then f t else t) = xs := by
    intro xs hxs
    have hsame : ∀ t ∈ xs, (if t.id = u.id then f t else t) = id t := by
      intro t ht
      have hne : t.id ≠ u.id := fun heq => hxs (heq ▸ List.mem_map_of_mem ht)
      exact if_neg hne
    rw [List.map_congr_left hsame, List.map_id]
  unfold resolve
  rw [List.map_append, List.map_cons, hothers hbefore, hothers hafter, if_pos rfl]

/-- The reply after the pending turn is the one that the log tells of. -/
theorem Open.buffer {a : ConversationTurn} (h : Open c log p before u [a]) (hc : Inv c log)
    (ha : a.author = .assistant) : a.buffer = some (replyText log u.id) := by
  have hreplies : replies c.turns = replies before ++ [(some u.id, a)] := by
    rw [h.turns, replies, repliesFrom_append h.author]
    simp [repliesFrom, ha, replies]
  obtain ⟨v, hv, hbuffer⟩ := hc.paired.owned (some u.id, a) (by rw [hreplies]; simp)
  rw [Option.some.inj hv]
  exact hbuffer

theorem Open.not_mem_after (h : Open c log p before u after) (hc : Sound c) :
    u.id ∉ after.map ConversationTurn.id := by
  have hnodup := hc.nodup
  rw [h.turns, List.map_append, List.map_cons, List.nodup_append] at hnodup
  exact (List.nodup_cons.mp hnodup.2.1).1

theorem events_append {e : Event} (he : e.turn = u.id) :
    ∀ e' ∈ log ++ [e], e' ∈ log ∨ e'.turn = u.id := by
  intro e' he'
  rcases List.mem_append.mp he' with he' | he'
  · exact .inl he'
  · rw [List.mem_singleton.mp he']
    exact .inr he

theorem changed_chunk (hc : Inv c log) (h : Open c log p before u after) (hp : c.pending = some p)
    (hclock : ∀ t ∈ c.turns, t.id = p → t.createdAt ≤ m.created) (chunk : String) :
    Changed (c.appendAssistantChunk m p chunk) log (log ++ [.chunk p chunk]) before u := by
  obtain rfl := h.id
  have hu : u ∈ c.turns := h.turns ▸ List.mem_append_right _ List.mem_cons_self
  have hfinals : finalsOf (log ++ [.chunk u.id chunk]) u.id = [] := by
    rw [finalsOf_chunk, h.finals]
  refine ⟨?_, fun v hv => replyText_append (.inl rfl) hv, events_append rfl⟩
  rw [appendAssistantChunk, if_neg (not_not_intro hp)]
  dsimp only
  rw [hc.any_buffer, h.started hc.toSound]
  rcases h.reply with ⟨rfl, hchunks⟩ | ⟨a, rfl, hauthor, hle⟩
  · -- the first chunk makes the reply
    have htext : replyText (log ++ [.chunk u.id chunk]) u.id = chunk := by
      rw [replyText_chunk h.finals, replyText, h.finals, hchunks]
      simp
    rw [if_neg (fun hany => h.any_iff.mp hany rfl)]
    refine ⟨u, [assistantTurn m chunk], ?_, h.author, rfl, .inr ⟨_, rfl, rfl, rfl, ?_⟩,
      .inr ⟨_, hp, rfl, rfl, rfl, hfinals, hclock u hu rfl⟩⟩
    · rw [h.turns, List.append_assoc]
      rfl
    · rw [htext]
      rfl
  · -- a later chunk is written behind it
    have hbuffer : (pushStr chunk a).buffer =
        some (replyText (log ++ [.chunk u.id chunk]) u.id) := by
      have hold := h.buffer hc hauthor
      rw [replyText_chunk h.finals]
      unfold pushStr
      unfold ConversationTurn.buffer at hold ⊢
      split at hold
      · rw [← Option.some.inj hold]
      · cases hold
    have hkeeps : (pushStr chunk a).author = a.author ∧ (pushStr chunk a).createdAt = a.createdAt := by
      unfold pushStr
      split <;> exact ⟨rfl, rfl⟩
    have hstatus : a.status = .delivered :=
      (hc.assistants a (h.turns ▸ by simp) hauthor).2
    rw [if_pos (h.any_iff.mpr (List.cons_ne_nil _ _))]
    refine ⟨u, [pushStr chunk a], ?_, h.author, rfl, .inr ⟨_, rfl, ?_, ?_, hbuffer⟩,
      .inr ⟨_, hp, rfl, rfl, ?_, hfinals, ?_⟩⟩
    · have hsplit : before ++ u :: [a] = (before ++ [u]) ++ a :: [] := by simp
      rw [h.turns, hsplit, updateLast_append _ (List.forall_mem_nil _) (by simp [byAssistant, hauthor])]
      simp
    · rw [hkeeps.1, hauthor]
    · rw [status_pushStr, hstatus]
    · rw [hkeeps.1, hauthor]
    · rw [hkeeps.2]
      exact hle

theorem changed_reply (hc : Inv c log) (h : Open c log p before u after) (hp : c.pending = some p)
    (hfresh : ∀ t ∈ c.turns, t.id ≠ m.newId) (reply : String) :
    Changed (c.recordAssistantReply m p reply) log (log ++ [.reply p reply]) before u := by
  obtain rfl := h.id
  have hu : u ∈ c.turns := h.turns ▸ List.mem_append_right _ List.mem_cons_self
  refine ⟨?_, fun v hv => replyText_append (.inr rfl) hv, events_append rfl⟩
  rw [recordAssistantReply, if_neg (not_not_intro hp)]
  dsimp only
  rw [h.started hc.toSound]
  rcases h.reply with ⟨rfl, -⟩ | ⟨a, rfl, hauthor, -⟩
  · have hnew : u.id ∉ [assistantTurn m reply].map ConversationTurn.id := by
      intro hmem
      exact hfresh u hu (List.mem_singleton.mp hmem)
    rw [if_neg (fun hany => h.any_iff.mp hany rfl)]
    refine ⟨{ u with status := .delivered, completedAt := some m.resolved },
      [assistantTurn m reply], ?_, ?_, ?_, .inr ⟨_, rfl, rfl, rfl, ?_⟩, .inl rfl⟩
    · have hsplit : before ++ [u] ++ [assistantTurn m reply] =
          before ++ u :: [assistantTurn m reply] := by simp
      rw [h.turns, hsplit, resolve_split (h.not_mem hc.toSound) hnew]
    · exact h.author
    · rfl
    · rw [replyText_reply]
      rfl
  · have hbuffer : (finalize m reply a).buffer = some reply := by
      have hold := h.buffer hc hauthor
      unfold ConversationTurn.buffer at hold
      split at hold
      · next text htext => simp [ConversationTurn.buffer, finalize, htext]
      · cases hold
    rw [if_pos (h.any_iff.mpr (List.cons_ne_nil _ _))]
    refine ⟨{ u with status := .delivered, completedAt := some m.resolved },
      [finalize m reply a], ?_, ?_, ?_, .inr ⟨_, rfl, hauthor, rfl, ?_⟩, .inl rfl⟩
    · have hsplit : before ++ u :: [a] = (before ++ [u]) ++ a :: [] := by simp
      have hjoin : (before ++ [u]) ++ finalize m reply a :: [] =
          before ++ u :: [finalize m reply a] := by simp
      have hafter : u.id ∉ [finalize m reply a].map ConversationTurn.id :=
        h.not_mem_after hc.toSound
      rw [h.turns, hsplit, updateLast_append _ (List.forall_mem_nil _) (by simp [byAssistant, hauthor]), hjoin,
        resolve_split (h.not_mem hc.toSound) hafter]
    · exact h.author
    · rfl
    · rw [replyText_reply, hbuffer]

theorem changed_failure (hc : Inv c log) (h : Open c log p before u after)
    (hp : c.pending = some p) (error : TurnError) :
    Changed (c.recordFailure m p error) log log before u := by
  obtain rfl := h.id
  refine ⟨?_, fun _ _ => rfl, fun e he => .inl he⟩
  rw [recordFailure, if_neg (not_not_intro hp)]
  dsimp only
  refine ⟨{ u with status := .failed true, completedAt := some m.resolved, error := some error },
    after, ?_, ?_, ?_, ?_, .inl rfl⟩
  · rw [h.turns, resolve_split (h.not_mem hc.toSound) (h.not_mem_after hc.toSound)]
  · exact h.author
  · rfl
  · rcases h.reply with ⟨hnil, -⟩ | ⟨a, rfl, hauthor, -⟩
    · exact .inl hnil
    · have ha : a ∈ c.turns := h.turns ▸ by simp
      exact .inr ⟨a, rfl, hauthor, (hc.assistants a ha hauthor).2, h.buffer hc hauthor⟩

/-- What an operation does to the turns and their history. -/
inductive StepCase (c : Conversation) (m : Moment) (log : List Event) (c' : Conversation) :
    List Event → Prop
  | same : c' = c → StepCase c m log c' log
  | asked (content : TurnContent) : c.pending = none →
      (∀ t ∈ c.turns, t.author = .assistant → t.createdAt < m.created) →
      c' = { turns := c.turns ++ [userTurn m content], pending := some m.newId } →
      StepCase c m log c' log
  | answered {p : Uuid} {before after : List ConversationTurn} {u : ConversationTurn}
      {log' : List Event} : c.pending = some p → Open c log p before u after →
      Changed c' log log' before u → StepCase c m log c' log'
  | dismissed (failed : Uuid) : c' = c.dismissFailure failed → StepCase c m log c' log

variable {op : Op}

theorem Inv.step_cases (hc : Inv c log) (hfresh : ∀ t ∈ c.turns, t.id ≠ m.newId)
    (hclock : ClockAdvances c m op) : StepCase c m log (c.step m op) (log ++ c.heard op) := by
  cases op with
  | sendUserMessage text attachments =>
    simp only [Conversation.step, sendUserMessage, Conversation.heard, List.append_nil]
    split
    · exact .same rfl
    · next hpending =>
      rw [Bool.not_eq_true, Option.isSome_eq_false_iff, Option.isNone_iff_eq_none] at hpending
      split
      · exact .same rfl
      · split
        · exact .same rfl
        · split
          · exact .same rfl
          · exact .asked _ hpending hclock rfl
  | appendAssistantChunk p chunk =>
    by_cases hp : c.pending = some p
    · obtain ⟨before, u, after, hopen⟩ := hc.pendingOpen p hp
      rw [Conversation.heard, if_pos hp]
      exact .answered hp hopen (changed_chunk hc hopen hp hclock chunk)
    · rw [Conversation.heard, if_neg hp, List.append_nil]
      refine .same ?_
      rw [Conversation.step, appendAssistantChunk, if_pos hp]
  | recordAssistantReply p reply =>
    by_cases hp : c.pending = some p
    · obtain ⟨before, u, after, hopen⟩ := hc.pendingOpen p hp
      rw [Conversation.heard, if_pos hp]
      exact .answered hp hopen (changed_reply hc hopen hp hfresh reply)
    · rw [Conversation.heard, if_neg hp, List.append_nil]
      refine .same ?_
      rw [Conversation.step, Conversation.recordAssistantReply, if_pos hp]
  | recordFailure p error =>
    rw [Conversation.heard, List.append_nil]
    by_cases hp : c.pending = some p
    · obtain ⟨before, u, after, hopen⟩ := hc.pendingOpen p hp
      exact .answered hp hopen (changed_failure hc hopen hp error)
    · refine .same ?_
      rw [Conversation.step, recordFailure, if_pos hp]
  | retry failed =>
    simp only [Conversation.step, retry, Conversation.heard, List.append_nil]
    split
    · exact .same rfl
    · next hpending =>
      rw [Bool.not_eq_true, Option.isSome_eq_false_iff, Option.isNone_iff_eq_none] at hpending
      split
      · exact .same rfl
      · split
        · exact .same rfl
        · split
          · exact .asked _ hpending hclock rfl
          · exact .same rfl
  | dismissFailure failed =>
    rw [Conversation.heard, List.append_nil]
    exact .dismissed failed rfl

theorem replies_asked (content : TurnContent) :
    replies (c.turns ++ [userTurn m content]) = replies c.turns := by
  have hsplit : c.turns ++ [userTurn m content] = c.turns ++ userTurn m content :: [] := rfl
  rw [hsplit, replies, repliesFrom_append rfl, repliesFrom, List.append_nil]
  rfl

theorem dismissed_assistant {t : ConversationTurn} (h : t.status = .delivered) :
    dismissed t = t := by
  rw [dismissed, h]

theorem fields_dismissed (t : ConversationTurn) :
    (dismissed t).id = t.id ∧ (dismissed t).author = t.author ∧
      (dismissed t).buffer = t.buffer ∧ (dismissed t).createdAt = t.createdAt := by
  unfold dismissed
  split <;> exact ⟨rfl, rfl, rfl, rfl⟩

theorem Inv.replies_dismissed (hc : Inv c log) (failed : Uuid) :
    replies (c.dismissFailure failed).turns = replies c.turns :=
  repliesFrom_updateFirst (fun t => (fields_dismissed t).1) (fun t => (fields_dismissed t).2.1)
    (fun t ht hauthor => dismissed_assistant (hc.assistants t ht hauthor).2) none

theorem updateFirst_append_of_fixed {α : Type} {q : α → Bool} {f : α → α} (xs : List α)
    {rest : List α} (h : ∀ x ∈ rest, f x = x) :
    updateFirst q f (xs ++ rest) = updateFirst q f xs ++ rest := by
  induction xs with
  | nil =>
    rw [List.nil_append, updateFirst, List.nil_append]
    induction rest with
    | nil => rfl
    | cons x rest ih =>
      rw [updateFirst, h x List.mem_cons_self, ih fun y hy => h y (List.mem_cons_of_mem _ hy),
        ite_self]
  | cons x xs ih =>
    rw [List.cons_append, updateFirst, updateFirst, ih]
    split <;> rfl

theorem Open.dismissed (h : Open c log p before u after) (hc : Inv c log) (hp : c.pending = some p)
    (failed : Uuid) :
    Open (c.dismissFailure failed) log p
      (updateFirst (fun t => t.id = failed) Conversation.dismissed before) u after where
  turns := by
    have hu : u ∈ c.turns := h.turns ▸ List.mem_append_right _ List.mem_cons_self
    have hstatus : u.status = .pending := (hc.status u hu).mpr (by rw [hp, h.id])
    have hfixed : ∀ t ∈ u :: after, Conversation.dismissed t = t := by
      intro t ht
      rcases List.mem_cons.mp ht with rfl | ht
      · rw [Conversation.dismissed, hstatus]
      · rcases h.reply with ⟨rfl, -⟩ | ⟨a, rfl, hauthor, -⟩
        · cases ht
        · rw [List.mem_singleton.mp ht]
          exact dismissed_assistant (hc.assistants a (h.turns ▸ by simp) hauthor).2
    rw [dismissFailure, h.turns]
    exact updateFirst_append_of_fixed before hfixed
  id := h.id
  author := h.author
  older := by
    refine forall_mem_updateFirst (fun t _ _ ht => ?_) h.older
    rw [(fields_dismissed t).2.1, (fields_dismissed t).2.2.2]
    exact ht
  finals := h.finals
  reply := h.reply

theorem Inv.asked (hc : Inv c log) (hfresh : ∀ t ∈ c.turns, t.id ≠ m.newId)
    (hpending : c.pending = none)
    (holder : ∀ t ∈ c.turns, t.author = .assistant → t.createdAt < m.created)
    (content : TurnContent) :
    Inv { turns := c.turns ++ [userTurn m content], pending := some m.newId } log where
  toSound := hc.toSound.userTurn hfresh hpending content
  assistants t ht hauthor := by
    rcases List.mem_append.mp ht with ht | ht
    · exact hc.assistants t ht hauthor
    · rw [List.mem_singleton.mp ht] at hauthor
      cases hauthor
  logged e he := by
    obtain ⟨t, ht, hrest⟩ := hc.logged e he
    exact ⟨t, List.mem_append_left _ ht, hrest⟩
  paired := by
    refine ⟨?_, ?_⟩
    · rw [replies_asked]
      exact hc.paired.owned
    · rw [replies_asked]
      exact hc.paired.once
  pendingOpen p hp := by
    obtain rfl := Option.some.inj hp
    have hnew : ∀ e ∈ log, e.turn ≠ m.newId := by
      intro e he heq
      obtain ⟨t, ht, -, hid⟩ := hc.logged e he
      exact hfresh t ht (hid.trans heq)
    obtain ⟨hfinals, hchunks⟩ := history_of_new hnew
    exact ⟨c.turns, userTurn m content, [], rfl, rfl, rfl, holder, hfinals, .inl ⟨rfl, hchunks⟩⟩

theorem Inv.dismissed (hc : Inv c log) (hfresh : ∀ t ∈ c.turns, t.id ≠ m.newId) (failed : Uuid) :
    Inv (c.dismissFailure failed) log where
  toSound := by
    have hsound : Sound (c.step m (.dismissFailure failed)) := hc.toSound.step hfresh
    exact hsound
  assistants := by
    refine forall_mem_updateFirst (fun t ht _ hold hauthor => ?_) hc.assistants
    rw [(fields_dismissed t).2.1] at hauthor
    rw [dismissed_assistant (hold hauthor).2]
    exact hold hauthor
  logged e he := by
    obtain ⟨t, ht, huser, hid⟩ := hc.logged e he
    have hsame : (c.dismissFailure failed).turns.map (fun t => (t.author, t.id)) =
        c.turns.map fun t => (t.author, t.id) :=
      map_updateFirst _ fun t => by rw [(fields_dismissed t).1, (fields_dismissed t).2.1]
    have hmem : (t.author, t.id) ∈
        (c.dismissFailure failed).turns.map fun t => (t.author, t.id) :=
      hsame ▸ List.mem_map_of_mem (f := fun t : ConversationTurn => (t.author, t.id)) ht
    obtain ⟨t', ht', heq⟩ := List.mem_map.mp hmem
    obtain ⟨hauthor, hid'⟩ := Prod.mk.inj heq
    exact ⟨t', ht', hauthor.trans huser, hid'.trans hid⟩
  paired := by
    refine ⟨?_, ?_⟩
    · rw [hc.replies_dismissed]
      exact hc.paired.owned
    · rw [hc.replies_dismissed]
      exact hc.paired.once
  pendingOpen p hp := by
    obtain ⟨before, u, after, hopen⟩ := hc.pendingOpen p hp
    exact ⟨_, u, after, hopen.dismissed hc hp failed⟩

theorem Inv.step (hc : Inv c log) {op : Op} (hfresh : ∀ t ∈ c.turns, t.id ≠ m.newId)
    (hclock : ClockAdvances c m op) : Inv (c.step m op) (log ++ c.heard op) := by
  have hsound : Sound (c.step m op) := hc.toSound.step hfresh
  have hcase := hc.step_cases hfresh hclock
  generalize log ++ c.heard op = log' at hcase ⊢
  cases hcase with
  | same h =>
    rw [h]
    exact hc
  | asked content hpending holder h =>
    rw [h]
    exact hc.asked hfresh hpending holder content
  | answered hp hopen hchange => exact hchange.inv hc hopen hsound
  | dismissed failed h =>
    rw [h]
    exact hc.dismissed hfresh failed

theorem Inv.new : Inv {} [] where
  toSound := .new
  assistants t ht := absurd ht List.not_mem_nil
  logged e he := absurd he List.not_mem_nil
  paired := ⟨fun x hx => absurd hx List.not_mem_nil, List.nodup_nil⟩
  pendingOpen p hp := by cases hp

theorem Inv.of_reachable {ok : Conversation → Moment → Op → Prop}
    (hok : ∀ c m op, ok c m op → ClockAdvances c m op) (h : Reachable ok c log) : Inv c log := by
  induction h with
  | new => exact .new
  | step m op _ hfresh hclock ih => exact ih.step hfresh (hok _ m op hclock)

theorem Inv.replies_kept (hc : Inv c log) (hfresh : ∀ t ∈ c.turns, t.id ≠ m.newId)
    (hclock : ClockAdvances c m op) {x : Option Uuid × ConversationTurn}
    (hx : x ∈ replies c.turns) (hother : x.1 ≠ c.pending) : x ∈ replies (c.step m op).turns := by
  have hcase := hc.step_cases hfresh hclock
  generalize log ++ c.heard op = log' at hcase
  cases hcase with
  | same h =>
    rw [h]
    exact hx
  | asked content _ _ h =>
    rw [h, replies_asked]
    exact hx
  | answered hp hopen hchange =>
    obtain ⟨u', after', hturns, hauthor, hid, -, -⟩ := hchange.change
    rw [hturns, replies, repliesFrom_append hauthor]
    rw [hopen.turns, replies, repliesFrom_append hopen.author] at hx
    rcases List.mem_append.mp hx with hx | hx
    · exact List.mem_append_left _ hx
    · -- what stands behind the pending turn is the reply to it
      rcases hopen.reply with ⟨rfl, -⟩ | ⟨a, rfl, hassistant, -⟩
      · cases hx
      · simp only [repliesFrom, hassistant, reduceCtorEq, if_false, List.mem_singleton] at hx
        rw [hx, hp, hopen.id] at hother
        exact absurd rfl hother
  | dismissed failed h =>
    rw [h, hc.replies_dismissed]
    exact hx

/-- Whatever the clock says, exactly the turn named by `pending` is pending, and a chunk, a
reply or a failure for another turn changes nothing. In a run whose clock advances each reply is
the text of one turn of the user, each turn has at most one, and an operation leaves the replies
to the other turns alone. -/
theorem paired_of_clockAdvances {ok : Conversation → Moment → Op → Prop} {c : Conversation}
    {log : List Event} (h : Reachable ok c log) :
    PendingExact c ∧
    (∀ m p, c.pending ≠ some p → (∀ chunk, c.appendAssistantChunk m p chunk = c) ∧
      (∀ reply, c.recordAssistantReply m p reply = c) ∧
      ∀ error, c.recordFailure m p error = c) ∧
    ((∀ c m op, ok c m op → ClockAdvances c m op) → Paired c.turns log ∧
      ∀ m op, (∀ t ∈ c.turns, t.id ≠ m.newId) → ClockAdvances c m op →
        ∀ x ∈ replies c.turns, x.1 ≠ c.pending → x ∈ replies (c.step m op).turns) := by
  refine ⟨(Sound.of_reachable h).toPendingExact, fun m p hp => ⟨fun chunk => ?_, fun reply => ?_,
    fun error => ?_⟩, fun hok => ?_⟩
  · rw [appendAssistantChunk, if_pos hp]
  · rw [Conversation.recordAssistantReply, if_pos hp]
  · rw [recordFailure, if_pos hp]
  · have hc := Inv.of_reachable hok h
    exact ⟨hc.paired, fun m op hfresh hclock x hx => hc.replies_kept hfresh hclock hx⟩

end Inv

/-! ## Two turns in one instant -/

instance (c : Conversation) (m : Moment) : (op : Op) → Decidable (ClockAdvances c m op)
  | .sendUserMessage .. | .retry _ => inferInstanceAs
    (Decidable (∀ t ∈ c.turns, t.author = .assistant → t.createdAt < m.created))
  | .appendAssistantChunk p _ | .recordAssistantReply p _ => inferInstanceAs
    (Decidable (∀ t ∈ c.turns, t.id = p → t.createdAt ≤ m.created))
  | .recordFailure .. | .dismissFailure _ => isTrue trivial

/-- Two questions and what is streamed as answers, at the readings of a clock. -/
def twoQuestions (clock : Nat → DateTime) : List (Moment × Op) :=
  [(⟨1, clock 1, clock 1, clock 1, clock 1⟩, .sendUserMessage "one" []),
    (⟨2, clock 2, clock 2, clock 2, clock 2⟩, .appendAssistantChunk 1 "first"),
    (⟨3, clock 3, clock 3, clock 3, clock 3⟩, .recordAssistantReply 1 "first"),
    (⟨4, clock 4, clock 4, clock 4, clock 4⟩, .sendUserMessage "two" []),
    (⟨5, clock 5, clock 5, clock 5, clock 5⟩, .appendAssistantChunk 4 "second")]

/-- With a clock that advances the second answer is a turn of its own. -/
theorem paired_twoQuestions :
    let s := run ({}, []) (twoQuestions fun n => n)
    Paired s.1.turns s.2 ∧
      (replies s.1.turns).map (fun x => (x.1, x.2.buffer)) =
        [(some 1, some "first"), (some 4, some "second")] := by
  intro s
  have hreach : Reachable ClockAdvances s.1 s.2 := Reachable.run .new (by decide)
  exact ⟨((paired_of_clockAdvances hreach).2.2 fun _ _ _ h => h).1, by decide⟩

/-- In one instant it is written into the answer to the first question. -/
theorem sameInstant_shares_reply :
    let s := run ({}, []) (twoQuestions fun _ => 0)
    Reachable (fun _ _ _ => True) s.1 s.2 ∧
      (replies s.1.turns).map (fun x => (x.1, x.2.buffer)) =
        [(some 1, some "firstsecond")] ∧
      replyText s.2 1 = "first" ∧ ¬ Paired s.1.turns s.2 := by
  intro s
  have hreplies : (replies s.1.turns).map (fun x => (x.1, x.2.buffer)) =
      [(some 1, some "firstsecond")] := by decide
  have htext : replyText s.2 1 = "first" := by decide
  refine ⟨Reachable.run .new (by decide), hreplies, htext, fun h => ?_⟩
  have hmem : (some 1, some "firstsecond") ∈
      (replies s.1.turns).map (fun x => (x.1, x.2.buffer)) := by
    rw [hreplies]
    exact List.mem_singleton_self _
  obtain ⟨x, hx, heq⟩ := List.mem_map.mp hmem
  obtain ⟨u, hu, hbuffer⟩ := h.owned x hx
  obtain ⟨howner, hsaid⟩ := Prod.mk.inj heq
  rw [howner, Option.some.injEq] at hu
  rw [hsaid, ← hu, htext] at hbuffer
  exact absurd hbuffer (by decide)

end HiveClaw.Gui
