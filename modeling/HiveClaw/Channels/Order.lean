import HiveClaw.Channels.Manager

/-!
# What reaches the channels, and in which order

The dispatcher takes messages ahead while it joins deltas, and keeps at most one that does not
belong to them. So the messages it has dealt with are always a prefix of those published, cut
into groups (`Joined`): one message, or adjacent deltas of one chat. Each group is one call of
the channel, or none (`delivered_in_order`).
-/

namespace HiveClaw.Channels

open Turns

/-! ## Groups -/

/-- One message, or adjacent deltas of one chat of which only the last may end the stream. -/
def Joined : List OutboundMessage → Prop
  | [] => False
  | [_] => True
  | first :: rest =>
    isDelta first = true ∧ isEnd first = false ∧
      (∀ msg ∈ rest, target msg = target first ∧ isDelta msg = true) ∧
      ∀ msg ∈ rest.dropLast, isEnd msg = false

/-- The message that is sent for a group. -/
def merged (first : OutboundMessage) (rest : List OutboundMessage) : OutboundMessage :=
  { first with
    content := first.content ++ String.join (rest.map OutboundMessage.content)
    metadata :=
      if rest.any isEnd then first.metadata.insert streamEndKey (.bool true) else first.metadata }

def ChannelManager.callsFor (c : ChannelManager) : List OutboundMessage → List Call
  | [] => []
  | first :: rest =>
    if rest = [] ∧ c.suppressed first = true then [] else c.deliver (merged first rest)

theorem merged_nil (msg : OutboundMessage) : merged msg [] = msg := by
  simp [merged]

/-! ## Streams -/

/-- What a chat gets to see: a character of a stream, the end of a stream, or a message. -/
inductive Piece where
  | char (c : Char)
  | streamEnd
  | whole (msg : OutboundMessage)

/-- The text of a stream, and its end. -/
def streamPieces (content : String) (ended : Bool) : List Piece :=
  content.toList.map .char ++ if ended then [.streamEnd] else []

def Call.pieces : Call → List Piece
  | .send msg => [.whole msg]
  | .sendDelta _ _ content metadata => streamPieces content (flag metadata streamEndKey)

/-- The pieces of a published message, under the rule for texts that were streamed before. -/
def piecesOf (msg : OutboundMessage) : List Piece :=
  if isDelta msg || isEnd msg then streamPieces msg.content (isEnd msg)
  else if flag msg.metadata "_streamed" then []
  else [.whole msg]

section Pieces

variable {c : ChannelManager} {msg first : OutboundMessage} {rest : List OutboundMessage}

theorem attempts_of_succeeds {succeeds : Nat → Bool} (h : succeeds 0 = true) (left : Nat) :
    ChannelManager.attempts succeeds (max left 1) 0 = 1 := by
  obtain ⟨n, hn⟩ : ∃ n, max left 1 = n + 1 := ⟨max left 1 - 1, by omega⟩
  rw [hn, ChannelManager.attempts, if_pos h]

theorem deliver_eq (hsends : ∀ call, c.succeeds call 0 = true) :
    c.deliver msg =
      if msg.channel ∈ c.channels then (ChannelManager.sendOnce msg).toList else [] := by
  unfold ChannelManager.deliver ChannelManager.sendWithRetry
  cases ChannelManager.sendOnce msg with
  | none => rfl
  | some call =>
    dsimp only
    rw [attempts_of_succeeds (hsends call)]
    rfl

theorem target_of_sendOnce {call : Call} (h : ChannelManager.sendOnce msg = some call) :
    call.target = target msg := by
  unfold ChannelManager.sendOnce at h
  split at h
  · rw [← Option.some.inj h]
    rfl
  · split at h
    · cases h
    · rw [← Option.some.inj h]
      rfl

theorem pieces_sendOnce : (ChannelManager.sendOnce msg).toList.flatMap Call.pieces = piecesOf msg := by
  unfold ChannelManager.sendOnce piecesOf
  split
  · simp [Call.pieces, isEnd]
  · split
    · rfl
    · simp [Call.pieces]

variable {t : String × String}

theorem pieces_deliver (hsends : ∀ call, c.succeeds call 0 = true) (ht : t.1 ∈ c.channels) :
    ((c.deliver msg).filter fun call => call.target = t).flatMap Call.pieces =
      if target msg = t then piecesOf msg else [] := by
  rw [deliver_eq hsends]
  by_cases heq : target msg = t
  · have henabled : msg.channel ∈ c.channels := by
      rw [← heq] at ht
      exact ht
    have hall : ∀ call ∈ (ChannelManager.sendOnce msg).toList, decide (call.target = t) = true := by
      intro call hcall
      rw [target_of_sendOnce (Option.mem_toList.mp hcall), heq]
      exact decide_eq_true rfl
    rw [if_pos henabled, if_pos heq, List.filter_eq_self.mpr hall, pieces_sendOnce]
  · rw [if_neg heq]
    split
    · have hnone : ∀ call ∈ (ChannelManager.sendOnce msg).toList,
          ¬ decide (call.target = t) = true := by
        intro call hcall h
        rw [target_of_sendOnce (Option.mem_toList.mp hcall)] at h
        exact heq (of_decide_eq_true h)
      rw [List.filter_eq_nil_iff.mpr hnone]
      rfl
    · rfl

theorem isDelta_merged (h : isDelta first = true) : isDelta (merged first rest) = true := by
  have hne : streamDeltaKey ≠ streamEndKey := by decide
  unfold isDelta flag merged at *
  dsimp only
  split
  · rw [AList.lookup_insert_ne hne]
    exact h
  · exact h

theorem isEnd_merged (h : isEnd first = false) : isEnd (merged first rest) = rest.any isEnd := by
  have hmerged : isEnd (merged first rest) = flag
      (if rest.any isEnd then first.metadata.insert streamEndKey (.bool true) else first.metadata)
      streamEndKey := rfl
  rw [hmerged]
  cases rest.any isEnd with
  | true =>
    rw [if_pos rfl, flag, AList.lookup_insert]
    rfl
  | false =>
    rw [if_neg Bool.false_ne_true]
    exact h

theorem streamPieces_append (a b : String) (ended : Bool) :
    streamPieces (a ++ b) ended = streamPieces a false ++ streamPieces b ended := by
  simp [streamPieces]

theorem piecesOf_delta (h : isDelta msg = true) :
    piecesOf msg = streamPieces msg.content (isEnd msg) := by
  rw [piecesOf, h, Bool.true_or, if_pos rfl]

theorem pieces_rest (hdelta : ∀ msg ∈ rest, isDelta msg = true)
    (hend : ∀ msg ∈ rest.dropLast, isEnd msg = false) :
    rest.flatMap piecesOf =
      streamPieces (String.join (rest.map OutboundMessage.content)) (rest.any isEnd) := by
  induction rest with
  | nil => rfl
  | cons msg rest ih =>
    rw [List.flatMap_cons, piecesOf_delta (hdelta msg List.mem_cons_self), List.map_cons,
      String.join_cons, List.any_cons]
    cases rest with
    | nil => simp [streamPieces]
    | cons msg' rest =>
      have hnot : isEnd msg = false := hend msg (by simp)
      have ih := ih (fun m hm => hdelta m (List.mem_cons_of_mem _ hm))
        (fun m hm => hend m (List.mem_cons_of_mem msg hm))
      rw [ih, hnot, Bool.false_or, streamPieces_append]

theorem piecesOf_merged (hjoined : Joined (first :: rest)) :
    piecesOf (merged first rest) = (first :: rest).flatMap piecesOf := by
  cases rest with
  | nil => rw [merged_nil, List.flatMap_cons, List.flatMap_nil, List.append_nil]
  | cons msg rest =>
    obtain ⟨hfirst, hnot, hrest, hend⟩ := hjoined
    rw [piecesOf_delta (isDelta_merged hfirst), isEnd_merged hnot, List.flatMap_cons,
      piecesOf_delta hfirst, hnot, pieces_rest (fun m hm => (hrest m hm).2) hend,
      ← streamPieces_append]
    rfl

theorem pieces_callsFor (hsends : ∀ call, c.succeeds call 0 = true) (ht : t.1 ∈ c.channels)
    {group : List OutboundMessage} (hjoined : Joined group)
    (hdeltas : ∀ msg ∈ group, isDelta msg = true → c.suppressed msg = false) :
    ((c.callsFor group).filter fun call => call.target = t).flatMap Call.pieces =
      (group.filter fun msg => target msg = t ∧ c.suppressed msg = false).flatMap piecesOf := by
  cases group with
  | nil => rfl
  | cons first rest =>
    simp only [ChannelManager.callsFor]
    split
    case isTrue h =>
      obtain ⟨rfl, hsuppressed⟩ := h
      simp [hsuppressed]
    case isFalse h =>
      -- nothing in the group is suppressed, and all of it goes to one chat
      have hkept : ∀ msg ∈ first :: rest, target msg = target first ∧ c.suppressed msg = false := by
        cases rest with
        | nil =>
          intro msg hmsg
          rw [List.mem_singleton.mp hmsg]
          exact ⟨rfl, by simpa using h⟩
        | cons next rest =>
          obtain ⟨hfirst, -, hrest, -⟩ := hjoined
          intro msg hmsg
          rcases List.mem_cons.mp hmsg with rfl | hmem
          · exact ⟨rfl, hdeltas _ hmsg hfirst⟩
          · exact ⟨(hrest msg hmem).1, hdeltas msg hmsg (hrest msg hmem).2⟩
      have htarget : target (merged first rest) = target first := rfl
      rw [pieces_deliver hsends ht, htarget, piecesOf_merged hjoined]
      split
      case isTrue heq =>
        rw [List.filter_eq_self.mpr fun msg hmsg => ?_]
        rw [(hkept msg hmsg).1, heq, (hkept msg hmsg).2]
        simp
      case isFalse hne =>
        rw [List.filter_eq_nil_iff.mpr fun msg hmsg => ?_]
        · rfl
        · rw [(hkept msg hmsg).1]
          simp [hne]

end Pieces

/-! ## Runs of the dispatcher -/

/-- How the messages that were published are distributed: those dealt with, in groups, those
that are being joined, the one put back and those on the lane. -/
structure Accounts (c : ChannelManager) (w : Dispatch) (groups : List (List OutboundMessage))
    (held : List OutboundMessage) : Prop where
  published : w.published = groups.flatten ++ held ++ w.pending ++ w.queue
  joined : ∀ group ∈ groups, Joined group
  calls : w.calls = groups.flatMap c.callsFor

/-- What the dispatcher holds at each stage. -/
def Holds (c : ChannelManager) (w : Dispatch) (held : List OutboundMessage) : Prop :=
  match w.stage with
  | .ready => held = [] ∧ w.pending.length ≤ 1
  | .coalescing first combined metadata => w.pending = [] ∧ ∃ rest, held = first :: rest ∧
      c.suppressed first = false ∧ isDelta first = true ∧ isEnd first = false ∧
      (∀ msg ∈ rest, target msg = target first ∧ isDelta msg = true ∧ isEnd msg = false) ∧
      combined = first.content ++ String.join (rest.map OutboundMessage.content) ∧
      metadata = first.metadata

section Runs

variable {c : ChannelManager} {w : Dispatch} {groups : List (List OutboundMessage)}
  {held : List OutboundMessage}

/-- A group is dealt with. -/
theorem Accounts.close {w' : Dispatch} (h : Accounts c w groups held)
    (group : List OutboundMessage) (hjoined : Joined group)
    (hrest : held ++ w.pending ++ w.queue = group ++ w'.pending ++ w'.queue)
    (hcalls : w'.calls = w.calls ++ c.callsFor group) (hpublished : w'.published = w.published) :
    Accounts c w' (groups ++ [group]) [] where
  published := by
    rw [hpublished, h.published, List.flatten_append, List.flatten_singleton, List.append_nil]
    simp only [List.append_assoc] at hrest ⊢
    rw [hrest]
  joined g hg := by
    rcases List.mem_append.mp hg with hg | hg
    · exact h.joined g hg
    · rw [List.mem_singleton.mp hg]
      exact hjoined
  calls := by
    rw [hcalls, h.calls, List.flatMap_append]
    simp

variable {msg : OutboundMessage}

theorem handle_spec (h : Accounts c w groups [msg]) (hpending : w.pending = []) :
    ∃ groups' held', Accounts c (c.handle msg w) groups' held' ∧ Holds c (c.handle msg w) held' := by
  unfold ChannelManager.handle
  split
  case isTrue hsuppressed =>
    refine ⟨groups ++ [[msg]], [], h.close [msg] trivial rfl ?_ rfl, rfl, ?_⟩
    · simp [ChannelManager.callsFor, hsuppressed]
    · simp [hpending]
  case isFalse hsent =>
    rw [Bool.not_eq_true] at hsent
    split
    case isTrue hdelta =>
      obtain ⟨hdelta, hend⟩ := (Bool.and_eq_true ..).mp hdelta
      refine ⟨groups, [msg], ⟨h.published, h.joined, h.calls⟩, hpending, [], rfl, hsent, hdelta,
        by simpa using hend, fun m hm => absurd hm List.not_mem_nil, by simp, rfl⟩
    case isFalse =>
      refine ⟨groups ++ [[msg]], [], h.close [msg] trivial rfl ?_ rfl, rfl, ?_⟩
      · simp [ChannelManager.callsFor, hsent, merged_nil]
      · simp [hpending]

variable {rest : List OutboundMessage}

theorem not_isEnd_of_holds {first : OutboundMessage}
    (h : ∀ msg ∈ rest, target msg = target first ∧ isDelta msg = true ∧ isEnd msg = false) :
    rest.any isEnd = false := by
  rw [List.any_eq_false]
  intro msg hmsg
  rw [(h msg hmsg).2.2]
  exact Bool.false_ne_true

theorem joined_of_holds {first : OutboundMessage} (hdelta : isDelta first = true)
    (hend : isEnd first = false)
    (hrest : ∀ msg ∈ rest, target msg = target first ∧ isDelta msg = true)
    (hlast : ∀ msg ∈ rest.dropLast, isEnd msg = false) : Joined (first :: rest) := by
  cases rest with
  | nil => trivial
  | cons msg rest => exact ⟨hdelta, hend, hrest, hlast⟩

/-- `coalesce_stream_deltas` returns. -/
theorem finish_spec {first : OutboundMessage} {combined : String} {metadata : HashMap String Json}
    {nonMatching : List OutboundMessage} (h : Accounts c w groups held)
    (hpending : w.pending = [])
    (hheld : held ++ w.queue = (first :: rest) ++ nonMatching ++ w.queue)
    (hlength : nonMatching.length ≤ 1) (hjoined : Joined (first :: rest))
    (hsent : c.suppressed first = false)
    (hmerged : { first with content := combined, metadata } = merged first rest) :
    ∃ groups' held', Accounts c (c.finish first combined metadata nonMatching w) groups' held' ∧
      Holds c (c.finish first combined metadata nonMatching w) held' := by
  refine ⟨groups ++ [first :: rest], [], h.close (first :: rest) hjoined ?_ ?_ rfl, rfl, ?_⟩
  · simp only [ChannelManager.finish, hpending, List.nil_append, List.append_nil] at hheld ⊢
    exact hheld
  · have hcalls : c.callsFor (first :: rest) = c.deliver (merged first rest) := by
      rw [ChannelManager.callsFor, if_neg]
      rintro ⟨-, hsuppressed⟩
      rw [hsent] at hsuppressed
      cases hsuppressed
    rw [hcalls, ← hmerged]
    rfl
  · simp only [ChannelManager.finish, hpending, List.nil_append]
    exact hlength

/-- What a look at the lane leads to. -/
inductive PollCase (c : ChannelManager) (found : Bool) (w : Dispatch) : Dispatch → Prop
  | replayed (msg : OutboundMessage) : w.stage = .ready → w.pending.getLast? = some msg →
      PollCase c found w (c.handle msg { w with pending := w.pending.dropLast })
  | taken (msg : OutboundMessage) (queue : List OutboundMessage) : w.stage = .ready →
      w.pending = [] → w.queue = msg :: queue → PollCase c found w (c.handle msg { w with queue })
  | nothing : w.stage = .ready → w.pending = [] → (found = true → w.queue = []) →
      PollCase c found w w
  | next (first : OutboundMessage) (combined : String) (metadata : HashMap String Json)
      (msg : OutboundMessage) (queue : List OutboundMessage) :
      w.stage = .coalescing first combined metadata → w.queue = msg :: queue →
      PollCase c found w (c.coalesce first combined metadata msg { w with queue })
  | timeout (first : OutboundMessage) (combined : String) (metadata : HashMap String Json) :
      w.stage = .coalescing first combined metadata →
      PollCase c found w (c.finish first combined metadata [] w)

theorem poll_cases (c : ChannelManager) (found : Bool) (w : Dispatch) :
    PollCase c found w (c.poll found w) := by
  obtain ⟨queue, pending, stage, calls, published⟩ := w
  cases stage with
  | ready =>
    cases hlast : pending.getLast? with
    | some msg =>
      have hcase : PollCase c found ⟨queue, pending, .ready, calls, published⟩ _ :=
        .replayed msg rfl hlast
      simpa only [ChannelManager.poll, hlast] using hcase
    | none =>
      have hpending : pending = [] := List.getLast?_eq_none_iff.mp hlast
      subst hpending
      cases found with
      | false => exact .nothing rfl rfl fun h => absurd h Bool.false_ne_true
      | true =>
        cases queue with
        | nil => exact .nothing rfl rfl fun _ => rfl
        | cons msg queue => exact .taken msg queue rfl rfl rfl
  | coalescing first combined metadata =>
    cases found with
    | false => exact .timeout first combined metadata rfl
    | true =>
      cases queue with
      | nil => exact .timeout first combined metadata rfl
      | cons msg queue => exact .next first combined metadata msg queue rfl rfl

theorem coalesce_spec {first next : OutboundMessage}
    (htaken : Accounts c w groups (first :: rest ++ [next])) (hpending : w.pending = [])
    (hsent : c.suppressed first = false) (hdelta : isDelta first = true)
    (hend : isEnd first = false)
    (hrest : ∀ msg ∈ rest, target msg = target first ∧ isDelta msg = true ∧ isEnd msg = false) :
    let combined := first.content ++ String.join (rest.map OutboundMessage.content)
    ∃ groups' held', Accounts c (c.coalesce first combined first.metadata next w) groups' held' ∧
      Holds c (c.coalesce first combined first.metadata next w) held' := by
  intro combined
  have hnoEnd : rest.any isEnd = false := not_isEnd_of_holds hrest
  unfold ChannelManager.coalesce
  split
  case isTrue hnext =>
    obtain ⟨htarget, hnextDelta, -⟩ := hnext
    have hcontent : combined ++ next.content =
        first.content ++ String.join ((rest ++ [next]).map OutboundMessage.content) := by
      rw [List.map_append, String.join_append, ← String.append_assoc]
      simp [combined]
    split
    case isTrue hnextEnd =>
      have hjoined : Joined (first :: (rest ++ [next])) := by
        refine joined_of_holds hdelta hend (fun m hm => ?_) fun m hm => ?_
        · rcases List.mem_append.mp hm with hm | hm
          · exact ⟨(hrest m hm).1, (hrest m hm).2.1⟩
          · rw [List.mem_singleton.mp hm]
            exact ⟨htarget, hnextDelta⟩
        · rw [List.dropLast_concat] at hm
          exact (hrest m hm).2.2
      refine finish_spec htaken hpending ?_ (Nat.zero_le _) hjoined hsent ?_
      · simp
      · simp [merged, hcontent, hnextEnd]
    case isFalse hnextEnd =>
      rw [Bool.not_eq_true] at hnextEnd
      refine ⟨groups, first :: (rest ++ [next]), ⟨htaken.published, htaken.joined, htaken.calls⟩,
        hpending, rest ++ [next], rfl, hsent, hdelta, hend, fun m hm => ?_, hcontent, rfl⟩
      rcases List.mem_append.mp hm with hm | hm
      · exact hrest m hm
      · rw [List.mem_singleton.mp hm]
        exact ⟨htarget, hnextDelta, hnextEnd⟩
  case isFalse =>
    have hjoined : Joined (first :: rest) :=
      joined_of_holds hdelta hend (fun m hm => ⟨(hrest m hm).1, (hrest m hm).2.1⟩)
        fun m hm => (hrest m (List.dropLast_subset _ hm)).2.2
    refine finish_spec htaken hpending rfl (Nat.le_refl _) hjoined hsent ?_
    simp [merged, hnoEnd, combined]

theorem poll_spec (h : Accounts c w groups held) (hholds : Holds c w held) (found : Bool) :
    ∃ groups' held', Accounts c (c.poll found w) groups' held' ∧ Holds c (c.poll found w) held' := by
  have hcase := poll_cases c found w
  unfold Holds at hholds
  generalize c.poll found w = w' at hcase ⊢
  cases hcase with
  | replayed msg hstage hlast =>
    rw [hstage] at hholds
    obtain ⟨rfl, hlength⟩ := hholds
    -- the message that was put back is the only one
    have hpending : w.pending = [msg] := by
      obtain ⟨init, hinit⟩ := List.getLast?_eq_some_iff.mp hlast
      have hnil : init = [] := by
        rw [hinit, List.length_append] at hlength
        exact List.length_eq_zero_iff.mp (by simpa using hlength)
      rw [hinit, hnil, List.nil_append]
    refine handle_spec ⟨?_, h.joined, h.calls⟩ ?_
    · show w.published = groups.flatten ++ [msg] ++ w.pending.dropLast ++ w.queue
      rw [h.published, hpending]
      simp
    · show w.pending.dropLast = []
      rw [hpending]
      rfl
  | taken msg queue hstage hpending hqueue =>
    rw [hstage] at hholds
    obtain ⟨rfl, -⟩ := hholds
    refine handle_spec ⟨?_, h.joined, h.calls⟩ hpending
    show w.published = groups.flatten ++ [msg] ++ w.pending ++ queue
    rw [h.published, hpending, hqueue]
    simp
  | nothing hstage hpending _ =>
    refine ⟨groups, held, h, ?_⟩
    unfold Holds
    rw [hstage] at hholds ⊢
    exact hholds
  | next first combined metadata msg queue hstage hqueue =>
    rw [hstage] at hholds
    obtain ⟨hpending, rest, rfl, hsent, hdelta, hend, hrest, rfl, rfl⟩ := hholds
    refine coalesce_spec ⟨?_, h.joined, h.calls⟩ hpending hsent hdelta hend hrest
    show w.published = groups.flatten ++ (first :: rest ++ [msg]) ++ w.pending ++ queue
    rw [h.published, hpending, hqueue]
    simp
  | timeout first combined metadata hstage =>
    rw [hstage] at hholds
    obtain ⟨hpending, rest, rfl, hsent, hdelta, hend, hrest, rfl, rfl⟩ := hholds
    have hjoined : Joined (first :: rest) :=
      joined_of_holds hdelta hend (fun m hm => ⟨(hrest m hm).1, (hrest m hm).2.1⟩)
        fun m hm => (hrest m (List.dropLast_subset _ hm)).2.2
    refine finish_spec h hpending ?_ (Nat.zero_le _) hjoined hsent ?_
    · simp
    · simp [merged, not_isEnd_of_holds hrest]

theorem accounts_of_reachable (h : c.Reachable w) :
    ∃ groups held, Accounts c w groups held ∧ Holds c w held := by
  induction h with
  | start =>
    refine ⟨[], [], ⟨rfl, fun g hg => absurd hg List.not_mem_nil, rfl⟩, rfl, Nat.zero_le _⟩
  | @publish w msg _ ih =>
    obtain ⟨groups, held, haccounts, hholds⟩ := ih
    refine ⟨groups, held, ⟨?_, haccounts.joined, haccounts.calls⟩, hholds⟩
    show w.published ++ [msg] = _
    rw [haccounts.published]
    simp
  | poll found _ ih =>
    obtain ⟨groups, held, haccounts, hholds⟩ := ih
    exact poll_spec haccounts hholds found

/-! ## Draining -/

def Dispatch.work (w : Dispatch) : Nat :=
  2 * (w.queue.length + w.pending.length) + match w.stage with
    | .ready => 0
    | .coalescing .. => 1

def Dispatch.Drained (w : Dispatch) : Prop := w.stage = .ready ∧ w.pending = [] ∧ w.queue = []

theorem drained_of_work (h : w.work = 0) : w.Drained := by
  unfold Dispatch.work at h
  unfold Dispatch.Drained
  cases hstage : w.stage with
  | ready =>
    rw [hstage] at h
    dsimp only at h
    exact ⟨rfl, List.length_eq_zero_iff.mp (by omega), List.length_eq_zero_iff.mp (by omega)⟩
  | coalescing => simp [hstage] at h

theorem work_handle (msg : OutboundMessage) :
    (c.handle msg w).work ≤ 2 * (w.queue.length + w.pending.length) + 1 := by
  unfold ChannelManager.handle
  split
  · simp [Dispatch.work]
  · split <;> simp [Dispatch.work]

theorem work_of_stage (first : OutboundMessage) (combined : String)
    (metadata : HashMap String Json) (hstage : w.stage = .coalescing first combined metadata) :
    w.work = 2 * (w.queue.length + w.pending.length) + 1 := by
  simp [Dispatch.work, hstage]

theorem work_of_ready (hstage : w.stage = .ready) :
    w.work = 2 * (w.queue.length + w.pending.length) := by
  simp [Dispatch.work, hstage]

theorem work_coalesce (first next : OutboundMessage) (combined : String)
    (metadata : HashMap String Json) :
    (c.coalesce first combined metadata next w).work ≤
      2 * (w.queue.length + w.pending.length) + 2 := by
  unfold ChannelManager.coalesce
  split
  · split
    · simp [ChannelManager.finish, Dispatch.work]
    · simp [Dispatch.work]
  · simp only [ChannelManager.finish, Dispatch.work, List.length_append, List.length_singleton]
    omega

theorem work_poll (h : 0 < w.work) : (c.poll true w).work < w.work := by
  have hcase := poll_cases c true w
  generalize c.poll true w = w' at hcase ⊢
  cases hcase with
  | replayed msg hstage hlast =>
    have hpos : 0 < w.pending.length := by
      refine List.length_pos_iff.mpr fun hnil => ?_
      rw [hnil] at hlast
      cases hlast
    have hwork := work_handle (c := c) (w := { w with pending := w.pending.dropLast }) msg
    simp only [List.length_dropLast] at hwork
    rw [work_of_ready hstage]
    omega
  | taken msg queue hstage hpending hqueue =>
    have hwork := work_handle (c := c) (w := { w with queue }) msg
    have hlength : w.queue.length = queue.length + 1 := by rw [hqueue, List.length_cons]
    rw [work_of_ready hstage]
    dsimp only at hwork
    omega
  | nothing hstage hpending hqueue =>
    rw [work_of_ready hstage, hpending, hqueue rfl] at h
    exact absurd h (Nat.lt_irrefl _)
  | next first combined metadata msg queue hstage hqueue =>
    have hwork := work_coalesce (c := c) (w := { w with queue }) first msg combined metadata
    have hlength : w.queue.length = queue.length + 1 := by rw [hqueue, List.length_cons]
    rw [work_of_stage first combined metadata hstage]
    dsimp only at hwork
    omega
  | timeout first combined metadata hstage =>
    rw [work_of_stage first combined metadata hstage]
    simp [ChannelManager.finish, Dispatch.work]

theorem published_poll (found : Bool) : (c.poll found w).published = w.published := by
  have hhandle : ∀ (msg : OutboundMessage) (w : Dispatch),
      (c.handle msg w).published = w.published := by
    intro msg w
    unfold ChannelManager.handle
    split
    · rfl
    · split <;> rfl
  have hcase := poll_cases c found w
  generalize c.poll found w = w' at hcase ⊢
  cases hcase with
  | replayed msg => exact hhandle msg _
  | taken msg queue => exact hhandle msg _
  | nothing => rfl
  | next first combined metadata msg queue =>
    unfold ChannelManager.coalesce
    split
    · split <;> rfl
    · rfl
  | timeout => rfl

theorem drains (c : ChannelManager) (w : Dispatch) :
    ∃ n, ((c.poll true)^[n] w).Drained ∧ ((c.poll true)^[n] w).published = w.published := by
  induction hwork : w.work using Nat.strong_induction_on generalizing w with
  | h k ih =>
    rcases Nat.eq_zero_or_pos k with rfl | hpos
    · exact ⟨0, drained_of_work hwork, rfl⟩
    · obtain ⟨n, hdrained, hpublished⟩ :=
        ih (c.poll true w).work (hwork ▸ work_poll (hwork ▸ hpos)) (c.poll true w) rfl
      refine ⟨n + 1, hdrained, hpublished.trans ?_⟩
      exact published_poll true

theorem Dispatch.Drained.eq (h : w.Drained) (haccounts : Accounts c w groups held)
    (hholds : Holds c w held) : w.published = groups.flatten := by
  unfold Holds at hholds
  rw [h.1] at hholds
  rw [haccounts.published, hholds.1, h.2.1, h.2.2]
  simp

theorem pieces_groups (hsends : ∀ call, c.succeeds call 0 = true) {t : String × String}
    (ht : t.1 ∈ c.channels) (hjoined : ∀ group ∈ groups, Joined group)
    (hdeltas : ∀ msg ∈ groups.flatten, isDelta msg = true → c.suppressed msg = false) :
    ((groups.flatMap c.callsFor).filter fun call => call.target = t).flatMap Call.pieces =
      (groups.flatten.filter fun msg => target msg = t ∧ c.suppressed msg = false).flatMap
        piecesOf := by
  induction groups with
  | nil => rfl
  | cons group groups ih =>
    rw [List.flatten_cons] at hdeltas
    have hhead := pieces_callsFor hsends ht (hjoined group List.mem_cons_self)
      fun msg hmsg => hdeltas msg (List.mem_append_left _ hmsg)
    have htail := ih (fun g hg => hjoined g (List.mem_cons_of_mem _ hg))
      fun msg hmsg => hdeltas msg (List.mem_append_right _ hmsg)
    rw [List.flatMap_cons, List.flatten_cons, List.filter_append, List.filter_append,
      List.flatMap_append, List.flatMap_append, hhead, htail]

theorem not_suppressed (hprogress : flag msg.metadata "_progress" = false)
    (hwait : flag msg.metadata "_retry_wait" = false) : c.suppressed msg = false := by
  rw [ChannelManager.suppressed, hprogress, hwait]
  rfl

/-- The messages dealt with so far are a prefix of those published, in groups of one message or
of adjacent deltas of one chat; the calls are those of the groups, in order. A chat of an enabled
channel has seen exactly the messages that are not suppressed, and each stream with its end last.
Whatever is on the lane is delivered in the end. -/
theorem delivered_in_order (c : ChannelManager)
    (hsends : ∀ call attempt, c.succeeds call attempt = true) {w : Dispatch} (h : c.Reachable w)
    (hdeltas : ∀ msg ∈ w.published, isDelta msg = true →
      flag msg.metadata "_progress" = false ∧ flag msg.metadata "_retry_wait" = false) :
    (∃ (groups : List (List OutboundMessage)) (held : List OutboundMessage),
      w.published = groups.flatten ++ held ++ w.pending ++ w.queue ∧
      (w.Drained → w.published = groups.flatten) ∧
      (∀ group ∈ groups, Joined group) ∧ w.calls = groups.flatMap c.callsFor ∧
      ∀ t : String × String, t.1 ∈ c.channels →
        (w.calls.filter fun call => call.target = t).flatMap Call.pieces =
          (groups.flatten.filter fun msg => target msg = t ∧ c.suppressed msg = false).flatMap
            piecesOf) ∧
    ∃ n, ((c.poll true)^[n] w).Drained ∧ ((c.poll true)^[n] w).published = w.published := by
  obtain ⟨groups, held, haccounts, hholds⟩ := accounts_of_reachable h
  refine ⟨⟨groups, held, haccounts.published, fun hdrained => hdrained.eq haccounts hholds,
    haccounts.joined, haccounts.calls, fun t ht => ?_⟩, drains c w⟩
  rw [haccounts.calls]
  refine pieces_groups (fun call => hsends call 0) ht haccounts.joined fun msg hmsg hdelta => ?_
  have hpublished : msg ∈ w.published := by
    rw [haccounts.published]
    simp only [List.append_assoc]
    exact List.mem_append_left _ hmsg
  obtain ⟨hprogress, hwait⟩ := hdeltas msg hpublished hdelta
  exact not_suppressed hprogress hwait

end Runs

/-! ## A stream and a message -/

def flagged (chatId content : String) (flags : List String) : OutboundMessage :=
  { channel := "telegram", chatId, content
    metadata := flags.foldl (fun m key => m.insert key (.bool true)) ∅ }

/-- Two deltas of a stream, a message to another chat, and the end of the stream. -/
def twoChats : List OutboundMessage :=
  [flagged "a" "Hel" ["_stream_delta"], flagged "a" "lo" ["_stream_delta"], flagged "b" "Hi" [],
    flagged "a" "!" ["_stream_delta", "_stream_end"]]

/-- The dispatcher with these four messages on its lane, after some looks at it. -/
def afterLooks (n : Nat) : Dispatch :=
  (ChannelManager.poll { channels := ["telegram"] } true)^[n]
    { queue := twoChats, published := twoChats }

theorem reachable_afterLooks (n : Nat) :
    ChannelManager.Reachable { channels := ["telegram"] } (afterLooks n) := by
  induction n with
  | zero =>
    have hpublished := ((((ChannelManager.Reachable.start
      (c := { channels := ["telegram"] })).publish (flagged "a" "Hel" ["_stream_delta"])).publish
      (flagged "a" "lo" ["_stream_delta"])).publish (flagged "b" "Hi" [])).publish
      (flagged "a" "!" ["_stream_delta", "_stream_end"])
    exact hpublished
  | succ n ih =>
    rw [afterLooks, Function.iterate_succ_apply']
    exact ih.poll true

/-- After eight looks the lane is empty; chat `a` got its stream in two calls, the second with
the end. -/
theorem delivered_twoChats :
    (∃ (groups : List (List OutboundMessage)) (held : List OutboundMessage),
        twoChats = groups.flatten ++ held ++ (afterLooks 8).pending ++ (afterLooks 8).queue ∧ (∀ group ∈ groups, Joined group) ∧
        (afterLooks 8).calls =
          groups.flatMap (ChannelManager.callsFor { channels := ["telegram"] })) ∧
      (afterLooks 8).calls.map (fun call => (call.target.2, match call with
        | .send msg => msg.content
        | .sendDelta _ _ content _ => content)) = [("a", "Hello"), ("b", "Hi"), ("a", "!")] := by
  have hpublished : (afterLooks 8).published = twoChats := rfl
  obtain ⟨⟨groups, held, heq, -, hjoined, hcalls, -⟩, -⟩ :=
    delivered_in_order { channels := ["telegram"] } (fun _ _ => rfl) (reachable_afterLooks 8)
      (by rw [hpublished]; decide +kernel)
  exact ⟨⟨groups, held, hpublished ▸ heq, hjoined, hcalls⟩, by decide +kernel⟩

end HiveClaw.Channels
