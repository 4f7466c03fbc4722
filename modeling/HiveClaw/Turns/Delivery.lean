import HiveClaw.Turns.Exchanges

/-!
# Where the messages of a turn go

All turns share one `MessageContext`: the chat to which the message tool sends by default,
and the flag that it has sent something. A turn that sets its context while another turn is
under way redirects the messages of that turn, and a message sent by one turn silences the
final answer of another. If neither happens between the moment a turn sets its context and
its end, its messages go to its own chat and its answer is published
(`delivered_of_undisturbed`).
-/

namespace HiveClaw.Turns

open Sessions Lib

/-- A call of the message tool without an explicit target. -/
def Untargeted (params : Json) : Prop :=
  MessageTool.target params "channel" = none ∧ MessageTool.target params "chat_id" = none

theorem deliver_untargeted {tool : MessageTool} {ctx : MessageContext} {params : Json}
    {d : Delivery} (hparams : Untargeted params) (h : tool.deliver ctx params = .ok d) :
    d.msg.channel = ctx.channel ∧ d.msg.chatId = ctx.chatId := by
  unfold MessageTool.deliver at h
  simp only [hparams.1, hparams.2, Option.getD_none] at h
  split at h
  · cases h
  · split at h
    · cases h
    · split at h
      · cases h
      · rw [← Except.ok.inj h]
        exact ⟨rfl, rfl⟩

namespace InboundLoop

variable {l : InboundLoop} {i : Nat}

/-! ## The window of a turn -/

/-- The turn has set its context and not yet ended. -/
def InWindow (q : Progress) : Prop := q.stage = .contextSet ∨ q.stage = .started

instance (q : Progress) : Decidable (InWindow q) := inferInstanceAs (Decidable (_ ∨ _))

/-- The sections that redirect the message tool or raise its flag. -/
def disturbs : Section → Bool
  | .setContext | .mark _ => true
  | _ => false

/-- While turn `i` is under way, no other turn sets its context or marks a message as sent. -/
def Undisturbed (l : InboundLoop) (i : Nat) (c : Lane) : Act InboundMessage Tick Empty → Prop
  | .move j _ => j ≠ i → (∃ th ∈ c.threads[i]?, InWindow (th.phase l.inbound)) →
    ∀ th ∈ c.threads[j]?, ∀ label ∈ th.upcoming, disturbs label = false
  | _ => True

instance (c : Lane) (a : Act InboundMessage Tick Empty) : Decidable (l.Undisturbed i c a) :=
  match a with
  | .move j _ => inferInstanceAs (Decidable (j ≠ i →
      (∃ th ∈ c.threads[i]?, InWindow (th.phase l.inbound)) →
        ∀ th ∈ c.threads[j]?, ∀ label ∈ th.upcoming, disturbs label = false))
  | .start _ | .crash _ | .outside _ => isTrue trivial

/-- The turn put a message on the bus through the message tool. -/
def SentByTool (i : Nat) (s : Shared) : Prop :=
  ∃ p ∈ s.outbox, p.turn = i ∧ ∃ params, p.via = .tool params

/-- The answer of the turn is on the bus. -/
def Published (i : Nat) (msg : InboundMessage) (content : String) (s : Shared) : Prop :=
  ∃ p ∈ s.outbox, p.turn = i ∧ p.via = .final ∧ p.msg = answer msg content

/-- Messages without explicit target went to the chat of the turn. -/
def OwnChat (i : Nat) (msg : InboundMessage) (s : Shared) : Prop :=
  ∀ p ∈ s.outbox, p.turn = i → ∀ params, p.via = .tool params → Untargeted params →
    p.msg.channel = msg.channel ∧ p.msg.chatId = msg.chatId

/-- A turn sends to its own chat unless told otherwise, and once it has ended its final
content is published unless it sent a message through the tool. -/
def Delivered (i : Nat) (c : Lane) : Prop :=
  ∀ th, c.threads[i]? = some th → OwnChat i th.req c.store ∧
    ∀ result content, th.result = some (.ran result) → result.finalContent = some content →
      SentByTool i c.store ∨ Published i th.req content c.store

/-! ## What the sections do to the context and the bus -/

/-- What a section puts on the bus. -/
def posted (l : InboundLoop) (turn : Nat) (msg : InboundMessage) (label : Section) (s : Shared) :
    List Posted :=
  match label with
  | .reply content => [⟨turn, .prefilter, answer msg content⟩]
  | .send params =>
    match l.messageTool.deliver s.context params with
    | .ok d => [⟨turn, .tool params, d.msg⟩]
    | .error _ => []
  | .finish (some content) =>
    if s.context.sentInTurn then [] else [⟨turn, .final, answer msg content⟩]
  | _ => []

theorem outbox_effect (turn : Nat) (msg : InboundMessage) (label : Section) (tick : Tick)
    (s : Shared) :
    (l.effect turn msg label tick s).outbox = s.outbox ++ l.posted turn msg label s := by
  cases label with
  | reply content => rfl
  | send params =>
    simp only [effect, posted]
    cases l.messageTool.deliver s.context params with
    | ok d => rfl
    | error e => exact (List.append_nil _).symm
  | finish content =>
    cases content with
    | none => exact (List.append_nil _).symm
    | some content =>
      simp only [effect, posted]
      cases s.context.sentInTurn with
      | true => exact (List.append_nil _).symm
      | false => rfl
  | _ => exact (List.append_nil _).symm

variable {msg : InboundMessage} {label : Section} {s : Shared}

theorem turn_of_mem_posted {turn : Nat} {p : Posted} (h : p ∈ l.posted turn msg label s) :
    p.turn = turn := by
  unfold posted at h
  split at h
  · rw [List.mem_singleton.mp h]
  · split at h
    · rw [List.mem_singleton.mp h]
    · cases h
  · split at h
    · cases h
    · rw [List.mem_singleton.mp h]
  · cases h

theorem context_effect (turn : Nat) (msg : InboundMessage) (label : Section) (tick : Tick)
    (s : Shared) :
    (l.effect turn msg label tick s).context =
      match label with
      | .setContext => s.context.setContext msg
      | .startTurn => s.context.startTurn
      | .mark media => s.context.markSent media
      | _ => s.context := by
  cases label with
  | send params =>
    simp only [effect]
    split <;> rfl
  | finish content =>
    simp only [effect]
    split
    · split <;> rfl
    · rfl
  | _ => rfl

/-! ## The turn in any interleaving -/

/-- What holds of turn `i` with its progress: in its window the context is its own, a raised
flag is its own, and at the end its answer is published or it sent a message. -/
structure Inside (i : Nat) (msg : InboundMessage) (q : Progress) (s : Shared) : Prop where
  own : OwnChat i msg s
  target : InWindow q → s.context.channel = msg.channel ∧ s.context.chatId = msg.chatId
  flag : q.stage = .started → s.context.sentInTurn = true → q.sent = true
  sent : q.sent = true → SentByTool i s
  answered : ∀ content, q.stage = .finished (some content) →
    q.sent = true ∨ Published i msg content s

variable {s' : Shared}

theorem SentByTool.mono (h : SentByTool i s) (hsub : s.outbox ⊆ s'.outbox) : SentByTool i s' := by
  obtain ⟨p, hp, hturn, hvia⟩ := h
  exact ⟨p, hsub hp, hturn, hvia⟩

theorem Published.mono {content : String} (h : Published i msg content s)
    (hsub : s.outbox ⊆ s'.outbox) : Published i msg content s' := by
  obtain ⟨p, hp, hturn, hvia⟩ := h
  exact ⟨p, hsub hp, hturn, hvia⟩

theorem outbox_subset_effect (turn : Nat) (msg : InboundMessage) (label : Section) (tick : Tick)
    (s : Shared) : s.outbox ⊆ (l.effect turn msg label tick s).outbox := by
  rw [outbox_effect]
  exact List.subset_append_left _ _

variable {q : Progress} {tick : Tick}

/-- A section of another turn. -/
theorem Inside.other {msg' : InboundMessage} {j : Nat} (h : Inside i msg q s) (hne : j ≠ i)
    (hquiet : InWindow q → disturbs label = false) :
    Inside i msg q (l.effect j msg' label tick s) := by
  have hsub := outbox_subset_effect (l := l) j msg' label tick s
  -- in the window only `start_turn` of another turn touches the context, and lowers the flag
  have hcontext (hq : InWindow q) :
      (l.effect j msg' label tick s).context = s.context ∨
        (l.effect j msg' label tick s).context = s.context.startTurn := by
    rw [context_effect]
    have hlabel := hquiet hq
    cases label with
    | setContext => cases hlabel
    | mark media => cases hlabel
    | startTurn => exact .inr rfl
    | _ => exact .inl rfl
  refine ⟨?_, ?_, ?_, fun hq => (h.sent hq).mono hsub,
    fun content hq => (h.answered content hq).imp_right fun hp => hp.mono hsub⟩
  · intro p hp hturn
    rw [outbox_effect] at hp
    rcases List.mem_append.mp hp with hp | hp
    · exact h.own p hp hturn
    · exact absurd ((turn_of_mem_posted hp).symm.trans hturn) hne
  · intro hq
    rcases hcontext hq with heq | heq
    · rw [heq]
      exact h.target hq
    · rw [heq]
      exact h.target hq
  · intro hq hflag
    rcases hcontext (.inr hq) with heq | heq
    · rw [heq] at hflag
      exact h.flag hq hflag
    · rw [heq] at hflag
      cases hflag

theorem Inside.own_effect (h : Inside i msg q s) (hdue : Due q label) :
    OwnChat i msg (l.effect i msg label tick s) := by
  intro p hp hturn params hvia hparams
  rw [outbox_effect] at hp
  rcases List.mem_append.mp hp with hp | hp
  · exact h.own p hp hturn params hvia hparams
  unfold posted at hp
  split at hp
  · rw [List.mem_singleton.mp hp] at hvia
    cases hvia
  case h_2 params' =>
    split at hp
    case h_1 d hd =>
      have htarget := h.target (.inr hdue)
      rw [List.mem_singleton.mp hp] at hvia ⊢
      obtain rfl := Via.tool.inj hvia
      obtain ⟨hchannel, hchat⟩ := deliver_untargeted hparams hd
      exact ⟨hchannel.trans htarget.1, hchat.trans htarget.2⟩
    case h_2 => cases hp
  · split at hp
    · cases hp
    · rw [List.mem_singleton.mp hp] at hvia
      cases hvia
  · cases hp

theorem Inside.of_eq {q' : Progress} (h : Inside i msg q s) (hown : OwnChat i msg s')
    (hstage : q'.stage = q.stage) (hsent : q'.sent = q.sent) (hcontext : s'.context = s.context)
    (hsub : s.outbox ⊆ s'.outbox) : Inside i msg q' s' := by
  constructor
  · exact hown
  · unfold InWindow
    rw [hstage, hcontext]
    exact h.target
  · rw [hstage, hcontext, hsent]
    exact h.flag
  · rw [hsent]
    exact fun hq => (h.sent hq).mono hsub
  · rw [hstage, hsent]
    exact fun content hq => (h.answered content hq).imp_right fun hp => hp.mono hsub

theorem Inside.self (h : Inside i msg q s) (hdue : Due q label) :
    Inside i msg (l.progress q label s) (l.effect i msg label tick s) := by
  have hown : OwnChat i msg (l.effect i msg label tick s) := h.own_effect hdue
  have hsub := outbox_subset_effect (l := l) i msg label tick s
  have hcontext := context_effect (l := l) i msg label tick s
  cases label with
  | reply content => exact h.of_eq hown rfl rfl rfl hsub
  | restore => exact h.of_eq hown rfl rfl rfl hsub
  | history => exact h.of_eq hown rfl rfl rfl hsub
  | record content => exact h.of_eq hown rfl rfl rfl hsub
  | clear => exact h.of_eq hown rfl rfl rfl hsub
  | setContext =>
    refine ⟨hown, fun _ => ⟨rfl, rfl⟩, ?_, fun hq => (h.sent hq).mono hsub, ?_⟩
    · intro hq
      cases hq
    · intro content hq
      cases hq
  | startTurn =>
    have hwindow : InWindow q := .inl hdue
    refine ⟨hown, fun _ => h.target hwindow, ?_, fun hq => (h.sent hq).mono hsub, ?_⟩
    · intro _ hflag
      cases hflag
    · intro content hq
      cases hq
  | mark media =>
    obtain ⟨hstage, hsent⟩ := hdue
    refine ⟨hown, fun _ => h.target (.inr hstage), fun _ _ => hsent,
      fun hq => (h.sent hq).mono hsub, fun content hq => .inl hsent⟩
  | send params =>
    simp only [progress]
    cases hd : l.messageTool.deliver s.context params with
    | error e =>
      refine h.of_eq hown rfl rfl hcontext hsub
    | ok d =>
      have hposted : SentByTool i (l.effect i msg (.send params) tick s) := by
        refine ⟨⟨i, .tool params, d.msg⟩, ?_, rfl, params, rfl⟩
        rw [outbox_effect, posted, hd]
        exact List.mem_append_right _ List.mem_cons_self
      refine ⟨hown, fun hq => ?_, fun _ _ => rfl, fun _ => hposted, fun content _ => .inl rfl⟩
      rw [hcontext]
      exact h.target hq
  | finish content =>
    refine ⟨hown, fun hq => ?_, fun hq => ?_, fun hq => (h.sent hq).mono hsub, ?_⟩
    · rcases hq with hq | hq
      · cases hq
      · cases hq
    · cases hq
    · intro content' hq
      obtain rfl : content = some content' := Stage.finished.inj hq
      cases hflag : s.context.sentInTurn with
      | true => exact .inl (h.flag hdue hflag)
      | false =>
        refine .inr ⟨⟨i, .final, answer msg content'⟩, ?_, rfl, rfl, rfl⟩
        rw [outbox_effect, posted, hflag]
        exact List.mem_append_right _ List.mem_cons_self

/-- What holds in every interleaving that leaves turn `i` undisturbed. -/
structure DeliveryInv (l : InboundLoop) (i : Nat) (c : Lane) : Prop where
  obeys : Obeys l.inbound (fun _ _ => Ends) c
  numbered : Numbered c
  inRange : ∀ p ∈ c.store.outbox, p.turn < c.threads.length
  inside : ∀ th, c.threads[i]? = some th → Inside i th.req (th.phase l.inbound) c.store

theorem DeliveryInv.step {c : Lane} (h : l.DeliveryInv i c) {a : Act InboundMessage Tick Empty}
    (ha : l.Undisturbed i c a) : l.DeliveryInv i (l.system.step c a) := by
  have hobeys : Obeys l.inbound (fun _ _ => Ends) (l.system.step c a) :=
    Obeys.step follows_processInbound h.obeys a
  have hnumbered := Numbered.step l.system h.numbered a
  rcases step_cases l.system h.obeys a with heq | ⟨msg, rfl, heq⟩ |
    ⟨j, tick, th, label, w, n, rfl, hth, hcrashed, hprog, -, ⟨hdue, hw⟩, heq⟩ |
    ⟨j, th, rfl, hth, heq⟩ | ⟨e, -, -⟩
  · rw [heq]
    exact h
  · -- a message arrives
    rw [heq] at hobeys hnumbered ⊢
    refine ⟨hobeys, hnumbered, ?_, ?_⟩
    · intro p hp
      rw [List.length_append]
      exact Nat.lt_add_right 1 (h.inRange p hp)
    · intro th hth
      rcases getElem?_concat_cases hth with hold | ⟨rfl, rfl⟩
      · exact h.inside th hold
      · refine ⟨fun p hp hturn => ?_, fun hq => ?_, fun hq => ?_, fun hq => ?_, fun _ hq => ?_⟩
        · have hlt := h.inRange p hp
          omega
        · rcases hq with hq | hq
          · cases hq
          · cases hq
        · cases hq
        · cases hq
        · cases hq
  · -- a turn executes one statement: the observed one, or another outside its window
    have hno : th.no = j := h.numbered j th hth
    rw [heq, hw, hno] at hobeys hnumbered ⊢
    refine ⟨hobeys, hnumbered, ?_, ?_⟩
    · intro p hp
      rw [List.length_set]
      rw [outbox_effect, List.mem_append] at hp
      rcases hp with hp | hp
      · exact h.inRange p hp
      · rw [turn_of_mem_posted hp]
        exact (List.getElem?_eq_some_iff.mp hth).1
    · intro th' hi
      rcases getElem?_set_cases hi with ⟨rfl, rfl⟩ | ⟨hne, hi⟩
      · rw [phase_advance]
        exact (h.inside th hth).self hdue
      · have hlabel : th.upcoming = some label := by
          unfold Thread.upcoming
          rw [hprog]
        refine (h.inside th' hi).other (Ne.symm hne) fun hwindow => ?_
        exact ha (Ne.symm hne) ⟨th', hi, hwindow⟩ th hth label hlabel
  · -- a turn crashes
    rw [heq] at hobeys hnumbered ⊢
    refine ⟨hobeys, hnumbered, ?_, ?_⟩
    · intro p hp
      rw [List.length_set]
      exact h.inRange p hp
    · intro th' hi
      rcases getElem?_set_cases hi with ⟨rfl, rfl⟩ | ⟨-, hi⟩
      · exact h.inside th hth
      · exact h.inside th' hi
  · exact e.elim

/-- **A turn that is left undisturbed delivers.** In every interleaving in which no other turn
sets its context or marks a message as sent while turn `i` is under way, the turn sends to its
own chat, and its final content is published unless it sent a message through the tool. -/
theorem delivered_of_undisturbed {m : SessionManager} {context : MessageContext} {c : Lane}
    (h : l.system.Reach (l.Undisturbed i) (idle m context) c) : Delivered i c := by
  have hinv : l.DeliveryInv i c :=
    h.inv ⟨nofun, nofun, nofun, nofun⟩ fun c a hc ha => hc.step ha
  intro th hth
  have hinside := hinv.inside th hth
  refine ⟨hinside.own, fun result content hran hcontent => ?_⟩
  have hends : Ends (th.phase l.inbound) (.ran result) := ends_of_result hinv.obeys hth hran
  rw [Ends, hcontent] at hends
  rcases hinside.answered content hends.1 with hsent | hpublished
  · exact .inl (hinside.sent hsent)
  · exact .inr hpublished

/-! ## Two turns that cross -/

def telegram : InboundMessage := { channel := "telegram", chatId := "1", content := "Hello" }

/-- The parameters of a message without explicit target. -/
def note : Json := .obj [("content", .str "working on it")]

/-- A lane in which turn 0 sends a message through the tool. -/
def noting : InboundLoop where
  codec := AgentLoop.greeter.codec
  context := AgentLoop.greeter.context
  messageTool := { stripThink := fun s => s }
  runner := fun turn _ =>
    let done := Script.finish { finalContent := some ("answer " ++ toString turn) }
    if turn = 0 then .call note fun _ => done else done

/-- The lane after the moves of two turns, one for Telegram and one for the command line. -/
def afterMoves (moves : List Nat) : Lane :=
  noting.system.run (idle AgentLoop.noSessions {})
    ([.start telegram, .start AgentLoop.hello] ++ moves.map fun i => .move i {})

/-- What is on the bus: the turn, the parameters of a tool call, and the chat. -/
def posts (c : Lane) : List (Nat × Option Json × String × String) :=
  c.store.outbox.map fun p =>
    (p.turn, match p.via with
      | .tool params => some params
      | _ => none, p.msg.channel, p.msg.chatId)

/-- The final content of a turn that has ended. -/
def finalOf (c : Lane) (i : Nat) : Option String :=
  match (c.threads[i]?).bind Thread.result with
  | some (.ran result) => result.finalContent
  | _ => none

/-- Turn 1 sets its context before turn 0 calls the tool. -/
def crossed : Lane := afterMoves [0, 0, 0, 0, 1, 1, 1, 0, 0, 1, 1, 1, 1]

theorem posts_crossed : posts crossed = [(0, some note, "cli", "direct")] := by decide +kernel

theorem finalOf_crossed : finalOf crossed 1 = some "answer 1" := by decide +kernel

theorem channels_crossed :
    (crossed.threads[0]?).map (fun th => th.req.channel) = some "telegram" := by decide +kernel

variable {c : Lane}

theorem result_of_finalOf {content : String} (h : finalOf c i = some content) :
    ∃ th result, c.threads[i]? = some th ∧ th.result = some (.ran result) ∧
      result.finalContent = some content := by
  unfold finalOf at h
  split at h
  case h_1 result hresult =>
    obtain ⟨th, hth, hran⟩ := Option.bind_eq_some_iff.mp hresult
    exact ⟨th, result, hth, hran, h⟩
  case h_2 => cases h

theorem turn_of_posts (h : ∀ q ∈ posts c, q.1 ≠ i) (p : Posted) (hp : p ∈ c.store.outbox) :
    p.turn ≠ i :=
  h _ (List.mem_map_of_mem hp)

/-- The message of the Telegram turn goes to the command line, and the answer to the command
line is not sent, although that turn sent nothing. -/
theorem crossed_not_delivered :
    (telegram.channel, telegram.chatId) ≠ (AgentLoop.hello.channel, AgentLoop.hello.chatId) ∧
      ¬ Delivered 0 crossed ∧ ¬ Delivered 1 crossed := by
  refine ⟨by decide, fun h => ?_, fun h => ?_⟩
  · obtain ⟨th, hth, hchannel⟩ := Option.map_eq_some_iff.mp channels_crossed
    obtain ⟨hown, -⟩ := h th hth
    have hmem : (0, some note, "cli", "direct") ∈ posts crossed := by
      rw [posts_crossed]
      exact List.mem_cons_self
    obtain ⟨p, hp, hview⟩ := List.mem_map.mp hmem
    obtain ⟨hturn, hview⟩ := Prod.mk.inj hview
    obtain ⟨hvia, hview⟩ := Prod.mk.inj hview
    obtain ⟨hcli, -⟩ := Prod.mk.inj hview
    cases hpvia : p.via with
    | tool params =>
      rw [hpvia] at hvia
      obtain rfl := Option.some.inj hvia
      have htarget := (hown p hp hturn note hpvia ⟨by decide, by decide⟩).1
      rw [hcli, hchannel] at htarget
      exact absurd htarget (by decide)
    | final => rw [hpvia] at hvia; cases hvia
    | prefilter => rw [hpvia] at hvia; cases hvia
  · obtain ⟨th, result, hth, hran, hcontent⟩ := result_of_finalOf finalOf_crossed
    have hposts : ∀ q ∈ posts crossed, q.1 ≠ 1 := by
      rw [posts_crossed]
      decide
    rcases (h th hth).2 result _ hran hcontent with ⟨p, hp, hturn, -⟩ | ⟨p, hp, hturn, -⟩
    · exact turn_of_posts hposts p hp hturn
    · exact turn_of_posts hposts p hp hturn

def inOrder : List (Act InboundMessage Tick Empty) :=
  [.start telegram, .start AgentLoop.hello] ++
    [0, 0, 0, 0, 0, 0, 0, 0, 0, 1, 1, 1, 1, 1, 1, 1].map fun i => .move i {}

theorem delivered_inOrder :
    Delivered 0 (noting.system.run (idle AgentLoop.noSessions {}) inOrder) ∧
      Delivered 1 (noting.system.run (idle AgentLoop.noSessions {}) inOrder) := by
  have hmeets : noting.system.Meets (noting.Undisturbed 0) (idle AgentLoop.noSessions {}) inOrder ∧
      noting.system.Meets (noting.Undisturbed 1) (idle AgentLoop.noSessions {}) inOrder := by
    decide +kernel
  exact ⟨delivered_of_undisturbed (System.reach_run hmeets.1),
    delivered_of_undisturbed (System.reach_run hmeets.2)⟩

end InboundLoop

end HiveClaw.Turns
