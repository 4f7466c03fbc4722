import HiveClaw.Turns.Delivery
import HiveClaw.Channels.Manager

/-!
# How a subagent reports back

`SubagentManager::announce_result` of `crates/agent/src/subagent.rs` with the end of
`run_subagent`: the result of a subagent becomes an inbound message on the channel `system`,
with the chat it came from written into the chat id. `AgentLoop::run` starts a turn for it like
for any other message, and nothing takes the chat id apart again: the turn answers on the channel
`system`, which is no channel of the registry (`announcement_not_returned`).
-/

namespace HiveClaw.Subagents

open Turns Lib Channels
open Turns.InboundLoop (Lane)

/-- What `spawn` was called with. -/
structure Subagent where
  taskId : String
  label : String
  task : String
  originChannel : String
  originChatId : String
  sessionKey : Option String := none
  originMessageId : Option String := none
deriving DecidableEq, Repr

/-! ## The text of the report -/

def stepLine (e : Runner.ToolEvent) : String := "- " ++ e.name ++ ": " ++ e.detail

/-- `lines`, with an empty line before more lines. -/
def appendSection (lines more : List String) : List String :=
  if lines.isEmpty then more else lines ++ [""] ++ more

-- `format_partial_progress`
def formatPartialProgress (result : Runner.AgentRunResult) : String :=
  let completed := result.toolEvents.filter fun e => e.status = "ok"
  let failure := result.toolEvents.reverse.find? fun e => e.status = "error"
  let lines : List String :=
    if completed.isEmpty then []
    else "Completed steps:" :: (completed.drop (completed.length - 3)).map stepLine
  let lines := match failure with
    | some f => appendSection lines ["Failure:", stepLine f]
    | none =>
      match result.error with
      | some err => appendSection lines ["Failure:", "- " ++ err]
      | none => lines
  if lines.isEmpty then result.error.getD "Error: subagent execution failed."
  else "\n".intercalate lines

/-- What `run_subagent` reports of a result, and whether it went well. -/
def reported (result : Runner.AgentRunResult) : String × Bool :=
  if result.stopReason = "tool_error" then (formatPartialProgress result, false)
  else if result.stopReason = "error" then
    (result.error.getD "Error: subagent execution failed.", false)
  else (result.finalContent.getD "Task completed but no final response was generated.", true)

namespace Subagent

variable (s : Subagent)

/-- The chat that the subagent was started from, as one string. -/
def origin : String := s.originChannel ++ ":" ++ s.originChatId

-- `announce_result`
def announceResult (result : String) (ok : Bool) : InboundMessage :=
  let statusText := if ok then "completed successfully" else "failed"
  let metadata : HashMap String Json :=
    ((∅ : HashMap String Json).insert "injected_event" (.str "subagent_result")).insert
      "subagent_task_id" (.str s.taskId)
  { channel := "system"
    senderId := "subagent"
    chatId := s.origin
    content := "Subagent [" ++ s.label ++ "] " ++ statusText ++ "\n\nOriginal task:\n" ++ s.task ++
      "\n\nResult:\n" ++ result
    sessionKeyOverride := some (s.sessionKey.getD s.origin)
    metadata := match s.originMessageId with
      | some id => metadata.insert "origin_message_id" (.str id)
      | none => metadata }

/-- The message for a run of the subagent. -/
def announcement (result : Runner.AgentRunResult) : InboundMessage :=
  s.announceResult (reported result).1 (reported result).2

theorem system_ne_origin : ("system", s.origin) ≠ (s.originChannel, s.originChatId) := by
  intro h
  have hchat : s.origin = s.originChatId := (Prod.mk.inj h).2
  have hlength := congrArg String.length hchat
  simp only [origin, String.length_append] at hlength
  have hcolon : (":" : String).length = 1 := by decide
  omega

end Subagent

/-! ## The answers of any turn -/

abbrev TurnThread := Thread InboundMessage Turns.Section Tick Shared Outcome

section Answers

variable {l : InboundLoop}

/-- The final content of a turn is posted to the chat of its message. -/
def AnsweredOwn (c : Lane) : Prop :=
  ∀ p ∈ c.store.outbox, p.via = .final → ∃ th, c.threads[p.turn]? = some th ∧
    p.msg.channel = th.req.channel ∧ p.msg.chatId = th.req.chatId

/-- What holds of the lane in every interleaving. -/
structure LaneInv (l : InboundLoop) (c : Lane) : Prop where
  obeys : Obeys l.inbound (fun _ _ => InboundLoop.Ends) c
  numbered : Numbered c
  answered : AnsweredOwn c

theorem final_of_mem_posted {turn : Nat} {msg : InboundMessage} {label : Turns.Section}
    {s : Shared} {p : Posted} (h : p ∈ l.posted turn msg label s) (hvia : p.via = .final) :
    p.msg.channel = msg.channel ∧ p.msg.chatId = msg.chatId := by
  unfold InboundLoop.posted at h
  split at h
  · rw [List.mem_singleton.mp h] at hvia
    cases hvia
  · split at h
    · rw [List.mem_singleton.mp h] at hvia
      cases hvia
    · cases h
  · split at h
    · cases h
    · rw [List.mem_singleton.mp h]
      exact ⟨rfl, rfl⟩
  · cases h

variable {c : Lane}

theorem AnsweredOwn.of_threads {c' : Lane} (h : AnsweredOwn c)
    (houtbox : c'.store.outbox = c.store.outbox)
    (hthreads : ∀ (i : Nat) (th : TurnThread), c.threads[i]? = some th →
      ∃ th' : TurnThread, c'.threads[i]? = some th' ∧ th'.req = th.req) : AnsweredOwn c' := by
  intro p hp hvia
  rw [houtbox] at hp
  obtain ⟨th, hth, hchannel, hchat⟩ := h p hp hvia
  obtain ⟨th', hth', hreq⟩ := hthreads _ th hth
  exact ⟨th', hth', hreq ▸ hchannel, hreq ▸ hchat⟩

theorem LaneInv.step {c : Lane} (h : LaneInv l c) (a : Act InboundMessage Tick Empty) :
    LaneInv l (l.system.step c a) := by
  have hobeys : Obeys l.inbound (fun _ _ => InboundLoop.Ends) (l.system.step c a) :=
    Obeys.step InboundLoop.follows_processInbound h.obeys a
  refine ⟨hobeys, Numbered.step l.system h.numbered a, ?_⟩
  have hset : ∀ {i : Nat} {th : TurnThread} (th' : TurnThread), c.threads[i]? = some th →
      th'.req = th.req → ∀ (j : Nat) (th₀ : TurnThread), c.threads[j]? = some th₀ →
        ∃ th₁ : TurnThread, (c.threads.set i th')[j]? = some th₁ ∧ th₁.req = th₀.req := by
    intro i th th' hth hreq j th₀ hj
    by_cases heq : i = j
    · subst heq
      rw [hth, Option.some.injEq] at hj
      subst hj
      refine ⟨th', ?_, hreq⟩
      rw [List.getElem?_set_self (List.getElem?_eq_some_iff.mp hth).1]
    · exact ⟨th₀, by rw [List.getElem?_set_ne heq, hj], rfl⟩
  rcases step_cases l.system h.obeys a with heq | ⟨msg, rfl, heq⟩ |
    ⟨j, tick, th, label, w, n, rfl, hth, -, -, -, ⟨-, hw⟩, heq⟩ | ⟨j, th, rfl, hth, heq⟩ | ⟨e, -, -⟩
  · rw [heq]
    exact h.answered
  · rw [heq]
    refine h.answered.of_threads rfl fun i th hth => ⟨th, ?_, rfl⟩
    rw [List.getElem?_append_left (List.getElem?_eq_some_iff.mp hth).1, hth]
  · have hno : th.no = j := h.numbered j th hth
    rw [heq, hw, hno]
    intro p hp hvia
    rw [InboundLoop.outbox_effect, List.mem_append] at hp
    rcases hp with hp | hp
    · obtain ⟨th₀, hth₀, hchannel, hchat⟩ := h.answered p hp hvia
      obtain ⟨th₁, hth₁, hreq⟩ := hset (System.advance th label tick c.store (n tick c.store)) hth rfl _ th₀ hth₀
      exact ⟨th₁, hth₁, hreq ▸ hchannel, hreq ▸ hchat⟩
    · obtain ⟨th₁, hth₁, hreq⟩ := hset (System.advance th label tick c.store (n tick c.store)) hth rfl _ th hth
      rw [InboundLoop.turn_of_mem_posted hp]
      exact ⟨th₁, hth₁, hreq ▸ (final_of_mem_posted hp hvia).1,
        hreq ▸ (final_of_mem_posted hp hvia).2⟩
  · rw [heq]
    exact h.answered.of_threads rfl (hset _ hth rfl)
  · exact e.elim

theorem answeredOwn_of_reach {P : Lane → Act InboundMessage Tick Empty → Prop}
    {m : Sessions.SessionManager} {context : MessageContext}
    (h : l.system.Reach P (InboundLoop.idle m context) c) : AnsweredOwn c :=
  (h.inv (I := LaneInv l)
    ⟨fun _ hth => absurd hth List.not_mem_nil, fun _ _ hth => by simp [InboundLoop.idle] at hth,
      fun _ hp => absurd hp List.not_mem_nil⟩ fun _ a hc _ => hc.step a).answered

end Answers

/-! ## The turn of an announcement -/

/-- The channels of a manager are from the registry. -/
def FromRegistry (manager : ChannelManager) : Prop :=
  ∀ name ∈ manager.channels, name ∈ knownChannelNames

/-- A message went to the channel `system`, not to the chat the subagent was started from, and no
channel manager delivers it. -/
def GoesAstray (s : Subagent) (msg : OutboundMessage) : Prop :=
  (msg.channel, msg.chatId) = ("system", s.origin) ∧
    (msg.channel, msg.chatId) ≠ (s.originChannel, s.originChatId) ∧
    ∀ manager : ChannelManager, FromRegistry manager → manager.deliver msg = []

theorem goesAstray {s : Subagent} {msg : OutboundMessage} (hchannel : msg.channel = "system")
    (hchat : msg.chatId = s.origin) : GoesAstray s msg := by
  have htarget : (msg.channel, msg.chatId) = ("system", s.origin) := by rw [hchannel, hchat]
  refine ⟨htarget, htarget ▸ s.system_ne_origin, fun manager hmanager => ?_⟩
  have hunknown : "system" ∉ knownChannelNames := by decide
  rw [ChannelManager.deliver, if_neg]
  intro hmem
  exact hunknown (hmanager _ (hchannel ▸ hmem))

/-- Whatever the subagent reports, the turn that is started for it never publishes its final
content to the chat the subagent was started from, in no interleaving, and in an undisturbed one
neither do its calls of the message tool without explicit target go there. -/
theorem announcement_not_returned (l : InboundLoop) (s : Subagent) (result : Runner.AgentRunResult)
    {m : Sessions.SessionManager} {context : MessageContext} {c : Lane} {i : Nat}
    {th : TurnThread}
    (h : l.system.Reach (fun _ _ => True) (InboundLoop.idle m context) c)
    (hth : c.threads[i]? = some th) (hreq : th.req = s.announcement result) :
    (∀ p ∈ c.store.outbox, p.turn = i → p.via = .final → GoesAstray s p.msg) ∧
    (l.system.Reach (l.Undisturbed i) (InboundLoop.idle m context) c →
      (∀ p ∈ c.store.outbox, p.turn = i → ∀ params, p.via = .tool params → Untargeted params →
        GoesAstray s p.msg) ∧
      ∀ run content, th.result = some (.ran run) → run.finalContent = some content →
        ¬ InboundLoop.SentByTool i c.store →
        ∃ p ∈ c.store.outbox, p.turn = i ∧ p.via = .final ∧ p.msg.content = content) := by
  constructor
  · intro p hp hturn hvia
    obtain ⟨th', hth', hchannel, hchat⟩ := answeredOwn_of_reach h p hp hvia
    rw [hturn, hth, Option.some.injEq] at hth'
    rw [← hth', hreq] at hchannel hchat
    exact goesAstray hchannel hchat
  · intro hquiet
    obtain ⟨hown, hfinal⟩ := InboundLoop.delivered_of_undisturbed hquiet th hth
    constructor
    · intro p hp hturn params hvia hparams
      obtain ⟨hchannel, hchat⟩ := hown p hp hturn params hvia hparams
      rw [hreq] at hchannel hchat
      exact goesAstray hchannel hchat
    · intro run content hran hcontent hnot
      rcases hfinal run content hran hcontent with hsent | ⟨p, hp, hturn, hvia, hmsg⟩
      · exact absurd hsent hnot
      · exact ⟨p, hp, hturn, hvia, by rw [hmsg]; rfl⟩

/-! ## A subagent of a Telegram chat -/

/-- A subagent that a Telegram chat started. -/
def lookup : Subagent :=
  { taskId := "a1b2c3d4", label := "look it up", task := "look it up"
    originChannel := "telegram", originChatId := "1" }

/-- A lane whose turns answer at once. -/
def answering : InboundLoop where
  codec := AgentLoop.greeter.codec
  context := AgentLoop.greeter.context
  messageTool := { stripThink := fun s => s }
  runner := fun _ _ => .finish { finalContent := some "Found it." }

/-- The turn for the report of the subagent, from its start to its end. -/
def reporting : List (Act InboundMessage Tick Empty) :=
  .start (lookup.announcement { finalContent := some "42" }) ::
    (List.replicate 7 0).map fun i => .move i {}

def afterReport : Lane := answering.system.run (InboundLoop.idle AgentLoop.noSessions {}) reporting

theorem posts_afterReport :
    afterReport.store.outbox.map (fun p => (p.turn, p.msg.channel, p.msg.chatId, p.msg.content)) =
      [(0, "system", "telegram:1", "Found it.")] := by
  decide +kernel

theorem reach_afterReport :
    answering.system.Reach (answering.Undisturbed 0) (InboundLoop.idle AgentLoop.noSessions {})
        afterReport ∧
      answering.system.Reach (fun _ _ => True) (InboundLoop.idle AgentLoop.noSessions {})
        afterReport := by
  have hmeets : answering.system.Meets (answering.Undisturbed 0)
      (InboundLoop.idle AgentLoop.noSessions {}) reporting := by decide +kernel
  have hany : answering.system.Meets (fun _ _ => True)
      (InboundLoop.idle AgentLoop.noSessions {}) reporting := by decide +kernel
  exact ⟨System.reach_run hmeets, System.reach_run hany⟩

theorem thread_afterReport :
    ∃ th : TurnThread, afterReport.threads[0]? = some th ∧
      th.req = lookup.announcement { finalContent := some "42" } := by
  have hreq : (afterReport.threads[0]?).map Thread.req =
      some (lookup.announcement { finalContent := some "42" }) := by
    exact rfl
  obtain ⟨th, hth, heq⟩ := Option.map_eq_some_iff.mp hreq
  exact ⟨th, hth, heq⟩

/-- The answer to the report goes astray. -/
theorem goesAstray_afterReport :
    afterReport.store.outbox.length = 1 ∧
      ∀ p ∈ afterReport.store.outbox, p.via = .final → GoesAstray lookup p.msg := by
  obtain ⟨th, hth, hreq⟩ := thread_afterReport
  refine ⟨?_, ?_⟩
  · simpa using congrArg List.length posts_afterReport
  intro p hp hvia
  have hturn : ∀ q ∈ afterReport.store.outbox.map fun p =>
      (p.turn, p.msg.channel, p.msg.chatId, p.msg.content), q.1 = 0 := by
    rw [posts_afterReport]
    decide
  exact (announcement_not_returned answering lookup _ reach_afterReport.2 hth hreq).1 p hp
    (hturn _ (List.mem_map_of_mem hp)) hvia

/-- The turn has ended with a final content, and the Telegram chat gets nothing. -/
theorem report_not_returned :
    InboundLoop.finalOf afterReport 0 = some "Found it." ∧
      (∃ th : TurnThread, afterReport.threads[0]? = some th ∧
        th.req = lookup.announcement { finalContent := some "42" }) ∧
      ∀ p ∈ afterReport.store.outbox,
        (p.msg.channel, p.msg.chatId) ≠ (lookup.originChannel, lookup.originChatId) := by
  refine ⟨by decide +kernel, thread_afterReport, fun p hp => ?_⟩
  have hposts : ∀ q ∈ afterReport.store.outbox.map fun p =>
      (p.turn, p.msg.channel, p.msg.chatId, p.msg.content), (q.2.1, q.2.2.1) ≠ ("telegram", "1") := by
    rw [posts_afterReport]
    decide
  exact hposts _ (List.mem_map_of_mem hp)

end HiveClaw.Subagents
