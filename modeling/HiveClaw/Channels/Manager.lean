import HiveClaw.Turns.Turn

/-!
# The dispatcher of outbound messages

`ChannelManager::dispatch_outbound` of `crates/channels/src/manager.rs` with
`coalesce_stream_deltas`, `send_with_retry` and `send_once`, over the outbound lane of
`crates/bus/src/queue.rs`, and the list of channels of `crates/channels/src/registry.rs`.

The lane is first in, first out. The dispatcher is one task; `poll` is what it does between two
looks at the lane, and whether a look finds a message is decided outside: the time-outs of the
source may end a look at any moment, and anyone may publish in between.
-/

namespace HiveClaw.Channels

open Turns

/-! ## Flags of a message -/

-- `is_truthy`
def isTruthy : Json → Bool
  | .bool b => b
  | .null => false
  | .num (.int n) => n ≠ 0
  | .num (.float mantissa _) => mantissa ≠ 0
  | .str s => s ≠ "" && s ≠ "false" && s ≠ "0"
  | .arr items => !items.isEmpty
  | .obj fields => !fields.isEmpty

-- `STREAM_DELTA_KEY`
def streamDeltaKey : String := "_stream_delta"

-- `STREAM_END_KEY`
def streamEndKey : String := "_stream_end"

/-- Whether a key of the metadata is set. -/
def flag (metadata : HashMap String Json) (key : String) : Bool :=
  ((metadata.lookup key).map isTruthy).getD false

def isDelta (msg : OutboundMessage) : Bool := flag msg.metadata streamDeltaKey

def isEnd (msg : OutboundMessage) : Bool := flag msg.metadata streamEndKey

def target (msg : OutboundMessage) : String × String := (msg.channel, msg.chatId)

/-! ## Sending -/

inductive Call where
  | send (msg : OutboundMessage)
  | sendDelta (channel chatId content : String) (metadata : HashMap String Json)

def Call.target : Call → String × String
  | .send msg => Channels.target msg
  | .sendDelta channel chatId _ _ => (channel, chatId)

/-- `ChannelManager`, as far as the dispatcher uses it. -/
structure ChannelManager where
  /-- The names of the enabled channels. -/
  channels : List String
  sendProgress : Bool := true
  sendToolHints : Bool := false
  sendMaxRetries : Nat := 3
  /-- Whether an attempt at a call succeeds. -/
  succeeds : Call → Nat → Bool := fun _ _ => true

namespace ChannelManager

variable (c : ChannelManager)

-- `send_once`
def sendOnce (msg : OutboundMessage) : Option Call :=
  if isDelta msg || isEnd msg then
    some (.sendDelta msg.channel msg.chatId msg.content msg.metadata)
  else if flag msg.metadata "_streamed" then none
  else some (.send msg)

/-- How often a call is made, of the attempts that are left. -/
def attempts (succeeds : Nat → Bool) : Nat → Nat → Nat
  | 0, _ => 0
  | left + 1, attempt =>
    if succeeds attempt then 1 else 1 + attempts succeeds left (attempt + 1)

-- `send_with_retry`
def sendWithRetry (msg : OutboundMessage) : List Call :=
  match sendOnce msg with
  | some call => List.replicate (attempts (c.succeeds call) (max c.sendMaxRetries 1) 0) call
  | none => []

/-- The end of an iteration: the channel is looked up and gets the message. -/
def deliver (msg : OutboundMessage) : List Call :=
  if msg.channel ∈ c.channels then c.sendWithRetry msg else []

/-- The rules on progress, tool hints and waits. -/
def suppressed (msg : OutboundMessage) : Bool :=
  (flag msg.metadata "_progress" &&
      (if flag msg.metadata "_tool_hint" then !c.sendToolHints else !c.sendProgress)) ||
    flag msg.metadata "_retry_wait"

end ChannelManager

/-! ## The loop -/

/-- Where the dispatcher is: at the top of its loop, or collecting deltas. -/
inductive Stage where
  | ready
  | coalescing (first : OutboundMessage) (combined : String) (metadata : HashMap String Json)

/-- The lane, the dispatcher and what it has sent; `published` are all messages ever put on the
lane. -/
structure Dispatch where
  queue : List OutboundMessage := []
  pending : List OutboundMessage := []
  stage : Stage := .ready
  calls : List Call := []
  published : List OutboundMessage := []

namespace ChannelManager

variable (c : ChannelManager)

/-- The end of `coalesce_stream_deltas` and of the iteration. -/
def finish (first : OutboundMessage) (combined : String) (metadata : HashMap String Json)
    (nonMatching : List OutboundMessage) (w : Dispatch) : Dispatch :=
  { w with
    stage := .ready
    pending := w.pending ++ nonMatching
    calls := w.calls ++ c.deliver { first with content := combined, metadata } }

/-- What an iteration does with its message. -/
def handle (msg : OutboundMessage) (w : Dispatch) : Dispatch :=
  if c.suppressed msg then { w with stage := .ready }
  else if isDelta msg && !isEnd msg then
    { w with stage := .coalescing msg msg.content msg.metadata }
  else { w with stage := .ready, calls := w.calls ++ c.deliver msg }

/-- One message more for `coalesce_stream_deltas`. -/
def coalesce (first : OutboundMessage) (combined : String) (metadata : HashMap String Json)
    (next : OutboundMessage) (w : Dispatch) : Dispatch :=
  if target next = target first ∧ isDelta next = true ∧ flag metadata streamEndKey = false then
    if isEnd next then
      c.finish first (combined ++ next.content) (metadata.insert streamEndKey (.bool true)) [] w
    else { w with stage := .coalescing first (combined ++ next.content) metadata }
  else c.finish first combined metadata [next] w

/-- The dispatcher from one look at the lane to the next; `found` says whether the look may find
a message. -/
def poll (found : Bool) (w : Dispatch) : Dispatch :=
  match w.stage with
  | .ready =>
    match w.pending.getLast? with
    | some msg => c.handle msg { w with pending := w.pending.dropLast }
    | none =>
      match found, w.queue with
      | true, msg :: queue => c.handle msg { w with queue }
      | _, _ => w
  | .coalescing first combined metadata =>
    match found, w.queue with
    | true, next :: queue => c.coalesce first combined metadata next { w with queue }
    | _, _ => c.finish first combined metadata [] w

/-- The states that the dispatcher reaches while messages are published. -/
inductive Reachable : Dispatch → Prop
  | start : Reachable {}
  | publish {w : Dispatch} (msg : OutboundMessage) : Reachable w →
      Reachable { w with queue := w.queue ++ [msg], published := w.published ++ [msg] }
  | poll {w : Dispatch} (found : Bool) : Reachable w → Reachable (c.poll found w)

end ChannelManager

/-! ## The registry -/

-- `known_channel_names`
def knownChannelNames : List String :=
  ["weixin", "qq", "dingtalk", "discord", "email", "matrix", "mochat", "msteams", "slack",
    "telegram", "wecom", "websocket", "whatsapp"]

end HiveClaw.Channels
