import HiveClaw.Lib.ExpiringCounter
import HiveClaw.Lib.Pool
import HiveClaw.Runtime.SensitiveFilter
import HiveClaw.Store.Service

/-!
# The assistant endpoint and its daily quota

`assistant_chat` of `crates/hiveweb/src/api/chat_assistant.rs` with the quota it
takes from Redis: `check_and_incr_daily_limit` counts the request with `INCR`,
gives a fresh key its `EXPIRE` and takes the count back with `DECR` when the
limit is reached; every later failure of the request takes it back with
`decr_daily_limit`.

All requests are from one user, so the store is the one key
`assistant:daily:{user_id}`. What the other services answer (the external
database, the session store, the orchestrator) is part of the input of the
statement that asks them. A Redis command that finds no connection is one that
is refused.
-/

namespace HiveClaw.Assistant

open Lib

/-! ## Configuration -/

-- `AssistantChatLimitConfig`
structure AssistantChatLimitConfig where
  vipAskTimes : Int := 50
  normalAskTimes : Int := 10
  remainAskTime : Int := 2
  limitResetHour : Nat := 0
deriving DecidableEq, Repr

/-- `seconds_until_reset_hour`: the time to the next reset, at least a minute.
An hour that does not exist counts as midnight. -/
def secondsUntilResetHour (now : DateTime) (resetHour : Nat) : Nat :=
  let hour : Int := if resetHour ≤ 23 then resetHour else 0
  let day : Int := 86400 * 1000000
  let todayReset := Int.fdiv now day * day + hour * 3600 * 1000000
  let target := if now ≥ todayReset then todayReset + day else todayReset
  (max (Int.tdiv (target - now) 1000000) 60).toNat

-- 2024-05-01 23:59:58.5 UTC: the minute is the floor
example : secondsUntilResetHour 1714607998500000 0 = 60 := by decide

-- 2024-05-01 10:00:00 UTC
example : secondsUntilResetHour 1714557600000000 8 = 22 * 3600 := by decide

/-! ## Statements -/

/-- What a request says to the outside. `incr` carries the limit it is checked
against. -/
inductive ChatStmt where
  | cloudUser
  | vipMembership
  | limitConfig
  | incr (maxTimes : Int)
  | expire
  | decr
  | acquireSlot
  | ensureUser
  | session
  | appendMessage
  | runSession
deriving DecidableEq, Repr

/-- `ChatMessageUser`, the part of it the endpoint touches. -/
structure ChatMessageUser where
  id : Int
  content : String
  extensions : Option Json

/-- The answers to one statement; a statement reads the field that concerns it.
`events` are the events of the orchestrator as `parse_sse_event` reads them,
and `joined` what its task returns. -/
structure ChatInput where
  now : DateTime := 0
  reply : Reply := .answered
  cloudUser : Except String (Option (String × String)) := .ok (some ("u", "n"))
  isVip : Except String Bool := .ok false
  limitConfig : Except String (Option AssistantChatLimitConfig) := .ok none
  slotFree : Bool := true
  userSync : Except String Unit := .ok ()
  session : Except AppError Int := .ok 1
  append : Except AppError Unit := .ok ()
  events : List (Option String × String) := []
  joined : Except String (Option ChatMessageUser) := .ok none

/-- A request of the assistant over the user's counter. -/
abbrev Chat (ε α : Type) := ExceptT ε (Prog ChatStmt ChatInput Counter) α

/-- A statement that does not concern the counter. -/
def ask {ε α : Type} (l : ChatStmt) (f : ChatInput → α) : Chat ε α :=
  ExceptT.lift (Prog.read l fun i _ => f i)

/-- `conn.incr(key, 1)`; any error of Redis is `Err(None)`. -/
def incr (maxTimes : Int) : Chat (Option String) Int :=
  ExceptT.mk <| Prog.modify (.incr maxTimes) fun i c =>
    match i.reply with
    | .answered => (.ok (c.count + 1), c.add 1)
    | .lost => (.error none, c.add 1)
    | .refused => (.error none, c)

-- `let _ = conn.expire(key, secs)`
def expire {ε : Type} (resetHour : Nat) : Chat ε Unit :=
  ExceptT.lift <| Prog.modify .expire fun i c =>
    ((), if i.reply.executed then c.expire (secondsUntilResetHour i.now resetHour * 1000) else c)

/-- `let _ = conn.decr(key, 1)`, also `decr_daily_limit`. -/
def decrDailyLimit {ε : Type} : Chat ε Unit :=
  ExceptT.lift <| Prog.modify .decr fun i c =>
    ((), if i.reply.executed then c.add (-1) else c)

-- `check_and_incr_daily_limit`
def checkAndIncrDailyLimit (maxTimes : Int) (resetHour : Nat) : Chat (Option String) Int := do
  let current ← incr maxTimes
  if current = 1 then
    expire resetHour
  if current > maxTimes then
    decrDailyLimit
    throw (some ("Daily limit reached (" ++ toString (maxTimes - 1) ++ "/" ++
      toString (maxTimes - 1) ++ ")"))
  else
    pure current

/-! ## The endpoint -/

/-- `AssistantRequest`, without the fields that only reach the orchestrator. -/
structure AssistantRequest where
  userId : Int
  message : String
deriving DecidableEq, Repr

/-- The request as it comes in: the content type, the parameter `sign` and the
body. -/
structure HttpRequest where
  contentType : String
  sign : String
  body : String
deriving DecidableEq, Repr

/-- What the endpoint is configured with: the shared secret, the signature check
`verify_sign`, the deserialiser of the body, the word filter and whether there
is an external database. -/
structure Config where
  secret : String
  verifySign : (secret path body sign : String) → Bool
  parseRequest : String → Option AssistantRequest
  sensitiveCheck : String → Option Runtime.SensitivePattern
  extPool : Bool

-- `if c { return e }`
def failIf (c : Prop) [Decidable c] (e : AppError) : Chat AppError Unit :=
  if c then throw e else pure ()

/-- An error after the request has been counted gives the count back. -/
def orGiveBack {α : Type} (r : Except AppError α) : Chat AppError α :=
  match r with
  | .ok a => pure a
  | .error e => do
    decrDailyLimit
    throw e

/-- The checks 0 to 4b, which ask nobody. -/
def checkRequest (cfg : Config) (r : HttpRequest) : Chat AppError AssistantRequest := do
  failIf (r.contentType ≠ "application/json; charset=UTF-8")
    (.badRequest "Invalid Content-Type, must be: application/json; charset=UTF-8")
  failIf (cfg.secret ≠ "" ∧ cfg.verifySign cfg.secret "/api/assistant" r.body r.sign = false)
    (.badRequest "Invalid signature")
  match cfg.parseRequest r.body with
  | none => throw (.badRequest "Invalid request body")
  | some req =>
    failIf (req.userId ≤ 0) (.badRequest "user_id must be positive")
    failIf (RustStr.trim req.message = "") (.badRequest "message must not be empty")
    failIf (req.message.length > 500) (.badRequest "message must not exceed 500 characters")
    failIf ((cfg.sensitiveCheck req.message).isSome)
      (.sensitiveWordBlocked "内容安全警告：输入的文本数据可能包含不适当的内容！")
    failIf (cfg.extPool = false) (.internal "Assistant service unavailable")
    pure req

/-- Steps 5 to 7: the limits of the user, from the external database. -/
def userLimits : Chat AppError (Int × AssistantChatLimitConfig) := do
  match ← ask .cloudUser (·.cloudUser) with
  | .ok (some _) => pure ()
  | .ok none => throw (.badRequest "User not found")
  | .error _ => throw (.internal "用户数据查询失败，请稍后重试")
  let isVip ← ask .vipMembership fun i => i.isVip.toOption.getD false
  let limitConfig ← ask .limitConfig fun i => (i.limitConfig.toOption.getD none).getD {}
  pure (if isVip then limitConfig.vipAskTimes else limitConfig.normalAskTimes, limitConfig)

/-- The error of `assistant_chat` for a failed quota check. -/
def quotaError : Option String → AppError
  | some msg => .dailyLimitReached msg
  | none => .internal "Redis unavailable"

/-- The first event of the orchestrator that is an error. -/
def firstError (events : List (Option String × String)) : Option String :=
  (events.find? fun e => e.1 = some "error").map (·.2)

/-- What the drained events and the task's result come to. -/
def sessionResult (i : ChatInput) : Except AppError ChatMessageUser :=
  match firstError i.events with
  | some msg => .error (.internal msg)
  | none =>
    match i.joined with
    | .error e => .error (.internal ("orchestrator join: " ++ e))
    | .ok none => .error (.internal "assistant message was not persisted")
    | .ok (some m) => .ok m

/-- The `usage` extension. -/
def usageExtension (current maxTimes : Int) (limitConfig : AssistantChatLimitConfig) : Json :=
  .obj [("content_type", .str "usage"),
    ("payload", .obj [("used_times", .num (.int current)), ("total_times", .num (.int maxTimes)),
      ("membership_max_times", .num (.int limitConfig.vipAskTimes)),
      ("remain_ask_time", .num (.int limitConfig.remainAskTime))])]

/-- `exts.push(usage_ext)`; extensions that are no array are dropped. -/
def pushExtension (saved : ChatMessageUser) (ext : Json) : ChatMessageUser :=
  let exts := match saved.extensions with
    | some (.arr items) => items
    | _ => []
  { saved with extensions := some (.arr (exts ++ [ext])) }

/-- Steps 8 to the end, for a request that has been counted. -/
def answerCounted (current maxTimes : Int) (limitConfig : AssistantChatLimitConfig) :
    Chat AppError ChatMessageUser := do
  let slot ← ask .acquireSlot fun i =>
    if i.slotFree then .ok ()
    else .error (.sseConcurrencyExceeded "并发会话过多，请关闭其它对话窗口后重试")
  orGiveBack slot
  let synced ← ask .ensureUser fun i => i.userSync.mapError fun e => .internal ("user sync: " ++ e)
  orGiveBack synced
  let session ← ask .session (·.session)
  let _ ← orGiveBack session
  let appended ← ask .appendMessage (·.append)
  orGiveBack appended
  let result ← ask .runSession sessionResult
  let saved ← orGiveBack result
  if limitConfig.remainAskTime > 0 ∧ maxTimes - current ≤ limitConfig.remainAskTime then
    pure (pushExtension saved (usageExtension current maxTimes limitConfig))
  else
    pure saved

-- `assistant_chat`
def assistantChat (cfg : Config) (r : HttpRequest) : Chat AppError ChatMessageUser := do
  let _ ← checkRequest cfg r
  let (maxTimes, limitConfig) ← userLimits
  let current ← ExceptT.adapt quotaError
    (checkAndIncrDailyLimit maxTimes limitConfig.limitResetHour)
  answerCounted current maxTimes limitConfig

/-- The requests of one user, interleaved; from outside comes the time that
passes, in milliseconds. -/
def chats (cfg : Config) :
    System HttpRequest ChatStmt ChatInput Counter (Except AppError ChatMessageUser) Nat where
  program _ r := (assistantChat cfg r).run
  outside := Counter.elapse

end HiveClaw.Assistant
