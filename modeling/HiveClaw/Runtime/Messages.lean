import HiveClaw.Runtime.Session

/-!
# The messages of a model request

A provider refuses a request in which a tool call of the assistant has no
result. The messages of a session grow by whole rounds (`Grown`): the message
of the model with its tool calls, then one message for each call. So every
request of a session is well formed, whatever became of the calls.

* `runSession_requests_answered` — in every request of every session.
-/

namespace HiveClaw.Runtime

open Lib

-- ---
-- Requests
-- ---

def role (m : Json) : Option String := m.getStr "role"

-- the tool calls of a message of the assistant
def toolCallsOf (m : Json) : Option (List Json) := (m.get "tool_calls").bind Json.asArray

def opensTurn (m : Json) : Bool := role m = some "assistant" || role m = some "user"

/-- The messages before the next one of the assistant or the user. -/
def untilNextTurn (msgs : List Json) : List Json := msgs.takeWhile fun m => !opensTurn m

/-- One tool message for each call, in the order of the calls and with their
ids. -/
def AnsweredBy (calls results : List Json) : Prop :=
  results.map (fun m => (role m, m.getStr "tool_call_id")) =
    calls.map fun c => (some "tool", c.getStr "id")

/-- A message of the assistant with tool calls, followed by `post`, has its
results. -/
def HasResults (m : Json) (post : List Json) : Prop :=
  ∀ calls, role m = some "assistant" → toolCallsOf m = some calls →
    AnsweredBy calls (untilNextTurn post)

/-- Every message of the assistant with tool calls has its results. -/
def Answered (msgs : List Json) : Prop := ∀ m post, m :: post <:+ msgs → HasResults m post

/-- In every request of the trace: either it is that of a workflow node, which
has no history, or it continues the messages `start` of the session by messages
that are answered. -/
def RequestsAnswered (start : List Json) (trace : List Event) : Prop :=
  ∀ req, .modelRequest req ∈ trace →
    (∃ prompt, req = [message "system" prompt]) ∨
      ∃ prompt appended, req = message "system" prompt :: (start ++ appended) ∧
        Answered appended

-- ---
-- Rounds
-- ---

theorem answered_nil : Answered [] := by
  intro m post h
  exact absurd (List.suffix_nil.mp h) (by simp)

variable {m : Json}

theorem answered_cons_iff {msgs : List Json} :
    Answered (m :: msgs) ↔ HasResults m msgs ∧ Answered msgs := by
  unfold Answered
  constructor
  · intro h
    refine ⟨h m msgs (List.suffix_refl _), ?_⟩
    intro m' post hs
    exact h m' post (hs.trans (List.suffix_cons m msgs))
  · rintro ⟨hm, hmsgs⟩ m' post hs
    rcases List.suffix_cons_iff.mp hs with heq | hs
    · cases heq
      exact hm
    · exact hmsgs m' post hs

variable {rest xs : List Json}

theorem untilNextTurn_append (hm : opensTurn m = true) :
    untilNextTurn (xs ++ m :: rest) = untilNextTurn xs := by
  induction xs with
  | nil => simp [untilNextTurn, List.takeWhile, hm]
  | cons x xs ih =>
    simp only [untilNextTurn, List.cons_append, List.takeWhile_cons] at ih ⊢
    split
    · rw [ih]
    · rfl

theorem Answered.append (hm : opensTurn m = true) (hxs : Answered xs)
    (hrest : Answered (m :: rest)) : Answered (xs ++ m :: rest) := by
  induction xs with
  | nil => exact hrest
  | cons x xs ih =>
    obtain ⟨hx, hxs⟩ := answered_cons_iff.mp hxs
    refine answered_cons_iff.mpr ⟨?_, ih hxs⟩
    intro calls hrole hcalls
    show AnsweredBy calls (untilNextTurn (xs ++ m :: rest))
    rw [untilNextTurn_append hm]
    exact hx calls hrole hcalls

section Round

variable {env : Env}

theorem role_toolMessage (tc : ToolCallRequest) (payload : Json) :
    role (toolMessage env tc payload) = some "tool" := rfl

theorem role_assistantMessage (resp : LLMResponse) :
    role (assistantMessage env resp) = some "assistant" := by
  unfold assistantMessage
  dsimp only
  split <;> rfl

variable {resp : LLMResponse}

theorem toolCallsOf_assistantMessage (hcalls : resp.toolCalls ≠ []) :
    toolCallsOf (assistantMessage env resp) =
      some (resp.toolCalls.map (ToolCallRequest.toOpenaiToolCall env.toText)) := by
  unfold assistantMessage
  rw [if_neg hcalls]
  rfl

theorem answered_toolMessages (calls : List ToolCallRequest) (payloads : List Json) :
    Answered (List.zipWith (toolMessage env) calls payloads) := by
  induction calls generalizing payloads with
  | nil => exact answered_nil
  | cons tc rest ih =>
    cases payloads with
    | nil => exact answered_nil
    | cons payload payloads =>
      refine answered_cons_iff.mpr ⟨?_, ih payloads⟩
      intro calls hrole
      rw [role_toolMessage] at hrole
      exact absurd hrole (by decide)

theorem untilNextTurn_toolMessages (calls : List ToolCallRequest) (payloads : List Json) :
    untilNextTurn (List.zipWith (toolMessage env) calls payloads) =
      List.zipWith (toolMessage env) calls payloads := by
  induction calls generalizing payloads with
  | nil => rfl
  | cons tc rest ih =>
    cases payloads with
    | nil => rfl
    | cons payload payloads =>
      have hrest := ih payloads
      unfold untilNextTurn at hrest ⊢
      rw [List.zipWith_cons_cons, List.takeWhile_cons, hrest]
      rfl

variable {payloads : List Json}

theorem answeredBy_toolMessages {calls : List ToolCallRequest}
    (hlen : payloads.length = calls.length) :
    AnsweredBy (calls.map (ToolCallRequest.toOpenaiToolCall env.toText))
      (List.zipWith (toolMessage env) calls payloads) := by
  unfold AnsweredBy
  induction calls generalizing payloads with
  | nil => rfl
  | cons tc rest ih =>
    cases payloads with
    | nil => simp at hlen
    | cons payload payloads =>
      have hrest := @ih payloads (by simpa using hlen)
      rw [List.zipWith_cons_cons, List.map_cons, List.map_cons, List.map_cons, hrest]
      rfl

theorem answered_round (hcalls : resp.toolCalls ≠ [])
    (hlen : payloads.length = resp.toolCalls.length) :
    Answered (assistantMessage env resp ::
      List.zipWith (toolMessage env) resp.toolCalls payloads) := by
  refine answered_cons_iff.mpr ⟨?_, answered_toolMessages _ _⟩
  intro calls _ hof
  rw [toolCallsOf_assistantMessage hcalls, Option.some.injEq] at hof
  subst hof
  rw [untilNextTurn_toolMessages]
  exact answeredBy_toolMessages hlen

/-- All the rounds of a session. -/
theorem Grown.answered {start msgs : List Json} (h : Grown env start msgs) :
    ∃ appended, msgs = start ++ appended ∧ Answered appended := by
  induction h with
  | start => exact ⟨[], by simp, answered_nil⟩
  | @round msgs resp payloads _ hcalls hlen ih =>
    obtain ⟨appended, rfl, hanswered⟩ := ih
    refine ⟨appended ++ assistantMessage env resp ::
      List.zipWith (toolMessage env) resp.toolCalls payloads, by simp, ?_⟩
    refine hanswered.append ?_ (answered_round hcalls hlen)
    simp [opensTurn, role_assistantMessage]

end Round

-- ---
-- Sessions
-- ---

theorem requestsAnswered_of_runs {env : Env} {s : Session} {now : DateTime} {w' : World}
    {r : SessionEnd} (h : (runSession env s).Runs (initialWorld env s now) r w') :
    RequestsAnswered (s.start env) w'.trace := by
  intro req hreq
  rcases session_event h hreq with ht | hq | hend
  · cases ht
  · cases hq with
    | modelRequest hloop =>
      obtain ⟨prompt, msgs, hgrown, rfl⟩ := hloop
      obtain ⟨appended, rfl, hanswered⟩ := hgrown.answered
      exact Or.inr ⟨prompt, appended, rfl, hanswered⟩
    | inner hinner =>
      cases hinner with
      | modelRequest prompt => exact Or.inl ⟨prompt, rfl⟩
  · cases hend

/-- Every session, from whatever it meets outside: its own code and that of its
hooks, tools and workflows sends no request in which a tool call is without its
result. -/
theorem runSession_requests_answered (env : Env) (s : Session) (now : DateTime)
    (outside : Nat → Moment) :
    RequestsAnswered (s.start env)
      (sessionRun env s now outside).2.trace :=
  requestsAnswered_of_runs (runs_sessionRun env s now outside)

end HiveClaw.Runtime
