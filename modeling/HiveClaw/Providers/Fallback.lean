import HiveClaw.Providers.Base

/-!
# Failover between providers

`FallbackProvider` of `crates/providers/src/fallback_provider.rs`: a primary provider behind
a circuit breaker, and fallback models that are tried in order. A streaming call fails over
only as long as nothing was streamed, so all that reaches the caller's callbacks comes from
one call, whose response is the one that is returned (`one_call_streams`).

The tables of `str::to_lowercase` and the clock are parameters.
-/

namespace HiveClaw.Providers

/-! ## Which errors fail over -/

def fallbackErrorKinds : List String :=
  ["timeout", "connection", "server_error", "rate_limit", "overloaded"]

def nonFallbackErrorKinds : List String :=
  ["authentication", "auth", "permission", "content_filter", "refusal", "context_length",
    "invalid_request"]

def fallbackErrorTokens : List String :=
  ["rate_limit", "rate limit", "too_many_requests", "too many requests", "overloaded",
    "server_error", "server error", "temporarily unavailable", "timeout", "timed out",
    "connection", "insufficient_quota", "insufficient quota", "quota_exceeded", "quota exceeded",
    "quota_exhausted", "quota exhausted", "billing_hard_limit", "insufficient_balance", "balance",
    "out of credits"]

-- `should_fallback`
def shouldFallback (toLowercase : String → String) (r : LLMResponse) : Bool :=
  let kind := toLowercase (r.errorKind.getD "")
  let errorType := toLowercase (r.errorType.getD "")
  let code := toLowercase (r.errorCode.getD "")
  let text := toLowercase (r.content.getD "")
  if r.errorShouldRetry = some false then false
  else if r.errorStatusCode.any fun s => [400, 401, 403, 404, 422].contains s then false
  else if nonFallbackErrorKinds.contains kind then false
  else if [kind, errorType, code].any fun v => containsAny v nonFallbackErrorKinds then false
  else if r.errorShouldRetry = some true then true
  else if r.errorStatusCode.any fun s => [408, 409, 429].contains s || (500 ≤ s && s ≤ 599) then true
  else if fallbackErrorKinds.contains kind then true
  else [kind, errorType, code, text].any fun v => containsAny v fallbackErrorTokens

/-! ## The provider -/

-- `FallbackPreset`
structure FallbackPreset where
  model : String
  maxTokens : Nat
  temperature : Option Rat
  reasoningEffort : Option String

/-- `FallbackState`; instants are in nanoseconds. -/
structure FallbackState where
  primaryFailures : Nat := 0
  primaryTrippedAt : Option Nat := none
deriving DecidableEq, Repr

/-- `FallbackProvider`; `instantNow` reads the clock. -/
structure FallbackProvider (ω : Type) where
  primary : Provider ω
  fallbackPresets : List FallbackPreset
  providerFactory : FallbackPreset → Provider ω
  instantNow : ω → Nat × ω
  toLowercase : String → String

-- `PRIMARY_FAILURE_THRESHOLD`
def primaryFailureThreshold : Nat := 3

/-- `PRIMARY_COOLDOWN_S`, in nanoseconds. -/
def primaryCooldown : Nat := 60 * 10 ^ 9

/-- Which provider a call goes to. -/
inductive Callee where
  | primary
  | fallback (idx : Nat)
deriving DecidableEq, Repr

/-- The place of a provider in the order of failover. -/
def Callee.rank : Callee → Nat
  | .primary => 0
  | .fallback idx => idx + 1

/-- A call of `chat_stream` that the wrapper made. -/
structure Call where
  callee : Callee
  attempt : Attempt

/-- Whether a delta sets `has_streamed`. -/
def Delta.counts : Delta → Bool
  | .text piece => piece ≠ ""
  | .toolCall _ => true

/-- The variables of one call of `chat_stream`, and the calls made in it. -/
structure Failover (ω : Type) where
  state : FallbackState
  world : ω
  hasStreamed : Bool := false
  calls : List Call := []

variable {ω : Type}

namespace FallbackProvider

-- `primary_available`
def primaryAvailable (f : FallbackProvider ω) (s : Failover ω) : Bool × Failover ω :=
  match s.state.primaryTrippedAt with
  | none => (true, s)
  | some trippedAt =>
    let (now, w) := f.instantNow s.world
    (now - trippedAt ≥ primaryCooldown, { s with world := w })

/-- A call with the tracking callbacks. -/
def call (p : Provider ω) (callee : Callee) (req : ChatRequest) (s : Failover ω) :
    Attempt × Failover ω :=
  let (a, w) := p.chatStream req s.world
  (a, { s with
    world := w
    hasStreamed := s.hasStreamed || a.deltas.any Delta.counts
    calls := s.calls ++ [⟨callee, a⟩] })

/-- The failure count after an error of the primary provider. -/
def recordFailure (f : FallbackProvider ω) (s : Failover ω) : Failover ω :=
  let failures := (s.state.primaryFailures + 1) % 2 ^ 32
  let s := { s with state := { s.state with primaryFailures := failures } }
  if failures ≥ primaryFailureThreshold then
    let (now, w) := f.instantNow s.world
    { s with state := { s.state with primaryTrippedAt := some now }, world := w }
  else s

/-- The request to a fallback model. -/
def fallbackRequest (req : ChatRequest) (preset : FallbackPreset) : ChatRequest :=
  { req with
    model := some preset.model
    maxTokens := preset.maxTokens
    temperature := preset.temperature
    reasoningEffort := preset.reasoningEffort }

/-- The loop over the fallback models. -/
def tryFallbacks (f : FallbackProvider ω) (req : ChatRequest) (primaryModel : String) :
    Option LLMResponse → Nat → List FallbackPreset → Failover ω → LLMResponse × Failover ω
  | last, _, [], s => (exhausted primaryModel last, s)
  | last, idx, preset :: rest, s =>
    if s.hasStreamed then (exhausted primaryModel last, s)
    else
      let (a, s) := call (f.providerFactory preset) (.fallback idx) (fallbackRequest req preset) s
      if a.response.finishReason ≠ "error" then (a.response, s)
      else f.tryFallbacks req primaryModel (some a.response) (idx + 1) rest s
where
  /-- The response when no fallback model is left. -/
  exhausted (primaryModel : String) (last : Option LLMResponse) : LLMResponse :=
    last.getD (.error ("Primary model '" ++ primaryModel ++
      "' circuit open and no fallbacks available"))

-- `try_with_fallback_stream`
def tryWithFallbackStream (f : FallbackProvider ω) (req : ChatRequest) (s : Failover ω) :
    LLMResponse × Failover ω :=
  let primaryModel := req.model.getD f.primary.defaultModel
  let (available, s) := f.primaryAvailable s
  if available then
    let (a, s) := call f.primary .primary req s
    if a.response.finishReason ≠ "error" then (a.response, { s with state := {} })
    else if s.hasStreamed then (a.response, s)
    else if !shouldFallback f.toLowercase a.response then (a.response, s)
    else f.tryFallbacks req primaryModel none 0 f.fallbackPresets
      (f.primaryAvailable (f.recordFailure s)).2
  else f.tryFallbacks req primaryModel none 0 f.fallbackPresets (f.primaryAvailable s).2

-- `chat_stream`
def chatStream (f : FallbackProvider ω) (req : ChatRequest) (state : FallbackState) (w : ω) :
    LLMResponse × Failover ω :=
  if f.fallbackPresets.isEmpty then
    let (a, s) := call f.primary .primary req { state, world := w }
    (a.response, s)
  else f.tryWithFallbackStream req { state, world := w }

end FallbackProvider

/-! ## One call streams -/

/-- A call that streamed nothing that counts. -/
def Call.Silent (c : Call) : Prop := c.attempt.deltas.any Delta.counts = false

/-- The calls are in the order of failover, and at most the last one streamed. -/
structure Ordered (calls : List Call) : Prop where
  increasing : calls.Pairwise fun c d => c.callee.rank < d.callee.rank
  silent : ∀ c ∈ calls.dropLast, c.Silent

/-- What the loop over the fallback models keeps: the calls so far are below `rank`, and if
one of them streamed, it is the last one and its response is `last`. -/
structure Failover.Keeps (s : Failover ω) (rank : Nat) (last : Option LLMResponse) : Prop where
  ordered : Ordered s.calls
  below : ∀ c ∈ s.calls, c.callee.rank < rank
  streamed : s.hasStreamed = true → ∃ c, s.calls.getLast? = some c ∧ last = some c.attempt.response
  notStreamed : s.hasStreamed = false → ∀ c ∈ s.calls, c.Silent

/-- What a call of the wrapper ends with. -/
structure Streams (r : LLMResponse) (calls : List Call) : Prop where
  ordered : Ordered calls
  response : (∃ c ∈ calls, ¬ c.Silent) → ∃ c, calls.getLast? = some c ∧ r = c.attempt.response

variable {c : Call}

theorem Ordered.append {calls : List Call} (h : Ordered calls) (hsilent : ∀ b ∈ calls, b.Silent)
    (hrank : ∀ b ∈ calls, b.callee.rank < c.callee.rank) : Ordered (calls ++ [c]) := by
  refine ⟨List.pairwise_append.mpr ⟨h.increasing, List.pairwise_singleton _ _, ?_⟩, ?_⟩
  · intro b hb d hd
    rw [List.mem_singleton.mp hd]
    exact hrank b hb
  · rw [List.dropLast_concat]
    exact hsilent

variable {s : Failover ω} {rank : Nat}

/-- A call made while nothing was streamed. -/
theorem Failover.Keeps.call {last : Option LLMResponse} (h : s.Keeps rank last)
    (hquiet : s.hasStreamed = false) (p : Provider ω) (callee : Callee)
    (hcallee : callee.rank = rank) (req : ChatRequest) :
    (FallbackProvider.call p callee req s).2.Keeps (rank + 1)
      (some (FallbackProvider.call p callee req s).1.response) := by
  have hsilent := h.notStreamed hquiet
  refine ⟨h.ordered.append hsilent (fun b hb => hcallee ▸ h.below b hb), ?_, ?_, ?_⟩
  · intro c hc
    rcases List.mem_append.mp hc with hc | hc
    · exact Nat.lt_succ_of_lt (h.below c hc)
    · rw [List.mem_singleton.mp hc]
      exact Nat.lt_succ_of_le (Nat.le_of_eq hcallee)
  · intro _
    exact ⟨_, List.getLast?_concat, rfl⟩
  · intro hstill c hc
    have hdeltas := (Bool.or_eq_false_iff.mp hstill).2
    rcases List.mem_append.mp hc with hc | hc
    · exact hsilent c hc
    · rw [List.mem_singleton.mp hc]
      exact hdeltas

theorem Failover.Keeps.quiet {last : Option LLMResponse} (h : s.Keeps rank last)
    (hquiet : s.hasStreamed = false) : s.Keeps rank none :=
  ⟨h.ordered, h.below, fun hs => absurd (hquiet.symm.trans hs) nofun, h.notStreamed⟩

theorem Failover.Keeps.streams {r : LLMResponse} (h : s.Keeps rank (some r)) : Streams r s.calls := by
  refine ⟨h.ordered, ?_⟩
  rintro ⟨c, hc, hloud⟩
  cases hstreamed : s.hasStreamed with
  | true =>
    obtain ⟨d, hd, hlast⟩ := h.streamed hstreamed
    exact ⟨d, hd, Option.some.inj hlast⟩
  | false => exact absurd (h.notStreamed hstreamed c hc) hloud

theorem Failover.Keeps.exhausted {last : Option LLMResponse} (h : s.Keeps rank last)
    (model : String) : Streams (FallbackProvider.tryFallbacks.exhausted model last) s.calls := by
  refine ⟨h.ordered, ?_⟩
  rintro ⟨c, hc, hloud⟩
  cases hstreamed : s.hasStreamed with
  | true =>
    obtain ⟨d, hd, rfl⟩ := h.streamed hstreamed
    exact ⟨d, hd, rfl⟩
  | false => exact absurd (h.notStreamed hstreamed c hc) hloud

theorem tryFallbacks_streams (f : FallbackProvider ω) (req : ChatRequest) (model : String)
    (presets : List FallbackPreset) {last : Option LLMResponse} {idx : Nat}
    (h : s.Keeps (idx + 1) last) :
    Streams (f.tryFallbacks req model last idx presets s).1
      (f.tryFallbacks req model last idx presets s).2.calls := by
  induction presets generalizing last idx s with
  | nil => exact h.exhausted model
  | cons preset rest ih =>
    unfold FallbackProvider.tryFallbacks
    split
    case isTrue => exact h.exhausted model
    case isFalse hquiet =>
      have hcall := h.call (Bool.eq_false_iff.mpr hquiet) (f.providerFactory preset)
        (.fallback idx) rfl (FallbackProvider.fallbackRequest req preset)
      dsimp only
      split
      · exact hcall.streams
      · exact ih hcall

theorem Failover.Keeps.congr {s' : Failover ω} {rank' : Nat} {last : Option LLMResponse}
    (h : s.Keeps rank last) (hcalls : s'.calls = s.calls)
    (hstreamed : s'.hasStreamed = s.hasStreamed) (hrank : rank ≤ rank') : s'.Keeps rank' last := by
  refine ⟨hcalls ▸ h.ordered, ?_, ?_, ?_⟩
  · intro c hc
    exact Nat.lt_of_lt_of_le (h.below c (hcalls ▸ hc)) hrank
  · intro hs'
    rw [hcalls]
    exact h.streamed (hstreamed ▸ hs')
  · intro hs' c hc
    exact h.notStreamed (hstreamed ▸ hs') c (hcalls ▸ hc)

theorem primaryAvailable_calls (f : FallbackProvider ω) (s : Failover ω) :
    (f.primaryAvailable s).2.calls = s.calls ∧
      (f.primaryAvailable s).2.hasStreamed = s.hasStreamed := by
  unfold FallbackProvider.primaryAvailable
  split <;> exact ⟨rfl, rfl⟩

theorem recordFailure_calls (f : FallbackProvider ω) (s : Failover ω) :
    (f.recordFailure s).calls = s.calls ∧ (f.recordFailure s).hasStreamed = s.hasStreamed := by
  unfold FallbackProvider.recordFailure
  dsimp only
  split <;> exact ⟨rfl, rfl⟩

theorem chatStream_streams (f : FallbackProvider ω) (req : ChatRequest) (state : FallbackState)
    (w : ω) :
    Streams (f.chatStream req state w).1 (f.chatStream req state w).2.calls := by
  have hstart : Failover.Keeps ({ state, world := w } : Failover ω) 0 none :=
    ⟨⟨List.Pairwise.nil, by simp⟩, by simp, by simp, by simp⟩
  unfold FallbackProvider.chatStream
  split
  case isTrue =>
    exact (hstart.call rfl f.primary .primary rfl req).streams
  case isFalse =>
    unfold FallbackProvider.tryWithFallbackStream
    generalize hs : ({ state, world := w } : Failover ω) = s at hstart ⊢
    have hquiet : (f.primaryAvailable s).2.hasStreamed = false := by
      rw [(primaryAvailable_calls f s).2, ← hs]
    obtain ⟨hcalls, hflag⟩ := primaryAvailable_calls f s
    have hready := hstart.congr hcalls hflag (Nat.le_refl 0)
    have hcall := hready.call hquiet f.primary .primary rfl req
    dsimp only
    split
    case isTrue =>
      split
      case isTrue => exact ⟨hcall.streams.ordered, hcall.streams.response⟩
      case isFalse =>
        split
        case isTrue => exact hcall.streams
        case isFalse hnothing =>
          split
          case isTrue => exact hcall.streams
          case isFalse =>
            have hquiet' := Bool.eq_false_iff.mpr hnothing
            have hrecorded := recordFailure_calls f
              (FallbackProvider.call f.primary .primary req (f.primaryAvailable s).2).2
            have hagain := primaryAvailable_calls f (f.recordFailure
              (FallbackProvider.call f.primary .primary req (f.primaryAvailable s).2).2)
            exact tryFallbacks_streams f req _ _ ((hcall.quiet hquiet').congr
              (hagain.1.trans hrecorded.1) (hagain.2.trans hrecorded.2) (Nat.le_refl 1))
    case isFalse =>
      have hagain := primaryAvailable_calls f (f.primaryAvailable s).2
      exact tryFallbacks_streams f req _ _ (hready.congr hagain.1 hagain.2 (Nat.zero_le 1))

/-- The deltas of a call that count and that reach a callback of the caller. -/
def passed (onDelta onToolCallDelta : Bool) (a : Attempt) : List Delta :=
  a.deltas.filter fun d =>
    d.counts && match d with
      | .text _ => onDelta
      | .toolCall _ => onToolCallDelta

theorem passed_of_silent (h : c.Silent) (onDelta onToolCallDelta : Bool) :
    passed onDelta onToolCallDelta c.attempt = [] := by
  refine List.filter_eq_nil_iff.mpr fun d hd => ?_
  have hd := List.any_eq_false.mp h d hd
  rw [Bool.eq_false_iff.mpr hd, Bool.false_and]
  exact Bool.false_ne_true

/-- The providers are called at most once each, the primary first and the fallbacks in their
order; and if deltas of a call reached the caller, those of no other call did, and the
response is the one of that call. -/
theorem one_call_streams (f : FallbackProvider ω) (req : ChatRequest) (state : FallbackState)
    (w : ω) (onDelta onToolCallDelta : Bool) :
    ((f.chatStream req state w).2.calls.Pairwise fun c d => c.callee.rank < d.callee.rank) ∧
      ∀ c ∈ (f.chatStream req state w).2.calls, passed onDelta onToolCallDelta c.attempt ≠ [] →
        (f.chatStream req state w).1 = c.attempt.response ∧
          ∀ d ∈ (f.chatStream req state w).2.calls, d.callee ≠ c.callee →
            passed onDelta onToolCallDelta d.attempt = [] := by
  have hstreams := chatStream_streams f req state w
  refine ⟨hstreams.ordered.increasing, ?_⟩
  intro c hc hpassed
  have hloud : ¬ c.Silent := fun h => hpassed (passed_of_silent h _ _)
  obtain ⟨last, hlast, hresponse⟩ := hstreams.response ⟨c, hc, hloud⟩
  -- every call before the last one was silent
  have hsplit := List.dropLast_append_getLast? last hlast
  have hmem : ∀ d ∈ (f.chatStream req state w).2.calls, ¬ d.Silent → d = last := by
    intro d hd hloud
    rw [← hsplit] at hd
    rcases List.mem_append.mp hd with hd | hd
    · exact absurd (hstreams.ordered.silent d hd) hloud
    · exact List.mem_singleton.mp hd
  obtain rfl := hmem c hc hloud
  refine ⟨hresponse, ?_⟩
  intro d hd hne
  by_contra hd'
  refine hne (congrArg Call.callee (hmem d hd ?_))
  exact fun h => hd' (passed_of_silent h _ _)

end HiveClaw.Providers
