import HiveClaw.Assistant.Chat

/-!
# The daily quota under interleaving

How many requests of one user are accepted in one window, when the statements of
any number of them interleave, requests crash, Redis fails and the key expires.
A window is one life of the key (`Counter.generation`).

The argument is by the phase of a request (`Quota`): not counted yet, counted in
some window, or given back. As long as every `DECR` lands in the window of its
`INCR`, the counter is at least the number of the requests counted in the
current window, so a request is accepted only while fewer than its limit are.
The key has an expiry once the request whose `INCR` returned 1 has come to its
`EXPIRE`.
-/

namespace HiveClaw.Assistant

open Lib

/-! ## What a request does to the counter -/

/-- Where a request is with its quota. -/
inductive Quota where
  | idle
  | counted (window : Nat) (current maxTimes : Int) (owesExpiry : Bool)
  | givenBack
deriving DecidableEq, Repr

namespace Quota

def next : Quota → ChatStmt → ChatInput → Counter → Quota
  | .idle, .incr maxTimes, i, c =>
    if i.reply = .answered then .counted c.generation (c.count + 1) maxTimes (c.count + 1 = 1)
    else .idle
  | .counted w v m _, .expire, _, _ => .counted w v m false
  | .counted w v m o, .decr, i, _ => if i.reply.executed then .givenBack else .counted w v m o
  | q, _, _, _ => q

/-- What a statement may do to the counter. -/
def allows : Quota → ChatStmt → ChatInput → Counter → Counter → Prop
  | .idle, .incr _, i, c, c' => c' = if i.reply.executed then c.add 1 else c
  | .counted _ _ _ true, .expire, i, c, c' =>
    ∃ ms, c' = if i.reply.executed then c.expire ms else c
  | .counted _ _ _ false, .decr, i, c, c' => c' = if i.reply.executed then c.add (-1) else c
  | _, .incr _, _, _, _ | _, .expire, _, _, _ | _, .decr, _, _, _ => False
  | _, _, _, c, c' => c' = c

/-- The request still has to set the expiry. -/
def owes : Quota → Bool
  | .counted _ _ _ o => o
  | _ => false

/-- The request is counted in window `w`. -/
def countedIn (w : Nat) : Quota → Bool
  | .counted w' _ _ _ => w' = w
  | _ => false

/-- The request has been accepted in window `w` under a limit of at most `M`, and
has not given its count back. -/
def acceptedIn (w M : Nat) : Quota → Bool
  | .counted w' v m _ => w' = w ∧ v ≤ m ∧ m ≤ M
  | _ => false

@[simp] theorem countedIn_idle (w : Nat) : Quota.idle.countedIn w = false := rfl

@[simp] theorem countedIn_givenBack (w : Nat) : Quota.givenBack.countedIn w = false := rfl

@[simp] theorem countedIn_counted (w w' : Nat) (v m : Int) (o : Bool) :
    (Quota.counted w' v m o).countedIn w = decide (w' = w) := rfl

@[simp] theorem acceptedIn_idle (w M : Nat) : Quota.idle.acceptedIn w M = false := rfl

@[simp] theorem acceptedIn_givenBack (w M : Nat) : Quota.givenBack.acceptedIn w M = false := rfl

@[simp] theorem acceptedIn_counted (w w' M : Nat) (v m : Int) (o : Bool) :
    (Quota.counted w' v m o).acceptedIn w M = decide (w' = w ∧ v ≤ m ∧ m ≤ M) := rfl

theorem countedIn_of_acceptedIn {w M : Nat} {q : Quota} (h : q.acceptedIn w M = true) :
    q.countedIn w = true := by
  cases q with
  | counted w' v m o =>
    obtain ⟨hw, -⟩ := of_decide_eq_true h
    exact decide_eq_true hw
  | idle => cases h
  | givenBack => cases h

end Quota

def quota : Protocol Quota ChatStmt ChatInput Counter :=
  { init := .idle, next := Quota.next, allows := Quota.allows }

/-- How a request may end: it owes no expiry, and an answer only goes out for a
request within its limit. -/
def Quota.EndsWell (q : Quota) (r : Except AppError ChatMessageUser) : Prop :=
  q.owes = false ∧ ∀ m, r = .ok m → ∃ w M, q.acceptedIn w M = true

/-! ## The endpoint keeps to the protocol -/

section Endpoint

variable {ε α : Type} {E : Quota → Except AppError α → Prop} {q : Quota}

theorem stays_ask {l : ChatStmt} {f : ChatInput → α} (hnext : ∀ i c, q.next l i c = q)
    (hallows : ∀ i c, q.allows l i c c) :
    Follows quota (fun q' _ => q' = q) q (ask l f : Chat ε α).run :=
  Follows.lift (follows_read_iff.mpr ⟨hallows, hnext⟩)

theorem stays_failIf (c : Prop) [Decidable c] (e : AppError) :
    Follows quota (fun q' _ => q' = q) q (failIf c e).run := by
  unfold failIf
  split
  · exact .done rfl
  · exact .done rfl

theorem stays_checkRequest (cfg : Config) (r : HttpRequest) :
    Follows quota (fun q' _ => q' = q) q (checkRequest cfg r).run := by
  unfold checkRequest
  refine Follows.stay_bind (stays_failIf _ _) (fun _ => rfl) fun _ => ?_
  refine Follows.stay_bind (stays_failIf _ _) (fun _ => rfl) fun _ => ?_
  cases cfg.parseRequest r.body with
  | none => exact .done rfl
  | some req =>
    refine Follows.stay_bind (stays_failIf _ _) (fun _ => rfl) fun _ => ?_
    refine Follows.stay_bind (stays_failIf _ _) (fun _ => rfl) fun _ => ?_
    refine Follows.stay_bind (stays_failIf _ _) (fun _ => rfl) fun _ => ?_
    refine Follows.stay_bind (stays_failIf _ _) (fun _ => rfl) fun _ => ?_
    refine Follows.stay_bind (stays_failIf _ _) (fun _ => rfl) fun _ => ?_
    exact .done rfl

theorem stays_userLimits : Follows quota (fun q' _ => q' = .idle) .idle userLimits.run := by
  unfold userLimits
  refine Follows.stay_bind (stays_ask (fun _ _ => rfl) fun _ _ => rfl) (fun _ => rfl) ?_
  intro cloudInfo
  rcases cloudInfo with e | (_ | info)
  · exact .done rfl
  · exact .done rfl
  · refine Follows.stay_bind (stays_ask (fun _ _ => rfl) fun _ _ => rfl) (fun _ => rfl) ?_
    intro isVip
    refine Follows.stay_bind (stays_ask (fun _ _ => rfl) fun _ _ => rfl) (fun _ => rfl) ?_
    intro limitConfig
    exact .done rfl

theorem follows_decrDailyLimit (w : Nat) (v m : Int) :
    Follows quota (fun q _ => q.owes = false) (.counted w v m false)
      (decrDailyLimit : Chat ε Unit).run := by
  refine Follows.lift (follows_modify_iff.mpr ⟨fun i c => rfl, fun i c => ?_⟩)
  show (if i.reply.executed then Quota.givenBack else .counted w v m false).owes = false
  split <;> rfl

variable {w : Nat}

theorem follows_orGiveBack_bind {β : Type} {v m : Int} {E : Quota → Except AppError β → Prop}
    {r : Except AppError α} {f : α → Chat AppError β}
    (herr : ∀ q e, q.owes = false → E q (.error e))
    (hf : ∀ a, Follows quota E (.counted w v m false) (f a).run) :
    Follows quota E (.counted w v m false) (orGiveBack r >>= f).run := by
  cases r with
  | ok a => exact hf a
  | error e =>
    have hback : Follows quota (fun q r => q.owes = false ∧ ∃ e, r = .error e)
        (.counted w v m false) (orGiveBack (.error e : Except AppError α)).run :=
      Follows.bindE (follows_decrDailyLimit w v m) (fun _ e h => ⟨h, e, rfl⟩)
        fun _ _ h => .done ⟨h, e, rfl⟩
    refine hback.bindE (fun q e h => herr q e h.1) ?_
    rintro q a ⟨-, e, he⟩
    cases he

/-- The quota check: it ends with the request counted within its limit, or with
an error and no expiry owed. -/
theorem follows_checkAndIncrDailyLimit (maxTimes : Int) (resetHour : Nat) :
    Follows quota
      (fun q r => q.owes = false ∧
        ∀ v, r = .ok v → ∃ w, q = .counted w v maxTimes false ∧ v ≤ maxTimes)
      .idle (checkAndIncrDailyLimit maxTimes resetHour).run := by
  have hincr : Follows quota
      (fun q r => (∀ e, r = .error e → q = .idle) ∧
        ∀ v, r = .ok v → ∃ w, q = .counted w v maxTimes (v = 1))
      .idle (incr maxTimes).run := by
    refine follows_modify_iff.mpr ⟨fun i c => ?_, fun i c => ?_⟩
    · show _ = if i.reply.executed then c.add 1 else c
      cases i.reply <;> rfl
    · show _ ∧ _
      cases hreply : i.reply <;> simp [quota, Quota.next, hreply]
  -- from here on: the check itself, then the `EXPIRE` before it if the key is new
  have hcheck : ∀ w v, Follows quota
      (fun q r => q.owes = false ∧
        ∀ v, r = .ok v → ∃ w, q = .counted w v maxTimes false ∧ v ≤ maxTimes)
      (.counted w v maxTimes false)
      (if v > maxTimes then do
        decrDailyLimit
        throw (some ("Daily limit reached (" ++ toString (maxTimes - 1) ++ "/" ++
          toString (maxTimes - 1) ++ ")"))
      else pure v : Chat (Option String) Int).run := by
    intro w v
    split
    · exact Follows.bindE (follows_decrDailyLimit w v maxTimes) (fun q e h => ⟨h, nofun⟩)
        fun q _ h => .done ⟨h, nofun⟩
    · refine .done ⟨rfl, fun v' hv => ⟨w, ?_, ?_⟩⟩
      · rw [Except.ok.inj hv]
      · rw [← Except.ok.inj hv]
        omega
  unfold checkAndIncrDailyLimit
  refine hincr.bindE (fun q e h => ?_) fun q v h => ?_
  · rw [h.1 e rfl]
    exact ⟨rfl, nofun⟩
  · obtain ⟨w, rfl⟩ := h.2 v rfl
    by_cases hv : v = 1
    · have hexpire : Follows quota (fun q _ => q = .counted w v maxTimes false)
          (.counted w v maxTimes (v = 1)) (expire resetHour : Chat (Option String) Unit).run := by
        rw [decide_eq_true hv]
        exact Follows.lift (follows_modify_iff.mpr ⟨fun i c => ⟨_, rfl⟩, fun i c => rfl⟩)
      rw [if_pos hv]
      refine hexpire.bindE ?_ ?_
      · rintro q e rfl
        exact ⟨rfl, nofun⟩
      · rintro q _ rfl
        exact hcheck w v
    · rw [if_neg hv, decide_eq_false hv]
      exact hcheck w v

theorem follows_answerCounted {current maxTimes : Int} (hle : current ≤ maxTimes)
    (limitConfig : AssistantChatLimitConfig) :
    Follows quota Quota.EndsWell (.counted w current maxTimes false)
      (answerCounted current maxTimes limitConfig).run := by
  have herr : ∀ q e, q.owes = false → Quota.EndsWell q (.error e) := fun q e h => ⟨h, nofun⟩
  have hok : ∀ m, Quota.EndsWell (.counted w current maxTimes false) (.ok m) :=
    fun m => ⟨rfl, fun _ _ => ⟨w, maxTimes.toNat, by simp [Quota.acceptedIn, hle]⟩⟩
  unfold answerCounted
  refine Follows.stay_bind (stays_ask (fun _ _ => rfl) fun _ _ => rfl) (herr _ · rfl) ?_
  intro slot
  refine follows_orGiveBack_bind herr fun _ => ?_
  refine Follows.stay_bind (stays_ask (fun _ _ => rfl) fun _ _ => rfl) (herr _ · rfl) ?_
  intro synced
  refine follows_orGiveBack_bind herr fun _ => ?_
  refine Follows.stay_bind (stays_ask (fun _ _ => rfl) fun _ _ => rfl) (herr _ · rfl) ?_
  intro session
  refine follows_orGiveBack_bind herr fun _ => ?_
  refine Follows.stay_bind (stays_ask (fun _ _ => rfl) fun _ _ => rfl) (herr _ · rfl) ?_
  intro appended
  refine follows_orGiveBack_bind herr fun _ => ?_
  refine Follows.stay_bind (stays_ask (fun _ _ => rfl) fun _ _ => rfl) (herr _ · rfl) ?_
  intro result
  refine follows_orGiveBack_bind herr fun saved => ?_
  split
  · exact .done (hok _)
  · exact .done (hok _)

theorem follows_assistantChat (cfg : Config) (r : HttpRequest) :
    Follows quota Quota.EndsWell .idle (assistantChat cfg r).run := by
  have herr : ∀ q e, q.owes = false → Quota.EndsWell q (.error e) := fun q e h => ⟨h, nofun⟩
  unfold assistantChat
  refine Follows.stay_bind (stays_checkRequest cfg r) (herr _ · rfl) fun req => ?_
  refine Follows.stay_bind stays_userLimits (herr _ · rfl) fun limits => ?_
  refine Follows.bindE (E := fun q r => q.owes = false ∧
    ∀ v, r = .ok v → ∃ w, q = .counted w v limits.1 false ∧ v ≤ limits.1) ?_
    (fun q e h => herr q e h.1) fun q v h => ?_
  · refine Follows.adapt ?_
    refine (follows_checkAndIncrDailyLimit limits.1 _).mono fun q r h => ⟨h.1, fun v hv => ?_⟩
    cases r with
    | error e => cases hv
    | ok v' => exact h.2 v (congrArg _ (Except.ok.inj hv))
  · obtain ⟨w, rfl, hle⟩ := h.2 v rfl
    exact follows_answerCounted hle limits.2

end Endpoint

/-! ## Runs -/

/-- The requests of one user that have been started, and the counter. -/
abbrev ChatPool := Pool HttpRequest ChatStmt ChatInput Counter (Except AppError ChatMessageUser)

abbrev ChatThread :=
  Thread HttpRequest ChatStmt ChatInput Counter (Except AppError ChatMessageUser)

/-- Where the request is with its quota. -/
def quotaOf (th : ChatThread) : Quota := th.phase fun _ _ => quota

/-- The number of requests that have been accepted in window `w` under a limit
of at most `M` and not rolled back. -/
def acceptedCount (c : ChatPool) (w M : Nat) : Nat :=
  c.threads.countP fun th => (quotaOf th).acceptedIn w M

/-- A statement that does not go wrong. An `INCR` that creates the key is
answered; the `EXPIRE` of a key without an expiry is executed; a `DECR` is
executed in the window in which the request was counted. -/
def TimelyStmt (s : Counter) (q : Quota) (t : ChatInput) : ChatStmt → Prop
  | .incr _ => s.value = none → t.reply ≠ .lost
  | .expire => s.Expires ∨ t.reply.executed = true
  | .decr => t.reply.executed = true → q.countedIn s.generation = true
  | _ => True

/-- A step that does not go wrong; in particular the request that has to set the
expiry of a key without one does not crash before its `EXPIRE`. -/
def Timely (c : ChatPool) : Act HttpRequest ChatInput Nat → Prop
  | .move i t => ∀ th ∈ c.threads[i]?, th.crashed = false → ∀ l ∈ th.upcoming,
    TimelyStmt c.store (quotaOf th) t l
  | .crash i => ∀ th ∈ c.threads[i]?, th.inFlight = true → (quotaOf th).owes = true →
    c.store.Expires
  | .start _ | .outside _ => True

instance (s : Counter) (q : Quota) (t : ChatInput) : DecidablePred (TimelyStmt s q t)
  | .incr _ => inferInstanceAs (Decidable (s.value = none → t.reply ≠ .lost))
  | .expire => inferInstanceAs (Decidable (s.Expires ∨ t.reply.executed = true))
  | .decr => inferInstanceAs
      (Decidable (t.reply.executed = true → q.countedIn s.generation = true))
  | .cloudUser | .vipMembership | .limitConfig | .acquireSlot | .ensureUser | .session
  | .appendMessage | .runSession => isTrue trivial

instance (c : ChatPool) : DecidablePred (Timely c)
  | .move i t => inferInstanceAs (Decidable (∀ th ∈ c.threads[i]?, th.crashed = false →
      ∀ l ∈ th.upcoming, TimelyStmt c.store (quotaOf th) t l))
  | .crash i => inferInstanceAs (Decidable (∀ th ∈ c.threads[i]?, th.inFlight = true →
      (quotaOf th).owes = true → c.store.Expires))
  | .start _ | .outside _ => isTrue trivial

/-- What every run with timely steps keeps: no request is counted in a window to
come, the counter covers the requests counted in the current one, the limits
are kept, and a key without an expiry is about to get one. -/
structure Tally (c : ChatPool) : Prop where
  windows : ∀ th ∈ c.threads, ∀ w, (quotaOf th).countedIn w = true → w ≤ c.store.generation
  counted : ((c.threads.countP fun th => (quotaOf th).countedIn c.store.generation : Nat) : Int) ≤
    c.store.count
  accepted : ∀ w M, acceptedCount c w M ≤ M
  expiry : c.store.Expires ∨ ∃ th ∈ c.threads, th.crashed = false ∧ (quotaOf th).owes = true

variable {q : Quota}

/-- What a statement does to the counter and to the phase of its request:
nothing, or it is an `INCR`, answered or not, an `EXPIRE`, or a `DECR`. -/
theorem allows_cases {l : ChatStmt} {t : ChatInput} {c c' : Counter} (h : q.allows l t c c') :
    (c' = c ∧ q.next l t c = q ∧ l ≠ .expire) ∨
      (∃ m, l = .incr m ∧ t.reply = .answered ∧ c' = c.add 1 ∧ q = .idle ∧
        q.next l t c = .counted c.generation (c.count + 1) m (c.count + 1 = 1)) ∨
      (∃ m, l = .incr m ∧ t.reply = .lost ∧ c' = c.add 1 ∧ q = .idle ∧ q.next l t c = .idle) ∨
      (∃ w v m ms, l = .expire ∧ c' = (if t.reply.executed then c.expire ms else c) ∧
        q = .counted w v m true ∧ q.next l t c = .counted w v m false) ∨
      ∃ w v m, l = .decr ∧ t.reply.executed = true ∧ c' = c.add (-1) ∧
        q = .counted w v m false ∧ q.next l t c = .givenBack := by
  cases q with
  | idle =>
    cases l with
    | incr m =>
      have hstore : c' = if t.reply.executed then c.add 1 else c := h
      cases hreply : t.reply with
      | answered =>
        refine Or.inr (Or.inl ⟨m, rfl, rfl, ?_, rfl, ?_⟩)
        · simpa [hreply, Reply.executed] using hstore
        · simp [Quota.next, hreply]
      | lost =>
        refine Or.inr (Or.inr (Or.inl ⟨m, rfl, rfl, ?_, rfl, ?_⟩))
        · simpa [hreply, Reply.executed] using hstore
        · simp [Quota.next, hreply]
      | refused =>
        refine Or.inl ⟨?_, ?_, nofun⟩
        · simpa [hreply, Reply.executed] using hstore
        · simp [Quota.next, hreply]
    | expire => exact h.elim
    | decr => exact h.elim
    | _ => exact Or.inl ⟨h, rfl, nofun⟩
  | counted w v m o =>
    cases l with
    | incr _ => cases o <;> exact h.elim
    | expire =>
      cases o with
      | false => exact h.elim
      | true =>
        obtain ⟨ms, hstore⟩ := h
        exact Or.inr (Or.inr (Or.inr (Or.inl ⟨w, v, m, ms, rfl, hstore, rfl, rfl⟩)))
    | decr =>
      cases o with
      | true => exact h.elim
      | false =>
        have hstore : c' = if t.reply.executed then c.add (-1) else c := h
        cases hexec : t.reply.executed with
        | true =>
          rw [hexec, if_pos rfl] at hstore
          refine Or.inr (Or.inr (Or.inr (Or.inr ⟨w, v, m, rfl, rfl, hstore, rfl, ?_⟩)))
          simp [Quota.next, hexec]
        | false =>
          rw [hexec] at hstore
          exact Or.inl ⟨hstore, by simp [Quota.next, hexec], nofun⟩
    | _ => cases o <;> exact Or.inl ⟨h, rfl, nofun⟩
  | givenBack =>
    cases l with
    | incr _ => exact h.elim
    | expire => exact h.elim
    | decr => exact h.elim
    | _ => exact Or.inl ⟨h, rfl, nofun⟩

theorem acceptedCount_le (c : ChatPool) (w M : Nat) :
    acceptedCount c w M ≤ c.threads.countP fun th => (quotaOf th).countedIn w :=
  List.countP_mono_left fun _ _ h => Quota.countedIn_of_acceptedIn h

variable {c : ChatPool} {th : ChatThread}

theorem countP_quotaOf {i : Nat} {th' : ChatThread} (p : Quota → Bool) {q' : Quota}
    (hth : c.threads[i]? = some th) (hq : quotaOf th = q) (hq' : quotaOf th' = q') :
    (c.threads.set i th').countP (fun th => p (quotaOf th)) + (p q).toNat =
      c.threads.countP (fun th => p (quotaOf th)) + (p q').toNat := by
  rw [← hq, ← hq']
  exact countP_replace (fun th => p (quotaOf th)) hth th'

namespace Tally

variable {c : ChatPool} {i : Nat} {th th' : ChatThread}

theorem set_same (hT : Tally c) (hth : c.threads[i]? = some th)
    (hphase : quotaOf th' = quotaOf th)
    (howes : (quotaOf th).owes = true → th.crashed = false →
      c.store.Expires ∨ th'.crashed = false) :
    Tally { c with threads := c.threads.set i th' } := by
  have hcount : ∀ p : Quota → Bool, (c.threads.set i th').countP (fun th => p (quotaOf th)) =
      c.threads.countP fun th => p (quotaOf th) := by
    intro p
    have hcount := countP_quotaOf p hth rfl hphase
    omega
  refine ⟨?_, ?_, fun w M => ?_, ?_⟩
  · refine forall_mem_set hT.windows ?_ i
    rw [hphase]
    exact hT.windows th (List.mem_of_getElem? hth)
  · rw [hcount fun q => q.countedIn c.store.generation]
    exact hT.counted
  · show (c.threads.set i th').countP (fun th => (quotaOf th).acceptedIn w M) ≤ M
    rw [hcount fun q => q.acceptedIn w M]
    exact hT.accepted w M
  · by_cases hexp : c.store.Expires
    · exact Or.inl hexp
    · refine Or.inr (exists_mem_set hth (hT.expiry.resolve_left hexp) ?_)
      rintro ⟨hcrashed, ho⟩
      exact ⟨(howes ho hcrashed).resolve_left hexp, hphase ▸ ho⟩

variable {m : Int}

theorem incr (hT : Tally c) (hth : c.threads[i]? = some th) (hidle : quotaOf th = .idle)
    (hcrashed : th'.crashed = false) (hphase : quotaOf th' =
      .counted c.store.generation (c.store.count + 1) m (c.store.count + 1 = 1)) :
    Tally { threads := c.threads.set i th', store := c.store.add 1 } := by
  have hcounted : (((c.threads.set i th').countP fun th =>
      (quotaOf th).countedIn c.store.generation : Nat) : Int) ≤ c.store.count + 1 := by
    have hcount := countP_quotaOf (Quota.countedIn c.store.generation) hth hidle hphase
    simp only [Quota.countedIn_idle, Quota.countedIn_counted, decide_true, Bool.toNat_true,
      Bool.toNat_false] at hcount
    have hle := hT.counted
    omega
  refine ⟨?_, hcounted, fun w M => ?_, ?_⟩
  · refine forall_mem_set hT.windows ?_ i
    intro w hw
    rw [hphase] at hw
    exact (of_decide_eq_true hw).ge
  · show (c.threads.set i th').countP (fun th => (quotaOf th).acceptedIn w M) ≤ M
    have hcount := countP_quotaOf (Quota.acceptedIn w M) hth hidle hphase
    rw [← hphase] at hcount
    cases hacc : (quotaOf th').acceptedIn w M with
    | false =>
      rw [hacc, Quota.acceptedIn_idle] at hcount
      have hle : c.threads.countP (fun th => (quotaOf th).acceptedIn w M) ≤ M := hT.accepted w M
      omega
    | true =>
      -- the new count is the number that was checked against the limit
      rw [hphase] at hacc
      obtain ⟨rfl, hvm, hmM⟩ := of_decide_eq_true hacc
      have hle := acceptedCount_le { c with threads := c.threads.set i th' } c.store.generation M
      dsimp only [acceptedCount] at hle
      omega
  · by_cases hnone : c.store.value = none
    · refine Or.inr ⟨th', ?_, hcrashed, ?_⟩
      · exact List.mem_set (List.getElem?_eq_some_iff.mp hth).1 th'
      · rw [hphase]
        simp [Quota.owes, Counter.count, hnone]
    · rcases hT.expiry with hexp | hsome
      · exact Or.inl fun _ => hexp (Option.isSome_iff_ne_none.mpr hnone)
      · refine Or.inr (exists_mem_set hth hsome ?_)
        rintro ⟨-, ho⟩
        rw [hidle] at ho
        cases ho

theorem incr_lost (hT : Tally c) (hsome : c.store.value ≠ none) :
    Tally { c with store := c.store.add 1 } := by
  refine ⟨hT.windows, ?_, hT.accepted, ?_⟩
  · have hle := hT.counted
    simp only [Counter.generation_add, Counter.count_add]
    omega
  · refine hT.expiry.imp_left fun hexp _ => ?_
    exact hexp (Option.isSome_iff_ne_none.mpr hsome)

variable {v : Int} {s : Counter}

theorem expire (hT : Tally c) (hth : c.threads[i]? = some th) {w : Nat}
    (hq : quotaOf th = .counted w v m true) (hphase : quotaOf th' = .counted w v m false)
    (hvalue : s.count = c.store.count) (hgen : s.generation = c.store.generation)
    (hexp : s.Expires) : Tally { threads := c.threads.set i th', store := s } := by
  refine ⟨?_, ?_, fun w' M => ?_, Or.inl hexp⟩
  · rw [hgen]
    refine forall_mem_set hT.windows ?_ i
    intro w' hw
    refine hT.windows th (List.mem_of_getElem? hth) w' ?_
    rw [hphase] at hw
    rw [hq]
    exact hw
  · have hcount := countP_quotaOf (Quota.countedIn c.store.generation) hth hq hphase
    rw [Quota.countedIn_counted, Quota.countedIn_counted] at hcount
    have hle := hT.counted
    dsimp only
    rw [hvalue, hgen]
    omega
  · have hcount := countP_quotaOf (Quota.acceptedIn w' M) hth hq hphase
    rw [Quota.acceptedIn_counted, Quota.acceptedIn_counted] at hcount
    have hle : c.threads.countP (fun th => (quotaOf th).acceptedIn w' M) ≤ M := hT.accepted w' M
    show (c.threads.set i th').countP (fun th => (quotaOf th).acceptedIn w' M) ≤ M
    omega

theorem decr (hT : Tally c) (hth : c.threads[i]? = some th)
    (hq : quotaOf th = .counted c.store.generation v m false) (hphase : quotaOf th' = .givenBack) :
    Tally { threads := c.threads.set i th', store := c.store.add (-1) } := by
  have hcount := countP_quotaOf (Quota.countedIn c.store.generation) hth hq hphase
  simp only [Quota.countedIn_counted, Quota.countedIn_givenBack, decide_true, Bool.toNat_true,
    Bool.toNat_false] at hcount
  have hle := hT.counted
  refine ⟨?_, ?_, fun w M => ?_, ?_⟩
  · refine forall_mem_set hT.windows ?_ i
    intro w hw
    rw [hphase] at hw
    cases hw
  · simp only [Counter.generation_add, Counter.count_add]
    omega
  · have hcount := countP_quotaOf (Quota.acceptedIn w M) hth hq hphase
    rw [Quota.acceptedIn_givenBack, Bool.toNat_false] at hcount
    have hle : c.threads.countP (fun th => (quotaOf th).acceptedIn w M) ≤ M := hT.accepted w M
    show (c.threads.set i th').countP (fun th => (quotaOf th).acceptedIn w M) ≤ M
    omega
  · rcases hT.expiry with hexp | hsome
    · -- the request itself is counted, so the key is there
      refine Or.inl fun _ => hexp ?_
      cases hvalue : c.store.value with
      | some _ => rfl
      | none =>
        have hzero : c.store.count = 0 := by simp [Counter.count, hvalue]
        omega
    · refine Or.inr (exists_mem_set hth hsome ?_)
      rintro ⟨-, ho⟩
      rw [hq] at ho
      cases ho

/-- Time passes: the key stays, or a new window begins, in which no request is
counted yet. -/
theorem elapse (hT : Tally c) (ms : Nat) : Tally { c with store := c.store.elapse ms } := by
  rcases Counter.elapse_cases ms c.store with ⟨hvalue, hgen, httl⟩ | hdrop
  · refine ⟨?_, ?_, hT.accepted, ?_⟩
    · dsimp only
      rw [hgen]
      exact hT.windows
    · have hcount : (c.store.elapse ms).count = c.store.count := by simp [Counter.count, hvalue]
      dsimp only
      rw [hgen, hcount]
      exact hT.counted
    · refine hT.expiry.imp_left fun hexp h => ?_
      rw [httl]
      exact hexp (hvalue ▸ h)
  · rw [hdrop]
    refine ⟨fun th hmem w hw => ?_, ?_, hT.accepted, Or.inl (Counter.expires_drop _)⟩
    · exact (hT.windows th hmem w hw).trans (Nat.le_succ _)
    · have hzero : c.threads.countP
          (fun th => (quotaOf th).countedIn (c.store.generation + 1)) = 0 := by
        refine List.countP_eq_zero.mpr fun th hmem hw => ?_
        have hle := hT.windows th hmem _ hw
        omega
      show ((c.threads.countP fun th =>
        (quotaOf th).countedIn (c.store.generation + 1) : Nat) : Int) ≤ 0
      rw [hzero]
      rfl

theorem start (hT : Tally c) (hidle : quotaOf th = .idle) :
    Tally { c with threads := c.threads ++ [th] } := by
  have hcount : ∀ p : Quota → Bool, p .idle = false →
      (c.threads ++ [th]).countP (fun th => p (quotaOf th)) =
        c.threads.countP fun th => p (quotaOf th) := by
    intro p hp
    simp [List.countP_append, hidle, hp]
  refine ⟨fun th' hmem w hw => ?_, ?_, fun w M => ?_, ?_⟩
  · rcases List.mem_append.mp hmem with hmem | hmem
    · exact hT.windows th' hmem w hw
    · rw [List.mem_singleton.mp hmem, hidle] at hw
      cases hw
  · dsimp only
    rw [hcount (Quota.countedIn c.store.generation) rfl]
    exact hT.counted
  · show (c.threads ++ [th]).countP (fun th => (quotaOf th).acceptedIn w M) ≤ M
    rw [hcount (Quota.acceptedIn w M) rfl]
    exact hT.accepted w M
  · refine hT.expiry.imp_right fun ⟨th', hmem, h⟩ => ?_
    exact ⟨th', List.mem_append_left _ hmem, h⟩

theorem move (hT : Tally c) {t : ChatInput} {l : ChatStmt} (htimely : Timely c (.move i t))
    (hth : c.threads[i]? = some th) (hlive : th.crashed = false)
    (hupcoming : th.upcoming = some l) (hallows : (quotaOf th).allows l t c.store s)
    (hphase : quotaOf th' = (quotaOf th).next l t c.store) (hcrashed : th'.crashed = false) :
    Tally { threads := c.threads.set i th', store := s } := by
  have hstmt : TimelyStmt c.store (quotaOf th) t l := htimely th hth hlive l hupcoming
  rcases allows_cases hallows with ⟨rfl, hnext, -⟩ | ⟨m, rfl, hreply, rfl, hq, hnext⟩ |
    ⟨m, rfl, hreply, rfl, hq, hnext⟩ | ⟨w, v, m, ms, rfl, hs, hq, hnext⟩ |
    ⟨w, v, m, rfl, hexec, rfl, hq, hnext⟩
  · exact hT.set_same hth (hphase.trans hnext) fun _ _ => Or.inr hcrashed
  · exact hT.incr hth hq hcrashed (hphase.trans hnext)
  · have hsame := hT.set_same hth ((hphase.trans hnext).trans hq.symm) fun _ _ => Or.inr hcrashed
    exact hsame.incr_lost fun hnone => hstmt hnone hreply
  · refine hT.expire hth hq (hphase.trans hnext) ?_ ?_ ?_
    · rw [hs]
      split <;> simp
    · rw [hs]
      split <;> simp
    · rw [hs]
      split
      · exact Counter.expires_expire _ _
      · exact hstmt.resolve_right ‹_›
  · have hw := hstmt hexec
    rw [hq] at hw
    obtain rfl : w = c.store.generation := of_decide_eq_true hw
    exact hT.decr hth hq (hphase.trans hnext)

end Tally

theorem owes_of_ended (hobey : Obeys (fun _ _ => quota) (fun _ _ => Quota.EndsWell) c)
    (hmem : th ∈ c.threads) (hcrashed : th.crashed = false) (hended : th.inFlight = false) :
    (quotaOf th).owes = false := by
  have hfollows := hobey th hmem
  cases hprog : th.prog with
  | done r =>
    rw [hprog, follows_done_iff] at hfollows
    exact hfollows.1
  | stmt l w n => simp [Thread.inFlight, hcrashed, hprog] at hended

variable {cfg : Config}

/-- **One step.** A timely step keeps the tally. -/
theorem tally_step {a : Act HttpRequest ChatInput Nat}
    (hobey : Obeys (fun _ _ => quota) (fun _ _ => Quota.EndsWell) c) (hT : Tally c)
    (htimely : Timely c a) : Tally ((chats cfg).step c a) := by
  rcases step_cases (chats cfg) hobey a with h | ⟨r, rfl, h⟩ |
    ⟨i, t, th, l, w, n, rfl, hth, hlive, hprog, -, hallows, h⟩ | ⟨i, th, rfl, hth, h⟩ |
    ⟨ms, rfl, h⟩
  · rw [h]
    exact hT
  · rw [h]
    exact hT.start rfl
  · rw [h]
    refine hT.move htimely hth hlive ?_ hallows ?_ hlive
    · simp [Thread.upcoming, hprog]
    · exact phase_advance (fun _ _ => quota) th l t c.store (n t c.store)
  · rw [h]
    refine hT.set_same hth rfl fun howes hlive => Or.inl ?_
    cases hinFlight : th.inFlight with
    | true => exact htimely th hth hinFlight howes
    | false =>
      have hnot := owes_of_ended hobey (List.mem_of_getElem? hth) hlive hinFlight
      exact absurd (howes.symm.trans hnot) (by decide)
  · rw [h]
    exact hT.elapse ms

/-- The pool before the first request. -/
def noChats : ChatPool := { threads := [], store := {} }

theorem tally_noChats : Tally noChats :=
  { windows := nofun
    counted := Int.le_refl 0
    accepted := fun _ M => Nat.zero_le M
    expiry := Or.inl nofun }

theorem tally_reach (h : (chats cfg).Reach Timely noChats c) :
    Obeys (fun _ _ => quota) (fun _ _ => Quota.EndsWell) c ∧ Tally c := by
  refine h.inv (I := fun c => Obeys _ _ c ∧ Tally c) ⟨nofun, tally_noChats⟩ ?_
  rintro c a ⟨hobey, hT⟩ htimely
  exact ⟨hobey.step (fun _ r => follows_assistantChat cfg r) a, tally_step hobey hT htimely⟩

/-- Who is answered has been accepted in some window. -/
theorem accepted_of_answered (h : (chats cfg).Reach Timely noChats c) (hmem : th ∈ c.threads)
    {m : ChatMessageUser} (hresult : th.result = some (.ok m)) :
    ∃ w M, (quotaOf th).acceptedIn w M = true := by
  have hfollows := (tally_reach h).1 th hmem
  unfold Thread.result at hresult
  split at hresult
  · cases hresult
  · split at hresult
    case h_1 r hprog =>
      cases hresult
      rw [hprog, follows_done_iff] at hfollows
      exact hfollows.2 m rfl
    case h_2 => cases hresult

/-- **The quota.** In every run whose steps are timely, at most `M` requests are
accepted in one window under limits of at most `M`, and a key that is there when
no request is under way has an expiry. -/
theorem daily_quota_kept {cfg : Config} {c : ChatPool}
    (h : (chats cfg).Reach Timely noChats c) :
    (∀ w M, acceptedCount c w M ≤ M) ∧ (c.Quiet → c.store.Expires) := by
  obtain ⟨hobey, hT⟩ := tally_reach h
  refine ⟨hT.accepted, fun hquiet => ?_⟩
  rcases hT.expiry with hexp | ⟨th, hmem, hcrashed, howes⟩
  · exact hexp
  · have hnot := owes_of_ended hobey hmem hcrashed (hquiet th hmem)
    exact absurd (howes.symm.trans hnot) (by decide)

/-! ## A count given back too late -/

/-- No signature, no sensitive words; every body is the same question. -/
def plainConfig : Config where
  secret := ""
  verifySign _ _ _ _ := true
  parseRequest _ := some { userId := 7, message := "hello" }
  sensitiveCheck _ := none
  extPool := true

/-- The request as the app sends it. -/
def hello : HttpRequest :=
  { contentType := "application/json; charset=UTF-8", sign := "", body := "" }

def oncePerDay : ChatInput := { limitConfig := .ok (some { normalAskTimes := 1 }) }

/-- Request `j` up to its `INCR`. -/
def count (j : Nat) : List (Act HttpRequest ChatInput Nat) :=
  [.start hello, .move j {}, .move j {}, .move j oncePerDay, .move j {}]

/-- A request is counted and sets the expiry; the day ends; there is no slot for
it, and it gives its count back. -/
def giveBackTomorrow : List (Act HttpRequest ChatInput Nat) :=
  count 0 ++ [.move 0 {}, .outside 86400000, .move 0 { slotFree := false }, .move 0 {}]

/-- The late `DECR` leaves a key that never expires, and two requests of the next
window are accepted although the limit is one. -/
theorem late_rollback_breaks_quota :
    ((chats plainConfig).run noChats giveBackTomorrow).Quiet ∧
    ¬ ((chats plainConfig).run noChats giveBackTomorrow).store.Expires ∧
    acceptedCount ((chats plainConfig).run noChats (giveBackTomorrow ++ count 1 ++ count 2)) 1 1 =
      2 := by
  decide +kernel

/-- A request that is accepted, and one that gives its count back on the same day. -/
theorem daily_quota_kept_same_day :
    acceptedCount ((chats plainConfig).run noChats
      (count 0 ++ [.move 0 {}] ++ count 1 ++ [.move 1 {}])) 0 1 ≤ 1 :=
  (daily_quota_kept (System.reach_run (by decide +kernel))).1 0 1

end HiveClaw.Assistant
