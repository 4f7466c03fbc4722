import HiveClaw.Auth.Login

/-!
# The lock of an account under interleaving

How many wrong passwords are verified for one phone number between two resets or
expiries of its failure counter, when the statements of any number of requests
interleave, requests crash and Redis fails. A window is one life of the counter
(`Counter.generation`).

A request is admitted by its look at the counter and counted only later. What
keeps the bound is that the counter and the admitted requests together never
exceed `MAX_LOGIN_ATTEMPTS` (`Ledger.room`), and that a wrong password is counted
or about to be (`Ledger.wrong`).
-/

namespace HiveClaw.Auth

open Lib Admins

/-! ## What a request does to the counter -/

/-- How far a request has come: admitted by the lock check, with a wrong password
verified in some window, counted and about to set the expiry, or over. The last
two keep the window of the wrong password. -/
inductive Attempt where
  | fresh
  | admitted
  | missed (window : Nat)
  | owes (wrong : Option Nat)
  | over (wrong : Option Nat)
deriving DecidableEq, Repr

namespace Attempt

/-- The window in which the request has had a wrong password verified. -/
def wrong : Attempt → Option Nat
  | .missed w => some w
  | .owes w | .over w => w
  | .fresh | .admitted => none

def uncounted : Attempt → Bool
  | .admitted | .missed _ => true
  | _ => false

def settled : Attempt → Bool
  | .fresh | .admitted | .over _ => true
  | .missed _ | .owes _ => false

def next : Attempt → AuthStmt → AuthInput → Counter → Attempt
  | .fresh, .ttl, i, c => if i.reply = .answered ∧ c.ttlSeconds ≤ 0 then .admitted else .over none
  | .admitted, .verify (.ok false), _, c => .missed c.generation
  | .admitted, .incr, i, c =>
    if i.reply = .answered ∧ c.count + 1 = maxLoginAttempts then .owes none else .over none
  | .missed w, .incr, i, c =>
    if i.reply = .answered ∧ c.count + 1 = maxLoginAttempts then .owes (some w)
    else .over (some w)
  | .owes w, .expire, _, _ => .over w
  | .admitted, .del, _, _ => .over none
  | q, _, _, _ => q

/-- What a statement may do to the counter. -/
def allows : Attempt → AuthStmt → AuthInput → Counter → Counter → Prop
  | q, .incr, i, c, c' => q.uncounted = true ∧ c' = if i.reply.executed then c.add 1 else c
  | .owes _, .expire, i, c, c' => ∃ ms, c' = if i.reply.executed then c.expire ms else c
  | .admitted, .del, i, c, c' => c' = if i.reply.executed then c.drop else c
  | q, .verify _, _, c, c' => q = .admitted ∧ c' = c
  | _, .expire, _, _, _ | _, .del, _, _, _ => False
  | _, _, _, c, c' => c' = c

end Attempt

def attempt : Protocol Attempt AuthStmt AuthInput Counter :=
  { init := .fresh, next := Attempt.next, allows := Attempt.allows }

/-! ## The endpoints keep to the protocol -/

/-- A program that ends in a phase in which a request may end. -/
def Settles {ε α : Type} (q : Attempt) (m : AuthM ε α) : Prop :=
  Follows attempt (fun q _ => q.settled = true) q m.run

section Endpoints

variable {ε α β : Type} {q : Attempt}

variable {l : AuthStmt}

theorem stays_ask {f : AuthInput → α} (hnext : ∀ i c, q.next l i c = q)
    (hallows : ∀ i c, q.allows l i c c) :
    Follows attempt (fun q' _ => q' = q) q (ask l f : AuthM ε α).run :=
  Follows.lift (follows_read_iff.mpr ⟨hallows, hnext⟩)

theorem stays_failIf (c : Prop) [Decidable c] (e : AppError) :
    Follows attempt (fun q' _ => q' = q) q (failIf c e).run := by
  unfold failIf
  split
  · exact .done rfl
  · exact .done rfl

variable {m : AuthM ε α} {f : α → AuthM ε β}

theorem settles_stay_bind (hq : q.settled = true)
    (hm : Follows attempt (fun q' _ => q' = q) q m.run) (hf : ∀ a, Settles q (f a)) :
    Settles q (m >>= f) :=
  Follows.stay_bind hm (fun _ => hq) hf

theorem settles_bind (hm : Settles q m) (hf : ∀ q a, q.settled = true → Settles q (f a)) :
    Settles q (m >>= f) :=
  hm.bindE (fun _ _ h => h) fun q a h => hf q a h

theorem settles_throw (hq : q.settled = true) (e : ε) : Settles q (throw e : AuthM ε α) :=
  .done hq

theorem settles_ignore {m : AuthM Unit α} (hm : Settles q m) :
    Settles q (ignore m : AuthM ε Unit) :=
  Follows.lift (hm.bind fun _ _ h => .done h)

/-- A command of the counter: its effect is the one the protocol allows, and it
is answered only in one case. -/
theorem follows_command {E : Attempt → Except Unit α → Prop} {answer : Counter → α}
    {write : Counter → Counter}
    (hallows : ∀ i c, q.allows l i c (if i.reply.executed then write c else c))
    (hok : ∀ i c, i.reply = .answered → E (q.next l i c) (.ok (answer c)))
    (herr : ∀ i c, i.reply ≠ .answered → E (q.next l i c) (.error ())) :
    Follows attempt E q (command l answer write).run := by
  refine follows_modify_iff.mpr ⟨fun i c => ?_, fun i c => ?_⟩
  · have h := hallows i c
    cases hreply : i.reply <;> simpa [attempt, hreply, Reply.executed] using h
  · show E (q.next l i c) _
    cases hreply : i.reply with
    | answered => exact hok i c hreply
    | lost => exact herr i c (by simp [hreply])
    | refused => exact herr i c (by simp [hreply])

theorem follows_isAccountLocked :
    Follows attempt (fun q r => q.settled = true ∧ (r = .ok false → q = .admitted)) .fresh
      isAccountLocked.run := by
  have httl : Follows attempt
      (fun q r => q.settled = true ∧ ∀ ttl, r = .ok ttl → ttl ≤ 0 → q = .admitted) .fresh
      (command .ttl Counter.ttlSeconds id).run := by
    refine follows_command (fun i c => ?_) (fun i c h => ?_) fun i c h => ?_
    · show (if i.reply.executed then c else c) = c
      split <;> rfl
    · refine ⟨?_, fun ttl httl hle => ?_⟩
      · simp only [Attempt.next]
        split <;> rfl
      · rw [← Except.ok.inj httl] at hle
        simp [Attempt.next, h, hle]
    · refine ⟨?_, nofun⟩
      simp [Attempt.next, h, Attempt.settled]
  refine httl.bindE (fun q e h => ⟨h.1, nofun⟩) fun q ttl h => .done ⟨h.1, fun hfalse => ?_⟩
  refine h.2 ttl rfl ?_
  simpa using hfalse

theorem settles_incrementFailedAttempts (hq : q.uncounted = true) :
    Settles q incrementFailedAttempts := by
  have hincr : Follows attempt
      (fun q' r => if r = .ok maxLoginAttempts then ∃ w, q' = .owes w else ∃ w, q' = .over w) q
      (command .incr (fun c => c.count + 1) (·.add 1)).run := by
    refine follows_command (fun i c => ⟨hq, rfl⟩) (fun i c h => ?_) fun i c h => ?_
    · cases q with
      | admitted => by_cases hc : c.count + 1 = maxLoginAttempts <;> simp [Attempt.next, h, hc]
      | missed w => by_cases hc : c.count + 1 = maxLoginAttempts <;> simp [Attempt.next, h, hc]
      | fresh => cases hq
      | owes w => cases hq
      | «over» w => cases hq
    · cases q with
      | admitted => simp [Attempt.next, h]
      | missed w => simp [Attempt.next, h]
      | fresh => cases hq
      | owes w => cases hq
      | «over» w => cases hq
  refine hincr.bindE (fun q e h => ?_) fun q count h => ?_
  · simp only [reduceCtorEq, if_false] at h
    obtain ⟨w, rfl⟩ := h
    rfl
  · by_cases hcount : count = maxLoginAttempts
    · rw [if_pos (congrArg _ hcount)] at h
      obtain ⟨w, rfl⟩ := h
      rw [if_pos hcount]
      refine Follows.bindE (E := fun q _ => q.settled = true) ?_ (fun _ _ h => h)
        fun _ _ h => .done h
      exact follows_command (fun i c => ⟨_, rfl⟩) (fun _ _ _ => rfl) fun _ _ _ => rfl
    · rw [if_neg fun heq => hcount (Except.ok.inj heq)] at h
      obtain ⟨w, rfl⟩ := h
      rw [if_neg hcount]
      exact .done rfl

theorem settles_resetFailedAttempts : Settles .admitted resetFailedAttempts :=
  follows_command (fun _ _ => rfl) (fun _ _ _ => rfl) fun _ _ _ => rfl

theorem follows_verifyPassword (cfg : Config) (password hash : String) :
    Follows attempt
      (fun q r => if r = .ok false then ∃ w, q = .missed w else q = .admitted) .admitted
      (verifyPassword cfg password hash).run := by
  refine follows_read_iff.mpr ⟨fun _ _ => ⟨rfl, rfl⟩, fun i c => ?_⟩
  show if _ then ∃ w, Attempt.admitted.next _ i c = _ else Attempt.admitted.next _ i c = _
  rcases cfg.bcrypt.verify password hash with e | (_ | _)
  · rfl
  · exact ⟨c.generation, rfl⟩
  · rfl

theorem settles_orUnavailable_increment (hq : q.uncounted = true) :
    Settles q (orUnavailable incrementFailedAttempts) := by
  refine Follows.adapt ((settles_incrementFailedAttempts hq).mono ?_)
  exact fun _ _ h => h

theorem settles_loginFailed (hq : q.uncounted = true) : Settles q loginFailed := by
  refine settles_bind (settles_orUnavailable_increment hq) fun q failedCount hq => ?_
  refine settles_stay_bind hq (stays_ask (by cases q <;> exact fun _ _ => rfl)
    (by cases q <;> exact fun _ _ => rfl)) fun _ => ?_
  exact settles_stay_bind hq (stays_failIf _ _) fun _ => settles_throw hq _

theorem settles_loginSucceeded (cfg : Config) (admin : Admin) :
    Settles .admitted (loginSucceeded cfg admin) := by
  refine settles_bind (settles_ignore settles_resetFailedAttempts) fun q _ hq => ?_
  refine settles_stay_bind hq (stays_ask (by cases q <;> exact fun _ _ => rfl)
    (by cases q <;> exact fun _ _ => rfl)) fun _ => ?_
  refine settles_stay_bind hq (stays_ask (by cases q <;> exact fun _ _ => rfl)
    (by cases q <;> exact fun _ _ => rfl)) fun _ => ?_
  split
  · exact settles_throw hq _
  · exact .done hq

theorem settles_locked_bind {e : AppError} {f : Unit → AuthM AppError α}
    (hf : Settles .admitted (f ())) :
    Settles .fresh (do
      let isLocked ← orUnavailable isAccountLocked
      failIf (isLocked = true) e
      f ()) := by
  have hcheck : Follows attempt (fun q r => q.settled = true ∧ (r = .ok false → q = .admitted))
      .fresh (orUnavailable isAccountLocked).run := by
    refine Follows.adapt (follows_isAccountLocked.mono fun q r h => ⟨h.1, fun hr => h.2 ?_⟩)
    cases r with
    | error _ => cases hr
    | ok b => exact congrArg _ (Except.ok.inj hr)
  refine hcheck.bindE (fun _ _ h => h.1) fun q isLocked h => ?_
  cases isLocked with
  | true => exact .done h.1
  | false =>
    obtain rfl := h.2 rfl
    exact hf

theorem settles_login (cfg : Config) (password : String) :
    Settles .fresh (login cfg password) := by
  refine settles_locked_bind (f := fun _ => _) ?_
  refine settles_stay_bind rfl (stays_ask (fun _ _ => rfl) fun _ _ => rfl) fun found => ?_
  rcases found with e | (_ | admin)
  · exact settles_throw rfl _
  · exact settles_bind (settles_ignore (settles_incrementFailedAttempts rfl))
      fun q _ hq => settles_throw hq _
  · refine settles_stay_bind rfl (stays_failIf _ _) fun _ => ?_
    refine settles_stay_bind rfl (stays_failIf _ _) fun _ => ?_
    refine (follows_verifyPassword cfg password admin.passwordHash).bindE ?_ ?_
    · rintro q e rfl
      rfl
    · intro q passwordValid h
      cases passwordValid with
      | false =>
        obtain ⟨w, rfl⟩ := h
        exact settles_loginFailed rfl
      | true =>
        obtain rfl : q = .admitted := h
        exact settles_loginSucceeded cfg admin

theorem stays_requireAdmin (hnext : ∀ i c, q.next .admin i c = q)
    (hallows : ∀ i c, q.allows .admin i c c) :
    Follows attempt (fun q' _ => q' = q) q requireAdmin.run := by
  refine Follows.stay_bind (stays_ask hnext hallows) (fun _ => rfl) fun found => ?_
  rcases found with e | (_ | admin)
  · exact .done rfl
  · exact .done rfl
  · exact .done rfl

theorem settles_replacePassword (cfg : Config) (admin : Admin) (newPassword : String) :
    Settles .admitted (replacePassword cfg admin newPassword) := by
  unfold replacePassword
  split
  · exact settles_throw rfl _
  · refine settles_stay_bind rfl (stays_failIf _ _) fun _ => ?_
    split
    · exact settles_throw rfl _
    · split
      · exact settles_throw rfl _
      · refine settles_stay_bind rfl (stays_ask (fun _ _ => rfl) fun _ _ => rfl) fun updated => ?_
        cases updated with
        | error _ => exact settles_throw rfl _
        | ok _ =>
          refine settles_bind (settles_ignore settles_resetFailedAttempts) ?_
          exact fun q _ hq => .done hq

theorem settles_changePassword (cfg : Config) (adminId : Option Int)
    (oldPassword newPassword : String) :
    Settles .fresh (changePassword cfg adminId oldPassword newPassword) := by
  refine settles_stay_bind rfl (stays_failIf _ _) fun _ => ?_
  refine settles_stay_bind rfl (stays_requireAdmin (fun _ _ => rfl) fun _ _ => rfl) fun _ => ?_
  refine settles_locked_bind (f := fun _ => _) ?_
  refine settles_stay_bind rfl (stays_requireAdmin (fun _ _ => rfl) fun _ _ => rfl) ?_
  intro admin
  refine (follows_verifyPassword cfg oldPassword admin.passwordHash).bindE ?_ ?_
  · rintro q e rfl
    rfl
  · intro q oldValid h
    cases oldValid with
    | false =>
      obtain ⟨w, rfl⟩ := h
      exact settles_bind (settles_ignore (settles_incrementFailedAttempts rfl))
        fun q _ hq => settles_throw hq _
    | true =>
      obtain rfl : q = .admitted := h
      exact settles_replacePassword cfg admin newPassword

theorem settles_handle (cfg : Config) (r : AuthRequest) : Settles .fresh (handle cfg r) := by
  cases r with
  | login password => exact settles_login cfg password
  | changePassword adminId oldPassword newPassword =>
    exact settles_changePassword cfg adminId oldPassword newPassword

end Endpoints

/-! ## Runs -/

/-- The requests for the phone number that have been started, and the counter. -/
abbrev AuthPool := Pool AuthRequest AuthStmt AuthInput Counter (Except AppError AuthResponse)

abbrev AuthThread := Thread AuthRequest AuthStmt AuthInput Counter (Except AppError AuthResponse)

def attemptOf (th : AuthThread) : Attempt := th.phase fun _ _ => attempt

/-- The number of wrong passwords that have been verified in window `w`. -/
def wrongCount (c : AuthPool) (w : Nat) : Nat :=
  c.threads.countP fun th => (attemptOf th).wrong = some w

/-- The request has been admitted, is not counted, and is still under way. -/
def pending (th : AuthThread) : Bool := th.inFlight && (attemptOf th).uncounted

/-- A pending request with a wrong password of window `w`. -/
def uncountedWrong (w : Nat) (th : AuthThread) : Bool := th.inFlight && attemptOf th = .missed w

/-- A statement that does not go wrong. A lock check that admits a request finds
room for it beside the counter and the requests admitted before. The `INCR` for a
wrong password is executed, and the one that completes `MAX_LOGIN_ATTEMPTS` is
answered. The `EXPIRE` of a counter without an expiry is executed. -/
def SoundStmt (c : AuthPool) (q : Attempt) (i : AuthInput) : AuthStmt → Prop
  | .ttl => q = .fresh → i.reply = .answered → c.store.ttlSeconds ≤ 0 →
    c.store.count + (c.threads.countP pending : Nat) < maxLoginAttempts
  | .incr => (q.wrong.isSome = true → i.reply.executed = true) ∧
    (c.store.count + 1 = maxLoginAttempts → i.reply = .lost → c.store.Expires)
  | .expire => c.store.Expires ∨ i.reply.executed = true
  | _ => True

/-- A step that does not go wrong; in particular no request crashes between a
wrong password and its `INCR`, or between the `INCR` that locks the account and
its `EXPIRE`. -/
def Sound (c : AuthPool) : Act AuthRequest AuthInput Nat → Prop
  | .move j i => ∀ th ∈ c.threads[j]?, th.crashed = false → ∀ l ∈ th.upcoming,
    SoundStmt c (attemptOf th) i l
  | .crash j => ∀ th ∈ c.threads[j]?, th.inFlight = true →
    (attemptOf th).settled = true ∨ ((attemptOf th).uncounted = false ∧ c.store.Expires)
  | .start _ | .outside _ => True

instance (c : AuthPool) (q : Attempt) (i : AuthInput) : DecidablePred (SoundStmt c q i)
  | .ttl => inferInstanceAs (Decidable (q = .fresh → i.reply = .answered →
      c.store.ttlSeconds ≤ 0 →
      c.store.count + (c.threads.countP pending : Nat) < maxLoginAttempts))
  | .incr => inferInstanceAs (Decidable ((q.wrong.isSome = true → i.reply.executed = true) ∧
      (c.store.count + 1 = maxLoginAttempts → i.reply = .lost → c.store.Expires)))
  | .expire => inferInstanceAs (Decidable (c.store.Expires ∨ i.reply.executed = true))
  | .admin | .verify _ | .del | .lastLogin | .loginRecord | .updatePassword => isTrue trivial

instance (c : AuthPool) : DecidablePred (Sound c)
  | .move j i => inferInstanceAs (Decidable (∀ th ∈ c.threads[j]?, th.crashed = false →
      ∀ l ∈ th.upcoming, SoundStmt c (attemptOf th) i l))
  | .crash j => inferInstanceAs (Decidable (∀ th ∈ c.threads[j]?, th.inFlight = true →
      (attemptOf th).settled = true ∨ ((attemptOf th).uncounted = false ∧ c.store.Expires)))
  | .start _ | .outside _ => isTrue trivial

/-- What every sound run keeps: no wrong password of a window to come; room for
the pending requests; every wrong password of the current window is counted or
about to be; the bound; and a full counter has an expiry or is about to get one. -/
structure Ledger (c : AuthPool) : Prop where
  nonneg : 0 ≤ c.store.count
  windows : ∀ th ∈ c.threads, ∀ w, (attemptOf th).wrong = some w → w ≤ c.store.generation
  room : c.store.count + (c.threads.countP pending : Nat) ≤ maxLoginAttempts
  wrong : (wrongCount c c.store.generation : Int) ≤ c.store.count +
    (c.threads.countP (uncountedWrong c.store.generation) : Nat)
  bound : ∀ w, (wrongCount c w : Int) ≤ maxLoginAttempts
  expiry : c.store.count < maxLoginAttempts ∨ c.store.Expires ∨
    ∃ th ∈ c.threads, th.crashed = false ∧ ∃ w, attemptOf th = .owes w

variable {q : Attempt}

theorem next_incr (hq : q.uncounted = true) (i : AuthInput) (c : Counter) :
    q.next .incr i c = if i.reply = .answered ∧ c.count + 1 = maxLoginAttempts
      then .owes q.wrong else .over q.wrong := by
  cases q with
  | admitted => rfl
  | missed w => rfl
  | fresh => cases hq
  | owes w => cases hq
  | «over» w => cases hq

variable {l : AuthStmt} {i : AuthInput}

/-- What a statement does to the counter and to the phase of its request. Most
leave the counter alone and open no new attempt; the others are the lock check
that admits, the wrong password, the `INCR`, the `EXPIRE` and the reset. -/
theorem allows_cases {c c' : Counter} (h : q.allows l i c c')
    (hincr : l = .incr → q.wrong.isSome = true → i.reply.executed = true) :
    (c' = c ∧ (q.next l i c).wrong = q.wrong ∧
        ((q.next l i c).uncounted = true → q.uncounted = true) ∧
        (∀ w, q = .missed w → q.next l i c = q) ∧ ∀ w, q = .owes w → q.next l i c = q) ∨
      (c' = c ∧ l = .ttl ∧ i.reply = .answered ∧ c.ttlSeconds ≤ 0 ∧ q = .fresh ∧
        q.next l i c = .admitted) ∨
      (c' = c ∧ q = .admitted ∧ q.next l i c = .missed c.generation) ∨
      (l = .incr ∧ c' = c.add 1 ∧ q.uncounted = true ∧
        ((i.reply = .answered ∧ c.count + 1 = maxLoginAttempts ∧
            q.next l i c = .owes q.wrong) ∨
          ((c.count + 1 = maxLoginAttempts → i.reply = .lost) ∧
            q.next l i c = .over q.wrong))) ∨
      (∃ w ms, l = .expire ∧ c' = (if i.reply.executed then c.expire ms else c) ∧
        q = .owes w ∧ q.next l i c = .over w) ∨
      (c' = c.drop ∧ q = .admitted ∧ q.next l i c = .over none) := by
  cases l with
  | ttl =>
    have hstore : c' = c := by cases q <;> exact h
    cases q with
    | fresh =>
      -- only an answer without time left lets the attempt in
      by_cases hopen : i.reply = .answered ∧ c.ttlSeconds ≤ 0
      · exact Or.inr (Or.inl ⟨hstore, rfl, hopen.1, hopen.2, rfl, if_pos hopen⟩)
      · have hnext : Attempt.fresh.next .ttl i c = .over none := if_neg hopen
        rw [hnext]
        exact Or.inl ⟨hstore, rfl, nofun, nofun, nofun⟩
    | _ => exact Or.inl ⟨hstore, rfl, fun hq => hq, fun _ _ => rfl, fun _ _ => rfl⟩
  | verify outcome =>
    obtain ⟨rfl, hstore⟩ : q = .admitted ∧ c' = c := by cases q <;> exact h
    rcases outcome with e | (_ | _)
    · exact Or.inl ⟨hstore, rfl, fun hq => hq, nofun, nofun⟩
    · exact Or.inr (Or.inr (Or.inl ⟨hstore, rfl, rfl⟩))
    · exact Or.inl ⟨hstore, rfl, fun hq => hq, nofun, nofun⟩
  | incr =>
    obtain ⟨hq, hstore⟩ : q.uncounted = true ∧ c' = if i.reply.executed then c.add 1 else c := by
      cases q <;> exact h
    have hnext := next_incr hq i c
    cases hreply : i.reply with
    | answered =>
      rw [hreply, Reply.executed, if_pos rfl] at hstore
      refine Or.inr (Or.inr (Or.inr (Or.inl ⟨rfl, hstore, hq, ?_⟩)))
      -- the fifth miss owes the `EXPIRE`
      by_cases hfull : c.count + 1 = maxLoginAttempts
      · exact Or.inl ⟨rfl, hfull, by rw [hnext, if_pos ⟨hreply, hfull⟩]⟩
      · exact Or.inr ⟨fun h => absurd h hfull, by rw [hnext, if_neg fun h => hfull h.2]⟩
    | lost =>
      rw [hreply, Reply.executed, if_pos rfl] at hstore
      refine Or.inr (Or.inr (Or.inr (Or.inl ⟨rfl, hstore, hq, Or.inr ⟨fun _ => rfl, ?_⟩⟩)))
      rw [hnext, if_neg fun h => by simp [hreply] at h]
    | refused =>
      -- only a request without a wrong password gets here
      rw [hreply, Reply.executed] at hstore
      rw [hreply] at hincr hnext
      have hright : q.wrong.isSome = false := by
        cases hw : q.wrong.isSome with
        | false => rfl
        | true => cases hincr rfl hw
      rw [if_neg fun h => by simp at h] at hnext
      refine Or.inl ⟨hstore, ?_, ?_, ?_, ?_⟩
      · rw [hnext]
        rfl
      · exact fun _ => hq
      · rintro w rfl
        cases hright
      · rintro w rfl
        cases hq
  | expire =>
    cases q with
    | owes w =>
      obtain ⟨ms, hstore⟩ := h
      exact Or.inr (Or.inr (Or.inr (Or.inr (Or.inl ⟨w, ms, rfl, hstore, rfl, rfl⟩))))
    | _ => exact h.elim
  | del =>
    cases q with
    | admitted =>
      have hstore : c' = if i.reply.executed then c.drop else c := h
      cases hexec : i.reply.executed with
      | true =>
        rw [hexec, if_pos rfl] at hstore
        exact Or.inr (Or.inr (Or.inr (Or.inr (Or.inr ⟨hstore, rfl, rfl⟩))))
      | false =>
        rw [hexec] at hstore
        exact Or.inl ⟨hstore, rfl, nofun, nofun, nofun⟩
    | _ => exact h.elim
  | _ => cases q <;> exact Or.inl ⟨h, rfl, fun hq => hq, fun _ _ => rfl, fun _ _ => rfl⟩

theorem uncountedWrong_le_pending (c : AuthPool) (w : Nat) :
    c.threads.countP (uncountedWrong w) ≤ c.threads.countP pending := by
  refine List.countP_mono_left fun th _ h => ?_
  simp only [uncountedWrong, Bool.and_eq_true, decide_eq_true_eq] at h
  simp [pending, h.1, h.2, Attempt.uncounted]

variable {c : AuthPool} {j : Nat} {th : AuthThread}

theorem wrongCount_set (hth : c.threads[j]? = some th) (th' : AuthThread) (w : Nat) :
    (c.threads.set j th').countP (fun th => (attemptOf th).wrong = some w) +
        (decide ((attemptOf th).wrong = some w)).toNat =
      wrongCount c w + (decide ((attemptOf th').wrong = some w)).toNat :=
  countP_replace (fun th => decide ((attemptOf th).wrong = some w)) hth th'

namespace Ledger

variable {c : AuthPool} {j : Nat} {th th' : AuthThread}

/-- Replacing a request by one that has had the same wrong password, opens no new
attempt and takes nothing back. -/
theorem set_keep (hL : Ledger c) (hth : c.threads[j]? = some th)
    (hwrong : (attemptOf th').wrong = (attemptOf th).wrong)
    (hpending : pending th' = true → pending th = true)
    (hmissed : ∀ w, uncountedWrong w th = true → uncountedWrong w th' = true)
    (howes : ∀ w, th.crashed = false → attemptOf th = .owes w →
      c.store.Expires ∨ (th'.crashed = false ∧ ∃ w, attemptOf th' = .owes w)) :
    Ledger { c with threads := c.threads.set j th' } := by
  have hcount : ∀ w, wrongCount { c with threads := c.threads.set j th' } w = wrongCount c w := by
    intro w
    have hset := wrongCount_set hth th' w
    rw [hwrong] at hset
    show (c.threads.set j th').countP _ = _
    omega
  refine ⟨hL.nonneg, ?_, ?_, ?_, ?_, ?_⟩
  · refine forall_mem_set hL.windows ?_ j
    rw [hwrong]
    exact hL.windows th (List.mem_of_getElem? hth)
  · have hset := countP_replace pending hth th'
    have hle := hL.room
    have hmono : (pending th').toNat ≤ (pending th).toNat :=
      Bool.toNat_le_toNat hpending
    dsimp only
    omega
  · have hset := countP_replace (uncountedWrong c.store.generation) hth th'
    have hle := hL.wrong
    have hmono : (uncountedWrong c.store.generation th).toNat ≤
        (uncountedWrong c.store.generation th').toNat :=
      Bool.toNat_le_toNat (hmissed c.store.generation)
    dsimp only
    rw [hcount]
    omega
  · intro w
    rw [hcount]
    exact hL.bound w
  · rcases hL.expiry with hlt | hexp | hsome
    · exact Or.inl hlt
    · exact Or.inr (Or.inl hexp)
    · by_cases hexp : c.store.Expires
      · exact Or.inr (Or.inl hexp)
      · refine Or.inr (Or.inr (exists_mem_set hth hsome ?_))
        rintro ⟨hlive, w, ho⟩
        exact (howes w hlive ho).resolve_left hexp

theorem let_in (hL : Ledger c) (hth : c.threads[j]? = some th) (hq : attemptOf th = .fresh)
    (hq' : attemptOf th' = .admitted)
    (hroom : c.store.count + (c.threads.countP pending : Nat) < maxLoginAttempts) :
    Ledger { c with threads := c.threads.set j th' } := by
  have hcount : ∀ w, wrongCount { c with threads := c.threads.set j th' } w = wrongCount c w := by
    intro w
    have hset := wrongCount_set hth th' w
    rw [hq, hq'] at hset
    exact hset
  refine ⟨hL.nonneg, ?_, ?_, ?_, ?_, ?_⟩
  · refine forall_mem_set hL.windows ?_ j
    rw [hq']
    exact nofun
  · have hset := countP_replace pending hth th'
    have hone := Bool.toNat_le (pending th')
    dsimp only
    omega
  · have hset := countP_replace (uncountedWrong c.store.generation) hth th'
    have hno : uncountedWrong c.store.generation th = false := by simp [uncountedWrong, hq]
    rw [hno, Bool.toNat_false] at hset
    have hle := hL.wrong
    dsimp only
    rw [hcount]
    omega
  · intro w
    rw [hcount]
    exact hL.bound w
  · refine hL.expiry.imp_right (Or.imp_right fun hsome => exists_mem_set hth hsome ?_)
    rintro ⟨-, w, ho⟩
    rw [hq] at ho
    cases ho

theorem miss (hL : Ledger c) (hth : c.threads[j]? = some th) (hin : th.inFlight = true)
    (hq : attemptOf th = .admitted) (hin' : th'.inFlight = true)
    (hq' : attemptOf th' = .missed c.store.generation) :
    Ledger { c with threads := c.threads.set j th' } := by
  have hcount : ∀ w, wrongCount { c with threads := c.threads.set j th' } w =
      wrongCount c w + (decide (c.store.generation = w)).toNat := by
    intro w
    have hset := wrongCount_set hth th' w
    rw [hq, hq'] at hset
    simp only [Attempt.wrong, reduceCtorEq, decide_false, Bool.toNat_false, Option.some.injEq,
      Nat.add_zero] at hset
    exact hset
  have hpending : (c.threads.set j th').countP pending = c.threads.countP pending := by
    have hset := countP_replace pending hth th'
    have hp : pending th = true := by simp [pending, hin, hq, Attempt.uncounted]
    have hp' : pending th' = true := by simp [pending, hin', hq', Attempt.uncounted]
    rw [hp, hp'] at hset
    omega
  have hwrong : (wrongCount { c with threads := c.threads.set j th' } c.store.generation : Int) ≤
      c.store.count +
        ((c.threads.set j th').countP (uncountedWrong c.store.generation) : Nat) := by
    have hset := countP_replace (uncountedWrong c.store.generation) hth th'
    have hm : uncountedWrong c.store.generation th = false := by simp [uncountedWrong, hq]
    have hm' : uncountedWrong c.store.generation th' = true := by
      simp [uncountedWrong, hin', hq']
    rw [hm, hm', Bool.toNat_false, Bool.toNat_true] at hset
    rw [hcount, decide_eq_true rfl, Bool.toNat_true]
    have hle := hL.wrong
    omega
  have hroom : c.store.count + ((c.threads.set j th').countP pending : Nat) ≤
      maxLoginAttempts := by
    rw [hpending]
    exact hL.room
  refine ⟨hL.nonneg, ?_, hroom, hwrong, ?_, ?_⟩
  · refine forall_mem_set hL.windows ?_ j
    rw [hq']
    intro w hw
    cases hw
    exact Nat.le_refl _
  · intro w
    by_cases hw : c.store.generation = w
    · subst hw
      have hle := uncountedWrong_le_pending { c with threads := c.threads.set j th' }
        c.store.generation
      dsimp only at hle
      omega
    · rw [hcount, decide_eq_false hw]
      exact hL.bound w
  · refine hL.expiry.imp_right (Or.imp_right fun hsome => exists_mem_set hth hsome ?_)
    rintro ⟨-, w, ho⟩
    rw [hq] at ho
    cases ho

theorem count (hL : Ledger c) (hth : c.threads[j]? = some th) (hin : th.inFlight = true)
    (hq : (attemptOf th).uncounted = true)
    (hwrong : (attemptOf th').wrong = (attemptOf th).wrong)
    (hq' : (attemptOf th').uncounted = false)
    (hexpiry : c.store.count + 1 < maxLoginAttempts ∨ (c.store.add 1).Expires ∨
      (th'.crashed = false ∧ ∃ w, attemptOf th' = .owes w)) :
    Ledger { threads := c.threads.set j th', store := c.store.add 1 } := by
  have hcount : ∀ w, wrongCount { c with threads := c.threads.set j th' } w = wrongCount c w := by
    intro w
    have hset := wrongCount_set hth th' w
    rw [hwrong] at hset
    show (c.threads.set j th').countP _ = _
    omega
  refine ⟨?_, ?_, ?_, ?_, ?_, ?_⟩
  · have hle := hL.nonneg
    rw [Counter.count_add]
    omega
  · refine forall_mem_set hL.windows ?_ j
    rw [hwrong]
    exact hL.windows th (List.mem_of_getElem? hth)
  · have hset := countP_replace pending hth th'
    have hp : pending th = true := by simp [pending, hin, hq]
    have hp' : pending th' = false := by simp [pending, hq']
    rw [hp, hp', Bool.toNat_true, Bool.toNat_false] at hset
    have hle := hL.room
    dsimp only
    rw [Counter.count_add]
    omega
  · have hset := countP_replace (uncountedWrong c.store.generation) hth th'
    have hone := Bool.toNat_le (uncountedWrong c.store.generation th)
    have hle := hL.wrong
    have hsame := hcount c.store.generation
    show ((wrongCount { c with threads := c.threads.set j th' } c.store.generation : Nat) : Int) ≤
      c.store.count + 1 + ((c.threads.set j th').countP (uncountedWrong c.store.generation) : Nat)
    omega
  · intro w
    show ((wrongCount { c with threads := c.threads.set j th' } w : Nat) : Int) ≤ _
    rw [hcount]
    exact hL.bound w
  · refine hexpiry.imp_right (Or.imp_right fun howes => ?_)
    exact ⟨th', List.mem_set (List.getElem?_eq_some_iff.mp hth).1 th', howes⟩

theorem expire (hL : Ledger c) (hth : c.threads[j]? = some th) {w : Option Nat}
    (hq : attemptOf th = .owes w) (hq' : attemptOf th' = .over w) {s : Counter}
    (hvalue : s.count = c.store.count) (hgen : s.generation = c.store.generation)
    (hexp : s.Expires) : Ledger { threads := c.threads.set j th', store := s } := by
  have hwrong : (attemptOf th').wrong = (attemptOf th).wrong := by rw [hq, hq']; rfl
  have hcount : ∀ w, wrongCount { c with threads := c.threads.set j th' } w = wrongCount c w := by
    intro w
    have hset := wrongCount_set hth th' w
    rw [hwrong] at hset
    show (c.threads.set j th').countP _ = _
    omega
  refine ⟨?_, ?_, ?_, ?_, ?_, Or.inr (Or.inl hexp)⟩
  · rw [hvalue]
    exact hL.nonneg
  · rw [hgen]
    refine forall_mem_set hL.windows ?_ j
    rw [hwrong]
    exact hL.windows th (List.mem_of_getElem? hth)
  · have hset := countP_replace pending hth th'
    have hp' : pending th' = false := by simp [pending, hq', Attempt.uncounted]
    rw [hp', Bool.toNat_false] at hset
    have hle := hL.room
    rw [hvalue]
    dsimp only
    omega
  · have hset := countP_replace (uncountedWrong c.store.generation) hth th'
    have hm : uncountedWrong c.store.generation th = false := by simp [uncountedWrong, hq]
    rw [hm, Bool.toNat_false] at hset
    have hle := hL.wrong
    have hsame := hcount c.store.generation
    rw [hvalue, hgen]
    show ((wrongCount { c with threads := c.threads.set j th' } c.store.generation : Nat) : Int) ≤
      c.store.count + ((c.threads.set j th').countP (uncountedWrong c.store.generation) : Nat)
    omega
  · intro w'
    show ((wrongCount { c with threads := c.threads.set j th' } w' : Nat) : Int) ≤ _
    rw [hcount]
    exact hL.bound w'

theorem drop (hL : Ledger c) : Ledger { c with store := c.store.drop } := by
  refine ⟨Int.le_refl 0, ?_, ?_, ?_, hL.bound, Or.inl (by decide : (0 : Int) < 5)⟩
  · intro th hmem w hw
    exact (hL.windows th hmem w hw).trans (Nat.le_succ _)
  · have hle := hL.room
    have hnonneg := hL.nonneg
    show (0 : Int) + (c.threads.countP pending : Nat) ≤ maxLoginAttempts
    omega
  · have hzero : wrongCount c (c.store.generation + 1) = 0 := by
      refine List.countP_eq_zero.mpr fun th hmem hw => ?_
      have hle := hL.windows th hmem _ (of_decide_eq_true hw)
      omega
    show ((wrongCount c (c.store.generation + 1) : Nat) : Int) ≤ 0 + _
    rw [hzero]
    omega

theorem elapse (hL : Ledger c) (ms : Nat) : Ledger { c with store := c.store.elapse ms } := by
  rcases Counter.elapse_cases ms c.store with ⟨hvalue, hgen, httl⟩ | hdrop
  · have hcount : (c.store.elapse ms).count = c.store.count := by simp [Counter.count, hvalue]
    refine ⟨?_, ?_, ?_, ?_, hL.bound, ?_⟩
    · rw [hcount]
      exact hL.nonneg
    · rw [hgen]
      exact hL.windows
    · rw [hcount]
      exact hL.room
    · rw [hcount, hgen]
      exact hL.wrong
    · rw [hcount]
      refine hL.expiry.imp_right (Or.imp_left fun hexp h => ?_)
      rw [httl]
      exact hexp (hvalue ▸ h)
  · rw [hdrop]
    exact hL.drop

theorem start (hL : Ledger c) (hfresh : attemptOf th = .fresh) :
    Ledger { c with threads := c.threads ++ [th] } := by
  have hcount : ∀ w, wrongCount { c with threads := c.threads ++ [th] } w = wrongCount c w := by
    intro w
    show (c.threads ++ [th]).countP _ = _
    simp [List.countP_append, hfresh, Attempt.wrong, wrongCount]
  refine ⟨hL.nonneg, ?_, ?_, ?_, ?_, ?_⟩
  · intro th' hmem w hw
    rcases List.mem_append.mp hmem with hmem | hmem
    · exact hL.windows th' hmem w hw
    · rw [List.mem_singleton.mp hmem, hfresh] at hw
      cases hw
  · have hnew : pending th = false := by simp [pending, hfresh, Attempt.uncounted]
    rw [List.countP_append, List.countP_singleton, hnew]
    exact hL.room
  · rw [hcount, List.countP_append]
    have hle := hL.wrong
    dsimp only
    omega
  · intro w
    rw [hcount]
    exact hL.bound w
  · refine hL.expiry.imp_right (Or.imp_right fun ⟨th', hmem, h⟩ => ?_)
    exact ⟨th', List.mem_append_left _ hmem, h⟩

end Ledger

theorem settled_of_ended (hobey : Obeys (fun _ _ => attempt) (fun _ _ q _ => q.settled = true) c)
    (hmem : th ∈ c.threads) (hlive : th.crashed = false) (hended : th.inFlight = false) :
    (attemptOf th).settled = true := by
  have hfollows := hobey th hmem
  cases hprog : th.prog with
  | done r =>
    rw [hprog, follows_done_iff] at hfollows
    exact hfollows
  | stmt l w n => simp [Thread.inFlight, hlive, hprog] at hended

theorem Ledger.move {th' : AuthThread} {s : Counter} (hL : Ledger c)
    (hth : c.threads[j]? = some th) (hin : th.inFlight = true)
    (hsound : SoundStmt c (attemptOf th) i l) (hallows : (attemptOf th).allows l i c.store s)
    (hphase : attemptOf th' = (attemptOf th).next l i c.store) (hlive' : th'.crashed = false)
    (hended : th'.inFlight = false → (attemptOf th').settled = true) :
    Ledger { threads := c.threads.set j th', store := s } := by
  have hincr : l = .incr → (attemptOf th).wrong.isSome = true → i.reply.executed = true := by
    rintro rfl
    exact hsound.1
  -- an attempt that ended in a miss is still on its way to `INCR`
  have hmissed : ∀ w, attemptOf th' = .missed w → th'.inFlight = true := by
    intro w hw
    cases hin' : th'.inFlight with
    | true => rfl
    | false =>
      have hsettled := hended hin'
      rw [hw] at hsettled
      cases hsettled
  rcases allows_cases hallows hincr with ⟨rfl, hwrong, hunc, hmiss, howes⟩ |
    ⟨rfl, rfl, hreply, httl, hq, hnext⟩ | ⟨rfl, hq, hnext⟩ | ⟨rfl, rfl, hq, hcase⟩ |
    ⟨w, ms, rfl, hs, hq, hnext⟩ | ⟨rfl, hq, hnext⟩
  · -- nothing is counted and nobody is let in
    refine hL.set_keep hth (by rw [hphase, hwrong]) ?_ ?_ ?_
    · intro hp
      simp only [pending, Bool.and_eq_true] at hp ⊢
      exact ⟨hin, hunc (hphase ▸ hp.2)⟩
    · intro w hp
      simp only [uncountedWrong, Bool.and_eq_true, decide_eq_true_eq] at hp ⊢
      have hw : attemptOf th' = .missed w := by rw [hphase, hmiss w hp.2, hp.2]
      exact ⟨hmissed w hw, hw⟩
    · intro w _ ho
      exact Or.inr ⟨hlive', w, by rw [hphase, howes w ho, ho]⟩
  · -- the check of the remaining time lets the attempt in
    exact hL.let_in hth hq (hphase.trans hnext) (hsound hq hreply httl)
  · -- a wrong password
    exact hL.miss hth hin hq (hmissed _ (hphase.trans hnext)) (hphase.trans hnext)
  · -- `INCR`: the count goes up, and at the limit the attempt owes an `EXPIRE`
    rcases hcase with ⟨hreply, hfull, hnext⟩ | ⟨hlost, hnext⟩
    · refine hL.count hth hin hq ?_ ?_ (Or.inr (Or.inr ⟨hlive', _, hphase.trans hnext⟩))
      · rw [hphase, hnext]
        rfl
      · rw [hphase, hnext]
        rfl
    · refine hL.count hth hin hq ?_ ?_ ?_
      · rw [hphase, hnext]
        rfl
      · rw [hphase, hnext]
        rfl
      · by_cases hfull : c.store.count + 1 = maxLoginAttempts
        · have hexp := hsound.2 hfull (hlost hfull)
          refine Or.inr (Or.inl fun _ => hexp ?_)
          cases hvalue : c.store.value with
          | some _ => rfl
          | none => simp [Counter.count, hvalue, maxLoginAttempts] at hfull
        · -- the request itself is pending, so there is room for its count
          have hp : pending th = true := by simp [pending, hin, hq]
          have hpos : 0 < c.threads.countP pending :=
            List.countP_pos_iff.mpr ⟨th, List.mem_of_getElem? hth, hp⟩
          have hle := hL.room
          exact Or.inl (by omega)
  · -- `EXPIRE`
    refine hL.expire hth hq (hphase.trans hnext) ?_ ?_ ?_
    · rw [hs]
      split <;> simp
    · rw [hs]
      split <;> simp
    · rw [hs]
      split
      · exact Counter.expires_expire _ _
      · exact hsound.resolve_right ‹_›
  · -- `DEL` after a right password
    have hset : Ledger { c with threads := c.threads.set j th' } := by
      refine hL.set_keep hth ?_ ?_ ?_ ?_
      · rw [hphase, hnext, hq]
        rfl
      · intro hp
        simp [pending, hphase, hnext, Attempt.uncounted] at hp
      · intro w hp
        simp [uncountedWrong, hq] at hp
      · intro w _ ho
        rw [hq] at ho
        cases ho
    exact hset.drop

/-- **One step.** A sound step keeps the ledger. -/
theorem ledger_step {cfg : Config} {a : Act AuthRequest AuthInput Nat}
    (hobey : Obeys (fun _ _ => attempt) (fun _ _ q _ => q.settled = true) c)
    (hobey' : Obeys (fun _ _ => attempt) (fun _ _ q _ => q.settled = true)
      ((logins cfg).step c a)) (hL : Ledger c) (hsound : Sound c a) :
    Ledger ((logins cfg).step c a) := by
  rcases step_cases (logins cfg) hobey a with h | ⟨r, rfl, h⟩ |
    ⟨j, i, th, l, w, n, rfl, hth, hlive, hprog, -, hallows, h⟩ | ⟨j, th, rfl, hth, h⟩ |
    ⟨ms, rfl, h⟩
  · rw [h]
    exact hL
  · rw [h]
    exact hL.start rfl
  · rw [h] at hobey' ⊢
    refine hL.move hth ?_ (hsound th hth hlive l ?_) hallows ?_ hlive ?_
    · simp [Thread.inFlight, hlive, hprog]
    · simp [Thread.upcoming, hprog]
    · exact phase_advance (fun _ _ => attempt) th l i c.store (n i c.store)
    · exact settled_of_ended hobey'
        (List.mem_set (List.getElem?_eq_some_iff.mp hth).1 _) hlive
  · rw [h]
    cases hin : th.inFlight with
    | true =>
      have hcrash := hsound th hth hin
      refine hL.set_keep hth rfl nofun ?_ ?_
      · intro w hp
        simp only [uncountedWrong, Bool.and_eq_true, decide_eq_true_eq] at hp
        rw [hp.2] at hcrash
        simp [Attempt.settled, Attempt.uncounted] at hcrash
      · intro w _ ho
        rw [ho] at hcrash
        exact Or.inl (hcrash.resolve_left nofun).2
    | false =>
      refine hL.set_keep hth rfl nofun ?_ ?_
      · intro w hp
        simp [uncountedWrong, hin] at hp
      · intro w hlive ho
        have hsettled := settled_of_ended hobey (List.mem_of_getElem? hth) hlive hin
        rw [ho] at hsettled
        cases hsettled
  · rw [h]
    exact hL.elapse ms

/-- The pool before the first request. -/
def noLogins : AuthPool := { threads := [], store := {} }

theorem ledger_noLogins : Ledger noLogins where
  nonneg := Int.le_refl 0
  windows := nofun
  room := by decide
  wrong := by decide
  bound := fun _ => (by decide : (0 : Int) ≤ 5)
  expiry := Or.inl (by decide)

/-- **The lock.** In every run whose steps are sound, at most
`MAX_LOGIN_ATTEMPTS` wrong passwords are verified in one window, and a counter
that is full when no request is under way has an expiry. -/
theorem login_attempts_bounded {cfg : Config} {c : AuthPool}
    (h : (logins cfg).Reach Sound noLogins c) :
    (∀ w, (wrongCount c w : Int) ≤ maxLoginAttempts) ∧
      (c.Quiet → maxLoginAttempts ≤ c.store.count →
        c.store.ttl.isSome = true) := by
  have hinv : Obeys (fun _ _ => attempt) (fun _ _ q _ => q.settled = true) c ∧ Ledger c := by
    refine h.inv (I := fun c => Obeys _ _ c ∧ Ledger c) ⟨nofun, ledger_noLogins⟩ ?_
    rintro c a ⟨hobey, hL⟩ hsound
    have hprogram : ∀ (i : Nat) r, Follows attempt (fun q _ => q.settled = true) attempt.init
        ((logins cfg).program i r) :=
      fun _ r => settles_handle cfg r
    have hobey' := hobey.step hprogram a
    exact ⟨hobey', ledger_step hobey hobey' hL hsound⟩
  obtain ⟨hobey, hL⟩ := hinv
  refine ⟨hL.bound, fun hquiet hfull => ?_⟩
  rcases hL.expiry with hlt | hexp | ⟨th, hmem, hlive, w, ho⟩
  · omega
  · refine hexp ?_
    cases hvalue : c.store.value with
    | some _ => rfl
    | none => simp [Counter.count, hvalue, maxLoginAttempts] at hfull
  · have hsettled := settled_of_ended hobey hmem hlive (hquiet th hmem)
    rw [ho] at hsettled
    cases hsettled

/-! ## A lock that does not come -/

/-- bcrypt that keeps passwords as they are. -/
def plainConfig : Config where
  bcrypt := { hash := .ok, verify := fun password hash => .ok (password = hash) }
  createAdminToken _ _ := .ok "token"

def found : AuthInput := { admin := .ok (some ⟨1, "13800138000", "root", "right1", 3, 1⟩) }

/-- Request `j` with a wrong password, up to its verification. -/
def tryWrong (j : Nat) : List (Act AuthRequest AuthInput Nat) :=
  [.start (.login "wrong1"), .move j {}, .move j found, .move j {}]

/-- Five wrong passwords one after the other; the last request crashes between
its `INCR` and its `EXPIRE`. -/
def crashBeforeExpire : List (Act AuthRequest AuthInput Nat) :=
  tryWrong 0 ++ [.move 0 {}, .move 0 {}] ++ tryWrong 1 ++ [.move 1 {}, .move 1 {}] ++
    tryWrong 2 ++ [.move 2 {}, .move 2 {}] ++ tryWrong 3 ++ [.move 3 {}, .move 3 {}] ++
    tryWrong 4 ++ [.move 4 {}, .crash 4]

/-- Six requests pass the lock check before the first of them is counted. -/
def sixAtOnce : List (Act AuthRequest AuthInput Nat) :=
  tryWrong 0 ++ tryWrong 1 ++ tryWrong 2 ++ tryWrong 3 ++ tryWrong 4 ++ tryWrong 5

/-- After the crash the counter is full, has no expiry and locks nobody out: a
sixth wrong password is verified. So is the sixth of six at once. -/
theorem sixth_wrong_password_verified :
    ((logins plainConfig).run noLogins crashBeforeExpire).Quiet ∧
    ((logins plainConfig).run noLogins crashBeforeExpire).store.count = 5 ∧
    ((logins plainConfig).run noLogins crashBeforeExpire).store.ttl = none ∧
    wrongCount ((logins plainConfig).run noLogins (crashBeforeExpire ++ tryWrong 5)) 0 = 6 ∧
    wrongCount ((logins plainConfig).run noLogins sixAtOnce) 0 = 6 := by
  decide +kernel

/-- A request with a wrong password, and one with the right one after it. -/
theorem login_attempts_bounded_in_turn :
    (wrongCount ((logins plainConfig).run noLogins
      (tryWrong 0 ++ [.move 0 {}, .move 0 {}] ++ [.start (.login "right1"), .move 1 {},
        .move 1 found, .move 1 {}, .move 1 {}])) 0 : Int) ≤ maxLoginAttempts :=
  (login_attempts_bounded (System.reach_run (by decide +kernel))).1 0

end HiveClaw.Auth
