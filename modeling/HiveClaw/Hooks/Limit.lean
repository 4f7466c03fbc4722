import HiveClaw.Hooks.Service
import HiveClaw.Lib.Pool
import Mathlib.Data.Finset.Card

/-!
# Five hooks per trigger point

`create_hook` and `update_hook` count the hooks of an agent at a trigger point and
write in a later statement. Here any number of requests interleave, statement by
statement.

A request that has been let through by its count has a place reserved at its
trigger point until its write (`Placement`): a new hook one of its own, a hook that
is moved the place of its id. As long as every count that lets a request through
finds room beside the stored hooks and the places reserved before, no trigger
point ever holds more than five.

An update that does not change the trigger point writes back the one it has read;
if its hook has been moved in the meantime, this moves it again, without a count.
-/

namespace HiveClaw.Hooks

open Service Lib

/-! ## Requests, interleaved -/

/-- The requests, interleaved; nothing else writes hooks. -/
def hookRequests (mysql : Mysql) (lower : String → String) :
    System HookRequest Stmt Input Store (Except Failure (Option AgentHook)) Empty where
  program _ r := (handle mysql lower r).run
  outside := nofun

/-! ## Places -/

/-- An agent and a trigger point, as the index compares them. -/
structure Spot where
  agentId : Int
  key : String
deriving DecidableEq, Repr

def spotOf (mysql : Mysql) (h : AgentHook) : Spot := ⟨h.agentId, mysql.collationKey h.triggerPoint⟩

def storedAt (mysql : Mysql) (s : Store) (p : Spot) : List AgentHook :=
  s.agentHooks.filter fun h => spotOf mysql h = p

/-- Where a request is with its count. -/
inductive Placement where
  | idle
  | read (existing : AgentHook)
  | admitted (key : String)
  | over
deriving DecidableEq

namespace Placement

/-- The place a request has reserved. -/
def place : Placement → Option String
  | .admitted key => some key
  | _ => none

/-- The row an update has read and is going to write back. -/
def existing : Placement → Option AgentHook
  | .read h => some h
  | _ => none

/-- The request is between its read or count and its write. -/
def active : Placement → Bool
  | .read _ | .admitted _ => true
  | .idle | .over => false

def next (mysql : Mysql) (r : HookRequest) (q : Placement) (l : Stmt) (i : Input) (s : Store) :
    Placement :=
  match r, q with
  | .create agentId _ req, .idle =>
    if l = .select "hook count" then
      if i.fault "hook count" = none ∧
          (s.agentHooks.filter fun h => h.agentId = agentId ∧
            mysql.collationKey h.triggerPoint = mysql.collationKey req.triggerPoint).length < 5
      then .admitted (mysql.collationKey req.triggerPoint)
      else .over
    else .idle
  | .update agentId hookId _ _, .idle =>
    if l = .select "hook fetch" then
      match s.agentHook? hookId with
      | some existing => if existing.agentId = agentId then .read existing else .over
      | none => .over
    else .idle
  | .update agentId hookId _ req, .read existing =>
    if l = .select "hook count" then
      if i.fault "hook count" = none ∧
          (s.agentHooks.filter fun h => h.agentId = agentId ∧ h.id ≠ hookId ∧
            mysql.collationKey h.triggerPoint =
              mysql.collationKey (req.triggerPoint.getD existing.triggerPoint)).length < 5
      then .admitted (mysql.collationKey (req.triggerPoint.getD existing.triggerPoint))
      else .over
    else if l = .write "hook update" then .over
    else .read existing
  | _, .admitted key =>
    if l = .write "hook insert" ∨ l = .write "hook update" then .over else .admitted key
  | _, q => q

/-- At most an id is taken, or a new hook is stored at its spot. -/
def Inserts (mysql : Mysql) (p : Spot) (s s' : Store) : Prop :=
  (∃ n ≥ s.agentHooksAutoIncrement, s' = { s with agentHooksAutoIncrement := n }) ∨ ∃ h, spotOf mysql h = p ∧ h.id = s.agentHooksAutoIncrement ∧
    s' = { s with
      agentHooks := s.agentHooks ++ [h]
      agentHooksAutoIncrement := s.agentHooksAutoIncrement + 1 }

/-- Nothing happens, or the hook is written with a trigger point of this key. -/
def Moves (mysql : Mysql) (hookId : Int) (key : String) (s s' : Store) : Prop :=
  s' = s ∨ ∃ f : AgentHook → AgentHook,
    (∀ h, (f h).id = h.id ∧ (f h).agentId = h.agentId ∧
      mysql.collationKey (f h).triggerPoint = key) ∧
    s' = { s with agentHooks := s.agentHooks.map fun h => if h.id = hookId then f h else h }

/-- What a statement may do to the hooks. An insert needs a place, an update one
too unless it leaves the trigger point as it has read it. -/
def allows (mysql : Mysql) (r : HookRequest) (q : Placement) (l : Stmt) (_ : Input)
    (s s' : Store) : Prop :=
  if l = .write "hook insert" then
    ∃ agentId actorRole req key, r = .create agentId actorRole req ∧ q = .admitted key ∧
      Inserts mysql ⟨agentId, key⟩ s s'
  else if l = .write "hook update" then
    ∃ agentId hookId actorRole req, r = .update agentId hookId actorRole req ∧
      ((∃ key, q = .admitted key ∧ Moves mysql hookId key s s') ∨
        ∃ existing, q = .read existing ∧
          Moves mysql hookId (mysql.collationKey existing.triggerPoint) s s')
  else if l = .write "hook delete" then
    (∃ agentId hookId actorRole, r = .delete agentId hookId actorRole) ∧
      (s' = s ∨ ∃ keep, s' = { s with agentHooks := s.agentHooks.filter keep })
  else s' = s

end Placement

def placement (mysql : Mysql) (_ : Nat) (r : HookRequest) :
    Protocol Placement Stmt Input Store :=
  { init := .idle, next := Placement.next mysql r, allows := Placement.allows mysql r }

@[simp] theorem placement_next (mysql : Mysql) (n : Nat) (r : HookRequest) :
    (placement mysql n r).next = Placement.next mysql r := rfl

@[simp] theorem placement_allows (mysql : Mysql) (n : Nat) (r : HookRequest) :
    (placement mysql n r).allows = Placement.allows mysql r := rfl

/-! ## The services keep to the protocol -/

section Services

variable {mysql : Mysql} {r : HookRequest} {q : Placement} {α β : Type}
  {E : Placement → Except Failure α → Prop}

/-- The program leaves the phase as it is. -/
def Stays (mysql : Mysql) (r : HookRequest) (q : Placement) (m : Service α) : Prop :=
  Follows (placement mysql 0 r) (fun q' _ => q' = q) q m.run

theorem stays_pure (a : α) : Stays mysql r q (pure a) := .done rfl

theorem stays_fail (e : AppError) : Stays mysql r q (fail e : Service α) := .done rfl

theorem stays_bind {m : Service α} {f : α → Service β} (hm : Stays mysql r q m)
    (hf : ∀ a, Stays mysql r q (f a)) : Stays mysql r q (m >>= f) :=
  Follows.stay_bind hm (fun _ => rfl) hf

theorem stays_okOr (o : Option α) (e : AppError) : Stays mysql r q (okOr o e) := by
  cases o with
  | none => exact stays_fail e
  | some a => exact stays_pure a

theorem stays_failIf (c : Prop) [Decidable c] (e : AppError) :
    Stays mysql r q (failIf c e) := by
  unfold failIf
  split
  · exact stays_fail e
  · exact stays_pure ()

theorem stays_lift (x : Except AppError α) : Stays mysql r q (lift x) := by
  cases x with
  | error e => exact stays_fail e
  | ok a => exact stays_pure a

theorem stays_onSome (o : Option β) {f : β → Service Unit}
    (hf : ∀ b, Stays mysql r q (f b)) : Stays mysql r q (onSome o f) := by
  cases o with
  | none => exact stays_pure ()
  | some b => exact hf b

variable {l : Stmt}

theorem allows_read (hl : ∀ what, l ≠ .write what) (i : Input) (s : Store) :
    (placement mysql 0 r).allows q l i s s := by
  simp [Placement.allows, hl]

theorem next_other (hcount : l ≠ .select "hook count") (hfetch : l ≠ .select "hook fetch")
    (hl : ∀ what, l ≠ .write what) (i : Input) (s : Store) :
    (placement mysql 0 r).next q l i s = q := by
  rw [placement_next]
  unfold Placement.next
  split <;> simp [hcount, hfetch, hl]

variable {what : String}

theorem stays_query {read : Store → α} (hcount : what ≠ "hook count")
    (hfetch : what ≠ "hook fetch") : Stays mysql r q (query what read) := by
  have hwrite : ∀ w, Stmt.select what ≠ .write w := by simp
  refine follows_read_iff.mpr ⟨fun i s => allows_read hwrite i s, fun i s => ?_⟩
  exact next_other (by simpa using hcount) (by simpa using hfetch) hwrite i s

theorem stays_checkHookPermission (agentId actorRole : Int) :
    Stays mysql r q (checkHookPermission agentId actorRole) := by
  refine stays_bind (stays_query (by decide) (by decide)) fun row => ?_
  refine stays_bind (stays_okOr _ _) fun ident => ?_
  exact stays_bind (stays_failIf _ _) fun _ => stays_failIf _ _

theorem stays_validateHookAction (lower : String → String) (actionType : String)
    (params : Option Json) : Stays mysql r q (validateHookAction lower actionType params) := by
  refine stays_onSome _ fun p => ?_
  split
  · refine stays_onSome _ fun fid => ?_
    exact stays_bind (stays_query (by decide) (by decide)) fun _ => stays_failIf _ _
  · split
    · refine stays_onSome _ fun wid => ?_
      exact stays_bind (stays_query (by decide) (by decide)) fun _ => stays_failIf _ _
    · split
      · exact stays_lift _
      · exact stays_pure ()

theorem stays_validateNewAction (lower : String → String) (actionType : String) (params : Json) :
    Stays mysql r q (validateNewAction lower actionType params) := by
  unfold validateNewAction
  split
  · exact stays_validateHookAction lower _ _
  · split
    · exact stays_bind (stays_validateHookAction lower _ _) fun _ => stays_lift _
    · exact stays_fail _

theorem stays_checkLock (hookId : Int) (clientUpdatedAt : DateTime) :
    Stays mysql r q (checkLock hookId clientUpdatedAt) := by
  have hwrite : ∀ w, Stmt.lockCheck "agent_hooks" ≠ .write w := by simp
  refine follows_read_iff.mpr ⟨fun i s => allows_read hwrite i s, fun i s => ?_⟩
  exact next_other (by simp) (by simp) hwrite i s

variable {e : AppError}

theorem follows_failIf_bind {c : Prop} [Decidable c] {f : Unit → Service β}
    (hf : ¬ c → Follows (placement mysql 0 r) (fun _ _ => True) q (f ()).run) :
    Follows (placement mysql 0 r) (fun _ _ => True) q (failIf c e >>= f).run := by
  unfold failIf
  split
  · exact .done trivial
  · exact hf ‹_›

theorem follows_fetch {id : Int} (hcount : what ≠ "hook count") (hfetch : what ≠ "hook fetch") :
    Follows (placement mysql 0 r) (fun _ _ => True) q
      (do let row ← query what fun s => s.agentHook? id
          okOr row e : Service AgentHook).run :=
  Follows.stay_bind (stays_query hcount hfetch) (fun _ => trivial)
    fun row => (stays_okOr row e).mono fun _ _ _ => trivial

theorem follows_count {read : Store → Nat} (key : String)
    (hnext : ∀ i s, i.fault "hook count" = none → read s < 5 →
      Placement.next mysql r q (.select "hook count") i s = .admitted key) :
    Follows (placement mysql 0 r) (fun q' x => ∀ n, x = .ok n → ¬ n ≥ 5 → q' = .admitted key) q
      (query "hook count" read).run := by
  refine follows_read_iff.mpr ⟨fun i s => allows_read (by simp) i s, fun i s n hn hlt => ?_⟩
  unfold Input.check at hn
  cases hfault : i.fault "hook count" with
  | some e =>
    rw [hfault] at hn
    cases hn
  | none =>
    rw [hfault] at hn
    rw [← Except.ok.inj hn] at hlt
    exact hnext i s hfault (by omega)

theorem insertRow_inserts (agentId : Int) (req : CreateHookRequest) (i : Input) (s : Store) :
    Placement.Inserts mysql ⟨agentId, mysql.collationKey req.triggerPoint⟩ s
      (insertRow mysql agentId req i s).2 := by
  unfold insertRow
  dsimp only
  split
  · exact Or.inl ⟨_, Int.le_refl _, rfl⟩
  · exact Or.inl ⟨_, Int.le_refl _, rfl⟩
  · split
    · exact Or.inl ⟨_, Int.le_of_lt (Int.lt_succ _), rfl⟩
    · exact Or.inl ⟨_, Int.le_of_lt (Int.lt_succ _), rfl⟩
    · exact Or.inr ⟨_, rfl, rfl, rfl⟩

theorem follows_createHook (lower : String → String) (agentId actorRole : Int)
    (req : CreateHookRequest) :
    Follows (placement mysql 0 (.create agentId actorRole req)) (fun _ _ => True) .idle
      (createHook mysql lower agentId actorRole req).run := by
  refine Follows.stay_bind (stays_checkHookPermission agentId actorRole) (fun _ => trivial) ?_
  intro _
  refine (follows_count (mysql.collationKey req.triggerPoint) fun i s hfault hlt => ?_).bindE
    (fun _ _ _ => trivial) fun q count hcount => follows_failIf_bind fun hlt => ?_
  · simp only [Placement.next, hfault, true_and, if_true]
    exact if_pos hlt
  · obtain rfl := hcount count rfl hlt
    refine Follows.stay_bind (stays_validateNewAction lower _ _) (fun _ => trivial) fun _ => ?_
    refine Follows.bindE (E := fun _ _ => True) ?_ (fun _ _ _ => trivial)
      fun q id _ => follows_fetch (by decide) (by decide)
    refine follows_modify_iff.mpr ⟨fun i s => ?_, fun _ _ => trivial⟩
    rw [placement_allows, Placement.allows, if_pos rfl]
    exact ⟨agentId, actorRole, req, _, rfl, rfl, insertRow_inserts agentId req i s⟩

theorem updateRow_moves (mysql : Mysql) (hookId : Int) (existing : AgentHook)
    (req : UpdateHookRequest) (i : Input) (s : Store) :
    Placement.Moves mysql hookId
      (mysql.collationKey (req.triggerPoint.getD existing.triggerPoint)) s
      (updateRow mysql hookId existing req i s).2 := by
  unfold updateRow
  split
  · exact Or.inl rfl
  · exact Or.inl rfl
  · split
    · exact Or.inl rfl
    · refine Or.inr ⟨fun h => touch i.now h (merge mysql existing req h), fun h => ?_, rfl⟩
      unfold touch
      dsimp only
      split
      · rename_i hsame
        exact ⟨rfl, rfl, congrArg (fun h => mysql.collationKey h.triggerPoint) hsame.symm⟩
      · exact ⟨rfl, rfl, rfl⟩

/-- The limit check of an update: its hook stays where it was read, or it has a
place at the trigger point it goes to. -/
theorem follows_checkTriggerLimit (agentId hookId actorRole : Int) (existing : AgentHook)
    (req : UpdateHookRequest) :
    Follows (placement mysql 0 (.update agentId hookId actorRole req))
      (fun q x => x = .ok () →
        q = .admitted (mysql.collationKey (req.triggerPoint.getD existing.triggerPoint)) ∨
          (q = .read existing ∧
            req.triggerPoint.getD existing.triggerPoint = existing.triggerPoint))
      (.read existing) (checkTriggerLimit mysql agentId hookId existing req).run := by
  unfold checkTriggerLimit
  split
  · refine (follows_count
      (mysql.collationKey (req.triggerPoint.getD existing.triggerPoint))
      fun i s hfault hlt => ?_).bindE (fun _ _ _ => nofun) fun q count hcount => ?_
    · simp only [Placement.next, hfault, true_and, if_true]
      exact if_pos hlt
    · unfold failIf
      split
      · exact .done nofun
      · exact .done fun _ => Or.inl (hcount count rfl ‹_›)
  case isFalse hsame =>
    refine .done fun _ => Or.inr ⟨rfl, ?_⟩
    cases htp : req.triggerPoint with
    | none => rfl
    | some tp =>
      rw [htp] at hsame
      simpa using hsame

theorem follows_updateHook (lower : String → String) (agentId hookId actorRole : Int)
    (req : UpdateHookRequest) :
    Follows (placement mysql 0 (.update agentId hookId actorRole req)) (fun _ _ => True) .idle
      (updateHook mysql lower agentId hookId actorRole req).run := by
  refine Follows.stay_bind (stays_checkHookPermission agentId actorRole) (fun _ => trivial) ?_
  intro _
  refine Follows.bindE (E := fun q x => ∀ h, x = .ok (some h) → h.agentId = agentId →
    q = .read h) ?_ (fun _ _ _ => trivial) fun q row hrow => ?_
  · refine follows_read_iff.mpr ⟨fun i s => allows_read (by simp) i s, fun i s h hh hagent => ?_⟩
    unfold Input.check at hh
    cases hfault : i.fault "hook fetch" with
    | some e =>
      rw [hfault] at hh
      cases hh
    | none =>
      rw [hfault] at hh
      have hfind : s.agentHook? hookId = some h := Except.ok.inj hh
      rw [placement_next]
      simp [Placement.next, hfind, hagent]
  · cases row with
    | none => exact .done trivial
    | some existing =>
      refine follows_failIf_bind fun hagent => ?_
      obtain rfl := hrow existing rfl (by simpa using hagent)
      refine Follows.stay_bind (stays_checkLock hookId _) (fun _ => trivial) fun _ => ?_
      refine Follows.stay_bind
        (stays_onSome _ fun t => stays_validateHookAction lower t req.actionParams)
        (fun _ => trivial) fun _ => ?_
      refine (follows_checkTriggerLimit agentId hookId actorRole existing req).bindE
        (fun _ _ _ => trivial) fun q _ hq => ?_
      refine Follows.bindE (E := fun _ _ => True) ?_ (fun _ _ _ => trivial)
        fun q id _ => follows_fetch (by decide) (by decide)
      refine follows_modify_iff.mpr ⟨fun i s => ?_, fun _ _ => trivial⟩
      rw [placement_allows, Placement.allows, if_neg (by decide), if_pos rfl]
      refine ⟨agentId, hookId, actorRole, req, rfl, ?_⟩
      have hmoves := updateRow_moves mysql hookId existing req i s
      rcases hq rfl with rfl | ⟨rfl, hsame⟩
      · exact Or.inl ⟨_, rfl, hmoves⟩
      · rw [hsame] at hmoves
        exact Or.inr ⟨existing, rfl, hmoves⟩

theorem follows_deleteHook (agentId hookId actorRole : Int) :
    Follows (placement mysql 0 (.delete agentId hookId actorRole)) (fun _ _ => True) .idle
      (deleteHook agentId hookId actorRole).run := by
  refine Follows.stay_bind (stays_checkHookPermission agentId actorRole) (fun _ => trivial) ?_
  intro _
  refine follows_modify_iff.mpr ⟨fun i s => ?_, fun _ _ => trivial⟩
  rw [placement_allows, Placement.allows, if_neg (by decide), if_neg (by decide), if_pos rfl]
  refine ⟨⟨agentId, hookId, actorRole, rfl⟩, ?_⟩
  unfold deleteRow
  split
  · exact Or.inl rfl
  · split
    · exact Or.inr ⟨_, rfl⟩
    · exact Or.inl rfl

theorem follows_handle (lower : String → String) (n : Nat) (r : HookRequest) :
    Follows (placement mysql n r) (fun _ _ => True) .idle (handle mysql lower r).run := by
  cases r with
  | create agentId actorRole req =>
    exact (follows_createHook lower agentId actorRole req).bind fun _ x _ => by
      cases x <;> exact .done trivial
  | update agentId hookId actorRole req =>
    exact (follows_updateHook lower agentId hookId actorRole req).bind fun _ x _ => by
      cases x <;> exact .done trivial
  | delete agentId hookId actorRole =>
    exact (follows_deleteHook agentId hookId actorRole).bindE (fun _ _ _ => trivial)
      fun _ _ _ => .done trivial

end Services

/-! ## Runs -/

/-- The requests that have been started, and the store. -/
abbrev HookPool := Pool HookRequest Stmt Input Store (Except Failure (Option AgentHook))

abbrev HookThread := Thread HookRequest Stmt Input Store (Except Failure (Option AgentHook))

section Runs

variable (mysql : Mysql)

def placementOf (th : HookThread) : Placement := th.phase (placement mysql)

/-- The ids of the hooks stored at a spot. -/
def storedIds (s : Store) (p : Spot) : Finset Int :=
  ((storedAt mysql s p).map AgentHook.id).toFinset

/-- The hook a request is about to move to a spot. -/
def moverTo (p : Spot) (th : HookThread) : Option Int :=
  match th.req, placementOf mysql th with
  | .update agentId hookId _ _, .admitted key =>
    if th.inFlight = true ∧ p = ⟨agentId, key⟩ then some hookId else none
  | _, _ => none

/-- A request that is about to store a new hook at a spot. -/
def createsAt (p : Spot) (th : HookThread) : Bool :=
  match th.req, placementOf mysql th with
  | .create agentId _ _, .admitted key => th.inFlight && p = ⟨agentId, key⟩
  | _, _ => false

/-- The hooks that have a place at a spot: those stored there and those about to
be moved there. -/
def placed (c : HookPool) (p : Spot) : Finset Int :=
  storedIds mysql c.store p ∪ (c.threads.filterMap (moverTo mysql p)).toFinset

def taken (c : HookPool) (p : Spot) : Nat :=
  (placed mysql c p).card + c.threads.countP (createsAt mysql p)

/-- There is a place for what the request is about to write: one that is not
taken, or the one its hook has already. -/
def HasRoom (c : HookPool) (r : HookRequest) (key : String) : Prop :=
  match r with
  | .create agentId _ _ => taken mysql c ⟨agentId, key⟩ < 5
  | .update agentId hookId _ _ =>
    hookId ∈ placed mysql c ⟨agentId, key⟩ ∨ taken mysql c ⟨agentId, key⟩ < 5
  | .delete _ _ _ => True

/-- The hook of an update is where the request has read it. -/
def StillThere (s : Store) (r : HookRequest) (existing : AgentHook) : Prop :=
  match r with
  | .update _ hookId _ _ => ∀ h ∈ s.agentHook? hookId,
    mysql.collationKey h.triggerPoint = mysql.collationKey existing.triggerPoint
  | _ => True

/-- A statement that does not overfill a spot: a count that lets a request through
finds room for it, and an update that leaves the trigger point alone finds its
hook where it has read it. -/
def RoomyStmt (c : HookPool) (th : HookThread) (i : Input) (l : Stmt) : Prop :=
  (l = .select "hook count" →
    ∀ key ∈ (Placement.next mysql th.req (placementOf mysql th) l i c.store).place,
      HasRoom mysql c th.req key) ∧
  (l = .write "hook update" → ∀ existing ∈ (placementOf mysql th).existing,
    StillThere mysql c.store th.req existing)

/-- Every statement that is executed is roomy. -/
def Roomy (c : HookPool) : Act HookRequest Input Empty → Prop
  | .move j i => ∀ th ∈ c.threads[j]?, th.crashed = false → ∀ l ∈ th.upcoming,
    RoomyStmt mysql c th i l
  | .start _ | .crash _ | .outside _ => True

instance (c : HookPool) (r : HookRequest) (key : String) : Decidable (HasRoom mysql c r key) :=
  match r with
  | .create agentId _ _ => inferInstanceAs (Decidable (taken mysql c ⟨agentId, key⟩ < 5))
  | .update agentId hookId _ _ => inferInstanceAs (Decidable
      (hookId ∈ placed mysql c ⟨agentId, key⟩ ∨ taken mysql c ⟨agentId, key⟩ < 5))
  | .delete _ _ _ => isTrue trivial

instance (s : Store) (r : HookRequest) (existing : AgentHook) :
    Decidable (StillThere mysql s r existing) :=
  match r with
  | .update _ hookId _ _ => inferInstanceAs (Decidable (∀ h ∈ s.agentHook? hookId,
      mysql.collationKey h.triggerPoint = mysql.collationKey existing.triggerPoint))
  | .create _ _ _ | .delete _ _ _ => isTrue trivial

instance (c : HookPool) (th : HookThread) (i : Input) (l : Stmt) :
    Decidable (RoomyStmt mysql c th i l) :=
  inferInstanceAs (Decidable ((l = .select "hook count" →
    ∀ key ∈ (Placement.next mysql th.req (placementOf mysql th) l i c.store).place,
      HasRoom mysql c th.req key) ∧
    (l = .write "hook update" → ∀ existing ∈ (placementOf mysql th).existing,
      StillThere mysql c.store th.req existing)))

instance (c : HookPool) : DecidablePred (Roomy mysql c)
  | .move j i => inferInstanceAs (Decidable (∀ th ∈ c.threads[j]?, th.crashed = false →
      ∀ l ∈ th.upcoming, RoomyStmt mysql c th i l))
  | .start _ | .crash _ | .outside _ => isTrue trivial

/-- What every roomy run keeps: the primary key, that no other agent has the hook
an update has read, and room at every spot. -/
structure Places (c : HookPool) : Prop where
  primaryKey : (c.store.agentHooks.map AgentHook.id).Nodup
  below : ∀ h ∈ c.store.agentHooks, h.id < c.store.agentHooksAutoIncrement
  owners : ∀ th ∈ c.threads, ∀ agentId hookId actorRole req,
    th.req = .update agentId hookId actorRole req → (placementOf mysql th).active = true →
      hookId < c.store.agentHooksAutoIncrement ∧
        ∀ h ∈ c.store.agentHooks, h.id = hookId → h.agentId = agentId
  room : ∀ p, taken mysql c p ≤ 5

variable {mysql} {c : HookPool} {j : Nat} {th th' : HookThread} {p : Spot}

variable {actorRole agentId hookId : Int} {req : UpdateHookRequest}

theorem mem_placed_of_mover {key : String} (hmem : th ∈ c.threads)
    (hreq : th.req = .update agentId hookId actorRole req)
    (hphase : placementOf mysql th = .admitted key) (hin : th.inFlight = true) :
    hookId ∈ placed mysql c ⟨agentId, key⟩ := by
  refine Finset.mem_union_right _ (List.mem_toFinset.mpr (List.mem_filterMap.mpr ⟨th, hmem, ?_⟩))
  simp [moverTo, hreq, hphase, hin]

variable {s : Store}

theorem placed_set_subset {extra : Finset Int}
    (hstored : storedIds mysql s p ⊆ placed mysql c p ∪ extra)
    (hmover : ∀ id ∈ moverTo mysql p th', id ∈ placed mysql c p ∪ extra) :
    placed mysql { threads := c.threads.set j th', store := s } p ⊆ placed mysql c p ∪ extra := by
  refine Finset.union_subset hstored fun id hid => ?_
  obtain ⟨th₁, hmem, hid₁⟩ := List.mem_filterMap.mp (List.mem_toFinset.mp hid)
  rcases List.mem_or_eq_of_mem_set hmem with hmem | rfl
  · refine Finset.mem_union_left _ (Finset.mem_union_right _ ?_)
    exact List.mem_toFinset.mpr (List.mem_filterMap.mpr ⟨th₁, hmem, hid₁⟩)
  · exact hmover id hid₁

theorem taken_set_le_add (extra : Finset Int) (n : Nat) (th' : HookThread)
    (hth : c.threads[j]? = some th) (hstored : storedIds mysql s p ⊆ placed mysql c p ∪ extra)
    (hmover : ∀ id ∈ moverTo mysql p th', id ∈ placed mysql c p ∪ extra)
    (hcreates : extra.card + (createsAt mysql p th').toNat ≤ (createsAt mysql p th).toNat + n) :
    taken mysql { threads := c.threads.set j th', store := s } p ≤ taken mysql c p + n := by
  have hcard := Finset.card_le_card (placed_set_subset (j := j) hstored hmover)
  have hunion := Finset.card_union_le (placed mysql c p) extra
  have hcount := countP_replace (createsAt mysql p) hth th'
  show (placed mysql _ p).card + (c.threads.set j th').countP (createsAt mysql p) ≤
    (placed mysql c p).card + c.threads.countP (createsAt mysql p) + n
  omega

theorem taken_set_le (hth : c.threads[j]? = some th)
    (hstored : storedIds mysql s p ⊆ placed mysql c p)
    (hmover : ∀ id ∈ moverTo mysql p th', id ∈ placed mysql c p)
    (hcreates : createsAt mysql p th' = true → createsAt mysql p th = true) :
    taken mysql { threads := c.threads.set j th', store := s } p ≤ taken mysql c p := by
  refine taken_set_le_add ∅ 0 th' hth ?_ ?_ ?_
  · rwa [Finset.union_empty]
  · rwa [Finset.union_empty]
  · rw [Finset.card_empty]
    have hmono := Bool.toNat_le_toNat hcreates
    omega

theorem storedIds_subset : storedIds mysql c.store p ⊆ placed mysql c p :=
  Finset.subset_union_left

/-- The request has no place and is going to write none. -/
structure Bystander (mysql : Mysql) (th : HookThread) : Prop where
  mover : ∀ p, moverTo mysql p th = none
  creates : ∀ p, createsAt mysql p th = false
  inactive : ∀ agentId hookId actorRole req, th.req = .update agentId hookId actorRole req →
    (placementOf mysql th).active = false

theorem moverTo_eq_none (hplace : (placementOf mysql th).place = none) :
    moverTo mysql p th = none := by
  unfold moverTo
  split
  · rename_i hadmitted
    rw [hadmitted] at hplace
    cases hplace
  · rfl

theorem createsAt_eq_false (hplace : (placementOf mysql th).place = none) :
    createsAt mysql p th = false := by
  unfold createsAt
  split
  · rename_i hadmitted
    rw [hadmitted] at hplace
    cases hplace
  · rfl

theorem bystander_of_over (h : placementOf mysql th = .over) : Bystander mysql th where
  mover _ := moverTo_eq_none (by rw [h]; rfl)
  creates _ := createsAt_eq_false (by rw [h]; rfl)
  inactive _ _ _ _ _ := by rw [h]; rfl

theorem bystander_of_delete (h : th.req = .delete agentId hookId actorRole) :
    Bystander mysql th where
  mover p := by simp [moverTo, h]
  creates p := by simp [createsAt, h]
  inactive _ _ _ _ hreq := by
    rw [h] at hreq
    cases hreq

/-! ### Statements that only read -/

/-- What a statement does to the phase that is neither an insert nor an update:
nothing, an update reads its row, a count gives a place, or the request is over. -/
theorem next_read_cases (mysql : Mysql) (r : HookRequest) (q : Placement) {l : Stmt}
    (hinsert : l ≠ .write "hook insert") (hupdate : l ≠ .write "hook update") (i : Input)
    (s : Store) :
    Placement.next mysql r q l i s = q ∨ Placement.next mysql r q l i s = .over ∨
      (∃ agentId hookId actorRole req existing, r = .update agentId hookId actorRole req ∧
        s.agentHook? hookId = some existing ∧ existing.agentId = agentId ∧
        Placement.next mysql r q l i s = .read existing) ∨
      ∃ key, l = .select "hook count" ∧ Placement.next mysql r q l i s = .admitted key ∧
        ((∃ agentId actorRole req, r = .create agentId actorRole req) ∨ q.active = true) := by
  cases r with
  | create agentId actorRole req =>
    cases q with
    | idle =>
      unfold Placement.next
      dsimp only
      split
      · split
        · exact Or.inr (Or.inr (Or.inr ⟨_, ‹_›, rfl, Or.inl ⟨_, _, _, rfl⟩⟩))
        · exact Or.inr (Or.inl rfl)
      · exact Or.inl rfl
    | admitted key => exact Or.inl (by simp [Placement.next, hinsert, hupdate])
    | read existing => exact Or.inl rfl
    | «over» => exact Or.inl rfl
  | update agentId hookId actorRole req =>
    cases q with
    | idle =>
      unfold Placement.next
      dsimp only
      split
      · cases hfind : s.agentHook? hookId with
        | none => exact Or.inr (Or.inl rfl)
        | some existing =>
          dsimp only
          split
          · exact Or.inr (Or.inr (Or.inl ⟨_, _, _, _, existing, rfl, hfind, ‹_›, rfl⟩))
          · exact Or.inr (Or.inl rfl)
      · exact Or.inl rfl
    | read existing =>
      unfold Placement.next
      dsimp only
      split
      · split
        · exact Or.inr (Or.inr (Or.inr ⟨_, ‹_›, rfl, Or.inr rfl⟩))
        · exact Or.inr (Or.inl rfl)
      · exact Or.inl rfl
    | admitted key => exact Or.inl (by simp [Placement.next, hinsert, hupdate])
    | «over» => exact Or.inl rfl
  | delete agentId hookId actorRole =>
    cases q with
    | admitted key => exact Or.inl (by simp [Placement.next, hinsert, hupdate])
    | idle => exact Or.inl rfl
    | read existing => exact Or.inl rfl
    | «over» => exact Or.inl rfl

theorem eq_of_id_eq {hooks : List AgentHook} (hnodup : (hooks.map AgentHook.id).Nodup)
    {h h' : AgentHook} (hmem : h ∈ hooks) (hmem' : h' ∈ hooks) (hid : h.id = h'.id) : h = h' :=
  List.inj_on_of_nodup_map hnodup hmem hmem' hid

/-- What an update knows of its hook stays true while rows keep their agents and
new rows get new ids. -/
theorem owners_mono (hP : Places mysql c)
    (hauto : c.store.agentHooksAutoIncrement ≤ s.agentHooksAutoIncrement)
    (hrows : ∀ h ∈ s.agentHooks, h.id < c.store.agentHooksAutoIncrement →
      ∃ h₀ ∈ c.store.agentHooks, h₀.id = h.id ∧ h₀.agentId = h.agentId) {th₁ : HookThread}
    (hmem : th₁ ∈ c.threads) (hreq : th₁.req = .update agentId hookId actorRole req)
    (hactive : (placementOf mysql th₁).active = true) :
    hookId < s.agentHooksAutoIncrement ∧ ∀ h ∈ s.agentHooks, h.id = hookId → h.agentId = agentId := by
  obtain ⟨hlt, howner⟩ := hP.owners th₁ hmem agentId hookId actorRole req hreq hactive
  refine ⟨hlt.trans_le hauto, fun h hh hid => ?_⟩
  obtain ⟨h₀, hh₀, hid₀, hagent₀⟩ := hrows h hh (hid ▸ hlt)
  rw [← hagent₀]
  exact howner h₀ hh₀ (hid₀.trans hid)

namespace Places

variable {key : String}

theorem taken_count (hP : Places mysql c) (hth : c.threads[j]? = some th)
    (hreq : th'.req = th.req) (hphase : placementOf mysql th' = .admitted key)
    (hroom : HasRoom mysql c th.req key) (p : Spot) :
    taken mysql { c with threads := c.threads.set j th' } p ≤ 5 := by
  have hstored : ∀ extra, storedIds mysql c.store p ⊆ placed mysql c p ∪ extra :=
    fun extra => storedIds_subset.trans Finset.subset_union_left
  cases hr : th.req with
  | create agentId actorRole req =>
    rw [hr] at hroom
    have hmover : moverTo mysql p th' = none := by simp [moverTo, hreq, hr]
    by_cases hp : p = ⟨agentId, key⟩
    · subst hp
      have hle := taken_set_le_add ∅ 1 th' hth (hstored ∅)
        (by simp [hmover]) (by simpa using (Bool.toNat_le _).trans (Nat.le_add_left 1 _))
      have hlt : taken mysql c ⟨agentId, key⟩ < 5 := hroom
      omega
    · refine (taken_set_le hth storedIds_subset (by simp [hmover]) fun hcreates => ?_).trans
        (hP.room p)
      simp [createsAt, hreq, hr, hphase, hp] at hcreates
  | update agentId hookId actorRole req =>
    rw [hr] at hroom
    have hcreates : createsAt mysql p th' = false := by simp [createsAt, hreq, hr]
    by_cases hp : p = ⟨agentId, key⟩
    · subst hp
      have hmover : ∀ id ∈ moverTo mysql ⟨agentId, key⟩ th', id = hookId := by
        intro id hid
        simp only [moverTo, hreq, hr, hphase] at hid
        split at hid
        · exact (Option.some.inj hid).symm
        · cases hid
      rcases hroom with hplaced | hlt
      · refine (taken_set_le hth storedIds_subset (fun id hid => ?_) ?_).trans (hP.room _)
        · rw [hmover id hid]
          exact hplaced
        · simp [hcreates]
      · have hle := taken_set_le_add {hookId} 1 th' hth (hstored _)
          (fun id hid => by simp [hmover id hid]) (by simp [hcreates])
        omega
    · refine (taken_set_le hth storedIds_subset (fun id hid => ?_) ?_).trans (hP.room p)
      · simp [moverTo, hreq, hr, hphase, hp] at hid
      · simp [hcreates]
  | delete agentId hookId actorRole =>
    refine (taken_set_le hth storedIds_subset ?_ ?_).trans (hP.room p)
    · simp [moverTo, hreq, hr]
    · simp [createsAt, hreq, hr]

variable {i : Input} {l : Stmt}

theorem read (hP : Places mysql c) (hth : c.threads[j]? = some th) (hin : th.inFlight = true)
    (hinsert : l ≠ .write "hook insert") (hupdate : l ≠ .write "hook update")
    (hroomy : RoomyStmt mysql c th i l) (hreq : th'.req = th.req)
    (hphase : placementOf mysql th' =
      Placement.next mysql th.req (placementOf mysql th) l i c.store) :
    Places mysql { c with threads := c.threads.set j th' } := by
  have hmem : th ∈ c.threads := List.mem_of_getElem? hth
  -- what an active update knows of its hook still holds
  have hkeep : ∀ agentId hookId actorRole req, th'.req = .update agentId hookId actorRole req →
      (placementOf mysql th).active = true →
      hookId < c.store.agentHooksAutoIncrement ∧
        ∀ h ∈ c.store.agentHooks, h.id = hookId → h.agentId = agentId := by
    intro agentId hookId actorRole req hreq' hactive
    exact hP.owners th hmem agentId hookId actorRole req (hreq ▸ hreq') hactive
  have hassemble : (∀ agentId hookId actorRole req,
      th'.req = .update agentId hookId actorRole req → (placementOf mysql th').active = true →
      hookId < c.store.agentHooksAutoIncrement ∧
        ∀ h ∈ c.store.agentHooks, h.id = hookId → h.agentId = agentId) →
      (∀ p, taken mysql { c with threads := c.threads.set j th' } p ≤ 5) →
      Places mysql { c with threads := c.threads.set j th' } :=
    fun howner hroom => ⟨hP.primaryKey, hP.below, forall_mem_set hP.owners howner j, hroom⟩
  rcases next_read_cases mysql th.req (placementOf mysql th) hinsert hupdate i c.store with
    hnext | hnext | ⟨agentId, hookId, actorRole, req, existing, hr, hfind, hagent, hnext⟩ |
    ⟨key, rfl, hnext, hkind⟩
  · -- the phase stays
    rw [hnext] at hphase
    refine hassemble (fun agentId hookId actorRole req hreq' hactive => ?_) fun p => ?_
    · exact hkeep agentId hookId actorRole req hreq' (hphase ▸ hactive)
    · refine (taken_set_le hth storedIds_subset (fun id hid => ?_) fun hcreates => ?_).trans
        (hP.room p)
      · refine Finset.mem_union_right _ (List.mem_toFinset.mpr ?_)
        refine List.mem_filterMap.mpr ⟨th, hmem, ?_⟩
        unfold moverTo at hid ⊢
        rw [hphase, hreq] at hid
        split at hid
        · split at hid
          case isTrue hp =>
            rw [if_pos ⟨hin, hp.2⟩]
            exact hid
          case isFalse => cases hid
        · cases hid
      · unfold createsAt at hcreates ⊢
        rw [hphase, hreq] at hcreates
        split at hcreates
        · rw [Bool.and_eq_true] at hcreates ⊢
          exact ⟨hin, hcreates.2⟩
        · cases hcreates
  · -- the request is over
    have hplace : (placementOf mysql th').place = none := by rw [hphase, hnext]; rfl
    refine hassemble (fun _ _ _ _ _ hactive => ?_) fun p => ?_
    · rw [hphase, hnext] at hactive
      cases hactive
    · refine (taken_set_le hth storedIds_subset ?_ ?_).trans (hP.room p)
      · simp [moverTo_eq_none hplace]
      · simp [createsAt_eq_false hplace]
  · -- an update has found its hook
    have hplace : (placementOf mysql th').place = none := by rw [hphase, hnext]; rfl
    refine hassemble (fun agentId' hookId' actorRole' req' hreq' _ => ?_) fun p => ?_
    · rw [hreq, hr] at hreq'
      cases hreq'
      have hexisting := List.mem_of_find?_eq_some hfind
      have hid : existing.id = hookId := by simpa using List.find?_some hfind
      refine ⟨hid ▸ hP.below existing hexisting, fun h hh hhid => ?_⟩
      rw [eq_of_id_eq hP.primaryKey hh hexisting (hhid.trans hid.symm)]
      exact hagent
    · refine (taken_set_le hth storedIds_subset ?_ ?_).trans (hP.room p)
      · simp [moverTo_eq_none hplace]
      · simp [createsAt_eq_false hplace]
  · -- the count of the hooks found room
    refine hassemble (fun agentId hookId actorRole req hreq' _ => ?_) fun p => ?_
    · refine hkeep agentId hookId actorRole req hreq' (hkind.resolve_left ?_)
      rintro ⟨_, _, _, hcreate⟩
      rw [hreq, hcreate] at hreq'
      cases hreq'
    · rw [hnext] at hphase
      have hroom : HasRoom mysql c th.req key := hroomy.1 rfl key (by rw [hnext]; rfl)
      exact hP.taken_count hth hreq hphase hroom p

variable {s : Store}

/-- A write that changes neither the set of the hooks at a spot nor their agents,
by a request that is over after it. -/
theorem write (hP : Places mysql c) (hth : c.threads[j]? = some th)
    (hbystander : Bystander mysql th')
    (hauto : c.store.agentHooksAutoIncrement ≤ s.agentHooksAutoIncrement)
    (hnodup : (s.agentHooks.map AgentHook.id).Nodup)
    (hrows : ∀ h ∈ s.agentHooks, ∃ h₀ ∈ c.store.agentHooks, h₀.id = h.id ∧ h₀.agentId = h.agentId)
    (hstored : ∀ p, storedIds mysql s p ⊆ placed mysql c p) :
    Places mysql { threads := c.threads.set j th', store := s } := by
  refine ⟨hnodup, ?_, ?_, fun p => ?_⟩
  · intro h hh
    obtain ⟨h₀, hh₀, hid, -⟩ := hrows h hh
    show h.id < s.agentHooksAutoIncrement
    rw [← hid]
    exact (hP.below h₀ hh₀).trans_le hauto
  · refine forall_mem_set (fun th₁ hmem agentId hookId actorRole req hreq hactive => ?_) ?_ j
    · exact owners_mono hP hauto (fun h hh _ => hrows h hh) hmem hreq hactive
    · intro agentId hookId actorRole req hreq hactive
      rw [hbystander.inactive agentId hookId actorRole req hreq] at hactive
      cases hactive
  · refine (taken_set_le hth (hstored p) ?_ ?_).trans (hP.room p)
    · simp [hbystander.mover]
    · simp [hbystander.creates]

theorem mem_storedIds {id : Int} :
    id ∈ storedIds mysql s p ↔ ∃ h ∈ s.agentHooks, spotOf mysql h = p ∧ h.id = id := by
  simp [storedIds, storedAt, and_assoc]

variable {actorRole agentId : Int}

theorem insert (hP : Places mysql c) (hth : c.threads[j]? = some th) (hin : th.inFlight = true)
    {req : CreateHookRequest} (hreq : th.req = .create agentId actorRole req)
    (hq : placementOf mysql th = .admitted key) (hq' : placementOf mysql th' = .over)
    (hinserts : Placement.Inserts mysql ⟨agentId, key⟩ c.store s) :
    Places mysql { threads := c.threads.set j th', store := s } := by
  have hbystander : Bystander mysql th' := bystander_of_over hq'
  rcases hinserts with ⟨n, hn, rfl⟩ | ⟨h, hspot, hid, rfl⟩
  · exact hP.write hth hbystander hn hP.primaryKey (fun h hh => ⟨h, hh, rfl, rfl⟩)
      fun p => storedIds_subset
  · refine ⟨?_, ?_, ?_, fun p => ?_⟩
    · show ((c.store.agentHooks ++ [h]).map AgentHook.id).Nodup
      rw [List.map_append, List.nodup_append]
      refine ⟨hP.primaryKey, List.nodup_singleton _, ?_⟩
      intro id₁ hid₁ id₂ hid₂
      obtain ⟨h₁, hh₁, rfl⟩ := List.mem_map.mp hid₁
      rw [List.mem_singleton.mp hid₂, hid]
      exact (hP.below h₁ hh₁).ne
    · intro h₁ hh₁
      show h₁.id < c.store.agentHooksAutoIncrement + 1
      rcases List.mem_append.mp hh₁ with hh₁ | hh₁
      · exact (hP.below h₁ hh₁).trans (Int.lt_succ _)
      · rw [List.mem_singleton.mp hh₁, hid]
        exact Int.lt_succ _
    · refine forall_mem_set (fun th₁ hmem agentId hookId actorRole req hreq hactive => ?_) ?_ j
      · refine owners_mono hP (Int.le_of_lt (Int.lt_succ _)) (fun h₁ hh₁ hlt => ?_) hmem hreq hactive
        rcases List.mem_append.mp hh₁ with hh₁ | hh₁
        · exact ⟨h₁, hh₁, rfl, rfl⟩
        · rw [List.mem_singleton.mp hh₁, hid] at hlt
          exact absurd hlt (Int.lt_irrefl _)
      · intro agentId hookId actorRole req hreq hactive
        rw [hbystander.inactive agentId hookId actorRole req hreq] at hactive
        cases hactive
    · have hstored : ∀ id ∈ storedIds mysql
          { c.store with
            agentHooks := c.store.agentHooks ++ [h]
            agentHooksAutoIncrement := c.store.agentHooksAutoIncrement + 1 } p,
          id ∈ storedIds mysql c.store p ∨ (p = ⟨agentId, key⟩ ∧ id = h.id) := by
        intro id hmem
        obtain ⟨h₁, hh₁, hspot₁, rfl⟩ := mem_storedIds.mp hmem
        rcases List.mem_append.mp hh₁ with hh₁ | hh₁
        · exact Or.inl (mem_storedIds.mpr ⟨h₁, hh₁, hspot₁, rfl⟩)
        · rw [List.mem_singleton.mp hh₁] at hspot₁ ⊢
          exact Or.inr ⟨hspot₁.symm.trans hspot, rfl⟩
      by_cases hp : p = ⟨agentId, key⟩
      · refine (taken_set_le_add {h.id} 0 th' hth (fun id hmem => ?_) ?_ ?_).trans
          (hP.room p)
        · rcases hstored id hmem with hold | ⟨-, rfl⟩
          · exact Finset.mem_union_left _ (storedIds_subset hold)
          · exact Finset.mem_union_right _ (Finset.mem_singleton_self _)
        · simp [hbystander.mover]
        · have hcreates : createsAt mysql p th = true := by
            simp [createsAt, hreq, hq, hin, hp]
          simp [hbystander.creates, hcreates]
      · refine (taken_set_le hth (fun id hmem => ?_) ?_ ?_).trans (hP.room p)
        · rcases hstored id hmem with hold | ⟨heq, -⟩
          · exact storedIds_subset hold
          · exact absurd heq hp
        · simp [hbystander.mover]
        · simp [hbystander.creates]

theorem update (hP : Places mysql c) (hth : c.threads[j]? = some th) {hookId : Int}
    {req : UpdateHookRequest} (hreq : th.req = .update agentId hookId actorRole req)
    (hactive : (placementOf mysql th).active = true) (hq' : placementOf mysql th' = .over)
    (hplaced : ∀ h ∈ c.store.agentHooks, h.id = hookId →
      hookId ∈ placed mysql c ⟨agentId, key⟩)
    (hmoves : Placement.Moves mysql hookId key c.store s) :
    Places mysql { threads := c.threads.set j th', store := s } := by
  have hbystander : Bystander mysql th' := bystander_of_over hq'
  rcases hmoves with rfl | ⟨f, hf, rfl⟩
  · exact hP.write hth hbystander le_rfl hP.primaryKey (fun h hh => ⟨h, hh, rfl, rfl⟩)
      fun p => storedIds_subset
  · have hsame : ∀ h, (if h.id = hookId then f h else h).id = h.id ∧
        (if h.id = hookId then f h else h).agentId = h.agentId := by
      intro h
      split
      · exact ⟨(hf h).1, (hf h).2.1⟩
      · exact ⟨rfl, rfl⟩
    refine hP.write hth hbystander le_rfl ?_ ?_ fun p id hid => ?_
    · have hids : (c.store.agentHooks.map fun h => if h.id = hookId then f h else h).map
          AgentHook.id = c.store.agentHooks.map AgentHook.id := by
        rw [List.map_map]
        exact List.map_congr_left fun h _ => (hsame h).1
      rw [hids]
      exact hP.primaryKey
    · intro h hh
      obtain ⟨h₀, hh₀, rfl⟩ := List.mem_map.mp hh
      exact ⟨h₀, hh₀, (hsame h₀).1.symm, (hsame h₀).2.symm⟩
    · obtain ⟨h, hh, hspot, rfl⟩ := mem_storedIds.mp hid
      obtain ⟨h₀, hh₀, rfl⟩ := List.mem_map.mp hh
      by_cases hid₀ : h₀.id = hookId
      · have howner := (hP.owners th (List.mem_of_getElem? hth) agentId hookId actorRole req hreq
          hactive).2 h₀ hh₀ hid₀
        rw [(hsame h₀).1, hid₀]
        rw [if_pos hid₀] at hspot
        have hp : p = ⟨agentId, key⟩ := by
          rw [← hspot, spotOf, (hf h₀).2.1, (hf h₀).2.2, howner]
        rw [hp]
        exact hplaced h₀ hh₀ hid₀
      · rw [if_neg hid₀] at hspot ⊢
        exact storedIds_subset (mem_storedIds.mpr ⟨h₀, hh₀, hspot, rfl⟩)

theorem delete (hP : Places mysql c) (hth : c.threads[j]? = some th)
    (hbystander : Bystander mysql th') (hdelete : s = c.store ∨ ∃ keep, s = { c.store with
      agentHooks := c.store.agentHooks.filter keep }) :
    Places mysql { threads := c.threads.set j th', store := s } := by
  rcases hdelete with rfl | ⟨keep, rfl⟩
  · exact hP.write hth hbystander le_rfl hP.primaryKey (fun h hh => ⟨h, hh, rfl, rfl⟩)
      fun p => storedIds_subset
  · refine hP.write hth hbystander le_rfl ?_ ?_ fun p id hid => ?_
    · exact hP.primaryKey.sublist (List.filter_sublist.map _)
    · intro h hh
      exact ⟨h, List.mem_of_mem_filter hh, rfl, rfl⟩
    · obtain ⟨h, hh, hspot, rfl⟩ := mem_storedIds.mp hid
      exact storedIds_subset (mem_storedIds.mpr ⟨h, List.mem_of_mem_filter hh, hspot, rfl⟩)

theorem move (hP : Places mysql c) (hth : c.threads[j]? = some th) (hin : th.inFlight = true)
    (hroomy : RoomyStmt mysql c th i l) (hreq : th'.req = th.req)
    (hphase : placementOf mysql th' =
      Placement.next mysql th.req (placementOf mysql th) l i c.store)
    (hallows : Placement.allows mysql th.req (placementOf mysql th) l i c.store s) :
    Places mysql { threads := c.threads.set j th', store := s } := by
  unfold Placement.allows at hallows
  split at hallows
  case isTrue hl =>
    obtain ⟨agentId, actorRole, req, key, hr, hq, hinserts⟩ := hallows
    refine hP.insert hth hin hr hq ?_ hinserts
    rw [hphase, hr, hq, hl]
    simp [Placement.next]
  case isFalse hinsert =>
    split at hallows
    case isTrue hl =>
      subst hl
      obtain ⟨agentId, hookId, actorRole, req, hr, hcase⟩ := hallows
      rcases hcase with ⟨key, hq, hmoves⟩ | ⟨existing, hq, hmoves⟩
      · refine hP.update hth hr ?_ ?_ (fun h _ _ => ?_) hmoves
        · rw [hq]
          rfl
        · rw [hphase, hr, hq]
          simp [Placement.next]
        · exact mem_placed_of_mover (List.mem_of_getElem? hth) hr hq hin
      · refine hP.update hth hr ?_ ?_ (fun h hh hid => ?_) hmoves
        · rw [hq]
          rfl
        · rw [hphase, hr, hq]
          simp [Placement.next]
        · -- the hook is where the request has read it
          have hstill := hroomy.2 rfl existing (by rw [hq]; rfl)
          rw [hr] at hstill
          have hfind : c.store.agentHook? hookId = some h := by
            cases hfind : c.store.agentHook? hookId with
            | none => exact absurd (by simpa using hid) (List.find?_eq_none.mp hfind h hh)
            | some h' =>
              have hid' : h'.id = hookId := by simpa using List.find?_some hfind
              rw [eq_of_id_eq hP.primaryKey hh (List.mem_of_find?_eq_some hfind)
                (hid.trans hid'.symm)]
          have howner := (hP.owners th (List.mem_of_getElem? hth) agentId hookId actorRole req hr
            (by rw [hq]; rfl)).2 h hh hid
          refine storedIds_subset (mem_storedIds.mpr ⟨h, hh, ?_, hid⟩)
          rw [spotOf, howner, hstill h hfind]
    case isFalse hupdate =>
      split at hallows
      case isTrue hl =>
        obtain ⟨⟨agentId, hookId, actorRole, hr⟩, hdelete⟩ := hallows
        exact hP.delete hth (bystander_of_delete (hreq.trans hr)) hdelete
      case isFalse hdelete =>
        subst hallows
        exact hP.read hth hin hinsert hupdate hroomy hreq hphase

theorem crash (hP : Places mysql c) (hth : c.threads[j]? = some th) :
    Places mysql { c with threads := c.threads.set j { th with crashed := true } } := by
  refine ⟨hP.primaryKey, hP.below, ?_, fun p => ?_⟩
  · refine forall_mem_set (y := { th with crashed := true }) hP.owners ?_ j
    exact hP.owners th (List.mem_of_getElem? hth)
  · refine (taken_set_le hth storedIds_subset (fun id hid => ?_) fun hcreates => ?_).trans
      (hP.room p)
    · unfold moverTo at hid
      split at hid
      · simp [Thread.inFlight] at hid
      · cases hid
    · unfold createsAt at hcreates
      split at hcreates
      · simp [Thread.inFlight] at hcreates
      · cases hcreates

theorem start (hP : Places mysql c) (hidle : placementOf mysql th = .idle) :
    Places mysql { c with threads := c.threads ++ [th] } := by
  have hplace : (placementOf mysql th).place = none := by rw [hidle]; rfl
  refine ⟨hP.primaryKey, hP.below, fun th₁ hmem => ?_, fun p => ?_⟩
  · rcases List.mem_append.mp hmem with hmem | hmem
    · exact hP.owners th₁ hmem
    · rw [List.mem_singleton.mp hmem, hidle]
      intro _ _ _ _ _ hactive
      cases hactive
  · have hsame : taken mysql { c with threads := c.threads ++ [th] } p = taken mysql c p := by
      simp [taken, placed, List.filterMap_append, moverTo_eq_none hplace,
        createsAt_eq_false hplace]
    rw [hsame]
    exact hP.room p

end Places

/-- **One step.** A roomy step keeps room at every spot. -/
theorem places_step {lower : String → String} {a : Act HookRequest Input Empty}
    (hobey : Obeys (placement mysql) (fun _ _ _ _ => True) c) (hP : Places mysql c)
    (hroomy : Roomy mysql c a) : Places mysql ((hookRequests mysql lower).step c a) := by
  rcases step_cases (hookRequests mysql lower) hobey a with h | ⟨r, rfl, h⟩ |
    ⟨j, i, th, l, w, n, rfl, hth, hlive, hprog, -, hallows, h⟩ | ⟨j, th, rfl, hth, h⟩ | ⟨e, -⟩
  · rw [h]
    exact hP
  · rw [h]
    exact hP.start rfl
  · rw [h]
    refine hP.move hth ?_ (hroomy th hth hlive l ?_) ?_ ?_ hallows
    · simp [Thread.inFlight, hlive, hprog]
    · simp [Thread.upcoming, hprog]
    · rfl
    · exact phase_advance (placement mysql) th l i c.store (n i c.store)
  · rw [h]
    exact hP.crash hth
  · exact e.elim

/-- The store before the first request. -/
def noRequests (s : Store) : HookPool := { threads := [], store := s }

/-- **Five hooks per trigger point.** From every store with at most five hooks at
each agent and trigger point, in every run whose statements are roomy there are
never more. -/
theorem hook_limit_kept {lower : String → String} {s : Store}
    (hkey : (s.agentHooks.map AgentHook.id).Nodup)
    (hbelow : ∀ h ∈ s.agentHooks, h.id < s.agentHooksAutoIncrement)
    (hlimit : ∀ p, (storedAt mysql s p).length ≤ 5)
    (h : (hookRequests mysql lower).Reach (Roomy mysql) (noRequests s) c) (p : Spot) :
    (storedAt mysql c.store p).length ≤ 5 := by
  have hlength : ∀ s : Store, (s.agentHooks.map AgentHook.id).Nodup →
      (storedIds mysql s p).card = (storedAt mysql s p).length := by
    intro s hnodup
    rw [storedIds, List.toFinset_card_of_nodup, List.length_map]
    exact hnodup.sublist (List.filter_sublist.map _)
  have hinit : Places mysql (noRequests s) := by
    refine ⟨hkey, hbelow, fun th hmem => absurd hmem List.not_mem_nil, fun p => ?_⟩
    have hcard : (storedIds mysql s p).card ≤ ((storedAt mysql s p).map AgentHook.id).length :=
      List.toFinset_card_le _
    rw [List.length_map] at hcard
    simpa [taken, placed, noRequests] using hcard.trans (hlimit p)
  have hinv : Obeys (placement mysql) (fun _ _ _ _ => True) c ∧ Places mysql c := by
    refine h.inv (I := fun c => Obeys (placement mysql) (fun _ _ _ _ => True) c ∧ Places mysql c)
      ⟨fun th hmem => absurd hmem List.not_mem_nil, hinit⟩ ?_
    rintro c a ⟨hobey, hP⟩ hroomy
    exact ⟨hobey.step (fun n r => follows_handle lower n r) a,
      places_step hobey hP hroomy⟩
  calc (storedAt mysql c.store p).length
      = (storedIds mysql c.store p).card := (hlength c.store hinv.2.primaryKey).symm
    _ ≤ (placed mysql c p).card := Finset.card_le_card storedIds_subset
    _ ≤ taken mysql c p := Nat.le_add_right _ _
    _ ≤ 5 := hinv.2.room p

end Runs

/-! ## Six hooks at one trigger point -/

/-- A hook of agent 1 before the agent starts. -/
def startHook (n : Int) : AgentHook :=
  { id := n, agentId := 1, name := "hook", description := none
    triggerPoint := "before_agent_start", actionType := "call_function", actionParams := .obj []
    enabled := true, sortOrder := n, blockingMode := false, timeoutMs := 10000
    createdAt := 0, updatedAt := 0 }

/-- One agent with the hooks `1, …, n`. -/
def startHooks (n : Nat) : Store :=
  { agents := [⟨1, "helper", "helper", none, "", none, 0, none, 0, 0⟩]
    agentHooks := (List.range n).map fun k => startHook (k + 1)
    agentHooksAutoIncrement := n + 1 }

/-- A request for one more, with a sort order of its own. -/
def addHook (sortOrder : Int) : HookRequest :=
  .create 1 3 { name := "hook", triggerPoint := "before_agent_start", actionType := "call_function",
                actionParams := .obj [], sortOrder := sortOrder }

def startSpot : Spot := ⟨1, "before_agent_start"⟩

/-- Two requests count four hooks before the first of them inserts its own. -/
def createTwice : List (Act HookRequest Input Empty) :=
  [.start (addHook 11), .start (addHook 12), .move 0 (.at 1), .move 0 (.at 1), .move 1 (.at 1),
    .move 1 (.at 1), .move 0 (.at 1), .move 1 (.at 1)]

/-- One of five hooks is renamed; before that is written it is moved to another
trigger point, and a new hook takes its place. -/
def renameStale : List (Act HookRequest Input Empty) :=
  [.start (.update 1 1 3 { name := some "renamed", updatedAt := 0 }),
    .move 0 (.at 1), .move 0 (.at 1), .move 0 (.at 1),
    .start (.update 1 1 3 { triggerPoint := some "after_agent_end", updatedAt := 0 }),
    .move 1 (.at 1), .move 1 (.at 1), .move 1 (.at 1), .move 1 (.at 1), .move 1 (.at 1),
    .start (addHook 11), .move 2 (.at 1), .move 2 (.at 1), .move 2 (.at 1), .move 0 (.at 1)]

/-- Both leave six hooks at one trigger point. -/
theorem six_hooks_stored :
    ((storedAt .plain (startHooks 4) startSpot).length = 4 ∧
      (storedAt .plain ((hookRequests .plain id).run (noRequests (startHooks 4))
        createTwice).store startSpot).length = 6) ∧
    ((storedAt .plain (startHooks 5) startSpot).length = 5 ∧
      (storedAt .plain ((hookRequests .plain id).run (noRequests (startHooks 5))
        renameStale).store startSpot).length = 6) := by
  decide +kernel

theorem length_storedAt_startHooks (n : Nat) (p : Spot) :
    (storedAt .plain (startHooks n) p).length ≤ n := by
  refine (List.length_filter_le _ _).trans ?_
  simp [startHooks]

/-- One after the other, the second request finds five. -/
theorem hook_limit_kept_in_turn :
    (storedAt .plain ((hookRequests .plain id).run (noRequests (startHooks 4))
      [.start (addHook 11), .start (addHook 12), .move 0 (.at 1), .move 0 (.at 1), .move 0 (.at 1),
        .move 1 (.at 1), .move 1 (.at 1)]).store startSpot).length ≤ 5 :=
  hook_limit_kept (s := startHooks 4) (by decide) (by decide)
    (fun p => (length_storedAt_startHooks 4 p).trans (by decide))
    (System.reach_run (by decide +kernel)) startSpot

end HiveClaw.Hooks
