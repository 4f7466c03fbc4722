import HiveClaw.Lib.Resumption
import HiveClaw.Store.Tables

/-!
# Services — requests as programs over the store

A service function of `crates/hiveweb/src/services` is a sequence of SQL
statements and Redis commands; two requests may interleave between any two of
them. `Service` is such a function: a resumption (`Lib.Prog`) over the
`Store` whose statements are labelled by what they do.

What a statement gets from outside is its `Input`: the clock, and whether the
server answers with an error. Every statement of the source sits under a
`map_err(|e| AppError::Internal(format!("<what>: {e}")))`; the text `what`
names the statement.

A statement inside a transaction is not visible to other requests before the
commit, and row locks keep the writes of two transactions apart, so a whole
transaction is one statement here.
-/

namespace HiveClaw

open Lib

/-! ## Errors -/

/-- `AppError`, for the variants the modelled services raise. -/
inductive AppError where
  | wrongPassword (message : String)
  | accountDisabled (message : String)
  | accountLocked (message : String)
  | insufficientPermission (message : String)
  | adminNotFound (message : String)
  | phoneAlreadyExists (message : String)
  | cannotDeleteSuperAdmin (message : String)
  | cannotDisableLastSuperAdmin (message : String)
  | newPasswordSameAsOld (message : String)
  | badRequest (message : String)
  | notFound (message : String)
  | conflict (message : String)
  | internal (message : String)
  | dagCycle (message : String)
  | resourceInUse (message : String)
  | optimisticLockConflict (message : String)
  | sseConcurrencyExceeded (message : String)
  | dailyLimitReached (message : String)
  | sensitiveWordBlocked (message : String)
  | cannotDeleteMainAgent (message : String)
  | schemaMismatch (message : String)
  | workflowMappingInvalid (message : String)
  | agentDepthExceeded (message : String)
  | modelPresetUnknown (message : String)
  | builtinToolProtected (message : String)
  | pluginSystemDisabled (message : String)
  | hookTriggerLimitExceeded (message : String)
  | hookReferenceInvalid (message : String)
  | hookWebhookUrlInvalid (message : String)
  | hookNotFound (message : String)
deriving DecidableEq, Repr

/-- How a request fails: with an error of its own, or by a panic. -/
inductive Failure where
  | error (e : AppError)
  | panic (message : String)
deriving DecidableEq, Repr

/-! ## MySQL -/

/-- The collation `utf8mb4_unicode_ci` and the normal form of JSON documents,
which the server keeps. Two texts are equal for an index when their keys are. -/
structure Mysql where
  collationKey : String → String
  nameLe : String → String → Bool
  jsonNormal : Json → Json

/-- A server that compares texts byte by byte and stores JSON as it comes. -/
def Mysql.plain : Mysql :=
  { collationKey := id, nameLe := fun a b => decide (a ≤ b), jsonNormal := id }

/-- What the normal form keeps of a document: all but the order of the fields of
its objects. A `serde_json::Map` holds each key once. -/
structure Mysql.KeepsJson (m : Mysql) : Prop where
  null : m.jsonNormal .null = .null
  bool : ∀ b, m.jsonNormal (.bool b) = .bool b
  int : ∀ n, m.jsonNormal (.num (.int n)) = .num (.int n)
  float : ∀ mantissa exponent, ∃ mantissa' exponent',
    m.jsonNormal (.num (.float mantissa exponent)) = .num (.float mantissa' exponent')
  str : ∀ s, m.jsonNormal (.str s) = .str s
  arr : ∀ items, m.jsonNormal (.arr items) = .arr (items.map m.jsonNormal)
  obj : ∀ fields, ∃ fields', m.jsonNormal (.obj fields) = .obj fields' ∧
    fields' ⊆ fields.map fun f => (f.1, m.jsonNormal f.2)
  get : ∀ v key, (m.jsonNormal v).get key = (v.get key).map m.jsonNormal

namespace Mysql.KeepsJson

variable {m : Mysql} (hm : m.KeepsJson)
include hm

/-- A view that looks at integers and texts only does not see the difference. -/
theorem view {α : Type} (f : Json → Option α)
    (hfloat : ∀ mantissa exponent, f (.num (.float mantissa exponent)) = none)
    (harr : ∀ items, f (.arr items) = none) (hobj : ∀ fields, f (.obj fields) = none) (v : Json) :
    f (m.jsonNormal v) = f v := by
  cases v with
  | null => rw [hm.null]
  | bool b => rw [hm.bool]
  | num n =>
    cases n with
    | int n => rw [hm.int]
    | float mantissa exponent =>
      obtain ⟨_, _, heq⟩ := hm.float mantissa exponent
      rw [heq, hfloat, hfloat]
  | str s => rw [hm.str]
  | arr items => rw [hm.arr, harr, harr]
  | obj fields =>
    obtain ⟨_, heq, -⟩ := hm.obj fields
    rw [heq, hobj, hobj]

/-- `Value::as_str`. -/
theorem asStr (v : Json) : (m.jsonNormal v).asStr = v.asStr :=
  hm.view Json.asStr (fun _ _ => rfl) (fun _ => rfl) (fun _ => rfl) v

theorem asI64 (v : Json) : (m.jsonNormal v).asI64 = v.asI64 :=
  hm.view Json.asI64 (fun _ _ => rfl) (fun _ => rfl) (fun _ => rfl) v

theorem asObject {v : Json} {fields : JsonMap} (h : (m.jsonNormal v).asObject = some fields) :
    ∃ original, v.asObject = some original ∧
      fields ⊆ original.map fun f => (f.1, m.jsonNormal f.2) := by
  cases v with
  | obj original =>
    obtain ⟨fields', heq, hsub⟩ := hm.obj original
    rw [heq] at h
    obtain rfl := Option.some.inj h
    exact ⟨original, rfl, hsub⟩
  | null => cases hm.null ▸ h
  | bool b => cases hm.bool b ▸ h
  | num n =>
    cases n with
    | int n => cases hm.int n ▸ h
    | float mantissa exponent =>
      obtain ⟨_, _, heq⟩ := hm.float mantissa exponent
      cases heq ▸ h
  | str s => cases hm.str s ▸ h
  | arr items => cases hm.arr items ▸ h

/-- `v.get(key).and_then(|v| v.as_str())`. -/
theorem getStr (v : Json) (key : String) : (m.jsonNormal v).getStr key = v.getStr key := by
  rw [Json.getStr, Json.getStr, hm.get]
  cases v.get key with
  | none => rfl
  | some w => exact hm.asStr w

end Mysql.KeepsJson

theorem Mysql.keepsJson_plain : Mysql.plain.KeepsJson where
  null := rfl
  bool _ := rfl
  int _ := rfl
  float mantissa exponent := ⟨mantissa, exponent, rfl⟩
  str _ := rfl
  arr items := by simp [Mysql.plain]
  obj fields := ⟨fields, rfl, by simp [Mysql.plain]⟩
  get v key := by simp [Mysql.plain]

/-- What a statement receives from outside: `CURRENT_TIMESTAMP(6)`, and for a
statement named `what` the driver's error if it fails. -/
structure Input where
  now : DateTime
  fault : String → Option String

/-- The input of a statement at time `now` that meets no error. -/
def Input.at (now : DateTime) : Input := { now := now, fault := fun _ => none }

/-! ## Statements -/

inductive Stmt where
  | select (what : String)
  | lockCheck (table : String)
  | write (what : String)
  | cacheDel (agentId : Int)
deriving DecidableEq, Repr

/-- The statements of a transaction. -/
abbrev Tx (α : Type) := ExceptT Failure (StateM Store) α

/-- A statement that may fail and writes nothing. -/
def Tx.check {α : Type} (r : Except Failure α) : Tx α := ExceptT.mk (pure r)

/-- `if let Some(a) = o { f(a) }` inside a transaction. -/
def Tx.onSome {β : Type} (o : Option β) (f : β → Tx Unit) : Tx Unit :=
  match o with
  | some a => f a
  | none => pure ()

-- `AppError::Internal(format!("{what}: {e}"))`
def internal (what e : String) : Failure := .error (.internal (what ++ ": " ++ e))

/-- The statement `what` fails if the server says so. -/
def Input.check (i : Input) (what : String) : Except Failure Unit :=
  match i.fault what with
  | some e => .error (internal what e)
  | none => .ok ()

/-- What a rolled-back transaction leaves of its store `s'`: the counters of
the `AUTO_INCREMENT` columns, which are not reset. -/
def Store.rollback (s s' : Store) : Store :=
  { s with
    agentsAutoIncrement := s'.agentsAutoIncrement
    agentHooksAutoIncrement := s'.agentHooksAutoIncrement
    workflowNodesAutoIncrement := s'.workflowNodesAutoIncrement
    workflowEdgesAutoIncrement := s'.workflowEdgesAutoIncrement }

abbrev Service (α : Type) := ExceptT Failure (Prog Stmt Input Store) α

namespace Service

variable {α β : Type}

-- `return Err(e)`
def fail (e : AppError) : Service α := throw (.error e)

-- `opt.ok_or_else(|| e)?`
def okOr (o : Option α) (e : AppError) : Service α :=
  match o with
  | some a => pure a
  | none => fail e

-- `if c { return Err(e) }`
def failIf (c : Prop) [Decidable c] (e : AppError) : Service Unit :=
  if c then fail e else pure ()

-- `if let Some(a) = o { f(a) }`
def onSome (o : Option β) (f : β → Service Unit) : Service Unit :=
  match o with
  | some a => f a
  | none => pure ()

-- `r?`
def lift (r : Except AppError α) : Service α :=
  match r with
  | .ok a => pure a
  | .error e => fail e

/-- A `SELECT`. -/
def query (what : String) (read : Store → α) : Service α :=
  ExceptT.mk <| Prog.read (.select what) fun i s => do
    i.check what
    pure (read s)

/-- A statement, or a transaction, that writes. -/
def execute (what : String) (f : Input → Store → Except Failure α × Store) : Service α :=
  ExceptT.mk <| Prog.modify (.write what) f

-- `pool.begin() … tx.commit()`
def transaction (what : String) (body : Input → Tx α) : Service α :=
  execute what fun i s =>
    match (body i).run s with
    | (.ok a, s') => (.ok a, s')
    | (.error e, s') => (.error e, s.rollback s')

/-- `invalidate_content_cache`: a failing Redis is only logged. -/
def invalidateContentCache (agentId : Int) : Service Unit :=
  ExceptT.mk <| Prog.modify (.cacheDel agentId) fun i s =>
    match i.fault "agent content cache invalidate" with
    | some _ => (.ok (), s)
    | none => (.ok (), s.dropContent agentId)

/-! ## Runs -/

/-- `m.Runs s r s'`: for some inputs the request takes the store from `s` to
`s'` and ends with `r`. -/
def Runs (m : Service α) (s : Store) (r : Except Failure α) (s' : Store) : Prop :=
  Prog.RunsE m s r s'

/-- Runs a request alone; its `k`-th statement receives `ins k`. -/
def exec (m : Service α) (ins : Nat → Input) (s : Store) : Except Failure α × Store :=
  Prog.exec m.run ins s

theorem runs_exec (m : Service α) (ins : Nat → Input) (s : Store) :
    m.Runs s (m.exec ins s).1 (m.exec ins s).2 :=
  Prog.runs_exec m.run ins s

theorem exec_query_bind (what : String) (read : Store → α) (f : α → Service β) (now : DateTime)
    (s : Store) :
    (query what read >>= f).exec (fun _ => Input.at now) s =
      (f (read s)).exec (fun _ => Input.at now) s :=
  rfl

variable {a : α} {s s' : Store} {r : Except Failure α}

@[simp] theorem runs_pure_iff : (pure a : Service α).Runs s r s' ↔ r = .ok a ∧ s' = s :=
  Prog.runsE_pure_iff

variable {e : AppError}

@[simp] theorem runs_fail_iff : (fail e : Service α).Runs s r s' ↔ r = .error (.error e) ∧ s' = s :=
  Prog.runsE_throw_iff

variable {m : Service α}

theorem runs_bind_iff {f : α → Service β} {s'' : Store} {r : Except Failure β} :
    (m >>= f).Runs s r s'' ↔
      (∃ e, m.Runs s (.error e) s'' ∧ r = .error e) ∨
        ∃ a s', m.Runs s (.ok a) s' ∧ (f a).Runs s' r s'' :=
  Prog.runsE_bind_iff

variable {what : String}

/-- A `SELECT` leaves the store alone and returns what it reads, unless the
server fails. -/
theorem runs_query_iff {read : Store → α} :
    (query what read).Runs s r s' ↔
      s' = s ∧ (r = .ok (read s) ∨ ∃ e, r = .error (internal what e)) := by
  have hrun : (query what read).Runs s r s' ↔ _ := Prog.runs_read_iff
  rw [hrun, and_comm]
  refine and_congr_right fun _ => ⟨?_, ?_⟩
  · rintro ⟨i, rfl⟩
    unfold Input.check
    cases hfault : i.fault what with
    | some e => exact Or.inr ⟨e, rfl⟩
    | none => exact Or.inl rfl
  · rintro (rfl | ⟨e, rfl⟩)
    · exact ⟨.at 0, rfl⟩
    · exact ⟨⟨0, fun _ => some e⟩, rfl⟩

theorem runs_execute_iff {f : Input → Store → Except Failure α × Store} :
    (execute what f).Runs s r s' ↔ ∃ i, r = (f i s).1 ∧ s' = (f i s).2 :=
  Prog.runs_modify_iff

variable {body : Input → Tx α}

/-- A transaction that fails leaves only burnt `AUTO_INCREMENT` values
behind. -/
theorem runs_transaction (h : (transaction what body).Runs s r s') :
    (∃ i a, (body i).run s = (.ok a, s') ∧ r = .ok a) ∨
      ∃ i e s₁, (body i).run s = (.error e, s₁) ∧ r = .error e ∧ s' = s.rollback s₁ := by
  obtain ⟨i, rfl, rfl⟩ := runs_execute_iff.mp h
  rcases hbody : (body i).run s with ⟨x, s₁⟩
  cases x with
  | ok a => exact Or.inl ⟨i, a, hbody, rfl⟩
  | error e => exact Or.inr ⟨i, e, s₁, hbody, rfl, rfl⟩

/-! ## What a request keeps -/

/-- Every run of `m` leaves the part `f` of the store as it was. -/
def Keeps {γ : Type} (f : Store → γ) (m : Service α) : Prop :=
  ∀ ⦃s r s'⦄, m.Runs s r s' → f s' = f s

section Keeps

variable {γ : Type} {f : Store → γ}

theorem keeps_pure (a : α) : Keeps f (pure a : Service α) := by
  intro s r s' h
  rw [(runs_pure_iff.mp h).2]

theorem keeps_fail (e : AppError) : Keeps f (fail e : Service α) := by
  intro s r s' h
  rw [(runs_fail_iff.mp h).2]

theorem keeps_bind {m : Service α} {g : α → Service β} (hm : Keeps f m)
    (hg : ∀ a, Keeps f (g a)) : Keeps f (m >>= g) := by
  intro s r s' h
  rcases runs_bind_iff.mp h with ⟨e, hrun, -⟩ | ⟨a, s₁, hrun, hrest⟩
  · exact hm hrun
  · exact (hg a hrest).trans (hm hrun)

theorem keeps_query (what : String) (read : Store → α) : Keeps f (query what read) := by
  intro s r s' h
  rw [(runs_query_iff.mp h).1]

theorem keeps_okOr (o : Option α) (e : AppError) : Keeps f (okOr o e) := by
  cases o with
  | none => exact keeps_fail e
  | some a => exact keeps_pure a

theorem keeps_lift (r : Except AppError α) : Keeps f (lift r) := by
  cases r with
  | error e => exact keeps_fail e
  | ok a => exact keeps_pure a

theorem keeps_failIf (c : Prop) [Decidable c] (e : AppError) : Keeps f (failIf c e) := by
  unfold failIf
  split
  · exact keeps_fail e
  · exact keeps_pure ()

theorem keeps_onSome (o : Option β) {g : β → Service Unit} (hg : ∀ b, Keeps f (g b)) :
    Keeps f (onSome o g) := by
  cases o with
  | none => exact keeps_pure ()
  | some b => exact hg b

theorem keeps_invalidateContentCache (agentId : Int)
    (hf : ∀ s : Store, f (s.dropContent agentId) = f s) :
    Keeps f (invalidateContentCache agentId) := by
  intro s r s' h
  have hrun : (invalidateContentCache agentId).Runs s r s' ↔ _ := Prog.runs_modify_iff
  obtain ⟨i, -, rfl⟩ := hrun.mp h
  split
  · rfl
  · exact hf s

end Keeps

/-- A composition whose first part only reads stops there or continues from
the same store. -/
theorem runs_bind_readOnly {g : α → Service β} (hm : Keeps (fun s => s) m) {r : Except Failure β}
    (h : (m >>= g).Runs s r s') :
    (s' = s ∧ ∃ e, r = .error e) ∨ ∃ a, m.Runs s (.ok a) s ∧ (g a).Runs s r s' := by
  rcases runs_bind_iff.mp h with ⟨e, hrun, rfl⟩ | ⟨a, s₁, hrun, hrest⟩
  · exact Or.inl ⟨hm hrun, e, rfl⟩
  · obtain rfl : s₁ = s := hm hrun
    exact Or.inr ⟨a, hrun, hrest⟩

/-! ## Values of requests that only read -/

variable {o : Option α}

theorem runs_okOr_ok (h : (okOr o e).Runs s (.ok a) s') : o = some a := by
  cases o with
  | none => exact absurd (runs_fail_iff.mp h).1 (by simp)
  | some b =>
    obtain ⟨hab, -⟩ := runs_pure_iff.mp h
    rw [Except.ok.inj hab]

theorem runs_failIf_ok {c : Prop} [Decidable c] {a : Unit} (h : (failIf c e).Runs s (.ok a) s') :
    ¬ c := by
  unfold failIf at h
  split at h
  · exact absurd (runs_fail_iff.mp h).1 (by simp)
  · assumption

variable {x : Except AppError α}

theorem runs_lift_ok (h : (lift x).Runs s (.ok a) s') : x = .ok a := by
  cases x with
  | error e => exact absurd (runs_fail_iff.mp h).1 (by simp)
  | ok b =>
    obtain ⟨hab, -⟩ := runs_pure_iff.mp h
    rw [Except.ok.inj hab]

theorem runs_query_ok {read : Store → α} (h : (query what read).Runs s (.ok a) s') :
    a = read s ∧ s' = s := by
  obtain ⟨hs, hval | ⟨e, he⟩⟩ := runs_query_iff.mp h
  · exact ⟨Except.ok.inj hval, hs⟩
  · exact absurd he (by simp)

/-! ## Requests that the server answers -/

/-- Whatever the clock says, the request, alone and with every statement answered,
returns `a` and takes the store from `s` to `s'`. -/
def Succeeds (m : Service α) (s : Store) (a : α) (s' : Store) : Prop :=
  ∀ ins : Nat → Input, (∀ k what, (ins k).fault what = none) → m.exec ins s = (.ok a, s')

theorem succeeds_pure (a : α) (s : Store) : (pure a : Service α).Succeeds s a s :=
  fun _ _ => rfl

theorem succeeds_query (what : String) (read : Store → α) (s : Store) :
    (query what read).Succeeds s (read s) s := by
  intro ins hins
  have hcheck : (ins 0).check what = .ok () := by
    unfold Input.check
    rw [hins 0 what]
  show (((ins 0).check what >>= fun _ => pure (read s)), s) = _
  rw [hcheck]
  rfl

theorem succeeds_okOr (h : o = some a) (s : Store) : (okOr o e).Succeeds s a s := by
  subst h
  exact succeeds_pure a s

theorem succeeds_lift (h : x = .ok a) (s : Store) : (lift x).Succeeds s a s := by
  subst h
  exact succeeds_pure a s

theorem succeeds_transaction
    (h : ∀ i : Input, (∀ what, i.fault what = none) → (body i).run s = (.ok a, s')) :
    (transaction what body).Succeeds s a s' := by
  intro ins hins
  have hbody := h (ins 0) (hins 0)
  show (match (body (ins 0)).run s with
    | (.ok a, s') => (.ok a, s')
    | (.error e, s') => (.error e, s.rollback s') : Except Failure α × Store) = _
  rw [hbody]

theorem Succeeds.bind {m : Service α} {f : α → Service β} {s s' s'' : Store} {a : α} {b : β}
    (hm : m.Succeeds s a s') (hf : (f a).Succeeds s' b s'') : (m >>= f).Succeeds s b s'' := by
  -- the first part uses up some of the inputs
  have hexec : ∀ (p : Prog Stmt Input Store (Except Failure α)) (ins : Nat → Input) (s : Store),
      (∀ k what, (ins k).fault what = none) → p.exec ins s = (.ok a, s') →
      (p.bind fun x => (ExceptT.bindCont f x : Prog Stmt Input Store _)).exec ins s =
        (.ok b, s'') := by
    intro p
    induction p with
    | done x =>
      intro ins s hins h
      obtain ⟨rfl, rfl⟩ := Prod.mk.inj h
      exact hf ins hins
    | stmt l w n ih =>
      intro ins s hins h
      exact ih (ins 0) s _ _ (fun k => hins (k + 1)) h
  intro ins hins
  exact hexec m.run ins s hins (hm ins hins)

end Service

/-! ## Transactions step by step -/

namespace Tx

variable {α β : Type}

variable {f : α → Tx β} {s : Store} {b : β}

theorem run_bind_ok_iff {m : Tx α} {s'' : Store} :
    (m >>= f).run s = (.ok b, s'') ↔
      ∃ a s', m.run s = (.ok a, s') ∧ (f a).run s' = (.ok b, s'') := by
  have hrun : (m >>= f).run s =
      match m.run s with
      | (.ok a, s') => (f a).run s'
      | (.error e, s') => (.error e, s') := by
    show (ExceptT.bindCont f (m.run s).1 : StateM Store _) (m.run s).2 = _
    rcases hx : m.run s with ⟨x, s'⟩
    cases x <;> rfl
  rw [hrun]
  rcases hx : m.run s with ⟨x, s'⟩
  cases x with
  | error e =>
    constructor
    · intro h
      cases h
    · rintro ⟨a, s₁, h, -⟩
      cases h
  | ok a =>
    constructor
    · intro h
      exact ⟨a, s', rfl, h⟩
    · rintro ⟨a₁, s₁, h, hrest⟩
      cases h
      exact hrest

variable {r : Except Failure α} {s' : Store} {a : α}

theorem run_check_ok_iff : (Tx.check r).run s = (.ok a, s') ↔ r = .ok a ∧ s' = s := by
  show (r, s) = (.ok a, s') ↔ _
  rw [Prod.mk.injEq, eq_comm (a := s)]

theorem run_bind_check_ok (h : (Tx.check r >>= f).run s = (.ok b, s')) :
    ∃ a, r = .ok a ∧ (f a).run s = (.ok b, s') := by
  obtain ⟨a, s₁, hcheck, hrest⟩ := run_bind_ok_iff.mp h
  obtain ⟨hr, rfl⟩ := run_check_ok_iff.mp hcheck
  exact ⟨a, hr, hrest⟩

theorem run_get_ok_iff {a : Store} : (get : Tx Store).run s = (.ok a, s') ↔ a = s ∧ s' = s := by
  show ((.ok s : Except Failure Store), s) = (.ok a, s') ↔ _
  rw [Prod.mk.injEq, Except.ok.injEq, eq_comm, eq_comm (a := s) (b := s')]

theorem run_set_ok_iff {t : Store} {a : PUnit} :
    (set t : Tx PUnit).run s = (.ok a, s') ↔ s' = t := by
  show ((.ok ⟨⟩ : Except Failure PUnit), t) = (.ok a, s') ↔ _
  simp [eq_comm]

theorem run_modify_ok_iff {f : Store → Store} {a : PUnit} :
    (modify f : Tx PUnit).run s = (.ok a, s') ↔ s' = f s := by
  show ((.ok ⟨⟩ : Except Failure PUnit), f s) = (.ok a, s') ↔ _
  simp [eq_comm]

theorem run_pure_ok_iff {b : α} : (pure a : Tx α).run s = (.ok b, s') ↔ b = a ∧ s' = s := by
  show ((.ok a : Except Failure α), s) = (.ok b, s') ↔ _
  rw [Prod.mk.injEq, Except.ok.injEq, eq_comm, eq_comm (a := s)]

theorem run_modifyGet_ok_iff {f : Store → α × Store} :
    (modifyGet f : Tx α).run s = (.ok a, s') ↔ a = (f s).1 ∧ s' = (f s).2 := by
  show ((.ok (f s).1 : Except Failure α), (f s).2) = (.ok a, s') ↔ _
  rw [Prod.mk.injEq, Except.ok.injEq, eq_comm, eq_comm (a := (f s).2)]

/-! ### What every run of a transaction does, failed ones included -/

/-- Every run of `m` relates the store before to the store after. -/
def Steps (R : Store → Store → Prop) (m : Tx α) : Prop := ∀ s, R s (m.run s).2

section Steps

variable {R : Store → Store → Prop}

theorem steps_bind (htrans : ∀ a b c, R a b → R b c → R a c) {m : Tx α} {f : α → Tx β}
    (hm : Steps R m) (hf : ∀ a, Steps R (f a)) : Steps R (m >>= f) := by
  intro s
  have hstep := hm s
  show R s ((ExceptT.bindCont f (m.run s).1 : StateM Store _) (m.run s).2).2
  rcases hx : m.run s with ⟨x, s'⟩
  rw [hx] at hstep
  cases x with
  | error e => exact hstep
  | ok a => exact htrans _ _ _ hstep (hf a s')

theorem steps_check (hrefl : ∀ a, R a a) (r : Except Failure α) : Steps R (Tx.check r) :=
  fun s => hrefl s

theorem steps_get (hrefl : ∀ a, R a a) : Steps R (get : Tx Store) :=
  fun s => hrefl s

theorem steps_pure (hrefl : ∀ a, R a a) (a : α) : Steps R (pure a : Tx α) :=
  fun s => hrefl s

theorem steps_modify {f : Store → Store} (hf : ∀ s, R s (f s)) :
    Steps R (modify f : Tx PUnit) :=
  fun s => hf s

theorem steps_modifyGet {f : Store → α × Store} (hf : ∀ s, R s (f s).2) :
    Steps R (modifyGet f : Tx α) :=
  fun s => hf s

theorem steps_onSome (hrefl : ∀ a, R a a) (o : Option β) {f : β → Tx Unit}
    (hf : ∀ b, Steps R (f b)) : Steps R (Tx.onSome o f) := by
  cases o with
  | none => exact steps_pure hrefl ()
  | some b => exact hf b

end Steps

end Tx

end HiveClaw
