import HiveClaw.Admins.Service

/-!
# The last active Super admin

`toggle_admin_status` counts the active Super admins before it disables one, and
no endpoint deletes a Super admin. Neither covers a change of role, and the count
and the write are two statements, between which others may come.

A request that has been let through by the count holds a clearance until its
write (`Clearance`). The table has more active Super admins than clearances as
long as the count, and every write that takes an active Super admin away without
one, finds more than one to spare.
-/

namespace HiveClaw.Admins

open Lib

/-! ## What a write takes away -/

def Admin.isActiveSuper (a : Admin) : Bool := a.role = 3 && a.status = 1

/-- Where at most the row with key `x` changes, at most its share of a count is
lost. -/
theorem countP_le_filterMap {ρ : Type} (key : ρ → Int) (p : ρ → Bool) (f : ρ → Option ρ) (x : Int)
    {rows : List ρ} (hnodup : (rows.map key).Nodup)
    (hf : ∀ r ∈ rows, key r ≠ x → f r = some r) :
    rows.countP p ≤
      (rows.filterMap f).countP p + ((rows.find? fun r => key r = x).any p).toNat := by
  induction rows with
  | nil => exact Nat.zero_le _
  | cons r rest ih =>
    rw [List.map_cons, List.nodup_cons] at hnodup
    by_cases hr : key r = x
    · -- the keys are unique, so the rest stays as it is
      have hrest : rest.filterMap f = rest := by
        rw [List.filterMap_congr (g := some), List.filterMap_some]
        intro r' hr'
        refine hf r' (List.mem_cons_of_mem _ hr') fun hkey => hnodup.1 ?_
        exact List.mem_map.mpr ⟨r', hr', hkey.trans hr.symm⟩
      have hge : rest.countP p ≤ ((r :: rest).filterMap f).countP p := by
        rw [List.filterMap_cons]
        split
        · rw [hrest]
        · rw [hrest]
          exact (List.sublist_cons_self _ _).countP_le
      rw [List.find?_cons_of_pos (by simpa using hr), List.countP_cons, Option.any_some]
      cases p r <;> simp <;> omega
    · rw [List.filterMap_cons_some (hf r List.mem_cons_self hr),
        List.find?_cons_of_neg (by simpa using hr), List.countP_cons, List.countP_cons]
      have hle := ih hnodup.2 fun r' hr' => hf r' (List.mem_cons_of_mem _ hr')
      omega

namespace AdminTable

variable {s : AdminTable} {id : Int}

theorem activeSupers_le_insert (phone nickname hash : String) (role : Int) :
    s.activeSupers ≤ (s.insert phone nickname hash role).activeSupers := by
  show s.rows.countP _ ≤ (s.rows ++ [_]).countP _
  rw [List.countP_append]
  exact Nat.le_add_right _ _

theorem activeSupers_le_modify (s : AdminTable) (id : Int) (g : Admin → Admin) (hg : ∀ a, (g a).id = a.id) :
    s.activeSupers ≤
      (s.modify id g hg).activeSupers + ((s.byId id).any Admin.isActiveSuper).toNat := by
  show s.rows.countP _ ≤ (s.rows.map fun a => if a.id = id then g a else a).countP _ + _
  rw [← List.filterMap_eq_map]
  refine countP_le_filterMap Admin.id _ _ id s.primaryKey fun a _ ha => ?_
  show some (if a.id = id then g a else a) = some a
  rw [if_neg ha]

theorem activeSupers_le_modify_of_keeps (g : Admin → Admin) (hg : ∀ a, (g a).id = a.id)
    (hkeeps : ∀ a, a.isActiveSuper = true → (g a).isActiveSuper = true) :
    s.activeSupers ≤ (s.modify id g hg).activeSupers := by
  show s.rows.countP _ ≤ (s.rows.map fun a => if a.id = id then g a else a).countP _
  rw [List.countP_map]
  refine List.countP_mono_left fun a _ ha => ?_
  show (if a.id = id then g a else a).isActiveSuper = true
  split
  · exact hkeeps a ha
  · exact ha

theorem activeSupers_le_delete :
    s.activeSupers ≤
      (s.delete id).activeSupers + ((s.byId id).any Admin.isActiveSuper).toNat := by
  show s.rows.countP _ ≤ (s.rows.filter fun a => a.id ≠ id).countP _ + _
  rw [← List.filterMap_eq_filter]
  refine countP_le_filterMap Admin.id _ _ id s.primaryKey fun a _ ha => ?_
  simp [Option.guard, ha]

/-- The statement takes an active Super admin away if it is executed now. -/
def takesSuper (s : AdminTable) : AdminStmt → Bool
  | .update id role => role ≠ 3 && (s.byId id).any Admin.isActiveSuper
  | .setStatus id status => status ≠ 1 && (s.byId id).any Admin.isActiveSuper
  | .delete id => (s.byId id).any Admin.isActiveSuper
  | .select | .insert | .countSupers | .audit => false

end AdminTable

/-! ## Clearances -/

/-- Whether the request has been let through by the count and has not written
yet. -/
inductive Clearance where
  | idle
  | cleared
  | spent
deriving DecidableEq, Repr

namespace Clearance

def next : Clearance → AdminStmt → AdminInput → AdminTable → Clearance
  | .idle, .countSupers, i, s => if i.fault = none ∧ 1 < s.activeSupers then .cleared else .idle
  | .cleared, .setStatus _ _, _, _ => .spent
  | q, _, _, _ => q

/-- The statement is the write the request was let through for. -/
def covers : Clearance → AdminStmt → Bool
  | .cleared, .setStatus _ _ => true
  | _, _ => false

/-- What a statement may do to the table. -/
def allows (_ : Clearance) : AdminStmt → AdminInput → AdminTable → AdminTable → Prop
  | .insert, _, s, s' => s' = s ∨ ∃ phone nickname hash role, s' = s.insert phone nickname hash role
  | .update id role, i, s, s' =>
    s' = s ∨ i.fault = none ∧ ∃ nickname, s' = s.modify id (Admin.setProfile nickname role) fun _ => rfl
  | .delete id, i, s, s' => s' = s ∨ i.fault = none ∧ s' = s.delete id
  | .setStatus id status, i, s, s' =>
    s' = s ∨ i.fault = none ∧ s' = s.modify id (Admin.setStatus status) (Admin.setStatus_id status)
  | .select, _, s, s' | .countSupers, _, s, s' | .audit, _, s, s' => s' = s

end Clearance

def clearance : Protocol Clearance AdminStmt AdminInput AdminTable :=
  { init := .idle, next := Clearance.next, allows := Clearance.allows }

variable {q : Clearance} {l : AdminStmt} {i : AdminInput} {s s' : AdminTable}

/-- A statement takes at most one active Super admin away, and only where
`takesSuper` says so. -/
theorem activeSupers_le_of_allows (h : q.allows l i s s') :
    s.activeSupers ≤ s'.activeSupers + (s.takesSuper l).toNat := by
  cases l with
  | select | countSupers | audit =>
    obtain rfl : s' = s := h
    exact Nat.le_add_right _ _
  | insert =>
    rcases h with rfl | ⟨phone, nickname, hash, role, rfl⟩
    · exact Nat.le_add_right _ _
    · exact (AdminTable.activeSupers_le_insert phone nickname hash role).trans
        (Nat.le_add_right _ _)
  | delete id =>
    rcases h with rfl | ⟨-, rfl⟩
    · exact Nat.le_add_right _ _
    · exact AdminTable.activeSupers_le_delete
  | update id role =>
    rcases h with rfl | ⟨-, nickname, rfl⟩
    · exact Nat.le_add_right _ _
    · by_cases hrole : role = 3
      · refine (AdminTable.activeSupers_le_modify_of_keeps _ _ ?_).trans (Nat.le_add_right _ _)
        intro a ha
        simp only [Admin.isActiveSuper, Admin.setProfile, Bool.and_eq_true] at ha ⊢
        exact ⟨decide_eq_true hrole, ha.2⟩
      · simpa [AdminTable.takesSuper, hrole] using
          AdminTable.activeSupers_le_modify s id
            (Admin.setProfile nickname role) fun _ => rfl
  | setStatus id status =>
    rcases h with rfl | ⟨-, rfl⟩
    · exact Nat.le_add_right _ _
    · by_cases hstatus : status = 1
      · refine (AdminTable.activeSupers_le_modify_of_keeps _ _ ?_).trans (Nat.le_add_right _ _)
        intro a ha
        simp only [Admin.isActiveSuper, Admin.setStatus, Bool.and_eq_true] at ha ⊢
        exact ⟨ha.1, decide_eq_true hstatus⟩
      · simpa [AdminTable.takesSuper, hstatus] using
          AdminTable.activeSupers_le_modify s id (Admin.setStatus status) fun _ => rfl

/-! ## The endpoints keep to the protocol -/

/-- In whatever phase it starts, the program only makes allowed statements. -/
def Allowed {ε α : Type} (m : AdminM ε α) : Prop :=
  ∀ q, Follows clearance (fun _ _ => True) q m.run

section Allowed

variable {ε ε' α β : Type}

theorem allowed_pure (a : α) : Allowed (pure a : AdminM ε α) := fun _ => .done trivial

theorem allowed_throw (e : ε) : Allowed (throw e : AdminM ε α) := fun _ => .done trivial

variable {m : AdminM ε α}

theorem allowed_bind {f : α → AdminM ε β} (hm : Allowed m) (hf : ∀ a, Allowed (f a)) :
    Allowed (m >>= f) :=
  fun q => (hm q).bindE (fun _ _ _ => trivial) fun q a _ => hf a q

theorem allowed_adapt {g : ε → ε'} (hm : Allowed m) : Allowed (ExceptT.adapt g m) :=
  fun q => Follows.adapt (hm q)

variable {l : AdminStmt}

theorem allowed_query {read : AdminTable → α} (hl : ∀ i s, Clearance.idle.allows l i s s) :
    Allowed (query l read) :=
  fun _ => follows_read_iff.mpr ⟨hl, fun _ _ => trivial⟩

/-- A writing statement is allowed if what it writes is; a failing one writes
nothing. -/
theorem allowed_execute {write : AdminInput → AdminTable → Except String (α × AdminTable)}
    (hsame : ∀ i s, Clearance.idle.allows l i s s)
    (hwrite : ∀ i s a s', i.fault = none → write i s = .ok (a, s') →
      Clearance.idle.allows l i s s') : Allowed (execute l write) := by
  intro q
  refine follows_modify_iff.mpr ⟨fun i s => ?_, fun _ _ => trivial⟩
  cases hfault : i.fault with
  | some e => exact hsame i s
  | none =>
    dsimp only
    rcases hw : write i s with e | ⟨a, s'⟩
    · exact hsame i s
    · exact hwrite i s a s' hfault hw

theorem allowed_okOr (o : Option α) (e : String) : Allowed (okOr o e) := by
  cases o with
  | none => exact allowed_throw e
  | some a => exact allowed_pure a

theorem allowed_getAdminById (id : Int) : Allowed (getAdminById id) :=
  allowed_query fun _ _ => rfl

theorem allowed_createAdminRow (m : Mysql) (phone nickname hash : String) (role : Int) :
    Allowed (createAdminRow m phone nickname hash role) := by
  refine allowed_bind (allowed_query fun _ _ => rfl) fun existing => ?_
  split
  · exact allowed_throw _
  · refine allowed_bind (allowed_execute (fun _ _ => Or.inl rfl) ?_) fun id => ?_
    · intro i s a s' _ hw
      split at hw
      · cases hw
      · cases hw
        exact Or.inr ⟨phone, nickname, hash, role, rfl⟩
    · exact allowed_bind (allowed_getAdminById id) fun admin => allowed_okOr admin _

theorem allowed_updateAdminRow (id : Int) (nickname : String) (role : Int) :
    Allowed (updateAdminRow id nickname role) := by
  refine allowed_bind (allowed_execute (fun _ _ => Or.inl rfl) ?_) fun found => ?_
  · intro i s a s' hfault hw
    cases hw
    exact Or.inr ⟨hfault, nickname, rfl⟩
  · split
    · exact allowed_throw _
    · exact allowed_bind (allowed_getAdminById id) fun admin => allowed_okOr admin _

theorem allowed_deleteAdminRow (id : Int) : Allowed (deleteAdminRow id) := by
  refine allowed_bind (allowed_getAdminById id) fun found => ?_
  refine allowed_bind (allowed_okOr found _) fun admin => ?_
  refine allowed_bind (allowed_okOr _ _) fun role => ?_
  split
  · exact allowed_throw _
  · refine allowed_execute (fun _ _ => Or.inl rfl) ?_
    intro i s a s' hfault hw
    cases hw
    exact Or.inr ⟨hfault, rfl⟩

theorem allowed_toggleAdminRow (id status : Int) : Allowed (toggleAdminRow id status) := by
  have hwrite : Allowed (do
      execute (.setStatus id status) fun _ s =>
        .ok ((), s.modify id (Admin.setStatus status) fun _ => rfl)
      let updated ← getAdminById id
      okOr updated "Admin not found after status update" : AdminM String Admin) := by
    refine allowed_bind (allowed_execute (fun _ _ => Or.inl rfl) ?_) fun _ => ?_
    · intro i s a s' hfault hw
      cases hw
      exact Or.inr ⟨hfault, rfl⟩
    · exact allowed_bind (allowed_getAdminById id) fun admin => allowed_okOr admin _
  refine allowed_bind (allowed_getAdminById id) fun found => ?_
  refine allowed_bind (allowed_okOr found _) fun admin => ?_
  refine allowed_bind (allowed_okOr _ _) fun role => ?_
  split
  · refine allowed_bind (allowed_query fun _ _ => rfl) fun superAdminCount => ?_
    split
    · exact allowed_bind (allowed_throw _) fun _ => hwrite
    · exact hwrite
  · exact hwrite

theorem allowed_failIf (c : Prop) [Decidable c] (e : AppError) : Allowed (failIf c e) := by
  unfold failIf
  split
  · exact allowed_throw _
  · exact allowed_pure _

theorem allowed_check (r : Except AppError α) : Allowed (check r) := by
  cases r with
  | ok a => exact allowed_pure a
  | error e => exact allowed_throw _

theorem allowed_callerRole (role : Int) : Allowed (callerRole role) := by
  unfold callerRole
  split
  · exact allowed_pure _
  · exact allowed_throw _

theorem allowed_storedRole (a : Admin) : Allowed (storedRole a) := by
  unfold storedRole
  split
  · exact allowed_pure _
  · exact allowed_throw _

theorem allowed_auditEvent : Allowed auditEvent :=
  fun _ => Follows.lift (follows_read_iff.mpr ⟨fun _ _ => rfl, fun _ _ => trivial⟩)

theorem allowed_peek (id : Int) : Allowed (peek id) :=
  fun q => Follows.lift ((allowed_getAdminById id q).bind fun _ _ _ => .done trivial)

theorem allowed_createAdmin (m : Mysql) (b : Bcrypt) (caller : Int)
    (phone nickname password : String) (role : Int) :
    Allowed (createAdmin m b caller phone nickname password role) := by
  refine allowed_bind (allowed_callerRole _) fun caller => ?_
  refine allowed_bind (allowed_failIf _ _) fun _ => ?_
  refine allowed_bind (allowed_check _) fun _ => ?_
  refine allowed_bind (allowed_check _) fun _ => ?_
  split
  · exact allowed_throw _
  · refine allowed_bind (allowed_failIf _ _) fun _ => ?_
    refine allowed_bind (allowed_check _) fun hash => ?_
    refine allowed_bind (allowed_adapt (allowed_createAdminRow m phone nickname hash role)) ?_
    intro admin
    exact allowed_bind allowed_auditEvent fun _ => allowed_pure _

theorem allowed_updateAdmin (caller id : Int) (nickname : String) (role : Int) :
    Allowed (updateAdmin caller id nickname role) := by
  refine allowed_bind (allowed_callerRole _) fun caller => ?_
  refine allowed_bind (allowed_failIf _ _) fun _ => ?_
  refine allowed_bind (allowed_check _) fun _ => ?_
  split
  · exact allowed_throw _
  · refine allowed_bind (allowed_failIf _ _) fun _ => ?_
    refine allowed_bind (allowed_adapt (allowed_getAdminById id)) fun found => ?_
    cases found with
    | none => exact allowed_throw _
    | some admin =>
      refine allowed_bind (allowed_storedRole admin) fun adminRole => ?_
      refine allowed_bind (allowed_failIf _ _) fun _ => ?_
      refine allowed_bind (allowed_adapt (allowed_updateAdminRow id nickname role)) ?_
      intro updated
      exact allowed_bind allowed_auditEvent fun _ => allowed_pure _

theorem allowed_deleteAdmin (caller id : Int) : Allowed (deleteAdmin caller id) := by
  refine allowed_bind (allowed_callerRole _) fun caller => ?_
  refine allowed_bind (allowed_failIf _ _) fun _ => ?_
  refine allowed_bind (allowed_peek id) fun target => ?_
  have hdelete : ∀ _ : Unit, Allowed (do
      ExceptT.adapt deleteError (deleteAdminRow id)
      auditEvent
      pure none : AdminM Failure (Option AdminPublic)) := fun _ =>
    allowed_bind (allowed_adapt (allowed_deleteAdminRow id)) fun _ =>
      allowed_bind allowed_auditEvent fun _ => allowed_pure _
  cases target with
  | none => exact hdelete ()
  | some admin =>
    refine allowed_bind (allowed_storedRole admin) fun adminRole => ?_
    refine allowed_bind (allowed_failIf _ _) fun _ => ?_
    exact allowed_bind (allowed_failIf _ _) hdelete

theorem allowed_toggleAdminStatus (caller id status : Int) :
    Allowed (toggleAdminStatus caller id status) := by
  refine allowed_bind (allowed_callerRole _) fun caller => ?_
  refine allowed_bind (allowed_failIf _ _) fun _ => ?_
  refine allowed_bind (allowed_failIf _ _) fun _ => ?_
  refine allowed_bind (allowed_peek id) fun target => ?_
  have htoggle : ∀ _ : Unit, Allowed (do
      let admin ← ExceptT.adapt toggleError (toggleAdminRow id status)
      auditEvent
      pure (some admin.toPublic) : AdminM Failure (Option AdminPublic)) := fun _ =>
    allowed_bind (allowed_adapt (allowed_toggleAdminRow id status)) fun _ =>
      allowed_bind allowed_auditEvent fun _ => allowed_pure _
  cases target with
  | none => exact htoggle ()
  | some admin =>
    refine allowed_bind (allowed_storedRole admin) fun adminRole => ?_
    exact allowed_bind (allowed_failIf _ _) htoggle

theorem allowed_handle (m : Mysql) (b : Bcrypt) (call : AdminCall) :
    Allowed (handle m b call) := by
  unfold handle
  split
  · exact allowed_createAdmin m b _ _ _ _ _
  · exact allowed_updateAdmin _ _ _ _
  · exact allowed_deleteAdmin _ _
  · exact allowed_toggleAdminStatus _ _ _

end Allowed

/-! ## Runs -/

/-- The calls that have been started, and the table. -/
abbrev AdminPool := Pool AdminCall AdminStmt AdminInput AdminTable
  (Except Failure (Option AdminPublic))

abbrev AdminThread := Thread AdminCall AdminStmt AdminInput AdminTable
  (Except Failure (Option AdminPublic))

def clearanceOf (th : AdminThread) : Clearance := th.phase fun _ _ => clearance

/-- The call holds a clearance it may still use. -/
def holdsClearance (th : AdminThread) : Bool := !th.crashed && clearanceOf th = .cleared

/-- The number of clearances that are out. -/
def clearances (c : AdminPool) : Nat := c.threads.countP holdsClearance

/-- There is more than one active Super admin besides those that the clearances
may still take away. -/
def Spare (c : AdminPool) : Prop := clearances c + 1 < c.store.activeSupers

/-- A statement that does not endanger the last active Super admin: a count that
gives a clearance, and a write that takes an active Super admin away without
one, finds more than one to spare. -/
def GuardedStmt (c : AdminPool) (q : Clearance) (i : AdminInput) (l : AdminStmt) : Prop :=
  i.fault = none →
    (l = .countSupers ∧ 1 < c.store.activeSupers) ∨
      (c.store.takesSuper l = true ∧ q.covers l = false) → Spare c

/-- Every statement that is executed is guarded. -/
def Guarded (c : AdminPool) : Act AdminCall AdminInput Empty → Prop
  | .move j i => ∀ th ∈ c.threads[j]?, th.crashed = false → ∀ l ∈ th.upcoming,
    GuardedStmt c (clearanceOf th) i l
  | .start _ | .crash _ | .outside _ => True

instance (c : AdminPool) : Decidable (Spare c) :=
  inferInstanceAs (Decidable (clearances c + 1 < c.store.activeSupers))

instance (c : AdminPool) (q : Clearance) (i : AdminInput) (l : AdminStmt) :
    Decidable (GuardedStmt c q i l) :=
  inferInstanceAs (Decidable (i.fault = none →
    (l = .countSupers ∧ 1 < c.store.activeSupers) ∨
      (c.store.takesSuper l = true ∧ q.covers l = false) → Spare c))

instance (c : AdminPool) : DecidablePred (Guarded c)
  | .move j i => inferInstanceAs (Decidable (∀ th ∈ c.threads[j]?, th.crashed = false →
      ∀ l ∈ th.upcoming, GuardedStmt c (clearanceOf th) i l))
  | .start _ | .crash _ | .outside _ => isTrue trivial

/-- What every guarded run keeps: an active Super admin besides those the
clearances may take away. -/
def Safe (c : AdminPool) : Prop := clearances c < c.store.activeSupers

variable {c : AdminPool} {j : Nat} {th : AdminThread}

theorem clearances_set (th' : AdminThread) (hth : c.threads[j]? = some th) :
    (c.threads.set j th').countP holdsClearance + (holdsClearance th).toNat =
      clearances c + (holdsClearance th').toNat :=
  countP_replace holdsClearance hth th'

theorem eq_of_allows_of_fault (h : q.allows l i s s') (hinsert : l ≠ .insert)
    (hfault : i.fault ≠ none) : s' = s := by
  cases l with
  | select | countSupers | audit => exact h
  | insert => exact absurd rfl hinsert
  | update id role => exact h.resolve_right fun hex => hfault hex.1
  | delete id => exact h.resolve_right fun hex => hfault hex.1
  | setStatus id status => exact h.resolve_right fun hex => hfault hex.1

/-- What a statement does to the clearance of its call: it gives one, uses one
up, or leaves it alone. -/
theorem next_cases (q : Clearance) (l : AdminStmt) (i : AdminInput) (s : AdminTable) :
    (l = .countSupers ∧ i.fault = none ∧ 1 < s.activeSupers ∧ q = .idle ∧
        q.next l i s = .cleared) ∨
      (q.covers l = true ∧ q = .cleared ∧ q.next l i s = .spent) ∨
      (q.covers l = false ∧ q.next l i s = q) := by
  cases q with
  | idle =>
    cases l with
    | countSupers =>
      by_cases h : i.fault = none ∧ 1 < s.activeSupers
      · exact Or.inl ⟨rfl, h.1, h.2, rfl, if_pos h⟩
      · exact Or.inr (Or.inr ⟨rfl, if_neg h⟩)
    | _ => exact Or.inr (Or.inr ⟨rfl, rfl⟩)
  | cleared =>
    cases l with
    | setStatus id status => exact Or.inr (Or.inl ⟨rfl, rfl, rfl⟩)
    | _ => exact Or.inr (Or.inr ⟨rfl, rfl⟩)
  | spent => cases l <;> exact Or.inr (Or.inr ⟨rfl, rfl⟩)

/-- **One statement.** The guard makes up for every clearance that is given and
every active Super admin that is taken away. -/
theorem safe_move {th' : AdminThread} (hsafe : Safe c) (hth : c.threads[j]? = some th)
    (hlive : th.crashed = false) (hguard : GuardedStmt c (clearanceOf th) i l)
    (hallows : (clearanceOf th).allows l i c.store s)
    (hphase : clearanceOf th' = (clearanceOf th).next l i c.store) (hlive' : th'.crashed = false) :
    Safe { threads := c.threads.set j th', store := s } := by
  have hcount := clearances_set th' hth
  have htakes := activeSupers_le_of_allows hallows
  have hholds : holdsClearance th = decide (clearanceOf th = .cleared) := by
    simp [holdsClearance, hlive]
  have hholds' : holdsClearance th' = decide (clearanceOf th' = .cleared) := by
    simp [holdsClearance, hlive']
  show (c.threads.set j th').countP holdsClearance < s.activeSupers
  unfold Safe at hsafe
  rcases next_cases (clearanceOf th) l i c.store with ⟨rfl, hfault, hmore, hq, hnext⟩ |
    ⟨hcovers, hq, hnext⟩ | ⟨hcovers, hnext⟩
  · have hspare : clearances c + 1 < c.store.activeSupers :=
      hguard hfault (Or.inl ⟨rfl, hmore⟩)
    have hnone : c.store.takesSuper .countSupers = false := rfl
    rw [hnone, Bool.toNat_false] at htakes
    rw [hholds, hholds', hq, hphase, hnext] at hcount
    simp only [reduceCtorEq, decide_true, decide_false, Bool.toNat_true,
      Bool.toNat_false] at hcount
    omega
  · rw [hholds, hholds', hq, hphase, hnext] at hcount
    simp only [reduceCtorEq, decide_true, decide_false, Bool.toNat_true,
      Bool.toNat_false] at hcount
    have hone := Bool.toNat_le (c.store.takesSuper l)
    omega
  · rw [hholds, hholds', hphase, hnext] at hcount
    cases hsuper : c.store.takesSuper l with
    | false =>
      rw [hsuper, Bool.toNat_false] at htakes
      omega
    | true =>
      by_cases hfault : i.fault = none
      · have hspare : clearances c + 1 < c.store.activeSupers :=
          hguard hfault (Or.inr ⟨hsuper, hcovers⟩)
        rw [hsuper, Bool.toNat_true] at htakes
        omega
      · have hsame : s = c.store := by
          refine eq_of_allows_of_fault hallows ?_ hfault
          rintro rfl
          cases hsuper
        rw [hsame]
        omega

/-- **One step.** A guarded step keeps an active Super admin. -/
theorem safe_step {m : Mysql} {b : Bcrypt} {a : Act AdminCall AdminInput Empty}
    (hobey : Obeys (fun _ _ => clearance) (fun _ _ _ _ => True) c) (hsafe : Safe c)
    (hguarded : Guarded c a) : Safe ((endpoints m b).step c a) := by
  rcases step_cases (endpoints m b) hobey a with h | ⟨call, rfl, h⟩ |
    ⟨j, i, th, l, w, n, rfl, hth, hlive, hprog, -, hallows, h⟩ | ⟨j, th, rfl, hth, h⟩ | ⟨e, -⟩
  · rw [h]
    exact hsafe
  · rw [h]
    show (c.threads ++ [_]).countP holdsClearance < c.store.activeSupers
    rw [List.countP_append]
    exact hsafe
  · rw [h]
    refine safe_move hsafe hth hlive (hguarded th hth hlive l ?_) hallows ?_ hlive
    · simp [Thread.upcoming, hprog]
    · exact phase_advance (fun _ _ => clearance) th l i c.store (n i c.store)
  · rw [h]
    have hcount := clearances_set { th with crashed := true } hth
    have hnot : holdsClearance { th with crashed := true } = false := rfl
    rw [hnot, Bool.toNat_false] at hcount
    show (c.threads.set j _).countP holdsClearance < c.store.activeSupers
    unfold Safe at hsafe
    omega
  · exact e.elim

/-- The table before the first call. -/
def noCalls (s : AdminTable) : AdminPool := { threads := [], store := s }

/-- **A Super admin remains.** From every table with an active Super admin, in
every run whose statements are guarded there is one. -/
theorem active_super_remains {m : Mysql} {b : Bcrypt} {s : AdminTable} {c : AdminPool}
    (hs : 1 ≤ s.activeSupers) (h : (endpoints m b).Reach Guarded (noCalls s) c) :
    1 ≤ c.store.activeSupers := by
  have hinv : Obeys (fun _ _ => clearance) (fun _ _ _ _ => True) c ∧ Safe c := by
    refine h.inv (I := fun c => Obeys _ _ c ∧ Safe c) ⟨nofun, hs⟩ ?_
    rintro c a ⟨hobey, hsafe⟩ hguarded
    exact ⟨hobey.step (fun _ call => allowed_handle m b call _) a,
      safe_step hobey hsafe hguarded⟩
  have hsafe : clearances c < c.store.activeSupers := hinv.2
  omega

/-! ## The guards the endpoints lack -/

def onlySuper : AdminTable where
  rows := [⟨1, "13800138000", "root", "", 3, 1⟩]
  autoIncrement := 2
  primaryKey := by decide
  below := by decide

def twoSupers : AdminTable where
  rows := [⟨1, "13800138000", "root", "", 3, 1⟩, ⟨2, "13800138001", "peer", "", 3, 1⟩]
  autoIncrement := 3
  primaryKey := by decide
  below := by decide

/-- bcrypt for runs without passwords. -/
def noBcrypt : Bcrypt where
  hash := .ok
  verify p h := .ok (p = h)

/-- The only Super admin makes itself a Normal one. -/
def demoteSelf : List (Act AdminCall AdminInput Empty) :=
  [.start ⟨3, .update 1 "root" 1⟩, .move 0 {}, .move 0 {}, .move 0 {}, .move 0 {}]

/-- Two Super admins disable each other; both counts come before both writes. -/
def disableEachOther : List (Act AdminCall AdminInput Empty) :=
  [.start ⟨3, .toggleStatus 2 0⟩, .start ⟨3, .toggleStatus 1 0⟩,
    .move 0 {}, .move 0 {}, .move 0 {}, .move 1 {}, .move 1 {}, .move 1 {}, .move 0 {}, .move 1 {}]

/-- One call that changes a role, and two that disable, both leave no active Super
admin. -/
theorem no_active_super_remains :
    (onlySuper.activeSupers = 1 ∧
      ((endpoints .plain noBcrypt).run (noCalls onlySuper) demoteSelf).store.activeSupers = 0) ∧
    (twoSupers.activeSupers = 2 ∧
      ((endpoints .plain noBcrypt).run (noCalls twoSupers)
        disableEachOther).store.activeSupers = 0) := by
  decide +kernel

/-- One after the other, the second call is turned down. -/
theorem active_super_remains_in_turn :
    1 ≤ ((endpoints .plain noBcrypt).run (noCalls twoSupers)
      [.start ⟨3, .toggleStatus 2 0⟩, .start ⟨3, .toggleStatus 1 0⟩, .move 0 {}, .move 0 {},
        .move 0 {}, .move 0 {}, .move 1 {}, .move 1 {}, .move 1 {}]).store.activeSupers :=
  active_super_remains (s := twoSupers) (by decide) (System.reach_run (by decide +kernel))

end HiveClaw.Admins
