import HiveClaw.Lib.Pool
import HiveClaw.RustStd
import HiveClaw.Store.Service

/-!
# Admins and their endpoints

The writing endpoints of `crates/hiveweb/src/api/admin.rs` over the functions of
`services/admin.rs`, with the role rules of `models/role.rs`. Every SQL statement
is a statement of its own: none of the endpoints opens a transaction.

The store is the table `admins` (migration V001). Its primary key is part of the
type, so that `WHERE id = ?` concerns at most one row. The columns with the times
are left out, and so are the audit rows, which no endpoint reads back.
-/

namespace HiveClaw.Admins

open Lib

/-! ## Roles -/

-- `Role`
inductive Role where
  | normal
  | system
  | super
deriving DecidableEq, Repr

namespace Role

-- `Role::try_from`
def tryFrom (value : Int) : Option Role :=
  if value = 1 then some .normal
  else if value = 2 then some .system
  else if value = 3 then some .super
  else none

-- `can_modify_admins`
def canModifyAdmins : Role → Bool
  | .system | .super => true
  | .normal => false

-- `can_delete_admins`
def canDeleteAdmins : Role → Bool
  | .super => true
  | _ => false

/-- Super may do it to everyone, System to everyone but Super, Normal to nobody. -/
def outranks : (caller target : Role) → Bool
  | .super, _ => true
  | .system, target => target ≠ .super
  | .normal, _ => false

-- `can_modify_role`
def canModifyRole (caller target : Role) : Bool := outranks caller target

-- `can_modify_target_admin`
def canModifyTargetAdmin (caller target : Role) : Bool := outranks caller target

-- `can_toggle_target_admin_status`
def canToggleTargetAdminStatus (caller target : Role) : Bool := outranks caller target

-- `can_delete_target_admin`
def canDeleteTargetAdmin (caller target : Role) : Bool :=
  caller = .super && target ≠ .super

end Role

/-! ## Validation -/

/-- `validate_phone`; `len` counts bytes. -/
def validatePhone (phone : String) : Except AppError Unit :=
  if phone.utf8ByteSize ≠ 11 then
    .error (.badRequest ("Phone must be exactly 11 digits, got " ++ toString phone.utf8ByteSize))
  else
    let chars := phone.toList
    if chars.all (fun c => '0' ≤ c && c ≤ '9') = false ∨ chars[0]? ≠ some '1' ∨
        (chars[1]?.any fun c => '3' ≤ c && c ≤ '9') = false then
      .error (.badRequest ("Phone format invalid: " ++ phone ++ " (expected ^1[3-9]\\d\x7b9\x7d$)"))
    else .ok ()

-- `validate_nickname`
def validateNickname (nickname : String) : Except AppError Unit :=
  if 2 ≤ nickname.length ∧ nickname.length ≤ 20 then .ok ()
  else .error
    (.badRequest ("Nickname must be 2-20 characters, got " ++ toString nickname.length))

/-- `validate_password`; `len` counts bytes. -/
def validatePassword (password : String) : Except AppError Unit :=
  if password.utf8ByteSize < 6 then
    .error (.badRequest "Password must be at least 6 characters")
  else if password.utf8ByteSize > 20 then
    .error (.badRequest "Password must be at most 20 characters")
  else if password.toList.any Char.isAlpha && password.toList.any Char.isDigit then .ok ()
  else .error (.badRequest "Password must contain both letters and digits")

structure Bcrypt where
  hash : String → Except String String
  verify : (password hash : String) → Except String Bool

-- `hash_password`
def hashPassword (b : Bcrypt) (password : String) : Except AppError String := do
  validatePassword password
  (b.hash password).mapError fun e => .internal ("Failed to hash password: " ++ e)

/-! ## The table -/

/-- A row of `admins`. -/
structure Admin where
  id : Int
  phone : String
  nickname : String
  passwordHash : String
  role : Int
  status : Int
deriving DecidableEq, Repr

/-- The table `admins`. -/
structure AdminTable where
  rows : List Admin
  autoIncrement : Int
  primaryKey : (rows.map Admin.id).Nodup
  below : ∀ a ∈ rows, a.id < autoIncrement

namespace AdminTable

-- `SELECT * FROM admins WHERE id = ?`
def byId (s : AdminTable) (id : Int) : Option Admin := s.rows.find? fun a => a.id = id

-- `SELECT * FROM admins WHERE phone = ?`
def byPhone (s : AdminTable) (m : Mysql) (phone : String) : Option Admin :=
  s.rows.find? fun a => m.collationKey a.phone = m.collationKey phone

-- `SELECT COUNT(*) FROM admins WHERE role = 3 AND status = 1`
def activeSupers (s : AdminTable) : Nat := s.rows.countP fun a => a.role = 3 && a.status = 1

-- `INSERT INTO admins`
def insert (s : AdminTable) (phone nickname passwordHash : String) (role : Int) : AdminTable where
  rows := s.rows ++ [{ id := s.autoIncrement, phone, nickname, passwordHash, role, status := 1 }]
  autoIncrement := s.autoIncrement + 1
  primaryKey := by
    rw [List.map_append, List.nodup_append]
    refine ⟨s.primaryKey, List.nodup_singleton _, ?_⟩
    intro id hid id' hid'
    obtain ⟨a, ha, rfl⟩ := List.mem_map.mp hid
    rw [List.mem_singleton.mp hid']
    exact (s.below a ha).ne
  below := by
    intro a ha
    rcases List.mem_append.mp ha with ha | ha
    · exact (s.below a ha).trans (Int.lt_succ _)
    · rw [List.mem_singleton.mp ha]
      exact Int.lt_succ _

-- `UPDATE admins SET … WHERE id = ?`
def modify (s : AdminTable) (id : Int) (g : Admin → Admin) (hg : ∀ a, (g a).id = a.id) :
    AdminTable where
  rows := s.rows.map fun a => if a.id = id then g a else a
  autoIncrement := s.autoIncrement
  primaryKey := by
    have hids : (s.rows.map fun a => if a.id = id then g a else a).map Admin.id =
        s.rows.map Admin.id := by
      rw [List.map_map]
      refine List.map_congr_left fun a _ => ?_
      show (if a.id = id then g a else a).id = a.id
      split
      · exact hg a
      · rfl
    rw [hids]
    exact s.primaryKey
  below := by
    intro a ha
    obtain ⟨b, hb, rfl⟩ := List.mem_map.mp ha
    split
    · rw [hg]
      exact s.below b hb
    · exact s.below b hb

-- `DELETE FROM admins WHERE id = ?`
def delete (s : AdminTable) (id : Int) : AdminTable where
  rows := s.rows.filter fun a => a.id ≠ id
  autoIncrement := s.autoIncrement
  primaryKey := s.primaryKey.sublist (List.filter_sublist.map _)
  below := fun a ha => s.below a (List.mem_of_mem_filter ha)

end AdminTable

/-! ## Statements -/

/-- The label of a statement; a write carries what decides its effect. -/
inductive AdminStmt where
  | select
  | insert
  | update (id role : Int)
  | delete (id : Int)
  | countSupers
  | setStatus (id status : Int)
  | audit
deriving DecidableEq, Repr

/-- What a statement meets: the driver's error if the server fails, and its text
for a phone number that is taken. -/
structure AdminInput where
  fault : Option String := none
  duplicate : String := "Duplicate entry for key 'admins.phone'"

/-- A request over the table; the functions of `services/admin.rs` fail with the
text of an `anyhow::Error`. -/
abbrev AdminM (ε α : Type) := ExceptT ε (Prog AdminStmt AdminInput AdminTable) α

variable {α : Type}

def query (l : AdminStmt) (read : AdminTable → α) : AdminM String α :=
  ExceptT.mk <| Prog.read l fun i s =>
    match i.fault with
    | some e => .error e
    | none => .ok (read s)

/-- A statement that writes; it leaves the table alone when it fails. -/
def execute (l : AdminStmt) (write : AdminInput → AdminTable → Except String (α × AdminTable)) :
    AdminM String α :=
  ExceptT.mk <| Prog.modify l fun i s =>
    match i.fault with
    | some e => (.error e, s)
    | none =>
      match write i s with
      | .error e => (.error e, s)
      | .ok (a, s') => (.ok a, s')

/-! ## `services/admin.rs` -/

-- `opt.ok_or_else(|| anyhow!(e))?`
def okOr (o : Option α) (e : String) : AdminM String α :=
  match o with
  | some a => pure a
  | none => throw e

-- `get_admin_by_id`
def getAdminById (id : Int) : AdminM String (Option Admin) := query .select (·.byId id)

-- `create_admin`
def createAdminRow (m : Mysql) (phone nickname passwordHash : String) (role : Int) :
    AdminM String Admin := do
  let existing ← query .select (·.byPhone m phone)
  if existing.isSome then
    throw "Phone number already exists"
  else
    let id ← execute .insert fun i s =>
      if (s.byPhone m phone).isSome then .error i.duplicate
      else .ok (s.autoIncrement, s.insert phone nickname passwordHash role)
    let admin ← getAdminById id
    okOr admin "no rows returned by a query that expected to return at least one row"

def Admin.setProfile (nickname : String) (role : Int) (a : Admin) : Admin :=
  { a with nickname := nickname, role := role }

def Admin.setStatus (status : Int) (a : Admin) : Admin := { a with status := status }

theorem Admin.setStatus_id (status : Int) (a : Admin) : (a.setStatus status).id = a.id := rfl

/-- `update_admin`. The driver reports the rows the statement matched. -/
def updateAdminRow (id : Int) (nickname : String) (role : Int) : AdminM String Admin := do
  let found ← execute (.update id role) fun _ s =>
    .ok ((s.byId id).isSome, s.modify id (Admin.setProfile nickname role) fun _ => rfl)
  if found = false then
    throw "Admin not found"
  else
    let admin ← getAdminById id
    okOr admin "Admin not found after update"

-- `Role::try_from(admin.role).map_err(|_| anyhow!("Invalid role"))?`
def roleOf (a : Admin) : AdminM String Role := okOr (Role.tryFrom a.role) "Invalid role"

-- `delete_admin`
def deleteAdminRow (id : Int) : AdminM String Unit := do
  let found ← getAdminById id
  let admin ← okOr found "Admin not found"
  let role ← roleOf admin
  if role = .super then
    throw "Cannot delete super admin"
  else
    execute (.delete id) fun _ s => .ok ((), s.delete id)

-- `toggle_admin_status`
def toggleAdminRow (id status : Int) : AdminM String Admin := do
  let found ← getAdminById id
  let admin ← okOr found "Admin not found"
  let role ← roleOf admin
  if role = .super ∧ status = 0 then
    let superAdminCount ← query .countSupers (·.activeSupers)
    if superAdminCount ≤ 1 then
      throw "Cannot disable the last active super admin"
  execute (.setStatus id status) fun _ s =>
    .ok ((), s.modify id (Admin.setStatus status) fun _ => rfl)
  let updated ← getAdminById id
  okOr updated "Admin not found after status update"

/-! ## `api/admin.rs` -/

-- `AdminPublic`
structure AdminPublic where
  id : Int
  phone : String
  nickname : String
  role : Int
  status : Int
deriving DecidableEq, Repr

-- `AdminPublic::from`
def Admin.toPublic (a : Admin) : AdminPublic :=
  { id := a.id, phone := a.phone, nickname := a.nickname, role := a.role, status := a.status }

-- `return e.into_response()`
def fail (e : AppError) : AdminM Failure α := throw (.error e)

-- `if c { return e.into_response() }`
def failIf (c : Prop) [Decidable c] (e : AppError) : AdminM Failure Unit :=
  if c then fail e else pure ()

-- `match r { Ok(a) => a, Err(e) => return e.into_response() }`
def check (r : Except AppError α) : AdminM Failure α :=
  match r with
  | .ok a => pure a
  | .error e => fail e

/-- The role of the caller, from the token. -/
def callerRole (role : Int) : AdminM Failure Role :=
  match Role.tryFrom role with
  | some r => pure r
  | none => fail (.insufficientPermission "Invalid role in token")

-- `Role::try_from(admin.role).unwrap()`
def storedRole (a : Admin) : AdminM Failure Role :=
  match Role.tryFrom a.role with
  | some r => pure r
  | none => throw (.panic "called `Result::unwrap()` on an `Err` value: Invalid role")

/-- `audit_event`: reads the operator and writes an audit row; errors are logged. -/
def auditEvent : AdminM Failure Unit := ExceptT.lift (Prog.read .audit fun _ _ => ())

-- `create_admin`
def createAdmin (m : Mysql) (b : Bcrypt) (caller : Int) (phone nickname password : String)
    (role : Int) : AdminM Failure (Option AdminPublic) := do
  let caller ← callerRole caller
  failIf (caller.canModifyAdmins = false) (.insufficientPermission "Insufficient permissions")
  check (validatePhone phone)
  check (validateNickname nickname)
  match Role.tryFrom role with
  | none => fail (.badRequest "Invalid role value")
  | some target =>
    failIf (caller.canModifyRole target = false)
      (.insufficientPermission "Cannot assign this role")
    let hash ← check (hashPassword b password)
    let admin ← ExceptT.adapt (fun e => Failure.error
      (if RustStr.contains e "already exists" then
        .phoneAlreadyExists "Phone number already exists"
      else .internal "Service unavailable")) (createAdminRow m phone nickname hash role)
    auditEvent
    pure (some admin.toPublic)

-- `update_admin`
def updateAdmin (caller id : Int) (nickname : String) (role : Int) :
    AdminM Failure (Option AdminPublic) := do
  let caller ← callerRole caller
  failIf (caller.canModifyAdmins = false) (.insufficientPermission "Insufficient permissions")
  check (validateNickname nickname)
  match Role.tryFrom role with
  | none => fail (.badRequest "Invalid role value")
  | some target =>
    failIf (caller.canModifyRole target = false)
      (.insufficientPermission "Cannot assign this role")
    let found ← ExceptT.adapt (fun _ => Failure.error (.internal "Service unavailable"))
      (getAdminById id)
    match found with
    | none => fail (.adminNotFound "Admin not found")
    | some admin =>
      let adminRole ← storedRole admin
      failIf (caller.canModifyTargetAdmin adminRole = false)
        (.insufficientPermission "Cannot modify this admin's profile")
      let updated ← ExceptT.adapt (fun _ => Failure.error (.adminNotFound "Admin not found"))
        (updateAdminRow id nickname role)
      auditEvent
      pure (some updated.toPublic)

/-- What the endpoints that delete and disable make of an error text. -/
def deleteError (msg : String) : Failure :=
  if RustStr.contains msg "not found" then .error (.adminNotFound msg)
  else if RustStr.contains msg "super admin" then .error (.cannotDeleteSuperAdmin msg)
  else .error (.internal "Service unavailable")

def toggleError (msg : String) : Failure :=
  if RustStr.contains msg "not found" then .error (.adminNotFound msg)
  else if RustStr.contains msg "last active super admin" then
    .error (.cannotDisableLastSuperAdmin msg)
  else .error (.internal "Service unavailable")

/-- The row an endpoint looks at before it acts; a failing read counts as no row. -/
def peek (id : Int) : AdminM Failure (Option Admin) :=
  ExceptT.lift (Prog.bind (getAdminById id).run fun r => .done (r.toOption.getD none))

-- `delete_admin`
def deleteAdmin (caller id : Int) : AdminM Failure (Option AdminPublic) := do
  let caller ← callerRole caller
  failIf (caller.canDeleteAdmins = false) (.insufficientPermission "Insufficient permissions")
  let target ← peek id
  match target with
  | none => pure ()
  | some admin =>
    let adminRole ← storedRole admin
    failIf (adminRole = .super) (.cannotDeleteSuperAdmin "Cannot delete super admin")
    failIf (caller.canDeleteTargetAdmin adminRole = false)
      (.insufficientPermission "Cannot delete this admin")
  ExceptT.adapt deleteError (deleteAdminRow id)
  auditEvent
  pure none

-- `toggle_admin_status`
def toggleAdminStatus (caller id status : Int) : AdminM Failure (Option AdminPublic) := do
  let caller ← callerRole caller
  failIf (caller.canModifyAdmins = false) (.insufficientPermission "Insufficient permissions")
  failIf (status ≠ 0 ∧ status ≠ 1) (.badRequest "Status must be 0 or 1")
  let target ← peek id
  match target with
  | none => pure ()
  | some admin =>
    let adminRole ← storedRole admin
    failIf (caller.canToggleTargetAdminStatus adminRole = false)
      (.insufficientPermission "Cannot toggle this admin's status")
  let admin ← ExceptT.adapt toggleError (toggleAdminRow id status)
  auditEvent
  pure (some admin.toPublic)

inductive AdminRequest where
  | create (phone nickname password : String) (role : Int)
  | update (id : Int) (nickname : String) (role : Int)
  | delete (id : Int)
  | toggleStatus (id status : Int)
deriving DecidableEq, Repr

/-- A request with the role in its token. -/
structure AdminCall where
  role : Int
  request : AdminRequest
deriving DecidableEq, Repr

/-- The endpoint a request is routed to. -/
def handle (m : Mysql) (b : Bcrypt) (call : AdminCall) : AdminM Failure (Option AdminPublic) :=
  match call.request with
  | .create phone nickname password role => createAdmin m b call.role phone nickname password role
  | .update id nickname role => updateAdmin call.role id nickname role
  | .delete id => deleteAdmin call.role id
  | .toggleStatus id status => toggleAdminStatus call.role id status

/-- The endpoints, interleaved; nothing else writes the table. -/
def endpoints (m : Mysql) (b : Bcrypt) :
    System AdminCall AdminStmt AdminInput AdminTable (Except Failure (Option AdminPublic))
      Empty where
  program _ call := (handle m b call).run
  outside := nofun

end HiveClaw.Admins
