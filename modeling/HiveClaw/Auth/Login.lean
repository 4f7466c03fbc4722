import HiveClaw.Admins.Service
import HiveClaw.Lib.ExpiringCounter

/-!
# Login, change of password and the failure counter

`login` and `change_password` of `crates/hiveweb/src/api/auth.rs` with the
functions of `services/auth.rs` that lock an account: the counter
`login_failed:{phone}` is incremented for every failure, gets an expiry of 15
minutes when it reaches `MAX_LOGIN_ATTEMPTS`, and an account whose counter has an
expiry is locked.

All requests are for one phone number, so the store is that one key. What the
database answers is part of the input of a statement; bcrypt enters as the
predicate it computes.
-/

namespace HiveClaw.Auth

open Lib Admins

-- `MAX_LOGIN_ATTEMPTS`
def maxLoginAttempts : Int := 5

-- `LOCK_DURATION_SECONDS`
def lockDurationSeconds : Nat := 900

/-! ## Statements -/

/-- What a request says to Redis and the database. The verification of the
password that is asked for is local; it is a statement here to have a place in
the order of events, and carries its outcome. -/
inductive AuthStmt where
  | ttl
  | admin
  | verify (outcome : Except String Bool)
  | incr
  | expire
  | del
  | lastLogin
  | loginRecord
  | updatePassword

/-- The answers to one statement; a statement reads the field that concerns it. -/
structure AuthInput where
  reply : Reply := .answered
  admin : Except String (Option Admin) := .ok none
  updated : Except String Unit := .ok ()

abbrev AuthM (ε α : Type) := ExceptT ε (Prog AuthStmt AuthInput Counter) α

variable {ε α : Type}

/-- A statement that does not concern the counter. -/
def ask (l : AuthStmt) (f : AuthInput → α) : AuthM ε α :=
  ExceptT.lift (Prog.read l fun i _ => f i)

/-- A Redis command that changes the counter; an error of Redis is an error of
the command, whether it was executed or not. -/
def command (l : AuthStmt) (answer : Counter → α) (write : Counter → Counter) : AuthM Unit α :=
  ExceptT.mk <| Prog.modify l fun i c =>
    match i.reply with
    | .answered => (.ok (answer c), write c)
    | .lost => (.error (), write c)
    | .refused => (.error (), c)

/-! ## `services/auth.rs` -/

-- `is_account_locked`
def isAccountLocked : AuthM Unit Bool := do
  let ttl ← command .ttl Counter.ttlSeconds id
  pure (ttl > 0)

-- `increment_failed_attempts`
def incrementFailedAttempts : AuthM Unit Int := do
  let count ← command .incr (fun c => c.count + 1) (·.add 1)
  if count = maxLoginAttempts then
    command .expire (fun _ => ()) (·.expire (lockDurationSeconds * 1000))
  pure count

-- `reset_failed_attempts`
def resetFailedAttempts : AuthM Unit Unit := command .del (fun _ => ()) Counter.drop

/-! ## `api/auth.rs` -/

/-- bcrypt and the signing of tokens. -/
structure Config where
  bcrypt : Bcrypt
  createAdminToken : (adminId role : Int) → Except String String

/-- `LoginResponse`, or the empty body of `change_password`. -/
inductive AuthResponse where
  | loggedIn (token : String) (admin : AdminPublic)
  | passwordChanged
deriving DecidableEq, Repr

-- `let _ = r`
def ignore (m : AuthM Unit α) : AuthM ε Unit :=
  ExceptT.lift (Prog.bind m.run fun _ => .done ())

-- `if c { return e.into_response() }`
def failIf (c : Prop) [Decidable c] (e : AppError) : AuthM AppError Unit :=
  if c then throw e else pure ()

def unavailable : AppError := .internal "Service unavailable"

/-- An error of Redis that ends the request. -/
def orUnavailable (m : AuthM Unit α) : AuthM AppError α := ExceptT.adapt (fun _ => unavailable) m

/-- `verify_password` of the password that is asked for. -/
def verifyPassword (cfg : Config) (password hash : String) : AuthM AppError Bool :=
  let outcome := cfg.bcrypt.verify password hash
  ExceptT.mk <| Prog.read (.verify outcome) fun _ _ => outcome.mapError fun _ => unavailable

/-- `get_admin_by_id(…)`, where it has to be there. -/
def requireAdmin : AuthM AppError Admin := do
  match ← ask .admin (·.admin) with
  | .ok (some admin) => pure admin
  | .ok none => throw (.adminNotFound "Admin not found")
  | .error _ => throw unavailable

/-- `login`, after a wrong password. -/
def loginFailed : AuthM AppError AuthResponse := do
  let failedCount ← orUnavailable incrementFailedAttempts
  ask .loginRecord fun _ => ()
  failIf (5 - failedCount ≤ 0) (.accountLocked
    "Account locked due to too many failed login attempts. Try again in 15 minutes")
  throw (.wrongPassword ("Invalid phone or password. " ++ toString (5 - failedCount) ++
    " attempts remaining"))

/-- `login`, after the right password. -/
def loginSucceeded (cfg : Config) (admin : Admin) : AuthM AppError AuthResponse := do
  ignore resetFailedAttempts
  ask .lastLogin fun _ => ()
  ask .loginRecord fun _ => ()
  match cfg.createAdminToken admin.id admin.role with
  | .error _ => throw (.internal "Failed to generate token")
  | .ok token => pure (.loggedIn token admin.toPublic)

-- `login`
def login (cfg : Config) (password : String) : AuthM AppError AuthResponse := do
  let isLocked ← orUnavailable isAccountLocked
  failIf (isLocked = true) (.accountLocked
    "Account locked due to too many failed login attempts. Try again in 15 minutes")
  match ← ask .admin (·.admin) with
  | .error _ => throw unavailable
  | .ok none =>
    ignore incrementFailedAttempts
    throw (.wrongPassword "Invalid phone or password")
  | .ok (some admin) =>
    failIf (admin.status = 0) (.accountDisabled "Account has been disabled")
    failIf (Role.tryFrom admin.role = none) (.internal "Invalid role configuration")
    let passwordValid ← verifyPassword cfg password admin.passwordHash
    if passwordValid = false then loginFailed else loginSucceeded cfg admin

/-- `change_password`, after the right old password. -/
def replacePassword (cfg : Config) (admin : Admin) (newPassword : String) :
    AuthM AppError AuthResponse := do
  match cfg.bcrypt.verify newPassword admin.passwordHash with
  | .error _ => throw unavailable
  | .ok oldMatchesNew =>
    failIf (oldMatchesNew = true)
      (.newPasswordSameAsOld "New password cannot be the same as old password")
    match validatePassword newPassword with
    | .error e => throw e
    | .ok () =>
      match hashPassword cfg.bcrypt newPassword with
      | .error _ => throw (.internal "Failed to hash password")
      | .ok _ =>
        match ← ask .updatePassword (·.updated) with
        | .error _ => throw (.internal "Failed to update password")
        | .ok () =>
          ignore resetFailedAttempts
          pure .passwordChanged

/-- `change_password`; `adminId` is that of the token. -/
def changePassword (cfg : Config) (adminId : Option Int) (oldPassword newPassword : String) :
    AuthM AppError AuthResponse := do
  failIf (adminId = none) (.adminNotFound "Admin not found")
  let _ ← requireAdmin
  let isLocked ← orUnavailable isAccountLocked
  failIf (isLocked = true) (.accountLocked
    "Account locked due to too many failed attempts. Try again in 15 minutes")
  let admin ← requireAdmin
  let oldValid ← verifyPassword cfg oldPassword admin.passwordHash
  if oldValid = false then
    ignore incrementFailedAttempts
    throw (.wrongPassword "Old password is incorrect")
  else
    replacePassword cfg admin newPassword

/-- A request for the phone number. -/
inductive AuthRequest where
  | login (password : String)
  | changePassword (adminId : Option Int) (oldPassword newPassword : String)
deriving DecidableEq, Repr

/-- The endpoint a request is routed to. -/
def handle (cfg : Config) : AuthRequest → AuthM AppError AuthResponse
  | .login password => login cfg password
  | .changePassword adminId oldPassword newPassword =>
    changePassword cfg adminId oldPassword newPassword

/-- The requests for one phone number, interleaved; from outside comes the time
that passes, in milliseconds. -/
def logins (cfg : Config) :
    System AuthRequest AuthStmt AuthInput Counter (Except AppError AuthResponse) Nat where
  program _ r := (handle cfg r).run
  outside := Counter.elapse

end HiveClaw.Auth
