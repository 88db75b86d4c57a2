import Wardence.Lib.Threads
import Mathlib.Data.Rat.Floor
/-!
# Accounts, login attempts and tokens

The tables of `accounts.py` with the functions that read and write them, and the
tokens of `auth.py`. Times are seconds, as `datetime('now')` and a token's `exp`
have them. What `bcrypt`, `pyotp` and `PyJWT` compute is a parameter.
-/
namespace Wardence.Accounts

open Threads

inductive Role where
  | admin
  | demoTrigger
  | viewer
  deriving DecidableEq, Repr

def Role.name : Role → String
  | admin => "admin"
  | demoTrigger => "demo-trigger"
  | viewer => "viewer"

def ROLES : List Role := [.admin, .demoTrigger, .viewer]

def Role.named (s : String) : Option Role := ROLES.find? (·.name = s)

def MAX_FAILED_ATTEMPTS : Nat := 5
def LOCKOUT_WINDOW_MINUTES : Nat := 15
def DEFAULT_SESSION_HOURS : ℚ := 24

/-- A row of `accounts`. `serial` is no column: it tells the accounts apart that
have had the same username. -/
structure Account where
  username : String
  passwordHash : String
  role : Role
  totpSecret : Option String
  active : Bool
  expiresAt : Option ℚ
  createdAt : Nat
  serial : Nat
  deriving DecidableEq

structure LoginAttempt where
  username : String
  success : Bool
  ip : String
  attemptedAt : Nat
  deriving DecidableEq

structure World where
  accounts : List Account
  loginAttempts : List LoginAttempt
  clock : Nat
  /-- How many accounts were ever created. -/
  serials : Nat
  deriving DecidableEq

/-- What a token says. -/
structure Payload where
  role : Role
  username : Option String
  exp : ℚ
  iat : Nat
  deriving DecidableEq

/-- `bcrypt` (a hash is made with a salt), `pyotp` at a time, and `PyJWT` with the
API's secret, at the time of the decoding. -/
structure Crypto where
  hashpw : String → String → String
  checkpw : String → String → Bool
  verify : String → String → Nat → Bool
  encode : Payload → String
  decode : String → Nat → Except String Payload

/-- A token is valid up to the whole second of its `exp`. -/
def Crypto.Expires (C : Crypto) : Prop := ∀ p now q, C.decode (C.encode p) now = .ok q → (now : ℤ) < ⌊p.exp⌋

/-- FastAPI's: a status and a detail. -/
structure HTTPException where
  status : Nat
  detail : String
  deriving DecidableEq, Repr

/-! ## `accounts.py` -/

namespace World

def getAccount (w : World) (username : String) : Option Account := w.accounts.find? (·.username = username)

/-- The failed attempts for `username` at a `recent` time. -/
def failures (w : World) (username : String) (recent : Nat → Bool) : List LoginAttempt :=
  w.loginAttempts.filter fun a => a.username = username ∧ a.success = false ∧ recent a.attemptedAt

/-- `attempted_at > datetime('now', '-15 minutes')`. -/
def isLockedOut (w : World) (username : String) : Bool :=
  MAX_FAILED_ATTEMPTS ≤ (w.failures username fun t => w.clock < t + LOCKOUT_WINDOW_MINUTES * 60).length

end World

def isExpired (a : Account) (now : Nat) : Bool :=
  match a.expiresAt with
  | none => false
  | some e => e < now

/-- The account with serial number `s` is there, active, and has not expired. -/
def World.Stands (w : World) (s : Nat) : Prop :=
  ∃ a ∈ w.accounts, a.serial = s ∧ a.active = true ∧ isExpired a w.clock = false

instance (w : World) (s : Nat) : Decidable (w.Stands s) := by unfold World.Stands; infer_instance

def hoursUntilExpiry (a : Account) (now : Nat) : Option ℚ :=
  match a.expiresAt with
  | none => none
  | some e => some (max ((e - now) / 3600) 0)

/-- What `create_account` is to insert. -/
structure NewAccount where
  username : String
  passwordHash : String
  role : Role
  totpSecret : Option String
  expiresHours : Option ℚ
  deriving DecidableEq

/-- `admin accounts require a totp_secret`, and `username` is the primary key. -/
def World.createAccount (w : World) (n : NewAccount) : Option World :=
  if n.role = .admin ∧ n.totpSecret.all (· = "") then none
  else if (w.getAccount n.username).isSome then none
  else some { w with
    accounts := w.accounts ++ [⟨n.username, n.passwordHash, n.role, n.totpSecret, true,
      n.expiresHours.map (w.clock + 3600 * ·), w.clock, w.serials⟩]
    serials := w.serials + 1 }

/-! ## `auth.py` -/

def createToken (C : Crypto) (role : Role) (expiresHours : ℚ) (username : Option String) (now : Nat) : String :=
  C.encode ⟨role, username, now + 3600 * expiresHours, now⟩

/-- The token of an `Authorization` header. -/
def bearer (authorization : String) : Option String :=
  if "Bearer ".toList <+: authorization.toList then some (String.ofList (authorization.toList.drop 7)) else none

def requireRole (C : Crypto) (allowedRoles : List Role) (authorization : Option String) (now : Nat) :
    Except HTTPException Payload :=
  match authorization.bind bearer with
  | none => .error ⟨401, "missing or malformed Authorization header"⟩
  | some token =>
    match C.decode token now with
    | .error e => .error ⟨401, "invalid token: " ++ e⟩
    | .ok payload =>
      if payload.role ∈ allowedRoles then .ok payload
      else .error ⟨403, "role '" ++ payload.role.name ++ "' not permitted for this endpoint"⟩

/-! ## Statements -/

/-- What a handler answers: an `HTTPException`, or the body it returns. -/
inductive Answer where
  | error (e : HTTPException)
  | session (token : String) (role : Role) (username : String)
  | created (username : String) (role : Role) (expiresHours : Option ℚ) (totpSecret : Option String)
  | listed (accounts : List (String × Role × Bool × Option ℚ × Nat))
  | deleted (username : String)
  | active (username : String) (active : Bool)
  | passwordChanged (username : String)
  /-- Another endpoint's, past its `require_role`. -/
  | served
  deriving DecidableEq

inductive Stmt where
  | look
  | requireRole (allowedRoles : List Role) (authorization : Option String)
  /-- The `SELECT` of `_is_locked_out`. -/
  | isLockedOut (username : String)
  | checkPassword (username password passwordHash : String)
  /-- `not totp_code or not verify_totp(...)`. -/
  | verifyTotp (username : String) (secret code : Option String)
  | recordAttempt (username : String) (success : Bool) (ip : String)
  | createToken (a : Account) (expiresHours : ℚ) (username : String)
  | createAccount (n : NewAccount)
  | deleteAccount (username : String)
  | setActive (username : String) (active : Bool)
  | changePassword (username passwordHash : String)
  | audit (role endpoint detail ip : String)
  | answer (a : Answer)
  deriving DecidableEq

def World.modifyAccount (w : World) (username : String) (f : Account → Account) : World :=
  { w with accounts := w.accounts.map fun a => if a.username = username then f a else a }

/-- One statement, with its commit; `none` where it can only raise. -/
def app (s : Stmt) (w : World) : Option World :=
  match s with
  | .recordAttempt u b ip => some { w with loginAttempts := w.loginAttempts ++ [⟨u, b, ip, w.clock⟩] }
  | .createAccount n => w.createAccount n
  | .deleteAccount u => some { w with accounts := w.accounts.filter (·.username ≠ u) }
  | .setActive u b => some (w.modifyAccount u ({ · with active := b }))
  | .changePassword u h => some (w.modifyAccount u ({ · with passwordHash := h }))
  | .verifyTotp _ secret code => if secret = none ∧ code.any (· ≠ "") then none else some w
  | _ => some w

/-- What happens around the API process: time passes, and `create_admin_account.py`
or `create_viewer_account.py` creates an account. -/
inductive Env where
  | tick (d : Nat)
  | createAccount (n : NewAccount)
  deriving DecidableEq

def env (x : Env) (w : World) : World :=
  match x with
  | .tick d => { w with clock := w.clock + d }
  | .createAccount n => (w.createAccount n).getD w

end Wardence.Accounts
