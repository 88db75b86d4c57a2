import Wardence.Accounts.World
/-!
# Login and account management

The `/login` and `/accounts` endpoints of `operator_api.py` as programs over
`World`, and the API as a process whose request handlers run at the same time.
An endpoint that has nothing to do with accounts is its `require_role`.
-/
namespace Wardence.Accounts

open Threads Code

/-- What a request handler runs. -/
abbrev Handler := Code World Stmt

def exec (s : Stmt) : Handler Unit := do let _ ← stmt s

/-- A read of the tables or the clock. -/
def look : Handler World := stmt .look

def openConn : Handler Unit := exec .look
def closeConn : Handler Unit := exec .look

def answer (a : Answer) : Handler Unit := exec (.answer a)

/-- `raise HTTPException(...)`. -/
def httpException (status : Nat) (detail : String) : Handler Unit := answer (.error ⟨status, detail⟩)

/-- A field of a body that Python counts as true. -/
def present (x : Option String) : Option String := x.filter (· ≠ "")

/-! ## Login -/

/-- Why `verify_login` refuses. -/
inductive Reason where
  | lockedOut
  | invalidCredentials
  | accountInactive
  | accountExpired
  deriving DecidableEq, Repr

def Reason.text : Reason → String
  | lockedOut => "locked_out"
  | invalidCredentials => "invalid_credentials"
  | accountInactive => "account_inactive"
  | accountExpired => "account_expired"

def verifyLogin (C : Crypto) (username password ip : String) : Handler (Except Reason Account) := do
  let w ← stmt (.isLockedOut username)
  if w.isLockedOut username then
    pure (.error .lockedOut)
  else do
    let w ← look
    match w.getAccount username with
    | none => do
      exec (.recordAttempt username false ip)
      pure (.error .invalidCredentials)
    | some account => do
      if !account.active then do
        exec (.recordAttempt username false ip)
        pure (.error .accountInactive)
      else do
        let w ← look
        if isExpired account w.clock then do
          exec (.recordAttempt username false ip)
          pure (.error .accountExpired)
        else do
          exec (.checkPassword username password account.passwordHash)
          if !C.checkpw password account.passwordHash then do
            exec (.recordAttempt username false ip)
            pure (.error .invalidCredentials)
          else do
            exec (.recordAttempt username true ip)
            pure (.ok account)

/-- `not totp_code or not verify_totp(secret, totp_code)`. -/
def badTotp (C : Crypto) (secret code : Option String) (now : Nat) : Bool :=
  match present code with
  | none => true
  | some c => !C.verify (secret.getD "") c now

/-- The session's token, and the answer. -/
def openSession (C : Crypto) (username ip : String) (account : Account) : Handler Unit := do
  let w ← look
  let sessionHours := match hoursUntilExpiry account w.clock with
    | none => DEFAULT_SESSION_HOURS
    | some remainingHours => min DEFAULT_SESSION_HOURS remainingHours
  let w ← stmt (.createToken account sessionHours username)
  let token := createToken C account.role sessionHours (some username) w.clock
  exec (.audit account.role.name "/login" "success" ip)
  closeConn
  answer (.session token account.role username)

def login (C : Crypto) (username password totpCode : Option String) (ip : String) : Handler Unit :=
  match present username, present password with
  | some username, some password => do
    openConn
    match ← verifyLogin C username password ip with
    | .error reason => do
      exec (.audit "unauthenticated" "/login" ("failed: " ++ reason.text) ip)
      closeConn
      if reason = .lockedOut then
        httpException 429 "too many failed attempts, try again later"
      else
        httpException 401 "invalid credentials"
    | .ok account => do
      if account.role = .admin then do
        let w ← stmt (.verifyTotp username account.totpSecret totpCode)
        if badTotp C account.totpSecret totpCode w.clock then do
          exec (.audit "unauthenticated" "/login" "failed: bad or missing TOTP code" ip)
          closeConn
          httpException 401 "invalid credentials"
        else
          openSession C username ip account
      else
        openSession C username ip account
  | _, _ => httpException 400 "username and password are required"

/-! ## Account management -/

/-- `Depends(require_role(...))`: the handler's body runs with the token's payload. -/
def withRole (C : Crypto) (allowedRoles : List Role) (authorization : Option String) (body : Payload → Handler Unit) :
    Handler Unit := do
  let w ← stmt (.requireRole allowedRoles authorization)
  match requireRole C allowedRoles authorization w.clock with
  | .error e => answer (.error e)
  | .ok payload => body payload

/-- `body["role"]`, with its default; `salt` and `totpSecret` are what
`bcrypt.gensalt` and `generate_totp_secret` draw. -/
def createAccountEndpoint (C : Crypto) (ip : String) (username password role : Option String) (expiresHours : Option ℚ)
    (salt totpSecret : String) (payload : Payload) : Handler Unit :=
  match present username, present password with
  | some username, some password =>
    match Role.named (role.getD "demo-trigger") with
    | none => httpException 400 ("role must be one of " ++ ", ".intercalate (ROLES.map Role.name))
    | some role => do
      openConn
      let w ← look
      if (w.getAccount username).isSome then do
        closeConn
        httpException 409 ("account '" ++ username ++ "' already exists")
      else do
        let totpSecret := if role = .admin then some totpSecret else none
        exec (.createAccount ⟨username, C.hashpw password salt, role, totpSecret, expiresHours⟩)
        exec (.audit payload.role.name "/accounts" ("created " ++ username ++ " (" ++ role.name ++ ")") ip)
        closeConn
        answer (.created username role expiresHours totpSecret)
  | _, _ => httpException 400 "username and password are required"

def listAccounts (w : World) : List (String × Role × Bool × Option ℚ × Nat) :=
  (w.accounts.mergeSort fun a b => a.createdAt ≤ b.createdAt).map
    fun a => (a.username, a.role, a.active, a.expiresAt, a.createdAt)

def listAccountsEndpoint (_ : Payload) : Handler Unit := do
  openConn
  let w ← look
  closeConn
  answer (.listed (listAccounts w))

def deleteAccountEndpoint (ip username : String) (payload : Payload) : Handler Unit := do
  openConn
  exec (.deleteAccount username)
  exec (.audit payload.role.name "/accounts/delete" username ip)
  closeConn
  answer (.deleted username)

/-- The two endpoints that set `active`. -/
def setActiveEndpoint (endpoint : String) (active : Bool) (ip username : String) (payload : Payload) : Handler Unit := do
  openConn
  exec (.setActive username active)
  exec (.audit payload.role.name endpoint username ip)
  closeConn
  answer (.active username active)

def revokeAccountEndpoint := setActiveEndpoint "/accounts/revoke" false

def reactivateAccountEndpoint := setActiveEndpoint "/accounts/reactivate" true

def changePasswordEndpoint (C : Crypto) (ip username : String) (newPassword : Option String) (salt : String)
    (payload : Payload) : Handler Unit :=
  if payload.username = some username then
    httpException 403 "cannot change your own password through this endpoint"
  else
    match present newPassword with
    | none => httpException 400 "new_password is required"
    | some newPassword => do
      openConn
      let w ← look
      if w.getAccount username = none then do
        closeConn
        httpException 404 ("no such account '" ++ username ++ "'")
      else do
        exec (.changePassword username (C.hashpw newPassword salt))
        exec (.audit payload.role.name "/accounts/password" username ip)
        closeConn
        answer (.passwordChanged username)

/-! ## The API -/

inductive Job where
  | login (username password totpCode : Option String) (ip : String)
  | createAccount (authorization : Option String) (ip : String) (username password role : Option String)
      (expiresHours : Option ℚ) (salt totpSecret : String)
  | listAccounts (authorization : Option String)
  | deleteAccount (authorization : Option String) (ip username : String)
  | revokeAccount (authorization : Option String) (ip username : String)
  | reactivateAccount (authorization : Option String) (ip username : String)
  | changePassword (authorization : Option String) (ip username : String) (newPassword : Option String) (salt : String)
  /-- A request to any other endpoint behind `require_role`. -/
  | request (allowedRoles : List Role) (authorization : Option String)
  deriving DecidableEq

def handler (C : Crypto) : Job → Handler Unit
  | .login u p c ip => login C u p c ip
  | .createAccount h ip u p r e s t => withRole C [.admin] h (createAccountEndpoint C ip u p r e s t)
  | .listAccounts h => withRole C [.admin] h listAccountsEndpoint
  | .deleteAccount h ip u => withRole C [.admin] h (deleteAccountEndpoint ip u)
  | .revokeAccount h ip u => withRole C [.admin] h (revokeAccountEndpoint ip u)
  | .reactivateAccount h ip u => withRole C [.admin] h (reactivateAccountEndpoint ip u)
  | .changePassword h ip u n s => withRole C [.admin] h (changePasswordEndpoint C ip u n s)
  | .request roles h => withRole C roles h fun _ => answer .served

/-- The API with its accounts: any number of requests at the same time. -/
def accountsApi (C : Crypto) : Machine World Stmt Job Env where
  app := app
  spawns _ := none
  body := handler C
  post _ w := some w
  env := env
  killed w := w

/-! ## An API to run -/

/-- The tokens it knows. -/
def rootPayload : Payload := ⟨.admin, some "root", 86400, 0⟩
def viewerPayload : Payload := ⟨.viewer, some "test", 86400, 0⟩

/-- Hashes and codes are what they stand for; two tokens have a name. -/
def plainCrypto : Crypto where
  hashpw p _ := p
  checkpw p h := p = h
  verify s c _ := s = c
  encode p := if p = rootPayload then "R" else if p = viewerPayload then "V" else ""
  decode t now :=
    if 86400 ≤ now then .error "Signature has expired"
    else if t = "R" then .ok rootPayload
    else if t = "V" then .ok viewerPayload
    else .error "Not enough segments"

/-- `n` statements of request `i`. -/
def steps (i n : Nat) : List (Move Job Env) := List.replicate n (.step i)

def noAccounts : World := ⟨[], [], 0, 0⟩

end Wardence.Accounts
