import Wardence.Accounts.Endpoints
/-!
# What a login does, in order

The typestate discipline of the API's requests: a login reads the count of failed
attempts, compares the password, and records the attempt, in this order and each
at most once. No other request does any of this.
-/
namespace Wardence.Accounts

open Threads Code

inductive Phase where
  /-- Compares nothing any more, or never did. -/
  | idle
  /-- A login before its lockout check. -/
  | fresh
  /-- Found `username` not locked out at time `c`. -/
  | asked (username : String) (c : Nat)
  /-- Then found the password wrong at time `t`. -/
  | failed (username : String) (c t : Nat)
  /-- Has recorded that. -/
  | recorded (username : String)
  | dead
  deriving DecidableEq

/-- A statement that no lockout depends on. -/
def Stmt.Calm : Stmt → Prop
  | .isLockedOut _ | .checkPassword .. | .verifyTotp .. | .recordAttempt .. => False
  | _ => True

inductive Rule (C : Crypto) : Phase → Stmt → World → Phase → Prop
  | calm {φ s w} : φ = .idle ∨ (∃ u, φ = .recorded u) → s.Calm → Rule C φ s w φ
  | look {φ w} : φ ≠ .dead → Rule C φ .look w φ
  | refuse {a w} : Rule C .fresh (.answer a) w .idle
  | locked {u w} : w.isLockedOut u = true → Rule C .fresh (.isLockedOut u) w .idle
  | ask {u w} : w.isLockedOut u = false → Rule C .fresh (.isLockedOut u) w (.asked u w.clock)
  | right {u c p h w} : C.checkpw p h = true → Rule C (.asked u c) (.checkPassword u p h) w (.asked u c)
  | wrong {u c p h w} : C.checkpw p h = false → Rule C (.asked u c) (.checkPassword u p h) w (.failed u c w.clock)
  | record {u c b ip w} : Rule C (.asked u c) (.recordAttempt u b ip) w .idle
  | recordFailed {u c t ip w} : Rule C (.failed u c t) (.recordAttempt u false ip) w (.recorded u)
  | totp {u x c w} : Rule C .idle (.verifyTotp u x c) w .idle

namespace Phase

/-- The thread is between the count and the record for `username`. -/
def On (username : String) : Phase → Prop
  | asked u _ | failed u _ _ => u = username
  | _ => False

def Rests : Phase → Prop
  | idle | recorded _ | dead => True
  | _ => False

end Phase

def Job.entry : Job → Phase
  | .login .. => .fresh
  | _ => .idle

def discipline (C : Crypto) : Typestate World Stmt Job Phase where
  entry := Job.entry
  rule := Rule C
  fault _ _ := .dead
  rests := Phase.Rests
  mine _ _ := True
  mine_entry _ := trivial
  mine_rule _ _ := trivial
  mine_fault _ _ := trivial

section Programs
variable {C : Crypto} {α β : Type} {φ : Phase}

abbrev Keeps (C : Crypto) (p : Handler α) (φ : Phase) (Q : α → Phase → Prop) : Prop :=
  Obeys (accountsApi C) (discipline C) p φ Q Phase.Rests

theorem keeps_bind {p : Handler α} {f : α → Handler β} {Q : β → Phase → Prop}
    (h : Keeps C p φ fun a ψ => Keeps C (f a) ψ Q) : Keeps C (p >>= f) φ Q := Obeys.graft h

theorem keeps_stmt {s : Stmt} {Q : World → Phase → Prop} (h : ∀ w, ∃ φ', Rule C φ s w φ' ∧ Q w φ') :
    Keeps C (stmt s) φ Q := ⟨fun w _ _ => h w, trivial⟩

theorem keeps_exec {s : Stmt} {Q : Unit → Phase → Prop} (h : ∀ w, ∃ φ', Rule C φ s w φ' ∧ Q () φ') :
    Keeps C (exec s) φ Q := ⟨fun w _ _ => h w, trivial⟩

theorem calm_exec {s : Stmt} (h : s.Calm) : (exec s).Only Stmt.Calm := ⟨h, fun _ => trivial, rfl⟩

theorem calm_look : look.Only Stmt.Calm := ⟨trivial, fun _ => trivial, rfl⟩

/-- A calm program where nothing is at stake. -/
theorem keeps_calm {p : Handler α} (hp : p.Only Stmt.Calm) (hφ : φ = .idle ∨ ∃ u, φ = .recorded u) {Q : α → Phase → Prop}
    (hq : ∀ a, Q a φ) : Keeps C p φ Q :=
  hp.obeys (fun _ _ hs => .calm hφ hs) (fun _ _ => trivial) (by rcases hφ with rfl | ⟨u, rfl⟩ <;> trivial) hq

theorem calm_openConn : openConn.Only Stmt.Calm := calm_exec (s := .look) trivial
theorem calm_closeConn : closeConn.Only Stmt.Calm := calm_exec (s := .look) trivial
theorem calm_answer {a : Answer} : (answer a).Only Stmt.Calm := calm_exec (s := .answer a) trivial

/-- An entry in the audit log, and the answer. -/
theorem calm_close {role endpoint detail ip : String} {a : Answer} :
    (do exec (.audit role endpoint detail ip); closeConn; answer a : Handler Unit).Only Stmt.Calm :=
  (calm_exec (s := .audit role endpoint detail ip) trivial).graft fun _ => calm_closeConn.graft fun _ => calm_answer

theorem calm_openSession {u ip : String} {a : Account} : (openSession C u ip a).Only Stmt.Calm :=
  calm_look.graft fun _ => ⟨trivial, fun _ => calm_close, rfl⟩

theorem calm_withRole {roles : List Role} {h : Option String} {body : Payload → Handler Unit}
    (hb : ∀ p, (body p).Only Stmt.Calm) : (withRole C roles h body).Only Stmt.Calm := by
  refine ⟨trivial, fun w => ?_, rfl⟩
  simp only [graft_done]
  split
  · exact calm_answer
  · exact hb _

/-- Refused after a look at the accounts, or else one write, the audit log and the answer. -/
theorem calm_unless {P : World → Prop} [DecidablePred P] {statusCode : Nat} {detail : String} {rest : World → Handler Unit}
    (h : ∀ w, (rest w).Only Stmt.Calm) : (do
      openConn
      let w ← look
      if P w then do
        closeConn
        httpException statusCode detail
      else rest w).Only Stmt.Calm := by
  refine calm_openConn.graft fun _ => calm_look.graft fun w => ?_
  split
  · exact calm_closeConn.graft fun _ => calm_answer
  · exact h w

theorem calm_createAccountEndpoint {ip s t : String} {u p r : Option String} {e : Option ℚ} {q : Payload} :
    (createAccountEndpoint C ip u p r e s t q).Only Stmt.Calm := by
  unfold createAccountEndpoint
  split
  · split
    · exact calm_answer
    · exact calm_unless fun w => ⟨trivial, fun _ => calm_close, rfl⟩
  · exact calm_answer

theorem calm_changePasswordEndpoint {ip u s : String} {n : Option String} {q : Payload} :
    (changePasswordEndpoint C ip u n s q).Only Stmt.Calm := by
  unfold changePasswordEndpoint
  split
  · exact calm_answer
  · split
    · exact calm_answer
    · exact calm_unless fun w => ⟨trivial, fun _ => calm_close, rfl⟩

theorem calm_setActiveEndpoint {endpoint ip u : String} {b : Bool} {q : Payload} :
    (setActiveEndpoint endpoint b ip u q).Only Stmt.Calm :=
  calm_openConn.graft fun _ => ⟨trivial, fun _ => calm_close, rfl⟩

theorem calm_deleteAccountEndpoint {ip u : String} {q : Payload} : (deleteAccountEndpoint ip u q).Only Stmt.Calm :=
  calm_openConn.graft fun _ => ⟨trivial, fun _ => calm_close, rfl⟩

theorem calm_listAccountsEndpoint {q : Payload} : (listAccountsEndpoint q).Only Stmt.Calm :=
  calm_openConn.graft fun _ => calm_look.graft fun _ => calm_closeConn.graft fun _ => calm_answer

/-- What `verify_login` leaves: an account, or a refusal that is recorded. -/
def Verified : Except Reason Account → Phase → Prop
  | .ok _, φ => φ = .idle
  | .error _, φ => φ = .idle ∨ ∃ u, φ = .recorded u

theorem keeps_record {u ip : String} {b : Bool} {c : Nat} {r : Except Reason Account} (hr : Verified r .idle) :
    Keeps C (do exec (.recordAttempt u b ip); pure r) (.asked u c) Verified :=
  keeps_bind (keeps_exec fun _ => ⟨_, .record, hr⟩)

theorem keeps_verifyLogin {u p ip : String} : Keeps C (verifyLogin C u p ip) .fresh Verified := by
  have hlook : ∀ {c : Nat} {f : World → Handler (Except Reason Account)}, (∀ w, Keeps C (f w) (.asked u c) Verified) →
      Keeps C (look >>= f) (.asked u c) Verified :=
    fun h => keeps_bind (keeps_stmt fun w => ⟨_, .look (by simp), h w⟩)
  refine keeps_bind (keeps_stmt fun w => ?_)
  cases hl : w.isLockedOut u with
  | true => exact ⟨_, .locked hl, .inl rfl⟩
  | false =>
    refine ⟨_, .ask hl, ?_⟩
    simp only [Bool.false_eq_true, if_false]
    refine hlook fun w' => ?_
    split
    · exact keeps_record (.inl rfl)
    · rename_i account _
      split
      · exact keeps_record (.inl rfl)
      · refine hlook fun w'' => ?_
        split
        · exact keeps_record (.inl rfl)
        · cases hp : C.checkpw p account.passwordHash with
          | true =>
            refine keeps_bind (keeps_exec fun _ => ⟨_, .right hp, ?_⟩)
            simp only [Bool.not_true, Bool.false_eq_true, if_false]
            exact keeps_record rfl
          | false =>
            refine keeps_bind (keeps_exec fun _ => ⟨_, .wrong hp, ?_⟩)
            simp only [Bool.not_false, if_true]
            exact keeps_bind (keeps_exec fun _ => ⟨_, .recordFailed, .inr ⟨u, rfl⟩⟩)

theorem keeps_login {u p c : Option String} {ip : String} : Keeps C (login C u p c ip) .fresh fun _ => Phase.Rests := by
  have hrest : ∀ {φ : Phase}, φ = .idle ∨ (∃ u, φ = .recorded u) → φ.Rests := by
    rintro φ (rfl | ⟨u, rfl⟩) <;> trivial
  unfold login
  split
  · refine keeps_bind (keeps_exec fun _ => ⟨_, .look (by simp), ?_⟩)
    refine keeps_bind (keeps_verifyLogin.mono ?_ fun _ h => h)
    intro r φ hr
    cases r with
    | error reason =>
      refine keeps_calm ?_ hr fun _ => hrest hr
      refine (calm_exec (s := .audit ..) trivial).graft fun _ => calm_closeConn.graft fun _ => ?_
      split <;> exact calm_answer
    | ok account =>
      obtain rfl : φ = .idle := hr
      dsimp only
      split
      · refine keeps_bind (keeps_stmt fun w => ⟨_, .totp, ?_⟩)
        split
        · exact keeps_calm calm_close (.inl rfl) fun _ => trivial
        · exact keeps_calm calm_openSession (.inl rfl) fun _ => trivial
      · exact keeps_calm calm_openSession (.inl rfl) fun _ => trivial
  · exact keeps_exec fun _ => ⟨_, .refuse, trivial⟩

theorem accountsApi_sound (C : Crypto) : Sound (accountsApi C) (discipline C) := by
  intro j
  have calm : ∀ {p : Handler Unit}, p.Only Stmt.Calm → Keeps C p .idle fun _ => Phase.Rests :=
    fun hp => keeps_calm hp (.inl rfl) fun _ => trivial
  cases j with
  | login u p c ip => exact keeps_login
  | createAccount h ip u p r e s t => exact calm (calm_withRole fun _ => calm_createAccountEndpoint)
  | listAccounts h => exact calm (calm_withRole fun _ => calm_listAccountsEndpoint)
  | deleteAccount h ip u => exact calm (calm_withRole fun _ => calm_deleteAccountEndpoint)
  | revokeAccount h ip u => exact calm (calm_withRole fun _ => calm_setActiveEndpoint)
  | reactivateAccount h ip u => exact calm (calm_withRole fun _ => calm_setActiveEndpoint)
  | changePassword h ip u n s => exact calm (calm_withRole fun _ => calm_changePasswordEndpoint)
  | request roles h => exact calm (calm_withRole fun _ => calm_answer)

end Programs

end Wardence.Accounts
