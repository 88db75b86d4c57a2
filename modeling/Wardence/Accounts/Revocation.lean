import Wardence.Accounts.Endpoints
/-!
# What a revocation takes away

A token passes `require_role` until its `exp`, whatever becomes of its account.
So a revoked, deleted or expired account is shut out only if none of its tokens
outlives it.
-/
namespace Wardence.Accounts

open Threads

/-- A token that a login was given: what it says, and whose it is. -/
structure Session where
  payload : Payload
  serial : Nat
  deriving DecidableEq

def session (ev : Event World Stmt) : Option Session :=
  match ev.stmt with
  | .createToken a hours u =>
    if ev.raised then none else some ⟨⟨a.role, some u, ev.seen.clock + 3600 * hours, ev.seen.clock⟩, a.serial⟩
  | _ => none

/-- The tokens issued so far. -/
def sessions (log : List (Event World Stmt)) : List Session := log.filterMap session

/-- The token has not expired. -/
def Session.Valid (x : Session) (w : World) : Prop := (w.clock : ℤ) < ⌊x.payload.exp⌋

instance (x : Session) (w : World) : Decidable (x.Valid w) := by unfold Session.Valid; infer_instance

/-- The account is there, active, and does not expire before the token. -/
def Session.Covered (x : Session) (w : World) : Prop :=
  ∃ a ∈ w.accounts, a.serial = x.serial ∧ a.active = true ∧ ∀ e ∈ a.expiresAt, (⌊x.payload.exp⌋ : ℚ) ≤ e

instance (x : Session) (w : World) : Decidable (x.Covered w) := by unfold Session.Covered; infer_instance

/-- No token of an account called `username` is valid. -/
def NoneValid (w : World) (log : List (Event World Stmt)) (username : String) : Prop :=
  ∀ a ∈ w.accounts, a.username = username → ∀ x ∈ sessions log, x.serial = a.serial → ¬ x.Valid w

instance (w : World) (log : List (Event World Stmt)) (u : String) : Decidable (NoneValid w log u) := by
  unfold NoneValid; infer_instance

/-- What a statement may not do for the tokens to stay within their accounts: to
revoke or delete an account that has a valid token, or to issue a token that its
account does not cover. -/
def TimelyStmt (w : World) (log : List (Event World Stmt)) : Stmt → Prop
  | .setActive u false | .deleteAccount u => NoneValid w log u
  | .createToken a hours u => Session.Covered ⟨⟨a.role, some u, w.clock + 3600 * hours, w.clock⟩, a.serial⟩ w
  | _ => True

def Timely (st : State World Stmt Job) : Move Job Env → Prop
  | .step i => ∀ x ∈ st.next i, TimelyStmt st.world st.log x.2
  | _ => True

instance (w : World) (log : List (Event World Stmt)) (s : Stmt) : Decidable (TimelyStmt w log s) := by
  unfold TimelyStmt; split <;> infer_instance

instance (st : State World Stmt Job) : (m : Move Job Env) → Decidable (Timely st m)
  | .step i => inferInstanceAs (Decidable (∀ x ∈ st.next i, TimelyStmt st.world st.log x.2))
  | .fail _ | .post _ | .env _ | .kill => .isTrue trivial

/-- Every valid token is covered by its account. -/
def AllCovered (w : World) (log : List (Event World Stmt)) : Prop := ∀ x ∈ sessions log, x.Valid w → x.Covered w

variable {w w' : World} {log : List (Event World Stmt)}

theorem Session.Covered.stands {x : Session} (h : x.Covered w) (hv : x.Valid w) : w.Stands x.serial := by
  obtain ⟨a, ha, hs, hact, he⟩ := h
  refine ⟨a, ha, hs, hact, ?_⟩
  unfold isExpired
  split
  · rfl
  · rename_i e hae
    have hle : (⌊x.payload.exp⌋ : ℚ) ≤ e := he e hae
    have hlt : ((w.clock : ℤ) : ℚ) < (⌊x.payload.exp⌋ : ℤ) := Int.cast_lt.2 hv
    have hlt' : (w.clock : ℚ) < ⌊x.payload.exp⌋ := by simpa using hlt
    exact decide_eq_false (not_lt.2 (hlt'.le.trans hle))

/-- An account that keeps its number, its status and its end still covers what it covered. -/
theorem Session.Covered.of_keeps {x : Session} (h : x.Covered w)
    (hk : ∀ a ∈ w.accounts, a.serial = x.serial → a.active = true →
      ∃ b ∈ w'.accounts, b.serial = a.serial ∧ b.active = true ∧ b.expiresAt = a.expiresAt) : x.Covered w' := by
  obtain ⟨a, ha, hs, hact, he⟩ := h
  obtain ⟨b, hb, hbs, hbact, hbe⟩ := hk a ha hs hact
  exact ⟨b, hb, hbs.trans hs, hbact, hbe ▸ he⟩

theorem createAccount_keeps {n : NewAccount} (h : w.createAccount n = some w') :
    w'.clock = w.clock ∧ ∀ a ∈ w.accounts, a ∈ w'.accounts := by
  unfold World.createAccount at h
  split at h
  · cases h
  split at h
  · cases h
  · cases h
    exact ⟨rfl, fun a ha => List.mem_append_left _ ha⟩

theorem app_clock {s : Stmt} (h : app s w = some w') : w'.clock = w.clock := by
  cases s with
  | createAccount n => exact (createAccount_keeps h).1
  | verifyTotp u secret code =>
    simp only [app] at h
    split at h <;> cases h
    rfl
  | _ => cases h; rfl

/-- A timely statement leaves what covers a valid token. -/
theorem app_covered {s : Stmt} {x : Session} (ht : TimelyStmt w log s) (ha : app s w = some w') (hx : x ∈ sessions log)
    (hv : x.Valid w) (h : x.Covered w) : x.Covered w' := by
  cases s with
  | createAccount n =>
    have hk := (createAccount_keeps ha).2
    exact h.of_keeps fun a hm _ hact => ⟨a, hk a hm, rfl, hact, rfl⟩
  | deleteAccount u =>
    cases ha
    apply h.of_keeps
    intro a hm hs hact
    have hu : a.username ≠ u := fun hu => ht a hm hu x hx hs.symm hv
    exact ⟨a, List.mem_filter.2 ⟨hm, by simpa using hu⟩, rfl, hact, rfl⟩
  | setActive u b =>
    cases ha
    apply h.of_keeps
    intro a hm hs hact
    refine ⟨_, List.mem_map_of_mem hm, ?_⟩
    by_cases hu : a.username = u
    · cases b with
      | true => simp [hu]
      | false => exact absurd hv (ht a hm hu x hx hs.symm)
    · simp [hu, hact]
  | changePassword u p =>
    cases ha
    apply h.of_keeps
    intro a hm _ hact
    refine ⟨_, List.mem_map_of_mem hm, ?_⟩
    by_cases hu : a.username = u <;> simp [hu, hact]
  | verifyTotp u secret code =>
    simp only [app] at ha
    split at ha <;> cases ha
    exact h
  | _ => cases ha; exact h

/-- The token that a statement issues, if it issues one. -/
theorem mem_sessions_cons {ev : Event World Stmt} {x : Session} :
    x ∈ sessions (ev :: log) ↔ session ev = some x ∨ x ∈ sessions log := by
  simp only [sessions, List.mem_filterMap, List.mem_cons, exists_eq_or_imp]

theorem AllCovered.exec {i : Nat} {s : Stmt} (h : AllCovered w log) (ht : TimelyStmt w log s) (ha : app s w = some w') :
    AllCovered w' (⟨i, s, w, false⟩ :: log) := by
  intro x hx hv
  have hv' : x.Valid w := by
    unfold Session.Valid at hv ⊢
    rwa [app_clock ha] at hv
  rcases mem_sessions_cons.1 hx with he | hx
  · cases s with
    | createToken a hours u =>
      cases ha
      cases he
      exact ht
    | _ => cases he
  · exact app_covered ht ha hx hv' (h x hx hv')

theorem AllCovered.raised {i : Nat} {s : Stmt} (h : AllCovered w log) : AllCovered w (⟨i, s, w, true⟩ :: log) := by
  intro x hx
  rcases mem_sessions_cons.1 hx with he | hx
  · cases s <;> cases he
  · exact h x hx

theorem AllCovered.env (h : AllCovered w log) (e : Env) : AllCovered (Accounts.env e w) log := by
  intro x hx hv
  cases e with
  | tick d =>
    refine h x hx (lt_of_le_of_lt ?_ hv)
    simp [Accounts.env]
  | createAccount n =>
    simp only [Accounts.env] at hv ⊢
    cases hc : w.createAccount n with
    | none => rw [hc] at hv; exact h x hx hv
    | some w' =>
      obtain ⟨hclock, hk⟩ := createAccount_keeps hc
      rw [hc, Option.getD_some] at hv
      have hv' : x.Valid w := by
        unfold Session.Valid at hv ⊢
        rwa [hclock] at hv
      exact (h x hx hv').of_keeps fun a hm _ hact => ⟨a, hk a hm, rfl, hact, rfl⟩

/-- In a timely run no valid token outlives its account. -/
theorem allCovered_run (C : Crypto) {w : World} {ms : List (Move Job Env)}
    (h : (accountsApi C).Admits Timely ⟨w, [], []⟩ ms) :
    AllCovered ((accountsApi C).run ⟨w, [], []⟩ ms).world ((accountsApi C).run ⟨w, [], []⟩ ms).log := by
  refine (accountsApi C).holds Timely AllCovered ?_ ?_ ?_ ?_ ?_ ?_ h
  · intro st i j s w' ht hi hn ha
    exact hi.exec (ht _ hn) ha
  · intro st i j s _ hi _
    exact hi.raised
  · intro st j w' _ hi hp
    cases hp
    exact hi
  · intro st e _ hi
    exact hi.env e
  · intro st _ hi
    exact hi
  · intro x hx
    cases hx

/-- What `require_role` lets pass is not expired. -/
theorem valid_of_passes {C : Crypto} (hC : C.Expires) {x : Session} {roles : List Role} {header : String} {q : Payload}
    (hb : bearer header = some (C.encode x.payload)) (h : requireRole C roles (some header) w.clock = .ok q) : x.Valid w := by
  simp only [requireRole, Option.bind_some, hb] at h
  split at h
  · cases h
  · rename_i p hp
    exact hC _ _ _ hp

/-- In a timely run, a request that passes `require_role` with a token that a
login was given comes from an account that is there, active and not expired. -/
theorem passing_account_stands (C : Crypto) (hC : C.Expires) (w : World) (ms : List (Move Job Env))
    (h : (accountsApi C).Admits Timely ⟨w, [], []⟩ ms) (x : Session)
    (hx : x ∈ sessions ((accountsApi C).run ⟨w, [], []⟩ ms).log) (roles : List Role) (header : String) (q : Payload)
    (hb : bearer header = some (C.encode x.payload))
    (hr : requireRole C roles (some header) ((accountsApi C).run ⟨w, [], []⟩ ms).world.clock = .ok q) :
    ((accountsApi C).run ⟨w, [], []⟩ ms).world.Stands x.serial := by
  have hv := valid_of_passes hC hb hr
  exact (allCovered_run C h x hx hv).stands hv

theorem plainCrypto_expires : plainCrypto.Expires := by
  intro p now q h
  simp only [plainCrypto] at h ⊢
  by_cases hn : 86400 ≤ now
  · rw [if_pos hn] at h
    cases h
  · have hlt : (now : ℤ) < ⌊(86400 : ℚ)⌋ := by
      rw [show (86400 : ℚ) = ((86400 : ℤ) : ℚ) by norm_num, Int.floor_intCast]
      omega
    by_cases hr : p = rootPayload
    · rw [hr]; exact hlt
    by_cases ha : p = viewerPayload
    · rw [ha]; exact hlt
    simp [hn, hr, ha] at h

/-- The two accounts are made, and both log in. -/
def logins : List (Move Job Env) :=
  [.env (.createAccount ⟨"root", "pw", .admin, some "code", none⟩),
    .env (.createAccount ⟨"test", "test", .viewer, none, none⟩),
    .post (.login (some "root") (some "pw") (some "code") "ip"), .post (.login (some "test") (some "test") none "ip")] ++
  steps 0 20 ++ steps 1 20

/-- Then `root` revokes the account `test`, and `test` asks for `/trust`. -/
def revokedLogin : List (Move Job Env) :=
  logins ++ [.post (.revokeAccount (some "Bearer R") "ip" "test")] ++ steps 2 10 ++
    [.post (.request ROLES (some "Bearer V"))] ++ steps 3 5

/-- The revoked account's request passes. -/
theorem revoked_account_passes :
    ∃ x ∈ sessions ((accountsApi plainCrypto).run ⟨noAccounts, [], []⟩ revokedLogin).log,
      ¬ ((accountsApi plainCrypto).run ⟨noAccounts, [], []⟩ revokedLogin).world.Stands x.serial ∧
      bearer "Bearer V" = some (plainCrypto.encode x.payload) ∧
      requireRole plainCrypto ROLES (some "Bearer V")
        ((accountsApi plainCrypto).run ⟨noAccounts, [], []⟩ revokedLogin).world.clock = .ok viewerPayload ∧
      ∃ ev ∈ ((accountsApi plainCrypto).run ⟨noAccounts, [], []⟩ revokedLogin).log,
        ev.thread = 3 ∧ ev.stmt = .answer .served :=
  ⟨⟨viewerPayload, 1⟩, by decide +kernel, by decide +kernel, by decide +kernel, by decide +kernel, by decide +kernel⟩

theorem passing_account_stands_logins :
    ((accountsApi plainCrypto).run ⟨noAccounts, [], []⟩ logins).world.Stands 1 :=
  passing_account_stands plainCrypto plainCrypto_expires noAccounts logins (by decide +kernel) ⟨viewerPayload, 1⟩
    (by decide +kernel) ROLES "Bearer V" viewerPayload (by decide +kernel) (by decide +kernel)

end Wardence.Accounts
