import Wardence.Accounts.Login
import Mathlib.Data.Finset.Card
/-!
# The lockout

`_is_locked_out` counts the failed attempts that `verify_login` has recorded. A
login reads that count, compares the password, and records what came of it; the
TOTP code is compared after that, and nothing is recorded of it.

The bound needs that logins of one username do not overlap between the count and
the record, and that no login fails on its TOTP code.
-/
namespace Wardence.Accounts

open Threads Code

/-! ## Rejections -/

/-- Whose credentials an event compared in vain. -/
def failedComparison (C : Crypto) (ev : Event World Stmt) : Option String :=
  match ev.stmt with
  | .checkPassword u p h => if ev.raised ∨ C.checkpw p h then none else some u
  | .verifyTotp u secret code => if ev.raised ∨ !badTotp C secret code ev.seen.clock then none else some u
  | _ => none

def rejects (ev : Event World Stmt) : Bool :=
  !ev.raised && ev.stmt = .answer (.error ⟨401, "invalid credentials"⟩)

/-- Request `i` compared credentials of `username` in vain at a time in `p`. -/
def FailedIn (C : Crypto) (log : List (Event World Stmt)) (username : String) (p : Nat → Bool) (i : Nat) : Prop :=
  ∃ ev ∈ log, ev.thread = i ∧ failedComparison C ev = some username ∧ p ev.seen.clock = true

def Rejected (log : List (Event World Stmt)) (i : Nat) : Prop := ∃ ev ∈ log, ev.thread = i ∧ rejects ev = true

instance (C : Crypto) (log : List (Event World Stmt)) (u : String) (p : Nat → Bool) (i : Nat) :
    Decidable (FailedIn C log u p i) := by unfold FailedIn; infer_instance

instance (log : List (Event World Stmt)) (i : Nat) : Decidable (Rejected log i) := by unfold Rejected; infer_instance

/-- The 15 minutes from `t`. -/
def window (t s : Nat) : Bool := t ≤ s ∧ s < t + LOCKOUT_WINDOW_MINUTES * 60

def threadsOf (log : List (Event World Stmt)) : Finset Nat := (log.map (·.thread)).toFinset

/-- The requests that compared credentials of `username` within the 15 minutes
from `t`, and were rejected for it. -/
def rejections (C : Crypto) (log : List (Event World Stmt)) (username : String) (t : Nat) : Finset Nat :=
  (threadsOf log).filter fun i => FailedIn C log username (window t) i ∧ Rejected log i

/-! ## Careful runs -/

/-- The event finds `username` not locked out. -/
def opens (username : String) (ev : Event World Stmt) : Bool :=
  !ev.raised && ev.stmt = .isLockedOut username && !ev.seen.isLockedOut username

def Stmt.records : Stmt → Bool
  | .recordAttempt .. => true
  | _ => false

/-- Request `k` has found `username` not locked out, and has yet to record its attempt. -/
def Undecided (st : State World Stmt Job) (username : String) (k : Nat) : Prop :=
  (st.pool[k]?.any (·.active)) = true ∧ (∃ ev ∈ st.log, ev.thread = k ∧ opens username ev = true) ∧
    ∀ ev ∈ st.log, ev.thread = k → ev.stmt.records = false

instance (st : State World Stmt Job) (u : String) (k : Nat) : Decidable (Undecided st u k) := by
  unfold Undecided; infer_instance

/-- The count is not read while another login of the same username is undecided,
and no login that comes to its TOTP code fails on it. -/
def CarefulStmt (C : Crypto) (st : State World Stmt Job) : Stmt → Prop
  | .isLockedOut u => ∀ k < st.pool.length, ¬ Undecided st u k
  | .verifyTotp _ secret code => badTotp C secret code st.world.clock = false
  | _ => True

def Careful (C : Crypto) (st : State World Stmt Job) : Move Job Env → Prop
  | .step i => ∀ x ∈ st.next i, CarefulStmt C st x.2
  | _ => True

instance (C : Crypto) (st : State World Stmt Job) (s : Stmt) : Decidable (CarefulStmt C st s) := by
  unfold CarefulStmt; split <;> infer_instance

instance (C : Crypto) (st : State World Stmt Job) (m : Move Job Env) : Decidable (Careful C st m) := by
  unfold Careful; split <;> infer_instance

/-! ## The invariant -/

def recordsFailure (username : String) (ev : Event World Stmt) : Bool :=
  !ev.raised && match ev.stmt with
    | .recordAttempt u false _ => u = username
    | _ => false

def RecordedFailure (log : List (Event World Stmt)) (username : String) (i : Nat) : Prop :=
  ∃ ev ∈ log, ev.thread = i ∧ recordsFailure username ev = true

instance (log : List (Event World Stmt)) (u : String) (i : Nat) : Decidable (RecordedFailure log u i) := by
  unfold RecordedFailure; infer_instance

/-- The requests whose comparison at a time in `p` failed and was recorded. -/
def counted (C : Crypto) (log : List (Event World Stmt)) (username : String) (p : Nat → Bool) : Finset Nat :=
  (threadsOf log).filter fun i => RecordedFailure log username i ∧ FailedIn C log username p i

/-- The attempts that a lockout check at time `c` counts. -/
def recentAt (c t : Nat) : Bool := c < t + LOCKOUT_WINDOW_MINUTES * 60

/-- What the log tells of a request, by its phase. -/
def Tells (C : Crypto) (log : List (Event World Stmt)) (i : Nat) : Phase → Prop
  | .idle => ∀ u p, ¬ FailedIn C log u p i
  | .fresh => (∀ u p, ¬ FailedIn C log u p i) ∧ ¬ Rejected log i ∧ ∀ ev ∈ log, ev.thread = i → ev.stmt.records = false
  | .asked u _ => (∀ v p, ¬ FailedIn C log v p i) ∧ ¬ Rejected log i ∧
      (∀ ev ∈ log, ev.thread = i → ev.stmt.records = false) ∧ ∃ ev ∈ log, ev.thread = i ∧ opens u ev = true
  | .failed u _ t => (∀ v p, FailedIn C log v p i → v = u ∧ p t = true) ∧ ¬ Rejected log i ∧
      (∀ ev ∈ log, ev.thread = i → ev.stmt.records = false) ∧ ∃ ev ∈ log, ev.thread = i ∧ opens u ev = true
  | .recorded u => (∀ v p, FailedIn C log v p i → v = u) ∧ RecordedFailure log u i
  | .dead => True

/-- What a request between the count and the record may rely on. -/
def Phase.Fits (w : World) : Phase → Prop
  | asked u c => (w.failures u (recentAt c)).length < MAX_FAILED_ATTEMPTS ∧ c ≤ w.clock
  | failed u c t => (w.failures u (recentAt c)).length < MAX_FAILED_ATTEMPTS ∧ c ≤ t ∧ t ≤ w.clock
  | _ => True

structure Lockout (C : Crypto) (w : World) (ph : Nat → Option Phase) (log : List (Event World Stmt)) : Prop where
  apart : ∀ i k φ ψ, i ≠ k → ph i = some φ → ph k = some ψ → ¬ ∃ u, φ.On u ∧ ψ.On u
  fits : ∀ i φ, ph i = some φ → φ.Fits w
  tells : ∀ i φ, ph i = some φ → Tells C log i φ
  /-- Nobody is rejected without a record of it. -/
  cause : ∀ i u p, FailedIn C log u p i → RecordedFailure log u i ∨ ¬ Rejected log i
  /-- Every record is a row. -/
  rows : ∀ u a, (counted C log u (a ≤ ·)).card ≤ (w.failures u (a ≤ ·)).length
  bound : ∀ u t, (counted C log u (window t)).card ≤ MAX_FAILED_ATTEMPTS

section Log
variable {C : Crypto} {log : List (Event World Stmt)} {ev : Event World Stmt} {u : String} {p : Nat → Bool} {i : Nat}

theorem failedIn_cons : FailedIn C (ev :: log) u p i ↔
    (ev.thread = i ∧ failedComparison C ev = some u ∧ p ev.seen.clock = true) ∨ FailedIn C log u p i := by
  simp [FailedIn]

theorem recordedFailure_cons : RecordedFailure (ev :: log) u i ↔
    (ev.thread = i ∧ recordsFailure u ev = true) ∨ RecordedFailure log u i := by
  simp [RecordedFailure]

theorem rejected_cons : Rejected (ev :: log) i ↔ (ev.thread = i ∧ rejects ev = true) ∨ Rejected log i := by
  simp [Rejected]

theorem mem_counted : i ∈ counted C log u p ↔ RecordedFailure log u i ∧ FailedIn C log u p i := by
  simp only [counted, Finset.mem_filter, threadsOf, List.mem_toFinset, List.mem_map, and_iff_right_iff_imp]
  rintro ⟨-, ev, hev, ht, -⟩
  exact ⟨ev, hev, ht⟩

theorem FailedIn.mono {q : Nat → Bool} (h : FailedIn C log u p i) (hpq : ∀ t, p t = true → q t = true) :
    FailedIn C log u q i := by
  obtain ⟨ev, hev, ht, hf, hp⟩ := h
  exact ⟨ev, hev, ht, hf, hpq _ hp⟩

/-- An event that neither fails a comparison, nor records, nor rejects. -/
def Silent (C : Crypto) (ev : Event World Stmt) : Prop :=
  failedComparison C ev = none ∧ (∀ u, recordsFailure u ev = false) ∧ rejects ev = false

theorem Silent.failedIn (h : Silent C ev) : FailedIn C (ev :: log) u p i ↔ FailedIn C log u p i := by
  simp [failedIn_cons, h.1]

theorem Silent.recordedFailure (h : Silent C ev) : RecordedFailure (ev :: log) u i ↔ RecordedFailure log u i := by
  simp [recordedFailure_cons, h.2.1]

theorem Silent.rejected (h : Silent C ev) : Rejected (ev :: log) i ↔ Rejected log i := by
  simp [rejected_cons, h.2.2]

theorem Silent.counted (h : Silent C ev) : counted C (ev :: log) u p = counted C log u p := by
  ext k
  rw [mem_counted, mem_counted, h.failedIn, h.recordedFailure]

theorem silent_raised {s : Stmt} {w : World} : Silent C ⟨i, s, w, true⟩ := by
  refine ⟨?_, fun u => rfl, rfl⟩
  cases s <;> simp [failedComparison]

/-- The log tells nothing new of a request that an event is not of. -/
theorem Tells.other {φ : Phase} (h : Tells C log i φ) (hi : ev.thread ≠ i) : Tells C (ev :: log) i φ := by
  have hf : ∀ v q, FailedIn C (ev :: log) v q i ↔ FailedIn C log v q i := by simp [failedIn_cons, hi]
  have hr : Rejected (ev :: log) i ↔ Rejected log i := by simp [rejected_cons, hi]
  have hs : (∀ e ∈ ev :: log, e.thread = i → e.stmt.records = false) ↔ ∀ e ∈ log, e.thread = i → e.stmt.records = false := by
    simp [hi]
  have ho : ∀ v, (∃ e ∈ ev :: log, e.thread = i ∧ opens v e = true) ↔ ∃ e ∈ log, e.thread = i ∧ opens v e = true := by
    simp [hi]
  cases φ <;> simp only [Tells, hf, hr, hs, ho] at h ⊢
  case recorded => exact ⟨h.1, recordedFailure_cons.2 (.inr h.2)⟩
  all_goals exact h

end Log

section Run
variable {C : Crypto} {w w' : World} {ph ph' : Nat → Option Phase} {log l : List (Event World Stmt)} {i : Nat}
  {φ φ' : Phase} {s : Stmt} {u : String}

/-- A request comes to be undecided by finding the username not locked out. -/
theorem rule_on (hr : Rule C φ s w φ') (h : φ'.On u) : φ.On u ∨ s = .isLockedOut u := by
  cases hr with
  | calm | look | right | wrong => exact .inl h
  | ask => exact .inr (congrArg Stmt.isLockedOut h)
  | refuse | locked | record | recordFailed | totp => exact h.elim

/-- A row of `login_attempts` is added by an undecided request. -/
theorem rule_records (hr : Rule C φ s w φ') (h : s.records = true) : ∃ u b ip, s = .recordAttempt u b ip ∧ φ.On u := by
  cases hr with
  | calm _ hs => cases s <;> first | exact hs.elim | cases h
  | record => exact ⟨_, _, _, rfl, rfl⟩
  | recordFailed => exact ⟨_, _, _, rfl, rfl⟩
  | _ => cases h

theorem createAccount_attempts {n : NewAccount} (h : w.createAccount n = some w') :
    w'.loginAttempts = w.loginAttempts ∧ w'.clock = w.clock := by
  unfold World.createAccount at h
  split at h
  · cases h
  split at h
  · cases h
  · cases h
    exact ⟨rfl, rfl⟩

/-- What a statement does to the failed attempts, and to the clock. -/
theorem app_attempts (ha : app s w = some w') : w'.clock = w.clock ∧
    (w'.loginAttempts = w.loginAttempts ∨
      ∃ v b ip, s = .recordAttempt v b ip ∧ w'.loginAttempts = w.loginAttempts ++ [⟨v, b, ip, w.clock⟩]) := by
  cases s with
  | recordAttempt v b ip =>
    cases ha
    exact ⟨rfl, .inr ⟨v, b, ip, rfl, rfl⟩⟩
  | createAccount n =>
    have h := createAccount_attempts ha
    exact ⟨h.2, .inl h.1⟩
  | verifyTotp v x c =>
    simp only [app] at ha
    split at ha <;> cases ha
    exact ⟨rfl, .inl rfl⟩
  | _ => cases ha; exact ⟨rfl, .inl rfl⟩

theorem failures_app (ha : app s w = some w') (p : Nat → Bool) (hs : ∀ b ip, s ≠ .recordAttempt u b ip) :
    w'.failures u p = w.failures u p := by
  rcases (app_attempts ha).2 with h | ⟨v, b, ip, rfl, h⟩
  · simp only [World.failures, h]
  · have hv : v ≠ u := fun hv => hs b ip (by rw [hv])
    simp [World.failures, h, hv]

theorem failures_mono (ha : app s w = some w') (p : Nat → Bool) : (w.failures u p).length ≤ (w'.failures u p).length := by
  rcases (app_attempts ha).2 with h | ⟨v, b, ip, rfl, h⟩ <;> simp [World.failures, h]

theorem failures_le {p q : Nat → Bool} (h : ∀ t, p t = true → q t = true) :
    (w.failures u p).length ≤ (w.failures u q).length := by
  apply List.Sublist.length_le
  apply List.monotone_filter_right
  intro a ha
  rw [decide_eq_true_eq] at ha ⊢
  exact ⟨ha.1, ha.2.1, h _ ha.2.2⟩

/-- A comparison fails in an undecided request, unless a TOTP code is wrong. -/
theorem rule_fails (hr : Rule C φ s w φ') (ht : ∀ v x c, s = .verifyTotp v x c → badTotp C x c w.clock = false)
    (h : failedComparison C ⟨i, s, w, false⟩ = some u) : ∃ c, φ = .asked u c ∧ φ' = .failed u c w.clock := by
  cases hr with
  | calm _ hs => cases s <;> first | exact hs.elim | cases h
  | right hp => simp [failedComparison, hp] at h
  | @wrong v c p x _ hp =>
    obtain rfl : v = u := by simpa [failedComparison, hp] using h
    exact ⟨c, rfl, rfl⟩
  | totp => simp [failedComparison, ht _ _ _ rfl] at h
  | _ => cases h

theorem rule_rejects (hr : Rule C φ s w φ') (h : rejects ⟨i, s, w, false⟩ = true) :
    φ = .idle ∨ φ = .fresh ∨ ∃ v, φ = .recorded v := by
  have hs : s = .answer (.error ⟨401, "invalid credentials"⟩) := by simpa [rejects] using h
  subst hs
  cases hr with
  | calm hφ => exact hφ.imp_right .inr
  | refuse => exact .inr (.inl rfl)

/-- A failure is recorded in the phase that the record is for. -/
theorem rule_recordsFailure (hr : Rule C φ s w φ') (h : recordsFailure u ⟨i, s, w, false⟩ = true) :
    (∃ c, φ = .asked u c ∧ φ' = .idle) ∨ ∃ c t, φ = .failed u c t ∧ φ' = .recorded u := by
  cases hr with
  | calm _ hs => cases s <;> first | exact hs.elim | cases h
  | @record v c b ip =>
    cases b <;> simp only [recordsFailure, Bool.not_false, Bool.true_and, decide_eq_true_eq, Bool.and_false, Bool.false_eq_true] at h
    exact .inl ⟨c, h ▸ rfl, rfl⟩
  | @recordFailed v c t ip =>
    obtain rfl : v = u := by simpa [recordsFailure] using h
    exact .inr ⟨c, t, rfl, rfl⟩
  | _ => cases h

/-- What the log tells of a request after one of its statements. -/
theorem tells_exec (hr : Rule C φ s w φ') (ht : ∀ v x c, s = .verifyTotp v x c → badTotp C x c w.clock = false)
    (h : Tells C log i φ) : Tells C (⟨i, s, w, false⟩ :: log) i φ' := by
  have hs : s.records = false → (∀ e ∈ log, e.thread = i → e.stmt.records = false) →
      ∀ e ∈ (⟨i, s, w, false⟩ :: log : List (Event World Stmt)), e.thread = i → e.stmt.records = false := by
    intro hs hl e he hei
    rcases List.mem_cons.1 he with rfl | he
    · exact hs
    · exact hl e he hei
  have ho : ∀ v, (∃ e ∈ log, e.thread = i ∧ opens v e = true) →
      ∃ e ∈ (⟨i, s, w, false⟩ :: log : List (Event World Stmt)), e.thread = i ∧ opens v e = true := by
    rintro v ⟨e, he, hei, hv⟩
    exact ⟨e, .tail _ he, hei, hv⟩
  have hf : ∀ v p, FailedIn C (⟨i, s, w, false⟩ :: log) v p i →
      (∃ c, φ = .asked v c ∧ φ' = .failed v c w.clock ∧ p w.clock = true) ∨ FailedIn C log v p i := by
    intro v p hv
    rcases failedIn_cons.1 hv with ⟨-, hc, hp⟩ | hv
    · obtain ⟨c, h1, h2⟩ := rule_fails hr ht hc
      exact .inl ⟨c, h1, h2, hp⟩
    · exact .inr hv
  have hj : ¬ rejects ⟨i, s, w, false⟩ = true → ¬ Rejected log i → ¬ Rejected (⟨i, s, w, false⟩ :: log) i := by
    intro h1 h2 h3
    rcases rejected_cons.1 h3 with ⟨-, h4⟩ | h4
    · exact h1 h4
    · exact h2 h4
  cases hr with
  | calm hφ _ =>
    rcases hφ with rfl | ⟨u, rfl⟩
    · intro v p hv
      exact h v p ((hf v p hv).resolve_left (by simp))
    · exact ⟨fun v p hv => h.1 v p ((hf v p hv).resolve_left (by simp)), recordedFailure_cons.2 (.inr h.2)⟩
  | look hd =>
    have hsil : Silent C ⟨i, .look, w, false⟩ := ⟨rfl, fun _ => rfl, rfl⟩
    cases φ with
    | idle => exact fun v p hv => h v p (hsil.failedIn.1 hv)
    | fresh => exact ⟨fun v p hv => h.1 v p (hsil.failedIn.1 hv), hj (by simp [rejects]) h.2.1, hs rfl h.2.2⟩
    | asked u c =>
      exact ⟨fun v p hv => h.1 v p (hsil.failedIn.1 hv), hj (by simp [rejects]) h.2.1, hs rfl h.2.2.1, ho u h.2.2.2⟩
    | failed u c t =>
      exact ⟨fun v p hv => h.1 v p (hsil.failedIn.1 hv), hj (by simp [rejects]) h.2.1, hs rfl h.2.2.1, ho u h.2.2.2⟩
    | recorded u => exact ⟨fun v p hv => h.1 v p (hsil.failedIn.1 hv), recordedFailure_cons.2 (.inr h.2)⟩
    | dead => exact absurd rfl hd
  | refuse | locked =>
    intro v p hv
    exact h.1 v p ((hf v p hv).resolve_left (by simp))
  | @ask u _ hl =>
    refine ⟨fun v p hv => h.1 v p ((hf v p hv).resolve_left (by simp)), hj (by simp [rejects]) h.2.1, hs rfl h.2.2, ?_⟩
    exact ⟨_, .head _, rfl, by simp [opens, hl]⟩
  | right hp =>
    exact ⟨fun v p hv => h.1 v p ((hf v p hv).resolve_left (by simp)), hj (by simp [rejects]) h.2.1, hs rfl h.2.2.1, ho _ h.2.2.2⟩
  | wrong hp =>
    refine ⟨fun v p hv => ?_, hj (by simp [rejects]) h.2.1, hs rfl h.2.2.1, ho _ h.2.2.2⟩
    rcases hf v p hv with ⟨c, h1, -, hp⟩ | hv
    · cases h1
      exact ⟨rfl, hp⟩
    · exact absurd hv (h.1 v p)
  | record =>
    intro v p hv
    exact h.1 v p ((hf v p hv).resolve_left (by simp))
  | recordFailed =>
    refine ⟨fun v p hv => (h.1 v p ((hf v p hv).resolve_left (by simp))).1, recordedFailure_cons.2 (.inl ⟨rfl, ?_⟩)⟩
    simp [recordsFailure]
  | totp =>
    intro v p hv
    exact h v p ((hf v p hv).resolve_left (by simp))

/-- Nothing of a request that has recorded no attempt is counted. -/
theorem not_recordedFailure (h : ∀ ev ∈ log, ev.thread = i → ev.stmt.records = false) : ¬ RecordedFailure log u i := by
  rintro ⟨ev, hev, ht, hr⟩
  have hn := h ev hev ht
  cases hs : ev.stmt <;> simp [recordsFailure, hs] at hr
  simp [Stmt.records, hs] at hn

/-- Who is newly counted: a request that records the failure of its comparison. -/
theorem counted_exec {p : Nat → Bool} {k : Nat} (hr : Rule C φ s w φ')
    (ht : ∀ v x c, s = .verifyTotp v x c → badTotp C x c w.clock = false) (h : Tells C log i φ)
    (hk : k ∈ counted C (⟨i, s, w, false⟩ :: log) u p) :
    k ∈ counted C log u p ∨ (k = i ∧ ∃ c t, φ = .failed u c t ∧ s.records = true ∧ p t = true) := by
  obtain ⟨hrec, hfail⟩ := mem_counted.1 hk
  rcases recordedFailure_cons.1 hrec with ⟨rfl, hev⟩ | hrec
  · rcases rule_recordsFailure hr hev with ⟨c, rfl, rfl⟩ | ⟨c, t, rfl, rfl⟩
    -- A thread whose comparison has not failed.
    · rcases failedIn_cons.1 hfail with ⟨-, hc, -⟩ | hfail
      · obtain ⟨_, -, hφ⟩ := rule_fails hr ht hc
        cases hφ
      · exact absurd hfail (h.1 u p)
    · rcases failedIn_cons.1 hfail with ⟨-, hc, -⟩ | hfail
      · obtain ⟨_, hφ, -⟩ := rule_fails hr ht hc
        cases hφ
      · refine .inr ⟨rfl, c, t, rfl, ?_, (h.1 u p hfail).2⟩
        cases s <;> first | rfl | simp [recordsFailure] at hev
  · rcases failedIn_cons.1 hfail with ⟨rfl, hc, -⟩ | hfail
    -- A comparison just failed is not recorded yet.
    · obtain ⟨c, rfl, -⟩ := rule_fails hr ht hc
      exact absurd hrec (not_recordedFailure h.2.2.1)
    · exact .inl (mem_counted.2 ⟨hrec, hfail⟩)

theorem counted_card {p : Nat → Bool} (hr : Rule C φ s w φ')
    (ht : ∀ v x c, s = .verifyTotp v x c → badTotp C x c w.clock = false) (h : Tells C log i φ) :
    (counted C (⟨i, s, w, false⟩ :: log) u p).card ≤ (counted C log u p).card ∨
      ∃ c t, φ = .failed u c t ∧ s.records = true ∧ p t = true ∧
        (counted C (⟨i, s, w, false⟩ :: log) u p).card ≤ (counted C log u p).card + 1 := by
  by_cases hx : ∃ c t, φ = .failed u c t ∧ s.records = true ∧ p t = true
  · obtain ⟨c, t, hφ, hs, hp⟩ := hx
    refine .inr ⟨c, t, hφ, hs, hp, ?_⟩
    have hsub : counted C (⟨i, s, w, false⟩ :: log) u p ⊆ insert i (counted C log u p) := by
      intro k hk
      rcases counted_exec hr ht h hk with hk | ⟨rfl, -⟩
      · exact Finset.mem_insert_of_mem hk
      · exact Finset.mem_insert_self ..
    exact (Finset.card_le_card hsub).trans (Finset.card_insert_le ..)
  · refine .inl (Finset.card_le_card fun k hk => ?_)
    rcases counted_exec hr ht h hk with hk | ⟨-, hn⟩
    · exact hk
    · exact absurd hn hx

/-- Records of another username leave what an undecided request relies on. -/
theorem fits_app {ψ : Phase} (ha : app s w = some w') (h : ψ.Fits w)
    (hs : ∀ v b ip, s = .recordAttempt v b ip → ¬ ψ.On v) : ψ.Fits w' := by
  have hclock := (app_attempts ha).1
  have hu : ∀ v, ψ.On v → ∀ p, w'.failures v p = w.failures v p := by
    intro v hv p
    exact failures_app ha p fun b ip he => hs v b ip he hv
  cases ψ with
  | asked v c =>
    simp only [Phase.Fits, hu v rfl, hclock] at h ⊢
    exact h
  | failed v c t =>
    simp only [Phase.Fits, hu v rfl, hclock] at h ⊢
    exact h
  | _ => trivial

theorem fits_exec (hr : Rule C φ s w φ') (ha : app s w = some w') (h : φ.Fits w) : φ'.Fits w' := by
  cases hr with
  | calm hφ => rcases hφ with rfl | ⟨u, rfl⟩ <;> trivial
  | look | right => cases ha; exact h
  | ask hl =>
    cases ha
    rw [World.isLockedOut, decide_eq_false_iff_not, not_le] at hl
    exact ⟨hl, le_refl _⟩
  | wrong =>
    cases ha
    exact ⟨h.1, h.2, le_refl _⟩
  | _ => trivial

/-- No two threads decide on one account, once thread `i` is on none that another is on. -/
theorem apart_on {φ : Phase} (h : ∀ j k ψ χ, j ≠ k → ph j = some ψ → ph k = some χ → ¬ ∃ v, ψ.On v ∧ χ.On v)
    (hi : ∀ k χ, k ≠ i → ph k = some χ → ∀ v, φ.On v → ¬ χ.On v) (j k : Nat) (ψ χ : Phase) (hjk : j ≠ k)
    (hj : Function.update ph i (some φ) j = some ψ) (hk : Function.update ph i (some φ) k = some χ) : ¬ ∃ v, ψ.On v ∧ χ.On v := by
  refine apart_update (R := fun φ ψ : Phase => ∃ v, φ.On v ∧ ψ.On v) ?_ h ?_ j k ψ χ hjk hj hk
  · rintro φ ψ ⟨v, h1, h2⟩
    exact ⟨v, h2, h1⟩
  · rintro k χ hk hχ ⟨v, h1, h2⟩
    exact hi k χ hk hχ v h1 h2

theorem Lockout.exec (h : Lockout C w ph log) (hi : ph i = some φ) (hr : Rule C φ s w φ') (ha : app s w = some w')
    (halone : ∀ v, s = .isLockedOut v → ∀ k ψ, k ≠ i → ph k = some ψ → ¬ ψ.On v)
    (ht : ∀ v x c, s = .verifyTotp v x c → badTotp C x c w.clock = false) :
    Lockout C w' (Function.update ph i (some φ')) (⟨i, s, w, false⟩ :: log) := by
  have htell := h.tells i φ hi
  refine ⟨?_, ?_, ?_, ?_, ?_, ?_⟩
  · apply apart_on h.apart
    intro k χ hk hχ v h1 h2
    rcases rule_on hr h1 with h1 | rfl
    · exact h.apart i k φ χ (Ne.symm hk) hi hχ ⟨v, h1, h2⟩
    · exact halone v rfl k χ hk hχ h2
  · intro k ψ hk
    rcases of_update hk with ⟨rfl, rfl⟩ | ⟨hki, hk⟩
    · exact fits_exec hr ha (h.fits k φ hi)
    · refine fits_app ha (h.fits k ψ hk) ?_
      rintro v b ip rfl hv
      obtain ⟨v', b', ip', he, hφ⟩ := rule_records hr rfl
      cases he
      exact h.apart k i ψ φ hki hk hi ⟨v, hv, hφ⟩
  · intro k ψ hk
    rcases of_update hk with ⟨rfl, rfl⟩ | ⟨hki, hk⟩
    · exact tells_exec hr ht htell
    · exact (h.tells k ψ hk).other (Ne.symm hki)
  -- A request that is rejected now has recorded what failed, or failed nothing.
  · intro k v p hf
    rcases failedIn_cons.1 hf with ⟨rfl, hc, -⟩ | hf
    · obtain ⟨c, rfl, rfl⟩ := rule_fails hr ht hc
      refine .inr fun hrej => ?_
      rcases rejected_cons.1 hrej with ⟨-, hrej⟩ | hrej
      · rcases rule_rejects hr hrej with h' | h' | ⟨_, h'⟩ <;> cases h'
      · exact htell.2.1 hrej
    · rcases h.cause k v p hf with hc | hc
      · exact .inl (recordedFailure_cons.2 (.inr hc))
      · by_cases hrej : Rejected (⟨i, s, w, false⟩ :: log) k
        · obtain ⟨rfl, hev⟩ := (rejected_cons.1 hrej).resolve_right hc
          rcases rule_rejects hr hev with rfl | rfl | ⟨v', rfl⟩
          · exact absurd hf (htell v p)
          · exact absurd hf (htell.1 v p)
          · obtain rfl := htell.1 v p hf
            exact .inl (recordedFailure_cons.2 (.inr htell.2))
        · exact .inr hrej
  · intro v a
    rcases counted_card (u := v) (p := (a ≤ ·)) hr ht htell with hc | ⟨c, t, rfl, hs, hp, hc⟩
    · exact hc.trans ((h.rows v a).trans (failures_mono ha _))
    · refine hc.trans ((Nat.add_le_add_right (h.rows v a) 1).trans ?_)
      have hle : a ≤ w.clock := (of_decide_eq_true hp).trans (h.fits i _ hi).2.2
      cases hr with
      | recordFailed => cases ha; simp [World.failures, hle]
      | calm hφ => rcases hφ with hφ | ⟨_, hφ⟩ <;> cases hφ
      | look => cases hs
  · intro v t₀
    rcases counted_card (u := v) (p := window t₀) hr ht htell with hc | ⟨c, t, rfl, -, hp, hc⟩
    · exact hc.trans (h.bound v t₀)
    · obtain ⟨hfew, hct, -⟩ := h.fits i _ hi
      simp only [window, decide_eq_true_eq] at hp
      -- What the window holds so far, the request's own count held too.
      have hw : (counted C log v (window t₀)).card ≤ (w.failures v (recentAt c)).length := by
        calc (counted C log v (window t₀)).card
          _ ≤ (counted C log v (t₀ ≤ ·)).card := by
            refine Finset.card_le_card fun k hk => ?_
            obtain ⟨hrec, hf⟩ := mem_counted.1 hk
            refine mem_counted.2 ⟨hrec, hf.mono fun t' ht' => ?_⟩
            simp only [window, decide_eq_true_eq] at ht' ⊢
            exact ht'.1
          _ ≤ (w.failures v (t₀ ≤ ·)).length := h.rows v t₀
          _ ≤ (w.failures v (recentAt c)).length := by
            refine failures_le fun t' ht' => ?_
            simp only [recentAt, decide_eq_true_eq] at ht' ⊢
            omega
      omega

/-- What raises is neither a failed comparison, nor a record, nor a rejection. -/
theorem Lockout.raised (h : Lockout C w ph log) :
    Lockout C w (Function.update ph i (some .dead)) (⟨i, s, w, true⟩ :: log) := by
  have hsil : Silent C ⟨i, s, w, true⟩ := silent_raised
  refine ⟨?_, ?_, ?_, ?_, ?_, ?_⟩
  · exact apart_on h.apart fun k χ _ _ v h1 _ => h1
  · intro k ψ hk
    rcases of_update hk with ⟨rfl, rfl⟩ | ⟨-, hk⟩
    · trivial
    · exact h.fits k ψ hk
  · intro k ψ hk
    rcases of_update hk with ⟨rfl, rfl⟩ | ⟨hki, hk⟩
    · trivial
    · exact (h.tells k ψ hk).other (Ne.symm hki)
  · intro k v p hf
    rw [hsil.recordedFailure, hsil.rejected]
    exact h.cause k v p (hsil.failedIn.1 hf)
  · intro v a
    rw [hsil.counted]
    exact h.rows v a
  · intro v t
    rw [hsil.counted]
    exact h.bound v t

/-- A request that has just come in has done nothing. -/
theorem Lockout.add {n : Nat} (h : Lockout C w ph log) (hn : ∀ ev ∈ log, ev.thread ≠ n) (j : Job) :
    Lockout C w (Function.update ph n (some j.entry)) log := by
  have hnone : ∀ u p, ¬ FailedIn C log u p n := by
    rintro u p ⟨ev, hev, ht, -⟩
    exact hn ev hev ht
  have hon : ∀ v, ¬ j.entry.On v := by
    intro v
    cases j <;> exact id
  refine ⟨?_, ?_, ?_, h.cause, h.rows, h.bound⟩
  · exact apart_on h.apart fun k χ _ _ v h1 _ => hon v h1
  · intro k ψ hk
    rcases of_update hk with ⟨rfl, rfl⟩ | ⟨-, hk⟩
    · cases j <;> trivial
    · exact h.fits k ψ hk
  · intro k ψ hk
    rcases of_update hk with ⟨rfl, rfl⟩ | ⟨-, hk⟩
    · cases j with
      | login u p c ip =>
        refine ⟨hnone, ?_, fun ev hev ht => absurd ht (hn ev hev)⟩
        rintro ⟨ev, hev, ht, -⟩
        exact hn ev hev ht
      | _ => exact hnone
    · exact h.tells k ψ hk

/-- The attempts are as they were, and time has not gone back. -/
theorem Lockout.same (h : Lockout C w ph log) (ha : w'.loginAttempts = w.loginAttempts) (hc : w.clock ≤ w'.clock) :
    Lockout C w' ph log := by
  have hf : ∀ u p, w'.failures u p = w.failures u p := by
    intro u p
    simp only [World.failures, ha]
  refine ⟨h.apart, ?_, h.tells, h.cause, ?_, h.bound⟩
  · intro k ψ hk
    have hfit := h.fits k ψ hk
    cases ψ with
    | asked v c =>
      simp only [Phase.Fits, hf] at hfit ⊢
      exact ⟨hfit.1, hfit.2.trans hc⟩
    | failed v c t =>
      simp only [Phase.Fits, hf] at hfit ⊢
      exact ⟨hfit.1, hfit.2.1, hfit.2.2.trans hc⟩
    | _ => trivial
  · intro u a
    rw [hf]
    exact h.rows u a

theorem env_attempts (e : Env) : (env e w).loginAttempts = w.loginAttempts ∧ w.clock ≤ (env e w).clock := by
  cases e with
  | tick d => exact ⟨rfl, Nat.le_add_right ..⟩
  | createAccount n =>
    simp only [env]
    cases hc : w.createAccount n with
    | none => exact ⟨rfl, le_refl _⟩
    | some w' =>
      have hk := createAccount_attempts hc
      exact ⟨hk.1, hk.2.ge⟩

/-- A request between the count and the record is undecided. -/
theorem Lockout.undecided {st : State World Stmt Job} (hag : Agrees (accountsApi C) (discipline C) st ph)
    (h : Lockout C st.world ph st.log) {k : Nat} {ψ : Phase} (hk : ph k = some ψ) (hon : ψ.On u) :
    k < st.pool.length ∧ Undecided st u k := by
  have hrest : ¬ ψ.Rests := by
    cases ψ <;> first | exact hon.elim | exact id
  obtain ⟨t, ht, hact⟩ := hag.active hk hrest
  have htell := h.tells k ψ hk
  refine ⟨(List.getElem?_eq_some_iff.1 ht).1, by simp [ht, hact], ?_⟩
  cases ψ with
  | asked v c =>
    obtain rfl : v = u := hon
    exact ⟨htell.2.2.2, htell.2.2.1⟩
  | failed v c t =>
    obtain rfl : v = u := hon
    exact ⟨htell.2.2.2, htell.2.2.1⟩
  | _ => exact hon.elim

theorem lockout_effect {st : State World Stmt Job} {m : Move Job Env}
    (hag : Agrees (accountsApi C) (discipline C) st ph) (h : Lockout C st.world ph st.log) (hc : Careful C st m)
    (he : Effect (accountsApi C) (discipline C) st ph m w' ph' l) : Lockout C w' ph' l := by
  cases he with
  | stay => exact h
  | exec hn hi _ hr ha _ =>
    have hcs := hc _ hn
    refine h.exec hi hr ha ?_ ?_
    · rintro v rfl k ψ - hk hon
      obtain ⟨hlt, hund⟩ := h.undecided hag hk hon
      exact hcs k hlt hund
    · rintro v x c rfl
      exact hcs
  | spawn _ _ _ _ _ hs => cases hs
  | fail => exact h.raised
  | post hp _ hn =>
    cases hp
    exact h.add hn _
  | env e => exact h.same (env_attempts e).1 (env_attempts e).2
  | kill =>
    refine ⟨?_, ?_, ?_, h.cause, h.rows, h.bound⟩
    · intro i k φ ψ _ hi
      cases hi
    · intro i φ hi
      cases hi
    · intro i φ hi
      cases hi

/-- In a careful run at most five logins of a username compare credentials in
vain and are rejected within any 15 minutes. -/
theorem rejections_bounded (C : Crypto) (w : World) (ms : List (Move Job Env))
    (hc : (accountsApi C).Admits (Careful C) ⟨w, [], []⟩ ms) (username : String) (t : Nat) :
    (rejections C ((accountsApi C).run ⟨w, [], []⟩ ms).log username t).card ≤ MAX_FAILED_ATTEMPTS := by
  have hag : Agrees (accountsApi C) (discipline C) ⟨w, [], []⟩ fun _ => none := by
    constructor <;> simp
  have h0 : Lockout C w (fun _ => none) [] := by
    constructor <;> simp [FailedIn, counted]
  obtain ⟨ph, -, h⟩ := (accountsApi C).invariant (accountsApi_sound C) (Careful C) (Lockout C)
    (fun st ph m w' ph' l hag h hm he => lockout_effect hag h hm he) hag h0 ms hc
  refine (Finset.card_le_card fun i hi => ?_).trans (h.bound username t)
  obtain ⟨-, hf, hrej⟩ := Finset.mem_filter.1 hi
  exact mem_counted.2 ⟨(h.cause i username _ hf).resolve_right (not_not.2 hrej), hf⟩

end Run

/-- `root`'s account, and `n` logins as `root`. -/
def attempts (n : Nat) (password code : String) : List (Move Job Env) :=
  .env (.createAccount ⟨"root", "pw", .admin, some "code", none⟩) ::
    List.replicate n (.post (.login (some "root") (some password) (some code) "ip"))

/-- The first `n` logins, one after the other. -/
def inTurn (n : Nat) : List (Move Job Env) := (List.range n).flatMap (steps · 12)

/-- Six logins with the right password and a wrong code; six with a wrong
password that all read the count before any of them records its attempt. -/
def wrongCodes : List (Move Job Env) := attempts 6 "pw" "0" ++ inTurn 6
def atOnce : List (Move Job Env) := attempts 6 "0" "0" ++ (List.range 6).flatMap (steps · 2) ++ inTurn 6

theorem rejections_exceed :
    ¬ (rejections plainCrypto ((accountsApi plainCrypto).run ⟨noAccounts, [], []⟩ wrongCodes).log "root" 0).card ≤ MAX_FAILED_ATTEMPTS ∧
      ¬ (rejections plainCrypto ((accountsApi plainCrypto).run ⟨noAccounts, [], []⟩ atOnce).log "root" 0).card ≤ MAX_FAILED_ATTEMPTS :=
  ⟨by decide +kernel, by decide +kernel⟩

/-- Six logins with a wrong password, one after the other: the sixth is locked out. -/
theorem rejections_bounded_in_turn :
    (rejections plainCrypto ((accountsApi plainCrypto).run ⟨noAccounts, [], []⟩ (attempts 6 "0" "0" ++ inTurn 6)).log "root" 0).card = 5 ∧
      (rejections plainCrypto ((accountsApi plainCrypto).run ⟨noAccounts, [], []⟩ (attempts 6 "0" "0" ++ inTurn 6)).log "root" 0).card
        ≤ MAX_FAILED_ATTEMPTS :=
  ⟨by decide +kernel, rejections_bounded plainCrypto noAccounts _ (by decide +kernel) "root" 0⟩

end Wardence.Accounts
