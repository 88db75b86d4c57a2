import Wardence.Effects
import Wardence.Lib.Streak
/-!
# The ladders over whole runs

`Op` is one call of one of the operations that write the ladders, and `ops` any
sequence of calls, run one after another. Each class's row of each ladder then
stands where the abstract ladder of `Streak` stands after the events that
affected the class: a correct outcome is a credit, a wrong one, a demotion, a
trip or a reset a revocation, and a promotion by hand a grant.
-/
namespace Wardence.Ladder

open Keyed Txn Client Streak

inductive Op where
  | recordOutcome (c : String) (correct : Bool) (e : Option String)
  | recordFailure (now later : Nat) (reason : String) (c : Option String)
  | checkCircuitBreaker (now : Nat)
  | promote (c : String)
  | demote (c : String)
  | recordDiagnoserOutcome (c : String) (correct : Bool) (e : Option String)
  | recordActionOutcome (c : String) (correct : Bool) (e : Option String)
  | resetToSafeDefaults (c : String) (e : Option String)

/-- The call, its result discarded. -/
def Op.program : Op → Prog Unit
  | .recordOutcome c correct e => do let _ ← Wardence.recordOutcome c correct e
  | .recordFailure now later reason c => do let _ ← Wardence.recordFailure none now later reason c
  | .checkCircuitBreaker now => do let _ ← Wardence.checkCircuitBreaker now
  | .promote c => Wardence.promote c
  | .demote c => Wardence.demote c
  | .recordDiagnoserOutcome c correct e => do let _ ← Wardence.recordDiagnoserOutcome c correct e
  | .recordActionOutcome c correct e => do let _ ← Wardence.recordActionOutcome c correct e
  | .resetToSafeDefaults c e => Wardence.resetToSafeDefaults c e

/-- The class a call is for; a check of the breaker is for none. -/
def Op.about : Op → Option String
  | .recordOutcome c _ _ => some c
  | .recordFailure _ _ _ _ => none
  | .checkCircuitBreaker _ => none
  | .promote c => some c
  | .demote c => some c
  | .recordDiagnoserOutcome c _ _ => some c
  | .recordActionOutcome c _ _ => some c
  | .resetToSafeDefaults c _ => some c

/-- The database after one call, whether it returned or raised. -/
def Op.does (o : Op) (x : Db) : Db := after o.program x

/-- The database after a sequence of calls. -/
def doesAll (x : Db) (ops : List Op) : Db := ops.foldl (fun x o => o.does x) x

/-! ## What one call does -/

/-- The database a failure leaves before the breaker is checked. -/
def withFailure (x : Db) (now : Nat) (reason : String) (c : Option String) : Db :=
  { x with failureLog := x.failureLog ++ [⟨reason, c, now⟩] }

/-- What a check of the breaker does. -/
def checked (x : Db) (now : Nat) : Db := if FAILURE_THRESHOLD ≤ x.recentFailures now then x.trip else x

theorem after_check (x : Db) (now : Nat) :
    (run (checkCircuitBreaker now) (.idle x)).2 = .idle (checked x now) := by
  unfold checked
  split
  · rename_i h; rw [run_check_trip h]; rfl
  · rename_i h; rw [run_check_quiet (Nat.lt_of_not_le h)]

/-- What a call does, as a function on the database. -/
def Op.effect : Op → Db → Db
  | .recordOutcome c correct e, x => if HasPolicy c then x.outcome c correct e else x
  | .recordFailure now later reason c, x => checked (withFailure x now reason c) later
  | .checkCircuitBreaker now, x => checked x now
  | .promote c, x => x.promoted c
  | .demote c, x => x.demotedBy c
  | .recordDiagnoserOutcome c correct e, x => x.diagnoserOutcome c correct e
  | .recordActionOutcome c correct e, x => x.actionOutcome c correct e
  | .resetToSafeDefaults c e, x => x.reset c e

theorem does_eq (o : Op) (x : Db) : o.does x = o.effect x := by
  unfold Op.does after
  cases o with
  | recordOutcome c correct e =>
    rw [Op.program, run_discard, Op.effect]
    by_cases h : HasPolicy c
    · obtain ⟨t, ht⟩ := run_recordOutcome h correct e (.idle x)
      rw [ht, if_pos h]; rfl
    · obtain ⟨err, he⟩ := run_recordOutcome_error h correct e (.idle x)
      rw [he, if_neg h]; rfl
  | recordFailure now later reason c =>
    rw [Op.program, run_discard]
    exact congrArg Conn.committed (after_check (withFailure x now reason c) later)
  | checkCircuitBreaker now => rw [Op.program, run_discard, after_check]; rfl
  | promote c => rw [Op.program, run_promote]; rfl
  | demote c => rw [Op.program, run_demote]; rfl
  | recordDiagnoserOutcome c correct e => rw [Op.program, run_discard]; rfl
  | recordActionOutcome c correct e => rw [Op.program, run_discard]; rfl
  | resetToSafeDefaults c e => rw [Op.program, run_reset]; rfl

/-! ## The events of a class -/

/-- A check of the breaker, run on `x`, trips it. -/
def Trips (x : Db) : Op → Prop
  | .recordFailure now later reason c => FAILURE_THRESHOLD ≤ (withFailure x now reason c).recentFailures later
  | .checkCircuitBreaker now => FAILURE_THRESHOLD ≤ x.recentFailures now
  | _ => False

instance (x : Db) : (o : Op) → Decidable (Trips x o)
  | .recordFailure _ _ _ _ => inferInstanceAs (Decidable (_ ≤ _))
  | .checkCircuitBreaker _ => inferInstanceAs (Decidable (_ ≤ _))
  | .recordOutcome _ _ _ | .promote _ | .demote _ | .recordDiagnoserOutcome _ _ _ | .recordActionOutcome _ _ _
  | .resetToSafeDefaults _ _ => inferInstanceAs (Decidable False)

/-- A result of class `c` is a credit or a revocation. -/
def resultEvent (correct : Bool) : List Event := [if correct then .credit else .revoke]

/-- What a call, run on `x`, is to class `c` in Dimension A. A refused call is
nothing, and a trip affects only a class that can act. -/
def eventA (c : String) (x : Db) (o : Op) : List Event :=
  match o with
  | .recordOutcome j correct _ => if j = c ∧ HasPolicy c then resultEvent correct else []
  | .promote j => if j = c ∧ HasPolicy c ∧ (x.trust c).state ≠ .canAct then [.grant] else []
  | .demote j => if j = c ∧ (x.trust c).state ≠ .reportOnly then [.revoke] else []
  | o => if Trips x o ∧ (x.trust c).state = .canAct then [.revoke] else []

/-- What a call is to class `c` in Dimension B. A trip affects the whole taxonomy. -/
def eventB (c : String) (x : Db) (o : Op) : List Event :=
  match o with
  | .recordDiagnoserOutcome j correct _ => if j = c then resultEvent correct else []
  | .resetToSafeDefaults j _ => if j = c then [.revoke] else []
  | o => if Trips x o ∧ c ∈ FAULT_CLASSES then [.revoke] else []

/-- What a call is to class `c` in Dimension C. -/
def eventC (c : String) (x : Db) (o : Op) : List Event :=
  match o with
  | .recordActionOutcome j correct _ => if j = c then resultEvent correct else []
  | .resetToSafeDefaults j _ => if j = c then [.revoke] else []
  | o => if Trips x o ∧ c ∈ FAULT_CLASSES then [.revoke] else []

/-- The events of a run, oldest first, each judged in the state it met. -/
def trace (ev : Db → Op → List Event) (x : Db) : List Op → List Event
  | [] => []
  | o :: ops => ev x o ++ trace ev (o.does x) ops

/-! ## Rows and standings -/

/-- A row as the abstract ladder sees it. -/
def standing {τ : Type} [DecidableEq τ] (top : τ) (r : Rung τ) : Standing := ⟨decide (r.state = top), r.streak⟩

theorem standing_outcome (r : Rung TrustLevel) (correct : Bool) :
    standing .canAct (r.afterOutcome 5 correct) =
      next 5 (standing .canAct r) (if correct then .credit else .revoke) := by
  obtain ⟨st, k⟩ := r
  cases correct <;> cases st <;> simp [standing, Rung.afterOutcome, next, Standing.fresh]

theorem standing_result {τ : Type} [DecidableEq τ] {bottom top : τ} (hne : bottom ≠ top) (r : Rung τ)
    (correct : Bool) : standing top (r.afterResult bottom top 5 correct) =
      next 5 (standing top r) (if correct then .credit else .revoke) := by
  cases correct with
  | false => simp [standing, Rung.afterResult, next, Standing.fresh, hne]
  | true => by_cases h : 5 ≤ r.streak + 1 <;> simp [standing, Rung.afterResult, next, h]

/-! ## One call moves each standing by its events -/

theorem checked_trust (x : Db) (now : Nat) (c : String) : (checked x now).trust c =
    if FAILURE_THRESHOLD ≤ x.recentFailures now ∧ (x.trust c).state = .canAct then ⟨.reportOnly, 0⟩ else x.trust c := by
  unfold checked
  by_cases h : FAILURE_THRESHOLD ≤ x.recentFailures now <;> simp [h, trip_trust]

theorem checked_diag (x : Db) (now : Nat) (c : String) : (checked x now).diag c =
    if FAILURE_THRESHOLD ≤ x.recentFailures now ∧ c ∈ FAULT_CLASSES then ⟨.stub, 0⟩ else x.diag c := by
  unfold checked
  by_cases h : FAILURE_THRESHOLD ≤ x.recentFailures now <;> simp [h, trip_diag]

theorem checked_action (x : Db) (now : Nat) (c : String) : (checked x now).action c =
    if FAILURE_THRESHOLD ≤ x.recentFailures now ∧ c ∈ FAULT_CLASSES then ⟨.deterministicFallback, 0⟩
    else x.action c := by
  unfold checked
  by_cases h : FAILURE_THRESHOLD ≤ x.recentFailures now <;> simp [h, trip_action]

/-- A row taken to the bottom has been revoked, one left alone has not. -/
theorem standing_revoked {τ : Type} [DecidableEq τ] {bottom top : τ} (hne : bottom ≠ top) (r : Rung τ) (P : Prop)
    [Decidable P] : standing top (if P then ⟨bottom, 0⟩ else r) =
      (if P then [Event.revoke] else []).foldl (next 5) (standing top r) := by
  split
  · simp [standing, next, Standing.fresh, hne]
  · rfl

/-- A refused call and a call for another class are no event. -/
theorem standing_other {τ : Type} [DecidableEq τ] {top : τ} {r r' : Rung τ} {evs : List Event} (hr : r' = r)
    (he : evs = []) : standing top r' = evs.foldl (next 5) (standing top r) := by
  rw [hr, he]; rfl

/-- A result of class `j` is an event of `j`'s ladder and of no other class's. -/
theorem standing_keyed {τ : Type} [DecidableEq τ] {bottom top : τ} (hne : bottom ≠ top) (rows : String → Rung τ)
    (j c : String) (correct : Bool) :
    standing top (if c = j then (rows j).afterResult bottom top 5 correct else rows c) =
      (if j = c then resultEvent correct else []).foldl (next 5) (standing top (rows c)) := by
  by_cases hj : j = c
  · subst hj
    rw [if_pos rfl, if_pos rfl, standing_result hne]
    rfl
  · rw [if_neg (Ne.symm hj), if_neg hj]
    rfl

theorem stepA (o : Op) (x : Db) (c : String) : standing .canAct ((o.effect x).trust c) =
    (eventA c x o).foldl (next 5) (standing .canAct (x.trust c)) := by
  cases o with
  | recordOutcome j correct e =>
    by_cases hp : HasPolicy j
    · have ht : (x.outcome j correct e).trust c =
          if c = j then (x.trust j).afterOutcome 5 correct else x.trust c := trust_insert x j c _
      rw [Op.effect, if_pos hp]
      by_cases hj : j = c
      · subst hj
        rw [ht, if_pos rfl, standing_outcome]
        simp [eventA, hp, resultEvent]
      · exact standing_other (by rw [ht, if_neg (Ne.symm hj)]) (by simp [eventA, hj])
    · rw [Op.effect, if_neg hp]
      exact standing_other rfl (by rw [eventA, if_neg]; rintro ⟨rfl, h⟩; exact hp h)
  | recordFailure now later reason j =>
    rw [Op.effect, checked_trust]
    exact standing_revoked (by decide) _ _
  | checkCircuitBreaker now =>
    rw [Op.effect, checked_trust]
    exact standing_revoked (by decide) _ _
  -- A promotion of a class that can act already is refused.
  | promote j =>
    rw [Op.effect, Db.promoted]
    by_cases hj : j = c
    · subst hj
      by_cases h : HasPolicy j ∧ (x.trust j).state ≠ .canAct
      · rw [if_pos h]
        simp [Db.setTrust, eventA, next, standing, h]
      · exact standing_other (by rw [if_neg h]) (by simp only [eventA, true_and, if_neg h])
    · exact standing_other (setTrust_other (Ne.symm hj) x _) (by simp [eventA, hj])
  | demote j =>
    rw [Op.effect, Db.demotedBy]
    by_cases hj : j = c
    · subst hj
      by_cases h : (x.trust j).state ≠ .reportOnly
      · rw [if_pos h]
        simp [Db.setTrust, eventA, next, standing, Standing.fresh, h]
      · exact standing_other (by rw [if_neg h]) (by simp only [eventA, true_and, if_neg h])
    · exact standing_other (setTrust_other (Ne.symm hj) x _) (by simp [eventA, hj])
  | recordDiagnoserOutcome j correct e => exact standing_other rfl (by simp [eventA, Trips])
  | recordActionOutcome j correct e => exact standing_other rfl (by simp [eventA, Trips])
  | resetToSafeDefaults j e => exact standing_other rfl (by simp [eventA, Trips])

/-- Dimension B and C rows are not those a call on Dimension A writes. -/
theorem trustOnly {x : Db} {o : Op} (h : (∃ j b e, o = .recordOutcome j b e) ∨ (∃ j, o = .promote j) ∨ ∃ j, o = .demote j)
    (c : String) : (o.effect x).diag c = x.diag c ∧ (o.effect x).action c = x.action c := by
  rcases h with ⟨j, b, e, rfl⟩ | ⟨j, rfl⟩ | ⟨j, rfl⟩
  · rw [Op.effect]; split <;> exact ⟨rfl, rfl⟩
  · rw [Op.effect, Db.promoted]; split <;> exact ⟨rfl, rfl⟩
  · rw [Op.effect, Db.demotedBy]; split <;> exact ⟨rfl, rfl⟩

theorem stepB (o : Op) (x : Db) (c : String) : standing .llm ((o.effect x).diag c) =
    (eventB c x o).foldl (next 5) (standing .llm (x.diag c)) := by
  cases o with
  | recordOutcome j correct e => exact standing_other (trustOnly (.inl ⟨_, _, _, rfl⟩) c).1 (by simp [eventB, Trips])
  | promote j => exact standing_other (trustOnly (.inr (.inl ⟨_, rfl⟩)) c).1 (by simp [eventB, Trips])
  | demote j => exact standing_other (trustOnly (.inr (.inr ⟨_, rfl⟩)) c).1 (by simp [eventB, Trips])
  | recordFailure now later reason j =>
    rw [Op.effect, checked_diag]
    exact standing_revoked (by decide) _ _
  | checkCircuitBreaker now =>
    rw [Op.effect, checked_diag]
    exact standing_revoked (by decide) _ _
  | recordDiagnoserOutcome j correct e =>
    have ht : ((Op.recordDiagnoserOutcome j correct e).effect x).diag c =
        if c = j then (x.diag j).afterResult .stub .llm 5 correct else x.diag c := diag_insert x j c _
    rw [ht]
    exact standing_keyed (by decide) x.diag j c correct
  | recordActionOutcome j correct e => exact standing_other rfl (by simp [eventB, Trips])
  | resetToSafeDefaults j e =>
    rw [Op.effect, reset_diag, if_congr (eq_comm (a := c)) rfl rfl]
    exact standing_revoked (by decide) _ _

theorem stepC (o : Op) (x : Db) (c : String) : standing .llmCanAct ((o.effect x).action c) =
    (eventC c x o).foldl (next 5) (standing .llmCanAct (x.action c)) := by
  cases o with
  | recordOutcome j correct e => exact standing_other (trustOnly (.inl ⟨_, _, _, rfl⟩) c).2 (by simp [eventC, Trips])
  | promote j => exact standing_other (trustOnly (.inr (.inl ⟨_, rfl⟩)) c).2 (by simp [eventC, Trips])
  | demote j => exact standing_other (trustOnly (.inr (.inr ⟨_, rfl⟩)) c).2 (by simp [eventC, Trips])
  | recordFailure now later reason j =>
    rw [Op.effect, checked_action]
    exact standing_revoked (by decide) _ _
  | checkCircuitBreaker now =>
    rw [Op.effect, checked_action]
    exact standing_revoked (by decide) _ _
  | recordDiagnoserOutcome j correct e => exact standing_other rfl (by simp [eventC, Trips])
  | recordActionOutcome j correct e =>
    have ht : ((Op.recordActionOutcome j correct e).effect x).action c =
        if c = j then (x.action j).afterResult .deterministicFallback .llmCanAct 5 correct else x.action c :=
      action_insert x j c _
    rw [ht]
    exact standing_keyed (by decide) x.action j c correct
  | resetToSafeDefaults j e =>
    rw [Op.effect, reset_action, if_congr (eq_comm (a := c)) rfl rfl]
    exact standing_revoked (by decide) _ _

/-! ## Whole runs -/

theorem doesAll_cons (x : Db) (o : Op) (ops : List Op) : doesAll x (o :: ops) = doesAll (o.effect x) ops := by
  rw [← does_eq]; rfl

/-- What every call keeps holds after every run. -/
theorem doesAll_inv {I : Db → Prop} (hs : ∀ (o : Op) x, I x → I (o.effect x)) {x : Db} (h : I x) (ops : List Op) :
    I (doesAll x ops) := by
  induction ops generalizing x with
  | nil => exact h
  | cons o ops ih => rw [doesAll_cons]; exact ih (hs o x h)

/-- A standing that every call moves by its events is the replay of the trace. -/
theorem doesAll_standing {row : Db → Standing} {ev : Db → Op → List Event}
    (hs : ∀ (o : Op) x, row (o.effect x) = (ev x o).foldl (next 5) (row x)) (x : Db) (ops : List Op) :
    row (doesAll x ops) = (trace ev x ops).foldl (next 5) (row x) := by
  induction ops generalizing x with
  | nil => rfl
  | cons o ops ih => rw [doesAll_cons, ih, hs, trace, List.foldl_append, does_eq]

/-- From empty tables, the row of a ladder stands where the replay stands. -/
theorem standing_of_empty (row : Db → Standing) {ev : Db → Op → List Event}
    (hs : ∀ (o : Op) x, row (o.effect x) = (ev x o).foldl (next 5) (row x)) (h0 : row {} = .fresh) (ops : List Op) :
    row (doesAll {} ops) = Streak.standing 5 (trace ev {} ops) := by
  rw [doesAll_standing hs, h0]; rfl

/-- All a call can do to a class's row of Dimension A. -/
theorem trust_cases (o : Op) (x : Db) (c : String) :
    (o.effect x).trust c = x.trust c ∨ (o.effect x).trust c = ⟨.reportOnly, 0⟩ ∨
      HasPolicy c ∧ ((o.effect x).trust c = ⟨.canAct, 5⟩ ∨ ∃ b, (o.effect x).trust c = (x.trust c).afterOutcome 5 b) := by
  cases o with
  | recordOutcome j correct e =>
    rw [Op.effect]
    by_cases hp : HasPolicy j
    · have ht : (x.outcome j correct e).trust c =
          if c = j then (x.trust j).afterOutcome 5 correct else x.trust c := trust_insert x j c _
      rw [if_pos hp, ht]
      by_cases hj : c = j
      · subst hj; rw [if_pos rfl]; exact .inr (.inr ⟨hp, .inr ⟨_, rfl⟩⟩)
      · exact .inl (if_neg hj)
    · exact .inl (by rw [if_neg hp])
  | recordFailure now later reason j =>
    rw [Op.effect, checked_trust]
    split
    · exact .inr (.inl rfl)
    · exact .inl rfl
  | checkCircuitBreaker now =>
    rw [Op.effect, checked_trust]
    split
    · exact .inr (.inl rfl)
    · exact .inl rfl
  -- `/promote` alone writes `can_act` at the threshold.
  | promote j =>
    rw [Op.effect, Db.promoted]
    split
    · rename_i h
      rw [Db.setTrust, trust_insert]
      by_cases hj : c = j
      · subst hj; rw [if_pos rfl]; exact .inr (.inr ⟨h.1, .inl rfl⟩)
      · exact .inl (if_neg hj)
    · exact .inl rfl
  | demote j =>
    rw [Op.effect, Db.demotedBy]
    split
    · rw [Db.setTrust, trust_insert]
      split
      · exact .inr (.inl rfl)
      · exact .inl rfl
    · exact .inl rfl
  | recordDiagnoserOutcome j correct e => exact .inl rfl
  | recordActionOutcome j correct e => exact .inl rfl
  | resetToSafeDefaults j e => exact .inl rfl

theorem afterOutcome_not_demoted {r : Rung TrustLevel} (h : r.state ≠ .demoted) (b : Bool) :
    (r.afterOutcome 5 b).state ≠ .demoted := by
  unfold Rung.afterOutcome
  split
  · simp
  · split
    · simp only; split
      · simp
      · exact h
    · exact h

/-- No call writes `demoted`. -/
theorem never_demoted (ops : List Op) (c : String) : ((doesAll {} ops).trust c).state ≠ .demoted := by
  refine doesAll_inv (I := fun x => ∀ c, (x.trust c).state ≠ .demoted) (fun o x h c => ?_) (fun _ => by simp [Db.trust]) ops c
  rcases trust_cases o x c with he | he | ⟨-, he | ⟨b, he⟩⟩
  · rw [he]; exact h c
  · rw [he]; decide
  · rw [he]; decide
  · rw [he]; exact afterOutcome_not_demoted (h c) b

/-- A class without a policy never earns or loses anything in Dimension A. -/
theorem no_policy_row {c : String} (hp : ¬ HasPolicy c) (ops : List Op) :
    (doesAll {} ops).trust c = ⟨.reportOnly, 0⟩ := by
  refine doesAll_inv (I := fun x => x.trust c = ⟨.reportOnly, 0⟩) (fun o x h => ?_) rfl ops
  rcases trust_cases o x c with he | he | ⟨h', -⟩
  · rw [he]; exact h
  · exact he
  · exact absurd h' hp

/-- A call for one class leaves every other class's rows as they were. -/
theorem effect_frame {o : Op} {j : String} (ho : o.about = some j) (x : Db) {c : String} (hc : c ≠ j) :
    (o.effect x).trust c = x.trust c ∧ (o.effect x).diag c = x.diag c ∧ (o.effect x).action c = x.action c := by
  cases o with
  | recordOutcome i correct e =>
    obtain rfl := Option.some.inj ho
    refine ⟨?_, trustOnly (.inl ⟨_, _, _, rfl⟩) c⟩
    rw [Op.effect]
    split
    · exact (trust_insert x i c _).trans (if_neg hc)
    · rfl
  | recordFailure now later reason i => simp [Op.about] at ho
  | checkCircuitBreaker now => simp [Op.about] at ho
  | promote i =>
    obtain rfl := Option.some.inj ho
    exact ⟨setTrust_other hc x _, trustOnly (.inr (.inl ⟨_, rfl⟩)) c⟩
  | demote i =>
    obtain rfl := Option.some.inj ho
    exact ⟨setTrust_other hc x _, trustOnly (.inr (.inr ⟨_, rfl⟩)) c⟩
  | recordDiagnoserOutcome i correct e =>
    obtain rfl := Option.some.inj ho
    exact ⟨rfl, (diag_insert x i c _).trans (if_neg hc), rfl⟩
  | recordActionOutcome i correct e =>
    obtain rfl := Option.some.inj ho
    exact ⟨rfl, rfl, (action_insert x i c _).trans (if_neg hc)⟩
  | resetToSafeDefaults i e =>
    obtain rfl := Option.some.inj ho
    rw [Op.effect, reset_diag, reset_action, if_neg hc, if_neg hc]
    exact ⟨rfl, rfl, rfl⟩

theorem noGrant_resultEvent (b : Bool) : Event.grant ∉ resultEvent b := by cases b <;> decide

theorem noGrant_B (c : String) (x : Db) (ops : List Op) : .grant ∉ trace (eventB c) x ops := by
  induction ops generalizing x with
  | nil => simp [trace]
  | cons o ops ih =>
    simp only [trace, List.mem_append, not_or]
    refine ⟨?_, ih _⟩
    unfold eventB
    split <;> split <;> first | exact noGrant_resultEvent _ | simp

theorem noGrant_C (c : String) (x : Db) (ops : List Op) : .grant ∉ trace (eventC c) x ops := by
  induction ops generalizing x with
  | nil => simp [trace]
  | cons o ops ih =>
    simp only [trace, List.mem_append, not_or]
    refine ⟨?_, ih _⟩
    unfold eventC
    split <;> split <;> first | exact noGrant_resultEvent _ | simp

/-- What a standing says of the row it is the standing of. -/
theorem row_of_standing {τ : Type} [DecidableEq τ] {top : τ} {r : Rung τ} {evs : List Event}
    (h : standing top r = Streak.standing 5 evs) :
    (r.state = top ↔ 5 ≤ r.streak) ∧ r.streak = credits evs + offset 5 evs := by
  have hr : standing top r = ⟨decide (5 ≤ credits evs + offset 5 evs), credits evs + offset 5 evs⟩ := by
    rw [h, standing_eq (by decide)]
  have hg := congrArg Standing.granted hr
  have hk : r.streak = credits evs + offset 5 evs := congrArg Standing.streak hr
  simp only [standing, decide_eq_decide] at hg
  exact ⟨by rw [hk]; exact hg, hk⟩

/-- After any sequence of calls from empty tables, each class holds exactly the
authority its streaks have earned, each streak is the class's correct results
since it was last revoked (for Dimension A, plus the offset of a promotion by
hand), nothing is `demoted`, and a call for one class touches no other. -/
theorem ladder_over_runs (ops : List Op) (c : String) :
    let x := doesAll {} ops
    ((∀ n, PROMOTION_STREAK.lookup c = some n → ((x.trust c).state = .canAct ↔ n ≤ (x.trust c).streak)) ∧
      (¬ HasPolicy c → x.trust c = ⟨.reportOnly, 0⟩) ∧
      ((x.diag c).state = .llm ↔ DIAGNOSER_PROMOTION_STREAK ≤ (x.diag c).streak) ∧
      ((x.action c).state = .llmCanAct ↔ ACTION_PROMOTION_STREAK ≤ (x.action c).streak)) ∧
    ((x.trust c).streak = credits (trace (eventA c) {} ops) + offset 5 (trace (eventA c) {} ops) ∧
      (x.diag c).streak = credits (trace (eventB c) {} ops) ∧
      (x.action c).streak = credits (trace (eventC c) {} ops)) ∧
    (x.trust c).state ≠ .demoted ∧
    ∀ o j, Op.about o = some j → c ≠ j →
      (o.does x).trust c = x.trust c ∧ (o.does x).diag c = x.diag c ∧ (o.does x).action c = x.action c := by
  intro x
  obtain ⟨hA, hAk⟩ := row_of_standing (standing_of_empty (fun x => standing .canAct (x.trust c))
    (fun o x => stepA o x c) rfl ops)
  obtain ⟨hB, hBk⟩ := row_of_standing (standing_of_empty (fun x => standing .llm (x.diag c))
    (fun o x => stepB o x c) rfl ops)
  obtain ⟨hC, hCk⟩ := row_of_standing (standing_of_empty (fun x => standing .llmCanAct (x.action c))
    (fun o x => stepC o x c) rfl ops)
  rw [offset_of_noGrant 5 (noGrant_B c {} ops), Nat.add_zero] at hBk
  rw [offset_of_noGrant 5 (noGrant_C c {} ops), Nat.add_zero] at hCk
  refine ⟨⟨fun n hn => ?_, fun hp => no_policy_row hp ops, hB, hC⟩, ⟨hAk, hBk, hCk⟩, never_demoted ops c, ?_⟩
  · rw [promotionStreak_eq hn]; exact hA
  · intro o j ho hc
    rw [does_eq]
    exact effect_frame ho x hc

end Wardence.Ladder
