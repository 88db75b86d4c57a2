import Wardence.Schema
/-!
# The trust engine

Dimension A, from `trust_engine.py`: `report_only` to `can_act` after
`PROMOTION_STREAK` correct outcomes in a row, and back on any wrong one.
-/
namespace Wardence

open Keyed Txn Client

/-- The auto-fix classes and the streak each needs. -/
def PROMOTION_STREAK : List (String × Nat) :=
  [("crash-loop", 5), ("oom", 5), ("disk-full", 5), ("cpu-throttling", 5), ("under-provisioned-replicas", 5),
    ("bad-rollout", 5)]

/-- `fault_class in PROMOTION_STREAK`. -/
def HasPolicy (c : String) : Prop := (PROMOTION_STREAK.lookup c).isSome = true

instance (c : String) : Decidable (HasPolicy c) := inferInstanceAs (Decidable (_ = true))

/-- A class without a row is `report_only` with no streak. -/
def Db.trust (db : Db) (c : String) : Rung TrustLevel := (db.trustState.lookup c).getD ⟨.reportOnly, 0⟩

def getTrustState (c : String) : Prog (Rung TrustLevel) := select fun db => db.trust c

def upsertTrustState (behalf : Option String) (c : String) (r : Rung TrustLevel) : Prog Unit := do
  execute (.upsertTrustState behalf c r)
  commitNow

/-- The check that the state is one of the three is the type's. -/
def manualSetState (c : String) (state : TrustLevel) (streak : Nat) : Prog Unit :=
  upsertTrustState none c ⟨state, streak⟩

/-- What a `record_*` function reports: the row before and after. -/
structure Transition (τ : Type) where
  faultClass : String
  before : Rung τ
  after : Rung τ
  promoted : Bool
  revoked : Bool

/-- The row one outcome leaves. -/
def Rung.afterOutcome (targetN : Nat) (before : Rung TrustLevel) (correct : Bool) : Rung TrustLevel :=
  if before.state = .canAct ∧ correct = false then ⟨.reportOnly, 0⟩
  else if correct then ⟨if targetN ≤ before.streak + 1 then .canAct else before.state, before.streak + 1⟩
  else ⟨before.state, 0⟩

def recordOutcome (c : String) (correct : Bool) (episodeId : Option String) : Prog (Transition TrustLevel) :=
  match PROMOTION_STREAK.lookup c with
  | none => throw (.valueError s!"'{c}' has no promotion policy -- report-only class")
  | some targetN => do
    let before ← getTrustState c
    let after := before.afterOutcome targetN correct
    upsertTrustState episodeId c after
    execute (.insertTrustHistory ⟨episodeId, c, correct, before.state, after.state, before.streak, after.streak⟩)
    commitNow
    pure ⟨c, before, after, before.state != .canAct && after.state == .canAct,
      before.state == .canAct && after.state == .reportOnly⟩

theorem promotionStreak_eq {c : String} {n : Nat} (h : PROMOTION_STREAK.lookup c = some n) : n = 5 := by
  have hall : ∀ r ∈ PROMOTION_STREAK, r.2 = 5 := by decide
  exact hall (c, n) (mem_of_lookup h)

theorem lookup_of_policy {c : String} (h : HasPolicy c) : PROMOTION_STREAK.lookup c = some 5 := by
  obtain ⟨n, hn⟩ := Option.isSome_iff_exists.1 h
  rw [hn, promotionStreak_eq hn]

theorem lookup_of_no_policy {c : String} (h : ¬ HasPolicy c) : PROMOTION_STREAK.lookup c = none :=
  Option.not_isSome_iff_eq_none.1 h

end Wardence
