import Wardence.Breaker
/-!
# The published ladder

What `publish_to_r2.py` shows of a class's standing in Dimension A, read from
the ladder's rows and its history.
-/
namespace Wardence

open Keyed

/-- `SELECT fault_class, MAX(streak_after) ... GROUP BY fault_class`, at one class. -/
def Db.maxStreak (x : Db) (c : String) : Option Nat :=
  ((x.trustHistory.filter fun h => h.faultClass = c).map (·.streakAfter)).max?

/-- `SELECT fault_class, streak FROM trust_state`, at one class. -/
def Db.currentStreak (x : Db) (c : String) : Option Nat := (x.trustState.lookup c).map (·.streak)

def distanceToPeak (current peak : Option Nat) : Option Int := do
  let current ← current
  let peak ← peak
  pure ((current : Int) - (peak : Int))

/-- The `dimension_a` entry of a class, its recent outcomes apart. -/
structure DimensionA where
  state : TrustLevel
  streak : Option Nat
  maxStreak : Option Nat
  distanceToPeak : Option Int
  deriving DecidableEq

def dimensionA (x : Db) (c : String) : DimensionA :=
  let streak := if HasPolicy c then some ((x.currentStreak c).getD 0) else none
  let peak := if HasPolicy c then some ((x.maxStreak c).getD 0) else none
  { state := if HasPolicy c then ((x.trustState.lookup c).map (·.state)).getD .reportOnly else .reportOnly
    streak := streak
    maxStreak := peak
    distanceToPeak := Wardence.distanceToPeak streak peak }

/-- The published distance of an auto-fix class. -/
theorem dimensionA_distance {c : String} (h : HasPolicy c) (x : Db) :
    (dimensionA x c).distanceToPeak = some (((x.trust c).streak : Int) - ((x.maxStreak c).getD 0 : Nat)) := by
  have hs : (x.currentStreak c).getD 0 = (x.trust c).streak := by
    unfold Db.currentStreak Db.trust
    cases x.trustState.lookup c <;> rfl
  simp [dimensionA, distanceToPeak, h, hs]

/-- A class without a policy has no published distance. -/
theorem dimensionA_no_distance {c : String} (h : ¬ HasPolicy c) (x : Db) :
    (dimensionA x c).distanceToPeak = none := by
  simp [dimensionA, distanceToPeak, h]

end Wardence
