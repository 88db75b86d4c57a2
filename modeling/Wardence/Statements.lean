import Wardence.Breaker
import Wardence.Operator
/-!
# What each operation may execute

On every path and whatever it reads, each operation of the ladders executes only
the statements named here. A fact about all runs of an operation follows from a
fact about these statements (`Client.All.mono`). The programs of a trip raise
nothing of their own either (`Client.Sure`).
-/
namespace Wardence

open Txn Client

/-- The statements that write a row, or the history, of Dimension A for class `c` on behalf of `e`. -/
def Stmt.OfOutcome (c : String) (e : Option String) : Stmt → Prop
  | .upsertTrustState behalf c' _ => behalf = e ∧ c' = c
  | .insertTrustHistory h => h.episodeId = e ∧ h.faultClass = c
  | _ => False

def Stmt.OfDiagnoserOutcome (c : String) (e : Option String) : Stmt → Prop
  | .upsertDiagnoserMode behalf c' _ => behalf = e ∧ c' = c
  | .insertDiagnoserModeHistory h => h.episodeId = e ∧ h.faultClass = c
  | _ => False

def Stmt.OfActionOutcome (c : String) (e : Option String) : Stmt → Prop
  | .upsertActionTrust behalf c' _ => behalf = e ∧ c' = c
  | .insertActionTrustHistory h => h.episodeId = e ∧ h.faultClass = c
  | _ => False

/-- The statements of a reset on behalf of no episode. -/
def Stmt.OfReset : Stmt → Prop
  | .upsertDiagnoserMode behalf _ _ => behalf = none
  | .insertDiagnoserModeHistory h => h.episodeId = none
  | .upsertActionTrust behalf _ _ => behalf = none
  | .insertActionTrustHistory h => h.episodeId = none
  | _ => False

/-- The statements of a trip; none is on behalf of an episode. -/
def Stmt.OfTrip : Stmt → Prop
  | .updateTrustState _ _ => True
  | .insertTrustHistory h => h.episodeId = none
  | .upsertSafetyHold _ _ => True
  | s => s.OfReset

theorem Stmt.ofTrip_of_reset {s : Stmt} (h : s.OfReset) : s.OfTrip := by
  cases s <;> first | exact h | exact h.elim

theorem recordOutcome_all (c : String) (correct : Bool) (e : Option String) :
    (recordOutcome c correct e).All (Stmt.OfOutcome c e) := by
  unfold recordOutcome
  split
  · trivial
  · exact fun x => ⟨⟨rfl, rfl⟩, ⟨rfl, rfl⟩, trivial⟩

theorem recordDiagnoserOutcome_all (c : String) (correct : Bool) (e : Option String) :
    (recordDiagnoserOutcome c correct e).All (Stmt.OfDiagnoserOutcome c e) :=
  fun _ => ⟨⟨rfl, rfl⟩, ⟨rfl, rfl⟩, trivial⟩

theorem recordActionOutcome_all (c : String) (correct : Bool) (e : Option String) :
    (recordActionOutcome c correct e).All (Stmt.OfActionOutcome c e) :=
  fun _ => ⟨⟨rfl, rfl⟩, ⟨rfl, rfl⟩, trivial⟩

theorem promote_all (c : String) : (promote c).All (Stmt.OfOutcome c none) := by
  unfold promote
  split
  · trivial
  · refine .bind (all_select _ _) fun r => ?_
    split
    · trivial
    · exact ⟨⟨rfl, rfl⟩, trivial⟩

theorem demote_all (c : String) : (demote c).All (Stmt.OfOutcome c none) := by
  refine .bind (all_select _ _) fun r => ?_
  split
  · trivial
  · exact ⟨⟨rfl, rfl⟩, trivial⟩

/-- A reset executes its two upserts and its two history rows, and nothing else. -/
theorem reset_sure_of {P : Stmt → Prop} {c : String} {e : Option String}
    (hb : P (.upsertDiagnoserMode none c ⟨.stub, 0⟩)) (hbh : ∀ h, h.episodeId = e → P (.insertDiagnoserModeHistory h))
    (hc : P (.upsertActionTrust none c ⟨.deterministicFallback, 0⟩))
    (hch : ∀ h, h.episodeId = e → P (.insertActionTrustHistory h)) : (resetToSafeDefaults c e).Sure P := by
  have half (b : Rung DiagMode) : (do
      execute (.insertDiagnoserModeHistory ⟨e, c, false, b.state, .stub, b.streak, 0⟩)
      let a ← getActionTrust c
      if a ≠ ⟨.deterministicFallback, 0⟩ then upsertActionTrust none c ⟨.deterministicFallback, 0⟩
      execute (.insertActionTrustHistory ⟨e, c, false, a.state, .deterministicFallback, a.streak, 0⟩)
      commitNow : Prog Unit).Sure P := by
    refine .bind ((sure_execute _ _).2 (hbh _ rfl)) fun _ => .bind (sure_select _ _) fun a => ?_
    simp only
    split
    · exact ⟨hc, hch _ rfl, trivial⟩
    · exact ⟨hch _ rfl, trivial⟩
  refine .bind (sure_select _ _) fun b => ?_
  simp only
  split
  · exact ⟨hb, half b⟩
  · exact half b

theorem reset_sure (c : String) : (resetToSafeDefaults c none).Sure Stmt.OfReset :=
  reset_sure_of rfl (fun _ => id) rfl fun _ => id

theorem demoteClass_sure (c : String) : (demoteClass c).Sure Stmt.OfTrip := by
  refine .bind (sure_select _ _) fun r => ?_
  split
  · exact ⟨trivial, rfl, trivial⟩
  · trivial

theorem demoteClasses_sure (cs : List String) : (demoteClasses cs).Sure Stmt.OfTrip := by
  induction cs with
  | nil => trivial
  | cons c cs ih => exact .bind (demoteClass_sure c) fun _ => .bind ih fun _ => trivial

theorem setSafetyHold_sure (now : Nat) (c : String) (active : Bool) (reason : Option String) :
    (setSafetyHold now c active reason).Sure fun s => ∃ h, s = .upsertSafetyHold c h :=
  fun _ => ⟨⟨_, rfl⟩, trivial⟩

theorem clearAllSafetyHolds_sure (now : Nat) (reason : String) :
    (clearAllSafetyHolds now reason).Sure fun s => ∃ c h, s = .upsertSafetyHold c h :=
  .bind (sure_select _ _) fun _ => .forM fun c _ =>
    (setSafetyHold_sure now c false _).mono fun _ ⟨h, hs⟩ => ⟨c, h, hs⟩

theorem tripRest_sure (now : Nat) : (tripRest now).Sure fun s => s.OfReset ∨ ∃ c h, s = .upsertSafetyHold c h :=
  .bind (.forM fun c _ => (reset_sure c).mono fun _ => .inl) fun _ => .bind (sure_commitNow _) fun _ =>
    .bind ((clearAllSafetyHolds_sure _ _).mono fun _ => .inr) fun _ => sure_commitNow _

theorem tripOver_sure (now : Nat) (cs : List String) : (tripOver now cs).Sure Stmt.OfTrip := by
  refine .bind (demoteClasses_sure cs) fun _ => .bind ((tripRest_sure now).mono ?_) fun _ => trivial
  rintro s (h | ⟨c, h, rfl⟩)
  · exact Stmt.ofTrip_of_reset h
  · trivial

theorem checkCircuitBreaker_sure (now : Nat) : (checkCircuitBreaker now).Sure Stmt.OfTrip := by
  refine .bind (sure_select _ _) fun n => ?_
  split
  · trivial
  · exact .bind (sure_select _ _) fun cs => .bind (tripOver_sure now cs) fun _ => trivial

theorem recordFailure_all (behalf : Option String) (now later : Nat) (reason : String) (c : Option String) :
    (recordFailure behalf now later reason c).All fun s => s.OfTrip ∨ ∃ f, s = .insertFailure behalf f :=
  .bind ((all_execute _ _).2 (.inr ⟨_, rfl⟩)) fun _ => .bind (all_commitNow _) fun _ =>
    (checkCircuitBreaker_sure later).all.mono fun _ => .inl

theorem recordMisdispatch_all (now later : Nat) (e predicted actual : String) :
    (recordMisdispatch now later e predicted actual).All fun s =>
      s = .insertMisdispatch ⟨e, predicted, actual, now⟩ ∨ ∃ h, s = .upsertSafetyHold predicted h := by
  refine .bind ((all_execute _ _).2 (.inl rfl)) fun _ => .bind (all_commitNow _) fun _ =>
    .bind (all_select _ _) fun n => ?_
  split
  · exact .bind (all_select _ _) fun _ => .bind ((setSafetyHold_sure _ _ _ _).all.mono fun _ => .inr) fun _ => trivial
  · trivial

end Wardence
