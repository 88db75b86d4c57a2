import Wardence.Effects
import Wardence.Statements
import Wardence.Lib.Race
/-!
# Two operations on one class at once

The scorer, the breaker and the operator each read a class's row of Dimension A
and later write it, with no transaction around the pair. The row ends as some
serial order would leave it unless both read before either wrote and the last
writer's result does not happen to agree with an order; `Harmless` says when it
does.
-/
namespace Wardence.Races

open Keyed Txn Client Cells

inductive RaceOp where
  | outcome (correct : Bool) (e : Option String)
  | trip (now : Nat)
  | promote
  | demote
  deriving DecidableEq, Repr

/-- The operation on class `c`; a trip is one with `c` for its class list. -/
def RaceOp.program (c : String) : RaceOp → Prog Unit
  | .outcome correct e => do let _ ← recordOutcome c correct e
  | .trip now => do let _ ← tripOver now [c]
  | .promote => Wardence.promote c
  | .demote => Wardence.demote c

/-- Class `c`'s row. -/
def cell (c : String) (x : Db) : Option (Rung TrustLevel) := x.trustState.lookup c

/-- A row as it is read: none is `report_only` with no streak. -/
def asRead (l : Option (Rung TrustLevel)) : Rung TrustLevel := l.getD ⟨.reportOnly, 0⟩

/-- The operation's own guard stops it on row `r`. -/
def RaceOp.Refuses (c : String) (o : RaceOp) (r : Rung TrustLevel) : Prop :=
  match o with
  | .outcome _ _ => ¬ HasPolicy c
  | .trip _ => r.state ≠ .canAct
  | .promote => ¬ HasPolicy c ∨ r.state = .canAct
  | .demote => r.state = .reportOnly

instance (c : String) (o : RaceOp) (r : Rung TrustLevel) : Decidable (o.Refuses c r) := by
  cases o <;> unfold RaceOp.Refuses <;> infer_instance

/-- The row it writes otherwise. -/
def RaceOp.result (o : RaceOp) (r : Rung TrustLevel) : Rung TrustLevel :=
  match o with
  | .outcome correct _ => r.afterOutcome 5 correct
  | .trip _ => ⟨.reportOnly, 0⟩
  | .promote => ⟨.canAct, 5⟩
  | .demote => ⟨.reportOnly, 0⟩

/-- What the operation writes to the cell it read. -/
def RaceOp.writer (c : String) (o : RaceOp) : Writer (Option (Rung TrustLevel)) :=
  fun l => if o.Refuses c (asRead l) then none else some (some (o.result (asRead l)))

/-- With both on row `r`, `first` writing first and `last` over it. A trip or a
demotion may always come last; a correct outcome almost never. -/
def Harmless (c : String) (first last : RaceOp) (r : Rung TrustLevel) : Prop :=
  first.Refuses c r ∨ last.Refuses c r ∨
    match last, first with
    | .trip _, _ => True
    | .demote, _ => True
    | .promote, .outcome true _ => r.streak ≤ 4
    | .promote, _ => True
    | .outcome false _, .outcome true _ => r.state ≠ .demoted ∨ r.streak < 4
    | .outcome false _, .promote => r.state ≠ .demoted
    | .outcome false _, .demote => r.state ≠ .demoted
    | .outcome false _, _ => True
    | .outcome true _, .outcome false _ => r.streak = 0 ∧ r.state ≠ .canAct
    | .outcome true _, .promote => 4 ≤ r.streak
    | .outcome true _, _ => False

/-- When neither is refused, the table of `Harmless` decides. -/
theorem overwrite_iff {c : String} {first last : RaceOp} {r : Rung TrustLevel} (h1 : ¬ first.Refuses c r)
    (h2 : ¬ last.Refuses c r) :
    (last.result r = (if last.Refuses c (first.result r) then first.result r else last.result (first.result r)) ∨
      last.result r = if first.Refuses c (last.result r) then last.result r else first.result (last.result r)) ↔
    Harmless c first last r := by
  obtain ⟨st, k⟩ := r
  simp only [Harmless, h1, h2, false_or]
  cases last with
  | outcome b e =>
    cases b <;> rcases first with ⟨⟨⟩, e'⟩ | _ | _ | _ <;> cases st <;>
      simp_all [RaceOp.Refuses, RaceOp.result, Rung.afterOutcome] <;> grind
  | trip now =>
    rcases first with ⟨⟨⟩, e'⟩ | _ | _ | _ <;> cases st <;>
      simp_all [RaceOp.Refuses, RaceOp.result, Rung.afterOutcome]
  | promote =>
    rcases first with ⟨⟨⟩, e'⟩ | _ | _ | _ <;> cases st <;>
      simp_all [RaceOp.Refuses, RaceOp.result, Rung.afterOutcome] <;> grind
  | demote =>
    rcases first with ⟨⟨⟩, e'⟩ | _ | _ | _ <;> cases st <;>
      simp_all [RaceOp.Refuses, RaceOp.result, Rung.afterOutcome]
    grind

theorem writer_refused {c : String} {o : RaceOp} {l : Option (Rung TrustLevel)} (h : o.Refuses c (asRead l)) :
    o.writer c l = none := if_pos h

theorem writer_result {c : String} {o : RaceOp} {l : Option (Rung TrustLevel)} (h : ¬ o.Refuses c (asRead l)) :
    o.writer c l = some (some (o.result (asRead l))) := if_neg h

theorem writer_alone (c : String) (o : RaceOp) (l : Option (Rung TrustLevel)) :
    (o.writer c).alone l = if o.Refuses c (asRead l) then l else some (o.result (asRead l)) := by
  by_cases h : o.Refuses c (asRead l)
  · rw [Writer.alone, writer_refused h, if_pos h]; rfl
  · rw [Writer.alone, writer_result h, if_neg h]; rfl

theorem writer_alone_some (c : String) (o : RaceOp) (r : Rung TrustLevel) :
    (o.writer c).alone (some r) = some (if o.Refuses c r then r else o.result r) := by
  rw [writer_alone, apply_ite some]; rfl

/-- One write over another agrees with a serial order exactly when it is harmless. -/
theorem clobbered_iff (c : String) (first last : RaceOp) (l : Option (Rung TrustLevel)) :
    (clobbered (first.writer c) (last.writer c) l = serial (first.writer c) (last.writer c) l ∨
      clobbered (first.writer c) (last.writer c) l = serial (last.writer c) (first.writer c) l) ↔
    Harmless c first last (asRead l) := by
  by_cases h1 : first.Refuses c (asRead l)
  · have hf : (first.writer c).alone l = l := by rw [writer_alone, if_pos h1]
    refine iff_of_true (.inl ?_) (.inl h1)
    rw [serial, clobbered, hf]; rfl
  · by_cases h2 : last.Refuses c (asRead l)
    · have hl : (last.writer c).alone l = l := by rw [writer_alone, if_pos h2]
      refine iff_of_true (.inr ?_) (.inr (.inl h2))
      rw [serial, clobbered, writer_refused h2, hl]; rfl
    · have hf : (first.writer c).alone l = some (first.result (asRead l)) := by rw [writer_alone, if_neg h1]
      have hl : (last.writer c).alone l = some (last.result (asRead l)) := by rw [writer_alone, if_neg h2]
      rw [← overwrite_iff h1 h2, serial, serial, clobbered, writer_result h2, hf, hl, writer_alone_some,
        writer_alone_some, Option.getD_some, Option.some.injEq, Option.some.injEq]

/-! ## The programs read, then write -/

/-- A statement that is not a write of Dimension A leaves its table alone. -/
theorem app_trustState {s : Stmt} {x x' : Db} (h : s.app x = .ok x') (hu : ∀ b c r, s ≠ .upsertTrustState b c r)
    (hw : ∀ c r, s ≠ .updateTrustState c r) : x'.trustState = x.trustState := by
  cases s with
  | upsertTrustState b c r => exact absurd rfl (hu b c r)
  | updateTrustState c r => exact absurd rfl (hw c r)
  | insertScores e r => obtain ⟨-, rfl⟩ := app_insertScores h; rfl
  | insertSnapshot e r => obtain ⟨-, rfl⟩ := app_insertSnapshot h; rfl
  | _ => cases h; rfl

theorem cell_of_app {c : String} {s : Stmt} {x x' : Db} (h : s.app x = .ok x')
    (hs : s.OfReset ∨ (∃ j r, s = .upsertSafetyHold j r) ∨ ∃ r, s = .insertTrustHistory r) : cell c x' = cell c x := by
  unfold cell
  rw [app_trustState h]
  · rintro b j r rfl
    rcases hs with h | ⟨_, _, h⟩ | ⟨_, h⟩
    · exact h
    all_goals cases h
  · rintro j r rfl
    rcases hs with h | ⟨_, _, h⟩ | ⟨_, h⟩
    · exact h
    all_goals cases h

theorem quiet_tripRest (c : String) (now : Nat) : Quiet (cell c) (tripRest now) :=
  (tripRest_sure now).all.mono fun _ hs _ _ ha => cell_of_app ha (hs.imp_right .inl)

/-- A reset commits, whatever it reads. -/
theorem reset_commits (c : String) (u : Db) : ∃ zs v' p', Path (resetToSafeDefaults c none) u zs v' p' := by
  refine path_of_run (x := u) fun h => ?_
  rw [run_reset] at h
  have := congrArg (fun x : Db => x.diagnoserModeHistory.length) h
  simp [Db.reset] at this

theorem cell_insert (c : String) (x : Db) (r : Rung TrustLevel) :
    cell c { x with trustState := x.trustState.insert c r } = some r := by
  unfold cell
  rw [Table.lookup_upsert, if_pos rfl]

/-- An upsert of class `c`'s row, and its commit. -/
theorem writes_upsert (c : String) (G : Option (Rung TrustLevel) → Prop) (b : Option String) (r : Rung TrustLevel)
    {k : Prog Unit} (hk : Quiet (cell c) k) :
    Writes (cell c) G (some r) (.exec (.upsertTrustState b c r) (.commit k)) :=
  .exec hk fun v _ => ⟨_, rfl, cell_insert c v r, _, _, _, .commit⟩

/-- A program that reads class `c`'s row, stops where the operation refuses, and else writes its result. -/
theorem reads_row {c : String} {o : RaceOp} {k : Db → Prog Unit}
    (hq : ∀ x, o.Refuses c (x.trust c) → Quiet (cell c) (k x))
    (hw : ∀ x, ¬ o.Refuses c (x.trust c) →
      Writes (cell c) (fun q => cell c x ≠ none → q ≠ none) (some (o.result (x.trust c))) (k x)) :
    ReadsThenWrites (cell c) (· ≠ none) (o.writer c) (.read k) := by
  refine .reads (fun x hn => ?_) (fun x r hr => ?_)
  · by_cases h : o.Refuses c (asRead (cell c x))
    · exact hq x h
    · rw [writer_result h] at hn; cases hn
  · by_cases h : o.Refuses c (asRead (cell c x))
    · rw [writer_refused h] at hr; cases hr
    · obtain rfl := Option.some.inj ((writer_result h).symm.trans hr)
      exact hw x h

/-- The trip's `UPDATE` finds the row, since the class could act and no statement deletes one. -/
theorem writes_trip (c : String) (now : Nat) {x : Db} (h : (x.trust c).state = .canAct) :
    Writes (cell c) (fun q => cell c x ≠ none → q ≠ none) (some ⟨.reportOnly, 0⟩) (do
      execute (.updateTrustState c ⟨.reportOnly, 0⟩)
      execute (.insertTrustHistory ⟨none, c, false, .canAct, .reportOnly, (x.trust c).streak, 0⟩)
      tripRest now) := by
  refine .exec ⟨fun _ _ ha => cell_of_app ha (.inr (.inr ⟨_, rfl⟩)), quiet_tripRest c now⟩ fun v hv => ?_
  obtain ⟨r, hr⟩ := Option.ne_none_iff_exists'.1 (hv (by rw [cell, lookup_of_canAct h]; exact Option.some_ne_none _))
  obtain ⟨zs, v', p', hp⟩ := reset_commits "crash-loop" _
  refine ⟨_, rfl, ?_, _, _, _, .exec rfl (.bind (.bind hp _) _)⟩
  unfold cell at hr ⊢
  rw [Table.lookup_update, if_pos rfl, hr]; rfl

theorem trip_program (c : String) (now : Nat) : (RaceOp.trip now).program c = .read fun x =>
    if (x.trust c).state = .canAct then do
      execute (.updateTrustState c ⟨.reportOnly, 0⟩)
      execute (.insertTrustHistory ⟨none, c, false, .canAct, .reportOnly, (x.trust c).streak, 0⟩)
      tripRest now
    else tripRest now := by
  simp only [RaceOp.program, tripOver, demoteClasses, demoteClass, getTrustState, select_bind, read_bind, pure_eq,
    bind_assoc, done_bind]
  congr 1
  funext x
  split <;> simp only [execute_bind, exec_bind, done_bind, bind_unit]

/-- Each operation reads class `c`'s row in one step and writes it in another. -/
theorem program_spec (c : String) (o : RaceOp) : ReadsThenWrites (cell c) (· ≠ none) (o.writer c) (o.program c) := by
  cases o with
  | outcome correct e =>
    by_cases hp : HasPolicy c
    · simp only [RaceOp.program, recordOutcome, lookup_of_policy hp]
      refine reads_row (fun x h => absurd hp h) (fun x _ => ?_)
      exact writes_upsert c _ e _ ⟨fun _ _ ha => cell_of_app ha (.inr (.inr ⟨_, rfl⟩)), trivial⟩
    · simp only [RaceOp.program, recordOutcome, lookup_of_no_policy hp]
      exact .quiet trivial fun r => writer_refused hp
  | trip now =>
    rw [trip_program]
    refine reads_row (fun x h => ?_) (fun x h => ?_)
    · rw [if_neg h]; exact quiet_tripRest c now
    · rw [if_pos (not_not.1 h)]; exact writes_trip c now (not_not.1 h)
  | promote =>
    by_cases hp : HasPolicy c
    · simp only [RaceOp.program, Wardence.promote, lookup_of_policy hp, getTrustState, select_bind]
      refine reads_row (fun x h => ?_) (fun x h => ?_)
      · rw [if_pos (h.resolve_left (not_not.2 hp))]; trivial
      · rw [if_neg fun hc => h (.inr hc)]; exact writes_upsert c _ none _ (all_done _ _)
    · simp only [RaceOp.program, Wardence.promote, lookup_of_no_policy hp]
      exact .quiet trivial fun r => writer_refused (o := .promote) (.inl hp)
  | demote =>
    simp only [RaceOp.program, Wardence.demote, getTrustState, select_bind]
    refine reads_row (fun x h => ?_) (fun x h => ?_)
    · have h : (x.trust c).state = .reportOnly := h
      rw [if_pos h]; trivial
    · have h : (x.trust c).state ≠ .reportOnly := h
      rw [if_neg h]; exact writes_upsert c _ none _ (all_done _ _)

/-! ## Every interleaving -/

theorem writer_present (c : String) (o : RaceOp) (r r' : Option (Rung TrustLevel)) (h : o.writer c r = some r') :
    r' ≠ none := by
  by_cases hr : o.Refuses c (asRead r)
  · rw [writer_refused hr] at h; cases h
  · rw [writer_result hr] at h
    obtain rfl := Option.some.inj h
    exact Option.some_ne_none _

theorem exists_order {P : Bool → Prop} (b : Bool) : (∃ d, P d) ↔ P b ∨ P (!b) := by
  rw [Bool.exists_bool]
  cases b
  · rfl
  · exact or_comm

/-- The two operations of `op`, about to start. -/
def race (c : String) (op : Bool → RaceOp) (x : Db) : Fleet Bool Db Stmt PyErr Unit :=
  Fleet.init x fun b => (op b).program c

/-- Run to the end in any interleaving, two operations on a class leave its row
as a serial order would exactly when one reads after the other wrote, or the
write that comes last is harmless. -/
theorem interleaving_iff (c : String) (op : Bool → RaceOp) (x : Db) (sched : List Bool)
    (hf : Finished ((race c op x).runs (sched.map .go))) :
    (∃ b, cell c ((race c op x).runs (sched.map .go)).db =
      cell c (after ((op !b).program c) (after ((op b).program c) x))) ↔
    ¬ Overlaps sched ∨ Harmless c (op (firstWriter sched)) (op !firstWriter sched) (x.trust c) := by
  obtain ⟨hrun, hspent⟩ := runs_cells (fun b => program_spec c (op b)) (fun b => writer_present c (op b)) sched hf
  have hserial (b : Bool) : cell c (after ((op !b).program c) (after ((op b).program c) x)) =
      serial ((op b).writer c) ((op !b).writer c) (cell c x) := by
    rw [(program_spec c _).after, (program_spec c _).after]; rfl
  obtain ⟨hover, hnot⟩ := schedule_cases _ _ sched hspent
  have hcell := hrun.symm
  simp only [hserial]
  by_cases ho : Overlaps sched
  · rw [hover ho] at hcell
    have hiff := clobbered_iff c (op (firstWriter sched)) (op !firstWriter sched) (cell c x)
    rw [hcell] at hiff
    rw [exists_order (firstWriter sched), Bool.not_not]
    exact hiff.trans ⟨.inr, fun h => h.resolve_left (not_not.2 ho)⟩
  · obtain ⟨b, hb⟩ := hnot ho
    exact iff_of_true ⟨b, hcell.symm.trans hb⟩ (.inl ho)

/-- A class that can act. -/
def acting : Db := { trustState := (∅ : Table String (Rung TrustLevel)).insert "oom" ⟨.canAct, 5⟩ }

/-- A correct outcome, and the operator's demotion. -/
def outcomeAndDemote (b : Bool) : RaceOp := if b then .demote else .outcome true none

theorem outcomeAndDemote_finished :
    Finished ((race "oom" outcomeAndDemote acting).runs ([false, true, true, false, false].map .go)) := by
  intro b p hp
  cases b <;> (cases hp; rfl)

theorem interleaving_iff_oom :
    (∃ b, cell "oom" ((race "oom" outcomeAndDemote acting).runs ([false, true, true, false, false].map .go)).db =
      cell "oom" (after ((outcomeAndDemote !b).program "oom") (after ((outcomeAndDemote b).program "oom") acting))) ↔
    ¬ Overlaps [false, true, true, false, false] ∨
      Harmless "oom" (outcomeAndDemote true) (outcomeAndDemote false) (acting.trust "oom") :=
  interleaving_iff _ _ _ _ outcomeAndDemote_finished

/-- The demotion commits between the outcome's read and its write, and is lost:
the class can act again, and no serial order leaves it so. -/
theorem demotion_overwritten :
    let f := (race "oom" outcomeAndDemote acting).runs ([false, true, true, false, false].map .go)
    Finished f ∧ f.db.trust "oom" = ⟨.canAct, 6⟩ ∧
      ∀ b, cell "oom" f.db ≠
        cell "oom" (after ((outcomeAndDemote !b).program "oom") (after ((outcomeAndDemote b).program "oom") acting)) :=
  ⟨outcomeAndDemote_finished, by decide, by decide⟩

end Wardence.Races
