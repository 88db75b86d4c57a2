import Mathlib.Data.List.Infix
import Wardence.Effects
/-!
# Safety holds over runs of calls

What `record_misdispatch`, `clear_safety_hold` and `clear_all_safety_holds` make of the holds, in
whatever order and on whatever classes they are called.
-/
namespace Wardence

open Keyed Txn Client

/-- A call to the misdispatch guard. `later` is when a record counts and holds. -/
inductive GuardCall where
  | record (now later : Nat) (episodeId predictedClass actualClass : String)
  | clear (now : Nat) (faultClass reason : String)
  | clearAll (now : Nat) (reason : String)

namespace GuardCall

def prog : GuardCall → Prog (Option MisdispatchResult)
  | record now later e predicted actual => some <$> recordMisdispatch now later e predicted actual
  | clear now c reason => (fun _ => none) <$> clearSafetyHold now c reason
  | clearAll now reason => (fun _ => none) <$> clearAllSafetyHolds now reason

/-- What the call leaves. -/
def play (db : Db) (call : GuardCall) : Db := after call.prog db

/-- The call reports that it started a hold. -/
def Triggers (db : Db) (call : GuardCall) : Prop := ∃ r, (run call.prog (.idle db)).1 = .ok (some r) ∧ r.holdTriggered = true

def Records (c : String) : GuardCall → Prop
  | record _ _ _ predicted _ => predicted = c
  | _ => False

def Clears (c : String) : GuardCall → Prop
  | record .. => False
  | clear _ faultClass _ => faultClass = c
  | clearAll .. => True

end GuardCall

open GuardCall

def plays (db : Db) (calls : List GuardCall) : Db := calls.foldl play db

/-- A database whose tables of the guard have just been created. -/
def Db.unguarded (db : Db) : Db := { db with misdispatchLog := [], safetyHold := ∅ }

/-- The misdispatches of `c` in the 24 hours up to `t`. -/
def misdispatches (c : String) (t : Nat) (calls : List GuardCall) : Nat := calls.countP fun
  | .record now _ _ predicted _ => predicted == c && decide (now ≤ t ∧ t ≤ now + MISDISPATCH_HOLD_WINDOW_HOURS * 3600)
  | _ => false

/-- The hold on `c` was started by the record that set it at `t`, and has been active ever since. -/
def HeldSince (db : Db) (calls : List GuardCall) (c : String) (t : Nat) : Prop :=
  ∃ earlier now e actual rest, calls = earlier ++ .record now t e c actual :: rest ∧
    ((plays db earlier).hold c).active = false ∧
    ∀ part, part <+: rest → ((plays db (earlier ++ .record now t e c actual :: part)).hold c).active = true

/-- What holds of a call made after others. -/
structure GuardStep (db : Db) (earlier : List GuardCall) (call : GuardCall) : Prop where
  held : ∀ now later e c actual, call = .record now later e c actual →
    MISDISPATCH_HOLD_THRESHOLD ≤ misdispatches c later (earlier ++ [call]) → ((plays db (earlier ++ [call])).hold c).active = true
  latched : ∀ c, ((plays db earlier).hold c).active = true → ¬ call.Clears c → ((plays db (earlier ++ [call])).hold c).active = true
  triggered : call.Triggers (plays db earlier) ↔
    ∃ c, call.Records c ∧ ((plays db earlier).hold c).active = false ∧ ((plays db (earlier ++ [call])).hold c).active = true
  others : ∀ c, ¬ call.Records c → ¬ call.Clears c → (plays db (earlier ++ [call])).hold c = (plays db earlier).hold c
  ladders : (plays db (earlier ++ [call])).trustState = (plays db earlier).trustState ∧
    (plays db (earlier ++ [call])).diagnoserMode = (plays db earlier).diagnoserMode ∧
    (plays db (earlier ++ [call])).actionTrust = (plays db earlier).actionTrust

/-! ## One call -/

section
variable (db : Db)

/-- The row that a record of `c` leaves, when it holds. -/
def Db.holdRow (db : Db) (c reason : String) (later : Nat) : HoldRow :=
  ⟨true, some reason, if (db.hold c).active then (db.hold c).heldSince else some later⟩

def Db.logged (db : Db) (now : Nat) (e predicted actual : String) : Db :=
  { db with misdispatchLog := db.misdispatchLog ++ [⟨e, predicted, actual, now⟩] }

theorem run_hold (later : Nat) (c reason : String) (k : Conn Db) :
    run (setSafetyHold later c true (some reason)) k = (.ok (), .idle (k.view.setHold c (k.view.holdRow c reason later))) := by
  unfold setSafetyHold getSafetyHold Db.holdRow
  simp only [select_bind, run_read, Bool.true_and, if_true]
  rfl

theorem run_record (now later : Nat) (e c actual : String) :
    ∃ reason, run (recordMisdispatch now later e c actual) (.idle db) =
      if MISDISPATCH_HOLD_THRESHOLD ≤ (db.logged now e c actual).recentMisdispatches c later then
        (.ok ⟨c, actual, (db.logged now e c actual).recentMisdispatches c later, !(db.hold c).active⟩,
          .idle ((db.logged now e c actual).setHold c (db.holdRow c reason later)))
      else (.ok ⟨c, actual, (db.logged now e c actual).recentMisdispatches c later, false⟩, .idle (db.logged now e c actual)) := by
  let logged := db.logged now e c actual
  let reason := s!"{logged.recentMisdispatches c later} cross-class misdispatches in the last {MISDISPATCH_HOLD_WINDOW_HOURS}h"
  have hrun : run (recordMisdispatch now later e c actual) (.idle db) =
      run (if MISDISPATCH_HOLD_THRESHOLD ≤ logged.recentMisdispatches c later then do
          let existing ← getSafetyHold c
          setSafetyHold later c true (some reason)
          pure ⟨c, actual, logged.recentMisdispatches c later, !existing.active⟩
        else pure ⟨c, actual, logged.recentMisdispatches c later, false⟩ : Prog MisdispatchResult) (.idle logged) := rfl
  refine ⟨reason, hrun.trans ?_⟩
  split_ifs with h
  · have hhold := run_hold later c reason (.idle logged)
    exact run_bind_ok hhold _
  · rfl

/-- The row and the hold of a record. -/
theorem play_record (now later : Nat) (e c actual : String) :
    ∃ reason, play db (.record now later e c actual) =
      if MISDISPATCH_HOLD_THRESHOLD ≤ (db.logged now e c actual).recentMisdispatches c later then
        (db.logged now e c actual).setHold c (db.holdRow c reason later)
      else db.logged now e c actual := by
  obtain ⟨reason, h⟩ := run_record db now later e c actual
  refine ⟨reason, ?_⟩
  rw [play, prog, map_eq_pure_bind, after]
  split_ifs at h with hcount
  · rw [run_bind_ok h, if_pos hcount]
    rfl
  · rw [run_bind_ok h, if_neg hcount]
    rfl

theorem play_clear (now : Nat) (c reason : String) : play db (.clear now c reason) = db.setHold c ⟨false, some reason, none⟩ := by
  rw [play, prog, map_eq_pure_bind, after, clearSafetyHold, run_bind_ok (run_releaseHold now c (some reason) _)]
  rfl

theorem play_clearAll (now : Nat) (reason : String) : play db (.clearAll now reason) = db.release reason db.held := by
  rw [play, prog, map_eq_pure_bind, after, run_bind_ok (run_clearAllSafetyHolds now reason db)]
  rfl

theorem setHold_hold (c j : String) (h : HoldRow) : (db.setHold c h).hold j = if j = c then h else db.hold j := hold_insert db c j h

/-- The hold on each class after a record of `c`. -/
theorem record_hold (now later : Nat) (e c actual j : String) :
    ∃ reason, (play db (.record now later e c actual)).hold j =
      if j = c ∧ MISDISPATCH_HOLD_THRESHOLD ≤ (db.logged now e c actual).recentMisdispatches c later then db.holdRow c reason later
      else db.hold j := by
  obtain ⟨reason, h⟩ := play_record db now later e c actual
  refine ⟨reason, ?_⟩
  rw [h]
  by_cases hcount : MISDISPATCH_HOLD_THRESHOLD ≤ (db.logged now e c actual).recentMisdispatches c later
  · rw [if_pos hcount, setHold_hold]
    simp only [hcount, and_true]
    rfl
  · rw [if_neg hcount, if_neg fun hj => hcount hj.2]
    rfl

/-- A call leaves the hold on a class as it was, starts it at its own time, keeps it, or releases it. -/
theorem hold_cases (call : GuardCall) (c : String) :
    (play db call).hold c = db.hold c ∨
    (∃ now later e actual, call = .record now later e c actual ∧ ((play db call).hold c).active = true ∧
      ((play db call).hold c).heldSince = if (db.hold c).active then (db.hold c).heldSince else some later) ∨
    (call.Clears c ∧ ((play db call).hold c).active = false ∧ ((play db call).hold c).heldSince = none) := by
  cases call with
  | record now later e predicted actual =>
    obtain ⟨reason, h⟩ := record_hold db now later e predicted actual c
    split_ifs at h with hc
    · obtain ⟨rfl, _⟩ := hc
      exact .inr (.inl ⟨now, later, e, actual, rfl, by rw [h]; rfl, by rw [h]; rfl⟩)
    · exact .inl h
  | clear now f reason =>
    by_cases hc : c = f
    · rw [play_clear, setHold_hold, if_pos hc]
      exact .inr (.inr ⟨hc.symm, rfl, rfl⟩)
    · rw [play_clear, setHold_hold, if_neg hc]
      exact .inl rfl
  | clearAll now reason =>
    by_cases hc : c ∈ db.held
    · rw [play_clearAll, release_hold, if_pos hc]
      exact .inr (.inr ⟨trivial, rfl, rfl⟩)
    · rw [play_clearAll, release_hold, if_neg hc]
      exact .inl rfl

/-- What is cleared is not held. -/
theorem cleared_inactive {call : GuardCall} {c : String} (h : call.Clears c) : ((play db call).hold c).active = false := by
  cases call with
  | record => cases h
  | clear now f reason =>
    rw [play_clear, setHold_hold, if_pos (Eq.symm h)]
  | clearAll now reason =>
    rw [play_clearAll, release_hold]
    by_cases hc : c ∈ db.held
    · rw [if_pos hc]
    · rw [if_neg hc]
      exact Bool.eq_false_iff.mpr fun hactive => hc (mem_held.mpr hactive)

theorem play_others {call : GuardCall} {c : String} (hr : ¬ call.Records c) (hc : ¬ call.Clears c) : (play db call).hold c = db.hold c := by
  cases call with
  | record now later e predicted actual =>
    obtain ⟨reason, h⟩ := record_hold db now later e predicted actual c
    rw [h, if_neg fun hj => hr hj.1.symm]
  | clear now f reason =>
    rw [play_clear, setHold_hold, if_neg fun hj => hc hj.symm]
  | clearAll => exact absurd trivial hc

theorem play_latched {call : GuardCall} {c : String} (h : (db.hold c).active = true) (hc : ¬ call.Clears c) :
    ((play db call).hold c).active = true := by
  rcases hold_cases db call c with hsame | ⟨_, _, _, _, _, hactive, _⟩ | ⟨hclear, _⟩
  · rwa [hsame]
  · exact hactive
  · exact absurd hclear hc

theorem release_ladders (reason : String) (cs : List String) : (db.release reason cs).trustState = db.trustState ∧
    (db.release reason cs).diagnoserMode = db.diagnoserMode ∧ (db.release reason cs).actionTrust = db.actionTrust ∧
    (db.release reason cs).misdispatchLog = db.misdispatchLog := by
  induction cs generalizing db with
  | nil => exact ⟨rfl, rfl, rfl, rfl⟩
  | cons c cs ih => exact ih (db.setHold c ⟨false, some reason, none⟩)

theorem play_ladders (call : GuardCall) : (play db call).trustState = db.trustState ∧
    (play db call).diagnoserMode = db.diagnoserMode ∧ (play db call).actionTrust = db.actionTrust := by
  cases call with
  | record now later e predicted actual =>
    obtain ⟨reason, h⟩ := play_record db now later e predicted actual
    rw [h]
    split_ifs
    · exact ⟨rfl, rfl, rfl⟩
    · exact ⟨rfl, rfl, rfl⟩
  | clear now f reason =>
    rw [play_clear]
    exact ⟨rfl, rfl, rfl⟩
  | clearAll now reason =>
    rw [play_clearAll]
    have h := release_ladders db reason db.held
    exact ⟨h.1, h.2.1, h.2.2.1⟩

/-- A record reports that it started a hold, and what it reports is so. -/
theorem triggers_record (now later : Nat) (e c actual : String) : Triggers db (.record now later e c actual) ↔
    (db.hold c).active = false ∧ ((play db (.record now later e c actual)).hold c).active = true := by
  obtain ⟨reason, h⟩ := run_record db now later e c actual
  obtain ⟨reason', hhold⟩ := record_hold db now later e c actual c
  simp only [true_and] at hhold
  have hresult : (run (prog (.record now later e c actual)) (.idle db)).1 =
      .ok (some ⟨c, actual, (db.logged now e c actual).recentMisdispatches c later,
        decide (MISDISPATCH_HOLD_THRESHOLD ≤ (db.logged now e c actual).recentMisdispatches c later) && !(db.hold c).active⟩) := by
    rw [prog, map_eq_pure_bind]
    split_ifs at h with hcount
    · rw [run_bind_ok h]
      simp [hcount]
    · rw [run_bind_ok h]
      simp [hcount]
  rw [Triggers, hresult, hhold]
  by_cases hcount : MISDISPATCH_HOLD_THRESHOLD ≤ (db.logged now e c actual).recentMisdispatches c later
  · rw [if_pos hcount]
    simp [hcount, Db.holdRow]
  · rw [if_neg hcount]
    simp [hcount]

end

/-! ## Runs -/

section
variable (db : Db)

theorem plays_snoc (calls : List GuardCall) (call : GuardCall) : plays db (calls ++ [call]) = play (plays db calls) call := by
  rw [plays, List.foldl_append]
  rfl

/-- The row of a record. -/
def GuardCall.row : GuardCall → Option MisdispatchRow
  | record now _ e predicted actual => some ⟨e, predicted, actual, now⟩
  | _ => none

theorem play_log (call : GuardCall) : (play db call).misdispatchLog = db.misdispatchLog ++ call.row.toList := by
  cases call with
  | record now later e predicted actual =>
    obtain ⟨reason, h⟩ := play_record db now later e predicted actual
    rw [h]
    split_ifs
    · rfl
    · rfl
  | clear now f reason =>
    rw [play_clear]
    exact (List.append_nil _).symm
  | clearAll now reason =>
    rw [play_clearAll, (release_ladders db reason db.held).2.2.2]
    exact (List.append_nil _).symm

theorem plays_log (calls : List GuardCall) : (plays db.unguarded calls).misdispatchLog = calls.filterMap GuardCall.row := by
  induction calls using List.reverseRecOn with
  | nil => rfl
  | append_singleton calls call ih =>
    rw [plays_snoc, play_log, ih, List.filterMap_append]
    cases hrow : call.row with
    | none => rw [List.filterMap_cons_none hrow]; rfl
    | some r => rw [List.filterMap_cons_some hrow]; rfl

/-- The misdispatches of the calls are in the log. -/
theorem misdispatches_le (c : String) (t : Nat) (calls : List GuardCall) (x : Db) (h : x.misdispatchLog = calls.filterMap GuardCall.row) :
    misdispatches c t calls ≤ x.recentMisdispatches c t := by
  rw [Db.recentMisdispatches, h, misdispatches, List.countP_filterMap]
  apply List.countP_mono_left
  intro call _ hcall
  cases call with
  | record now later e predicted actual =>
    simp only [Bool.and_eq_true, decide_eq_true_eq] at hcall
    simp [GuardCall.row, hcall.1, hcall.2.2]
  | clear => cases hcall
  | clearAll => cases hcall

/-- Right after a record that makes it three or more, the class is held. -/
theorem record_holds (earlier : List GuardCall) (now later : Nat) (e c actual : String)
    (h : MISDISPATCH_HOLD_THRESHOLD ≤ misdispatches c later (earlier ++ [record now later e c actual])) :
    ((plays db.unguarded (earlier ++ [record now later e c actual])).hold c).active = true := by
  have hlog : ((plays db.unguarded earlier).logged now e c actual).misdispatchLog =
      (earlier ++ [record now later e c actual]).filterMap GuardCall.row := by
    rw [List.filterMap_append, ← plays_log db earlier]
    rfl
  have hcount := h.trans (misdispatches_le c later _ _ hlog)
  obtain ⟨reason, hhold⟩ := record_hold (plays db.unguarded earlier) now later e c actual c
  rw [plays_snoc, hhold, if_pos ⟨rfl, hcount⟩]
  rfl

/-- A call that records nothing reports nothing. -/
theorem clear_silent (x : Db) (call : GuardCall) (h : call.row = none) : ¬ call.Triggers x := by
  rintro ⟨r, hrun, _⟩
  cases call with
  | record => cases h
  | clear now c reason =>
    rw [prog, map_eq_pure_bind, clearSafetyHold, run_bind_ok (run_releaseHold now c (some reason) _)] at hrun
    cases hrun
  | clearAll now reason =>
    rw [prog, map_eq_pure_bind, run_bind_ok (run_clearAllSafetyHolds now reason x)] at hrun
    cases hrun

theorem guard_step (earlier : List GuardCall) (call : GuardCall) : GuardStep db.unguarded earlier call where
  held now later e c actual hcall h := by
    subst hcall
    exact record_holds db earlier now later e c actual h
  latched c h hc := by
    rw [plays_snoc]
    exact play_latched _ h hc
  triggered := by
    rw [plays_snoc]
    cases call with
    | record now later e predicted actual =>
      rw [triggers_record]
      constructor
      · exact fun h => ⟨predicted, rfl, h⟩
      · rintro ⟨c, hc, h⟩
        cases hc
        exact h
    | clear now f reason => exact iff_of_false (clear_silent _ _ rfl) fun ⟨_, hc, _⟩ => hc
    | clearAll now reason => exact iff_of_false (clear_silent _ _ rfl) fun ⟨_, hc, _⟩ => hc
  others c hr hc := by
    rw [plays_snoc]
    exact play_others _ hr hc
  ladders := by
    rw [plays_snoc]
    exact play_ladders _ call

/-- A hold goes on from one call to the next. -/
theorem HeldSince.snoc {db : Db} {calls : List GuardCall} {call : GuardCall} {c : String} {t : Nat} (h : HeldSince db calls c t)
    (hactive : ((plays db (calls ++ [call])).hold c).active = true) : HeldSince db (calls ++ [call]) c t := by
  obtain ⟨earlier, now, e, actual, rest, rfl, hbefore, hrest⟩ := h
  refine ⟨earlier, now, e, actual, rest ++ [call], by simp, hbefore, fun part hpart => ?_⟩
  rcases List.prefix_concat_iff.mp hpart with rfl | hpart
  · simpa using hactive
  · exact hrest part hpart

/-- The time of a hold is that of the record that started it; what is not held has none. -/
theorem heldSince_iff (calls : List GuardCall) (c : String) :
    (((plays db.unguarded calls).hold c).active = true →
      ∃ t, ((plays db.unguarded calls).hold c).heldSince = some t ∧ HeldSince db.unguarded calls c t) ∧
    (((plays db.unguarded calls).hold c).active = false → ((plays db.unguarded calls).hold c).heldSince = none) := by
  induction calls using List.reverseRecOn with
  | nil =>
    have hrow : (plays db.unguarded []).hold c = ⟨false, none, none⟩ := rfl
    rw [hrow]
    exact ⟨nofun, fun _ => rfl⟩
  | append_singleton calls call ih =>
    have hsnoc : (plays db.unguarded (calls ++ [call])).hold c = (play (plays db.unguarded calls) call).hold c := by rw [plays_snoc]
    rcases hold_cases (plays db.unguarded calls) call c with hsame | ⟨now, later, e, actual, rfl, hactive, hsince⟩ | ⟨_, hinactive, hsince⟩
    · rw [hsnoc, hsame]
      refine ⟨fun hactive => ?_, ih.2⟩
      obtain ⟨t, ht, hheld⟩ := ih.1 hactive
      exact ⟨t, ht, hheld.snoc (by rw [hsnoc, hsame]; exact hactive)⟩
    · rw [hsnoc]
      refine ⟨fun _ => ?_, fun h => absurd (hactive.symm.trans h) (by decide)⟩
      cases hbefore : ((plays db.unguarded calls).hold c).active with
      | true =>
        obtain ⟨t, ht, hheld⟩ := ih.1 hbefore
        rw [if_pos hbefore, ht] at hsince
        exact ⟨t, hsince, hheld.snoc (by rw [hsnoc]; exact hactive)⟩
      | false =>
        rw [hbefore] at hsince
        refine ⟨later, hsince, calls, now, e, actual, [], rfl, hbefore, fun part hpart => ?_⟩
        rw [List.prefix_nil.mp hpart, hsnoc]
        exact hactive
    · rw [hsnoc]
      exact ⟨fun h => absurd (hinactive.symm.trans h) (by decide), fun _ => hsince⟩

/-- Whatever calls the guard is given, a record that is the third in a day holds its class, a hold lasts until it is cleared and
carries the time of the record that started it, and nothing else is touched. -/
theorem guard_holds (calls : List GuardCall) :
    (∀ earlier call later, calls = earlier ++ call :: later → GuardStep db.unguarded earlier call) ∧
    ∀ c, (((plays db.unguarded calls).hold c).active = true →
        ∃ t, ((plays db.unguarded calls).hold c).heldSince = some t ∧ HeldSince db.unguarded calls c t) ∧
      (((plays db.unguarded calls).hold c).active = false → ((plays db.unguarded calls).hold c).heldSince = none) :=
  ⟨fun earlier call _ _ => guard_step db earlier call, heldSince_iff db calls⟩

end

end Wardence
