import Wardence.Breaker
import Wardence.Operator
/-!
# What each operation computes

Every operation of the ladders, run alone, as a function on the database, with
its frame: the ladder rows of the other classes and the other tables. The rest
of the development cites these and does not run the programs again.
-/
namespace Wardence

open Keyed Txn Client

/-! ## Rows after a write -/

@[simp] theorem trust_insert (db : Db) (c j : String) (r : Rung TrustLevel) :
    ({ db with trustState := db.trustState.insert c r } : Db).trust j = if j = c then r else db.trust j := by
  simp only [Db.trust, Table.lookup_upsert]
  split <;> rfl

@[simp] theorem diag_insert (db : Db) (c j : String) (r : Rung DiagMode) :
    ({ db with diagnoserMode := db.diagnoserMode.insert c r } : Db).diag j = if j = c then r else db.diag j := by
  simp only [Db.diag, Table.lookup_upsert]
  split <;> rfl

@[simp] theorem action_insert (db : Db) (c j : String) (r : Rung ActionTrust) :
    ({ db with actionTrust := db.actionTrust.insert c r } : Db).action j = if j = c then r else db.action j := by
  simp only [Db.action, Table.lookup_upsert]
  split <;> rfl

@[simp] theorem hold_insert (db : Db) (c j : String) (h : HoldRow) :
    ({ db with safetyHold := db.safetyHold.insert c h } : Db).hold j = if j = c then h else db.hold j := by
  simp only [Db.hold, Table.lookup_upsert]
  split <;> rfl

/-- A class that can act has a row. -/
theorem lookup_of_canAct {db : Db} {c : String} (h : (db.trust c).state = .canAct) :
    db.trustState.lookup c = some (db.trust c) := by
  unfold Db.trust at h ⊢
  cases hl : db.trustState.lookup c with
  | none => rw [hl] at h; cases h
  | some r => rfl

/-! ## Outcomes and overrides -/

/-- Writes class `c`'s row of Dimension A. -/
def Db.setTrust (db : Db) (c : String) (r : Rung TrustLevel) : Db :=
  { db with trustState := db.trustState.insert c r }

/-- A write of a class, where it is made, is none of another's. -/
theorem setTrust_other {p : Prop} [Decidable p] {c j : String} (hj : c ≠ j) (x : Db) (r : Rung TrustLevel) :
    (if p then x.setTrust j r else x).trust c = x.trust c := by
  split
  · exact (trust_insert x j c r).trans (if_neg hj)
  · rfl

/-- What `record_outcome` leaves. -/
def Db.outcome (db : Db) (c : String) (correct : Bool) (e : Option String) : Db :=
  let after := (db.trust c).afterOutcome 5 correct
  { db.setTrust c after with
    trustHistory := db.trustHistory ++
      [⟨e, c, correct, (db.trust c).state, after.state, (db.trust c).streak, after.streak⟩] }

theorem run_recordOutcome {c : String} (h : HasPolicy c) (correct : Bool) (e : Option String) (k : Conn Db) :
    ∃ t, run (recordOutcome c correct e) k = (.ok t, .idle (k.view.outcome c correct e)) := by
  simp only [recordOutcome, lookup_of_policy h]
  exact ⟨_, rfl⟩

theorem run_recordOutcome_error {c : String} (h : ¬ HasPolicy c) (correct : Bool) (e : Option String)
    (k : Conn Db) : ∃ err, run (recordOutcome c correct e) k = (.error err, k) := by
  simp only [recordOutcome, lookup_of_no_policy h]
  exact ⟨_, rfl⟩

/-- What `record_diagnoser_outcome` leaves. -/
def Db.diagnoserOutcome (db : Db) (c : String) (correct : Bool) (e : Option String) : Db :=
  let after := (db.diag c).afterResult .stub .llm 5 correct
  { db with
    diagnoserMode := db.diagnoserMode.insert c after
    diagnoserModeHistory := db.diagnoserModeHistory ++
      [⟨e, c, correct, (db.diag c).state, after.state, (db.diag c).streak, after.streak⟩] }

theorem run_recordDiagnoserOutcome (c : String) (correct : Bool) (e : Option String) (k : Conn Db) :
    ∃ t, run (recordDiagnoserOutcome c correct e) k = (.ok t, .idle (k.view.diagnoserOutcome c correct e)) :=
  ⟨_, rfl⟩

/-- What `record_action_outcome` leaves. -/
def Db.actionOutcome (db : Db) (c : String) (correct : Bool) (e : Option String) : Db :=
  let after := (db.action c).afterResult .deterministicFallback .llmCanAct 5 correct
  { db with
    actionTrust := db.actionTrust.insert c after
    actionTrustHistory := db.actionTrustHistory ++
      [⟨e, c, correct, (db.action c).state, after.state, (db.action c).streak, after.streak⟩] }

theorem run_recordActionOutcome (c : String) (correct : Bool) (e : Option String) (k : Conn Db) :
    ∃ t, run (recordActionOutcome c correct e) k = (.ok t, .idle (k.view.actionOutcome c correct e)) :=
  ⟨_, rfl⟩

/-- What `/promote` leaves. -/
def Db.promoted (db : Db) (c : String) : Db :=
  if HasPolicy c ∧ (db.trust c).state ≠ .canAct then db.setTrust c ⟨.canAct, 5⟩ else db

theorem run_promote (c : String) (x : Db) : (run (promote c) (.idle x)).2 = .idle (x.promoted c) := by
  unfold promote Db.promoted
  by_cases hp : HasPolicy c
  · rw [lookup_of_policy hp]
    by_cases hc : (x.trust c).state = .canAct
    · simp [getTrustState, hc]
    · simp [getTrustState, hc, hp]; rfl
  · rw [lookup_of_no_policy hp]
    simp [hp]

/-- What `/demote` leaves. -/
def Db.demotedBy (db : Db) (c : String) : Db :=
  if (db.trust c).state ≠ .reportOnly then db.setTrust c ⟨.reportOnly, 0⟩ else db

theorem run_demote (c : String) (x : Db) : (run (demote c) (.idle x)).2 = .idle (x.demotedBy c) := by
  unfold demote Db.demotedBy
  by_cases hc : (x.trust c).state = .reportOnly
  · simp [getTrustState, hc]
  · simp [getTrustState, hc]; rfl

/-! ## The trip of the breaker -/

/-- What `demoteClass` leaves. -/
def Db.demoteClass (db : Db) (c : String) : Db :=
  if (db.trust c).state = .canAct then
    { db with
      trustState := Table.update db.trustState c fun _ => ⟨.reportOnly, 0⟩
      trustHistory := db.trustHistory ++ [⟨none, c, false, .canAct, .reportOnly, (db.trust c).streak, 0⟩] }
  else db

theorem run_demoteClass (c : String) (k : Conn Db) :
    run (demoteClass c) k =
      (.ok (decide ((k.view.trust c).state = .canAct)), ⟨k.committed, k.view.demoteClass c⟩) := by
  unfold demoteClass Db.demoteClass
  by_cases h : (k.view.trust c).state = .canAct
  · simp [getTrustState, h, run, Stmt.app]
  · simp [getTrustState, h]

theorem demoteClass_trust (db : Db) (c j : String) :
    (db.demoteClass c).trust j = if j = c ∧ (db.trust c).state = .canAct then ⟨.reportOnly, 0⟩ else db.trust j := by
  unfold Db.demoteClass
  by_cases h : (db.trust c).state = .canAct
  · rw [if_pos h]
    change ((Table.update db.trustState c fun _ => ⟨.reportOnly, 0⟩).lookup j).getD _ = _
    rw [Table.lookup_update, lookup_of_canAct h]
    by_cases hj : j = c
    · rw [if_pos hj, if_pos ⟨hj, h⟩]; rfl
    · rw [if_neg hj, if_neg fun hc => hj hc.1]; rfl
  · rw [if_neg h, if_neg fun hc => h hc.2]

theorem demoteClass_other {c j : String} (h : j ≠ c) (db : Db) : (db.demoteClass c).trust j = db.trust j := by
  rw [demoteClass_trust, if_neg fun hc => h hc.1]

theorem demoteClass_history (db : Db) (c : String) :
    (db.demoteClass c).trustHistory = db.trustHistory ++
      if (db.trust c).state = .canAct then [⟨none, c, false, .canAct, .reportOnly, (db.trust c).streak, 0⟩] else [] := by
  unfold Db.demoteClass
  split <;> simp

/-- What the trip's first loop leaves. -/
def Db.demoteClasses (db : Db) (cs : List String) : Db := cs.foldl Db.demoteClass db

theorem run_demoteClasses {cs : List String} (hn : cs.Nodup) (k : Conn Db) :
    run (demoteClasses cs) k = (.ok (cs.filter fun c => (k.view.trust c).state = .canAct),
      ⟨k.committed, k.view.demoteClasses cs⟩) := by
  induction cs generalizing k with
  | nil => rfl
  | cons c cs ih =>
    obtain ⟨hc, hn⟩ := List.nodup_cons.1 hn
    simp only [demoteClasses, run_bind_ok (run_demoteClass c k), run_bind_ok (ih hn _)]
    have hrest : (cs.filter fun j => ((k.view.demoteClass c).trust j).state = .canAct) =
        cs.filter fun j => (k.view.trust j).state = .canAct := by
      refine List.filter_congr fun j hj => ?_
      rw [demoteClass_other (by rintro rfl; exact hc hj)]
    simp only [hrest, pure_eq, run_done, List.filter_cons]
    rfl

theorem demoteClasses_trust (db : Db) (cs : List String) (j : String) :
    (db.demoteClasses cs).trust j =
      if j ∈ cs ∧ (db.trust j).state = .canAct then ⟨.reportOnly, 0⟩ else db.trust j := by
  induction cs generalizing db with
  | nil => simp [Db.demoteClasses]
  | cons c cs ih =>
    simp only [Db.demoteClasses, List.foldl_cons] at ih ⊢
    rw [ih, demoteClass_trust]
    by_cases hj : j = c
    · subst hj
      by_cases h : (db.trust j).state = .canAct <;> simp [h]
    · simp [hj]

theorem demoteClasses_history {cs : List String} (hn : cs.Nodup) (db : Db) :
    (db.demoteClasses cs).trustHistory = db.trustHistory ++
      (cs.filter fun c => (db.trust c).state = .canAct).map fun c =>
        ⟨none, c, false, .canAct, .reportOnly, (db.trust c).streak, 0⟩ := by
  induction cs generalizing db with
  | nil => simp [Db.demoteClasses]
  | cons c cs ih =>
    obtain ⟨hc, hn⟩ := List.nodup_cons.1 hn
    have hsame : ∀ j ∈ cs, (db.demoteClass c).trust j = db.trust j := fun j hj =>
      demoteClass_other (by rintro rfl; exact hc hj) db
    have ih := ih hn (db.demoteClass c)
    rw [List.filter_congr fun j hj => by rw [hsame j hj]] at ih
    simp only [Db.demoteClasses, List.foldl_cons] at ih ⊢
    rw [ih, demoteClass_history, List.append_assoc]
    congr 1
    rw [List.map_congr_left (g := fun c => (⟨none, c, false, .canAct, .reportOnly, (db.trust c).streak, 0⟩ :
      HistoryRow TrustLevel)) fun j hj => by rw [hsame j (List.mem_of_mem_filter hj)]]
    by_cases h : (db.trust c).state = .canAct <;> simp [h]

/-- What `reset_to_safe_defaults` leaves. -/
def Db.reset (db : Db) (c : String) (e : Option String) : Db :=
  { db with
    diagnoserMode := if db.diag c = ⟨.stub, 0⟩ then db.diagnoserMode else db.diagnoserMode.insert c ⟨.stub, 0⟩
    diagnoserModeHistory := db.diagnoserModeHistory ++ [⟨e, c, false, (db.diag c).state, .stub, (db.diag c).streak, 0⟩]
    actionTrust :=
      if db.action c = ⟨.deterministicFallback, 0⟩ then db.actionTrust
      else db.actionTrust.insert c ⟨.deterministicFallback, 0⟩
    actionTrustHistory := db.actionTrustHistory ++
      [⟨e, c, false, (db.action c).state, .deterministicFallback, (db.action c).streak, 0⟩] }

theorem run_reset (c : String) (e : Option String) (k : Conn Db) :
    run (resetToSafeDefaults c e) k = (.ok (), .idle (k.view.reset c e)) := by
  unfold resetToSafeDefaults Db.reset
  by_cases hd : k.view.diag c = ⟨.stub, 0⟩ <;> by_cases ha : k.view.action c = ⟨.deterministicFallback, 0⟩
  all_goals
    have ha' := ha
    simp only [Db.action] at ha'
    simp [getDiagnoserMode, getActionTrust, upsertDiagnoserMode, upsertActionTrust, run, Stmt.app, hd, ha', Db.action]

/-- A row, after a write that is left out where it says what is there. -/
theorem lookup_unless {τ : Type} [DecidableEq τ] (t : Table String (Rung τ)) (c j : String) (d v : Rung τ) :
    ((if (t.lookup c).getD d = v then t else t.insert c v).lookup j).getD d = if j = c then v else (t.lookup j).getD d := by
  by_cases h : (t.lookup c).getD d = v
  · rw [if_pos h]
    by_cases hj : j = c
    · rw [if_pos hj, hj]
      exact h
    · rw [if_neg hj]
  · rw [if_neg h, Table.lookup_upsert]
    split <;> rfl

theorem reset_diag (db : Db) (c j : String) (e : Option String) :
    (db.reset c e).diag j = if j = c then ⟨.stub, 0⟩ else db.diag j :=
  lookup_unless db.diagnoserMode c j _ _

theorem reset_action (db : Db) (c j : String) (e : Option String) :
    (db.reset c e).action j = if j = c then ⟨.deterministicFallback, 0⟩ else db.action j :=
  lookup_unless db.actionTrust c j _ _

/-- What resetting several classes leaves. -/
def Db.resets (db : Db) (cs : List String) : Db := cs.foldl (fun x c => x.reset c none) db

/-- What a reset makes of its own class's row, and of no other's, resets make of each of theirs. -/
theorem resets_row {τ : Type} {row : Db → String → τ} {v : τ}
    (h : ∀ db c j, row (Db.reset db c none) j = if j = c then v else row db j) (db : Db) (cs : List String) (j : String) :
    row (db.resets cs) j = if j ∈ cs then v else row db j := by
  induction cs generalizing db with
  | nil => simp [Db.resets]
  | cons c cs ih =>
    simp only [Db.resets, List.foldl_cons] at ih ⊢
    rw [ih, h]
    by_cases hj : j = c <;> simp [hj]

theorem resets_diag (db : Db) (cs : List String) (j : String) :
    (db.resets cs).diag j = if j ∈ cs then ⟨.stub, 0⟩ else db.diag j :=
  resets_row (fun db c j => reset_diag db c j none) db cs j

theorem resets_action (db : Db) (cs : List String) (j : String) :
    (db.resets cs).action j = if j ∈ cs then ⟨.deterministicFallback, 0⟩ else db.action j :=
  resets_row (fun db c j => reset_action db c j none) db cs j

/-- What `_set_safety_hold` leaves. -/
def Db.setHold (db : Db) (c : String) (h : HoldRow) : Db := { db with safetyHold := db.safetyHold.insert c h }

theorem run_releaseHold (now : Nat) (c : String) (reason : Option String) (k : Conn Db) :
    run (setSafetyHold now c false reason) k = (.ok (), .idle (k.view.setHold c ⟨false, reason, none⟩)) := rfl

/-- The classes held now. -/
def Db.held (db : Db) : List String := Table.keysWhere db.safetyHold fun h => h.active

theorem mem_held {db : Db} {c : String} : c ∈ db.held ↔ (db.hold c).active = true := by
  unfold Db.held Db.hold
  rw [Table.mem_keysWhere]
  cases db.safetyHold.lookup c <;> simp

/-- Releases the holds on the classes `cs`. -/
def Db.release (db : Db) (reason : String) (cs : List String) : Db :=
  cs.foldl (fun x c => x.setHold c ⟨false, some reason, none⟩) db

theorem run_clearAllSafetyHolds (now : Nat) (reason : String) (x : Db) :
    run (clearAllSafetyHolds now reason) (.idle x) = (.ok (), .idle (x.release reason x.held)) := by
  unfold clearAllSafetyHolds
  simp only [select_bind, run_read]
  rw [run_forM fun c k => run_releaseHold now c (some reason) k]
  exact congrArg _ (foldl_idle (fun (x : Db) c => x.setHold c ⟨false, some reason, none⟩) _ x)

theorem release_hold (db : Db) (reason : String) (cs : List String) (j : String) :
    (db.release reason cs).hold j = if j ∈ cs then ⟨false, some reason, none⟩ else db.hold j := by
  induction cs generalizing db with
  | nil => simp [Db.release]
  | cons c cs ih =>
    simp only [Db.release, List.foldl_cons] at ih ⊢
    rw [ih]
    unfold Db.setHold
    rw [hold_insert]
    by_cases hj : j = c <;> simp [hj]

/-- What a trip over the classes `cs` leaves. -/
def Db.tripOver (db : Db) (cs : List String) : Db :=
  let x := (db.demoteClasses cs).resets FAULT_CLASSES
  x.release "circuit breaker global trip" x.held

/-- What a trip leaves. -/
def Db.trip (db : Db) : Db := db.tripOver db.trustState.keys

theorem run_check_quiet {now : Nat} {k : Conn Db} (h : k.view.recentFailures now < FAILURE_THRESHOLD) :
    run (checkCircuitBreaker now) k = (.ok ⟨false, k.view.recentFailures now, [], []⟩, k) := by
  unfold checkCircuitBreaker recentFailureCount
  simp [h]

theorem run_tripRest (now : Nat) (k : Conn Db) :
    run (tripRest now) k = (.ok (), .idle (k.view.tripOver [])) := by
  unfold tripRest
  rw [run_bind_ok (run_forM (run_reset · none) _)]
  simp only [ensureMisdispatchTables, commitNow_bind, run_commit]
  rw [foldl_idle_view (fun (x : Db) c => x.reset c none), run_bind_ok (run_clearAllSafetyHolds _ _ _)]
  rfl

theorem run_tripOver (now : Nat) {cs : List String} (hn : cs.Nodup) (k : Conn Db) :
    run (tripOver now cs) k =
      (.ok (cs.filter fun c => (k.view.trust c).state = .canAct), .idle (k.view.tripOver cs)) := by
  unfold tripOver
  rw [run_bind_ok (run_demoteClasses hn k), run_bind_ok (run_tripRest now _)]
  rfl

theorem run_check_trip {now : Nat} {k : Conn Db} (h : FAILURE_THRESHOLD ≤ k.view.recentFailures now) :
    run (checkCircuitBreaker now) k = (.ok ⟨true, k.view.recentFailures now,
      k.view.trustState.keys.filter fun c => (k.view.trust c).state = .canAct, FAULT_CLASSES⟩, .idle k.view.trip) := by
  unfold checkCircuitBreaker recentFailureCount allFaultClasses
  simp only [select_bind, run_read, if_neg (Nat.not_lt.2 h)]
  rw [run_bind_ok (run_tripOver now (AList.keys_nodup _) k)]
  rfl

/-! ## Frames -/

/-- Demotions write Dimension A and its history, and nothing else. -/
theorem demoteClasses_frame (db : Db) (cs : List String) :
    db.demoteClasses cs = { db with
      trustState := (db.demoteClasses cs).trustState
      trustHistory := (db.demoteClasses cs).trustHistory } := by
  induction cs generalizing db with
  | nil => rfl
  | cons c cs ih =>
    simp only [Db.demoteClasses, List.foldl_cons] at ih ⊢
    rw [ih]
    unfold Db.demoteClass
    split <;> rfl

/-- Resets write Dimensions B and C and their histories, and nothing else. -/
theorem resets_frame (db : Db) (cs : List String) :
    db.resets cs = { db with
      diagnoserMode := (db.resets cs).diagnoserMode
      diagnoserModeHistory := (db.resets cs).diagnoserModeHistory
      actionTrust := (db.resets cs).actionTrust
      actionTrustHistory := (db.resets cs).actionTrustHistory } := by
  induction cs generalizing db with
  | nil => rfl
  | cons c cs ih =>
    simp only [Db.resets, List.foldl_cons] at ih ⊢
    rw [ih]
    rfl

/-- Releases write the holds, and nothing else. -/
theorem release_frame (db : Db) (reason : String) (cs : List String) :
    db.release reason cs = { db with safetyHold := (db.release reason cs).safetyHold } := by
  induction cs generalizing db with
  | nil => rfl
  | cons c cs ih =>
    simp only [Db.release, List.foldl_cons] at ih ⊢
    rw [ih]
    rfl

/-- A trip writes the three ladders, their histories and the holds, and nothing else. -/
theorem trip_frame (db : Db) : db.trip = { db with
    trustState := db.trip.trustState
    trustHistory := db.trip.trustHistory
    diagnoserMode := db.trip.diagnoserMode
    diagnoserModeHistory := db.trip.diagnoserModeHistory
    actionTrust := db.trip.actionTrust
    actionTrustHistory := db.trip.actionTrustHistory
    safetyHold := db.trip.safetyHold } := by
  unfold Db.trip Db.tripOver
  simp only
  rw [release_frame, resets_frame, demoteClasses_frame]

/-! ## What a trip leaves of each ladder -/

theorem trip_trustState (db : Db) : db.trip.trustState = (db.demoteClasses db.trustState.keys).trustState := by
  unfold Db.trip Db.tripOver
  simp only
  rw [release_frame, resets_frame]

theorem trip_history (db : Db) : db.trip.trustHistory = (db.demoteClasses db.trustState.keys).trustHistory := by
  unfold Db.trip Db.tripOver
  simp only
  rw [release_frame, resets_frame]

theorem trip_trust (db : Db) (c : String) :
    db.trip.trust c = if (db.trust c).state = .canAct then ⟨.reportOnly, 0⟩ else db.trust c := by
  have h : db.trip.trust c = (db.demoteClasses db.trustState.keys).trust c := by
    unfold Db.trust; rw [trip_trustState]
  rw [h, demoteClasses_trust]
  by_cases hc : (db.trust c).state = .canAct
  · have hk : c ∈ db.trustState.keys := AList.mem_keys.2 (Table.mem_iff_lookup.2 ⟨_, lookup_of_canAct hc⟩)
    simp only [hc, hk, and_self]
  · simp only [hc, and_false]

theorem trip_diag (db : Db) (c : String) :
    db.trip.diag c = if c ∈ FAULT_CLASSES then ⟨.stub, 0⟩ else db.diag c := by
  have h : db.trip.diag c = ((db.demoteClasses db.trustState.keys).resets FAULT_CLASSES).diag c := by
    unfold Db.trip Db.tripOver Db.diag; simp only; rw [release_frame]
  rw [h, resets_diag]
  unfold Db.diag
  rw [demoteClasses_frame]

theorem trip_action (db : Db) (c : String) :
    db.trip.action c = if c ∈ FAULT_CLASSES then ⟨.deterministicFallback, 0⟩ else db.action c := by
  have h : db.trip.action c = ((db.demoteClasses db.trustState.keys).resets FAULT_CLASSES).action c := by
    unfold Db.trip Db.tripOver Db.action; simp only; rw [release_frame]
  rw [h, resets_action]
  unfold Db.action
  rw [demoteClasses_frame]

theorem trip_hold (db : Db) (c : String) : (db.trip.hold c).active = false := by
  unfold Db.trip Db.tripOver
  simp only
  rw [release_hold]
  split
  · rfl
  · rename_i h
    simpa [mem_held] using h

end Wardence
