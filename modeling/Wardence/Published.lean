import Wardence.Grades
/-!
# The published episodes

What `build_episodes` shows of the trust an episode ran under: the last row of
each ladder's history that carries the episode. A trip logs none, and comes
before the episode's own row: `published_iff` says which runs the published
rows still tell right.
-/
namespace Wardence.Published

open Keyed Txn Client Dispatch Episodes Failures Recording Grades

/-! ## `build_episodes` -/

section Rows
variable {τ : Type}

/-- `SELECT ... WHERE episode_id = ? ORDER BY id DESC LIMIT 1`. -/
def lastRow (e : String) (h : List (HistoryRow τ)) : Option (HistoryRow τ) :=
  (h.filter fun row => row.episodeId = some e).getLast?

theorem lastRow_own (e : String) (h : List (HistoryRow τ)) (row : HistoryRow τ) (hrow : row.episodeId = some e) :
    lastRow e (h ++ [row]) = some row := by
  simp [lastRow, List.filter_append, hrow]

theorem lastRow_others (e : String) (h : List (HistoryRow τ)) (rows : List (HistoryRow τ))
    (hrows : ∀ row ∈ rows, row.episodeId ≠ some e) : lastRow e (h ++ rows) = lastRow e h := by
  have hnil : (rows.filter fun row => row.episodeId = some e) = [] :=
    List.filter_eq_nil_iff.2 fun row hrow => by simpa using hrows row hrow
  unfold lastRow
  rw [List.filter_append, hnil, List.append_nil]

theorem lastRow_told {e : String} {h : List (HistoryRow τ)} (hh : lastRow e h = none) (o : Option Bool)
    (row : Bool → HistoryRow τ) (hrow : ∀ correct, (row correct).episodeId = some e) :
    lastRow e (h ++ o.toList.map row) = o.map row := by
  cases o with
  | none => simpa using hh
  | some correct => exact lastRow_own e h (row correct) (hrow correct)

end Rows

/-- The published columns about trust. -/
structure EpisodeTrust where
  dimensionABefore : Option TrustLevel := none
  dimensionAAfter : Option TrustLevel := none
  dimensionBBefore : Option DiagMode := none
  dimensionBAfter : Option DiagMode := none
  dimensionCBefore : Option ActionTrust := none
  dimensionCAfter : Option ActionTrust := none
  deriving DecidableEq

def episodeTrust (z : Db) (e : String) : EpisodeTrust where
  dimensionABefore := (lastRow e z.trustHistory).map (·.stateBefore)
  dimensionAAfter := (lastRow e z.trustHistory).map (·.stateAfter)
  dimensionBBefore := (lastRow e z.diagnoserModeHistory).map (·.stateBefore)
  dimensionBAfter := (lastRow e z.diagnoserModeHistory).map (·.stateAfter)
  dimensionCBefore := (lastRow e z.actionTrustHistory).map (·.stateBefore)
  dimensionCAfter := (lastRow e z.actionTrustHistory).map (·.stateAfter)

/-- A published episode. -/
structure Entry where
  episodeId : String
  episode : EpisodeRow
  scores : ScoresRow
  snapshot : Option SnapshotRow
  trust : EpisodeTrust

/-- The scored episodes, newest first. -/
def buildEpisodes (z : Db) : List Entry :=
  (z.episodes.entries.filterMap fun row => (z.scores.lookup row.1).map fun s =>
    ⟨row.1, row.2, s, z.episodeSnapshots.lookup row.1, episodeTrust z row.1⟩).mergeSort
      fun a b => decide (b.episode.t0 ≤ a.episode.t0)

theorem trust_of_mem {z : Db} {entry : Entry} (h : entry ∈ buildEpisodes z) :
    entry.trust = episodeTrust z entry.episodeId := by
  obtain ⟨row, -, hrow⟩ := List.mem_filterMap.1 (List.mem_mergeSort.1 h)
  obtain ⟨s, -, rfl⟩ := Option.map_eq_some_iff.1 hrow
  rfl

/-- Every scored episode is published. -/
theorem mem_buildEpisodes {z : Db} {e : String} (ep : EpisodeRow) {s : ScoresRow} (h1 : z.episodes.lookup e = some ep)
    (h2 : z.scores.lookup e = some s) : ⟨e, ep, s, z.episodeSnapshots.lookup e, episodeTrust z e⟩ ∈ buildEpisodes z :=
  List.mem_mergeSort.2 (List.mem_filterMap.2 ⟨⟨e, ep⟩, AList.mem_lookup_iff.1 h1, by rw [h2]; rfl⟩)

/-! ## Whose rows are published -/

/-- The history rows a statement adds for episode `e`, in any dimension. -/
def anyRows (e : String) (s : Stmt) : Nat := rows .a e s + (rows .b e s + rows .c e s)

theorem anyRows_owner {e : String} {s : Stmt} (h : owner s ≠ some e) : anyRows e s = 0 := by
  simp [anyRows, rows_owner h]

/-- What is published of an episode changes only with its own rows. -/
theorem episodeTrust_app (e : String) (s : Stmt) (x x' : Db) (hs : anyRows e s = 0) (h : s.app x = .ok x') :
    episodeTrust x' e = episodeTrust x e := by
  have other {τ : Type} {row : HistoryRow τ} (hrow : (if row.episodeId = some e then 1 else 0) = 0)
      (l : List (HistoryRow τ)) : lastRow e (l ++ [row]) = lastRow e l :=
    lastRow_others e l [row] fun row' hrow' => by
      rw [List.mem_singleton.1 hrow']
      simpa using hrow
  cases s with
  | insertScores e' r => obtain ⟨-, rfl⟩ := app_insertScores h; rfl
  | insertSnapshot e' r => obtain ⟨-, rfl⟩ := app_insertSnapshot h; rfl
  | insertTrustHistory row =>
    cases h
    simp only [anyRows, rows, Nat.add_zero] at hs
    simp only [episodeTrust, other hs]
  | insertDiagnoserModeHistory row =>
    cases h
    simp only [anyRows, rows, Nat.add_zero, Nat.zero_add] at hs
    simp only [episodeTrust, other hs]
  | insertActionTrustHistory row =>
    cases h
    simp only [anyRows, rows, Nat.zero_add] at hs
    simp only [episodeTrust, other hs]
  | _ => cases h; rfl

theorem program_anyRows (e : String) (p : Party) : p.program.Guarded (scores e) (anyRows e) 3 := by
  have outcomes (x : Run) (ep : EpisodeRow) (r : Result) (predicted : String) (j : Judged) :
      (recordTrust x e ep r predicted j).Weighs (anyRows e) (1 + (1 + 1)) :=
    recordTrust_weighs (fun s hs => anyRows_owner (by cases s <;> first | exact hs.elim | simp [owner]))
      (outcome_weighs (by simp +contextual [anyRows, rows])) (diagnoserOutcome_weighs (by simp +contextual [anyRows, rows]))
      (actionOutcome_weighs (by simp +contextual [anyRows, rows])) x ep r predicted j
  have manual (c : String) (s : Stmt) (hs : Stmt.OfOutcome c none s) : anyRows e s = 0 ∧ scores e s = false := by
    refine ⟨anyRows_owner ?_, ?_⟩ <;> cases s <;> first | exact hs.elim | rfl | simp [owner, hs.1]
  cases p with
  | scorer x => exact main_guarded (fun _ => anyRows_owner) outcomes x
  | promote c => exact .of_all ((promote_all c).mono (manual c))
  | demote c => exact .of_all ((demote_all c).mono (manual c))

section Fleets
variable {ι : Type} [DecidableEq ι]

theorem scores_runs {x : Db} {e : String} (he : e ∈ x.scores) (ps : ι → Party) (ms : List (Move ι)) :
    e ∈ ((Fleet.init x fun i => (ps i).program).runs ms).db.scores := by
  refine Fleet.runs_inv (I := fun f : Fleet ι Db Stmt PyErr Unit => e ∈ f.db.scores) (fun f m hf => ?_) he ms
  rcases f.move_cases m with h | ⟨i, -, h⟩ | ⟨i, p, x', ws, p', -, -, hs, h⟩ <;> rw [h]
  · exact hf
  · exact hf
  · exact step_scores hs hf

/-- No history names an episode that is not scored. -/
def Attributed (x : Db) : Prop := ∀ e, e ∉ x.scores → episodeTrust x e = {}

/-- It stays so, whoever works on the database. -/
theorem attributed_runs {x : Db} (h : Attributed x) (ps : ι → Party) (ms : List (Move ι)) :
    Attributed ((Fleet.init x fun i => (ps i).program).runs ms).db := by
  intro e he
  rw [runs_same (episodeTrust_app e) (weight_absent (scores_guard e) (fun i => program_anyRows e (ps i)) ms he)]
  exact h e fun hx => he (scores_runs hx ps ms)

/-- What is published of a scored episode is settled. -/
theorem episodeTrust_settled {x : Db} {e : String} (he : e ∈ x.scores) (ps : ι → Party) (ms : List (Move ι)) :
    episodeTrust ((Fleet.init x fun i => (ps i).program).runs ms).db e = episodeTrust x e :=
  runs_same (episodeTrust_app e) (weight_present (scores_guard e) he (fun i => program_anyRows e (ps i)) ms)

end Fleets

/-! ## What a recording leaves of an episode -/

/-- The row of an outcome in Dimension A's history. -/
def rowA (y : Db) (e c : String) (correct : Bool) : HistoryRow TrustLevel :=
  let after := (y.trust c).afterOutcome 5 correct
  ⟨some e, c, correct, (y.trust c).state, after.state, (y.trust c).streak, after.streak⟩

theorem outcomeOf_history (y : Db) (c e : String) (o : Option Bool) :
    (outcomeOf y c e o).trustHistory = y.trustHistory ++ o.toList.map (rowA y e c) := by
  cases o with
  | none => exact (List.append_nil _).symm
  | some correct => rfl

/-- From `y` to `y'`, an episode of class `c` is recorded in the dimensions where it has an outcome. -/
structure Ends (e c : String) (oa ob oc : Option Bool) (y y' : Db) : Prop where
  trustState : y'.trustState = (outcomeOf y c e oa).trustState
  trustHistory : y'.trustHistory = (outcomeOf y c e oa).trustHistory
  diagnoserMode : y'.diagnoserMode = gradedB y c ob
  diagnoserModeHistory : y'.diagnoserModeHistory = y.diagnoserModeHistory ++ ob.toList.map (rowB y e c)
  actionTrust : y'.actionTrust = gradedC y c oc
  actionTrustHistory : y'.actionTrustHistory = y.actionTrustHistory ++ oc.toList.map (rowC y e c)

theorem trust_of_state {y y' : Db} (h : y'.trustState = y.trustState) (c : String) : y'.trust c = y.trust c := by
  unfold Db.trust
  rw [h]

section Ends
variable {e c : String} {oa ob oc : Option Bool} {y y' : Db}

theorem lastRow_none (h : episodeTrust y e = {}) : lastRow e y.trustHistory = none ∧
    lastRow e y.diagnoserModeHistory = none ∧ lastRow e y.actionTrustHistory = none := by
  refine ⟨?_, ?_, ?_⟩
  · exact Option.map_eq_none_iff.1 (congrArg EpisodeTrust.dimensionABefore h)
  · exact Option.map_eq_none_iff.1 (congrArg EpisodeTrust.dimensionBBefore h)
  · exact Option.map_eq_none_iff.1 (congrArg EpisodeTrust.dimensionCBefore h)

/-- The published pair of a dimension with an outcome is the last move of its ladder. -/
theorem Ends.shown (h : Ends e c oa ob oc y y') (hy : episodeTrust y e = {}) : episodeTrust y' e =
    { dimensionABefore := oa.map fun _ => (y.trust c).state
      dimensionAAfter := oa.map fun _ => (y'.trust c).state
      dimensionBBefore := ob.map fun _ => (y.diag c).state
      dimensionBAfter := ob.map fun _ => (y'.diag c).state
      dimensionCBefore := oc.map fun _ => (y.action c).state
      dimensionCAfter := oc.map fun _ => (y'.action c).state } := by
  obtain ⟨ha, hb, hc⟩ := lastRow_none hy
  have ra := lastRow_told ha oa (rowA y e c) fun _ => rfl
  have rb := lastRow_told hb ob (rowB y e c) fun _ => rfl
  have rc := lastRow_told hc oc (rowC y e c) fun _ => rfl
  have ta : ∀ correct ∈ oa, (y'.trust c).state = ((y.trust c).afterOutcome 5 correct).state := by
    rintro correct rfl
    exact congrArg Rung.state ((trust_of_state h.trustState c).trans
      ((trust_insert y c c _).trans (if_pos rfl)))
  have tb : ∀ correct ∈ ob, (y'.diag c).state = ((y.diag c).afterResult .stub .llm 5 correct).state := by
    rintro correct rfl
    unfold Db.diag
    rw [h.diagnoserMode, gradedB, Table.lookup_upsert, if_pos rfl]
    rfl
  have tc : ∀ correct ∈ oc, (y'.action c).state = ((y.action c).afterResult .deterministicFallback .llmCanAct 5 correct).state := by
    rintro correct rfl
    unfold Db.action
    rw [h.actionTrust, gradedC, Table.lookup_upsert, if_pos rfl]
    rfl
  unfold episodeTrust
  rw [h.trustHistory, outcomeOf_history, h.diagnoserModeHistory, h.actionTrustHistory, ra, rb, rc]
  simp only [Option.map_map, EpisodeTrust.mk.injEq]
  refine ⟨rfl, Option.map_congr fun correct hc => (ta correct hc).symm, rfl,
    Option.map_congr fun correct hc => (tb correct hc).symm, rfl, Option.map_congr fun correct hc => (tc correct hc).symm⟩

end Ends

/-! ## A run that scores its episode -/

/-- The run fails its own episode. -/
def Fails (x : Run) (ep : EpisodeRow) (r : Result) : Prop :=
  r.act.actionTaken.isSome = true ∧ (r.diag.diagnosis.any (diagnosisMatches · ep.faultClass) = false ∨
    r.applied ≠ some true ∨ (x.watch ep.faultClass).1 ≠ .confirmed)

/-- Its failure trips the breaker. -/
def TripsItself (x : Run) (db : Db) (ep : EpisodeRow) (r : Result) : Prop :=
  Fails x ep r ∧ FAILURE_THRESHOLD ≤
    db.recentFailures x.checkedAt + if x.checkedAt ≤ x.failedAt + FAILURE_WINDOW_S then 1 else 0

theorem recentFailures_failed (db : Db) (f : FailureRow) (now : Nat) : (failed db f).recentFailures now =
    db.recentFailures now + if now ≤ f.recordedAt + FAILURE_WINDOW_S then 1 else 0 := by
  simp [Db.recentFailures, failed, List.countP_append, List.countP_singleton]

/-- The ladders of class `c` after the judgement: as they were, or as a trip leaves them. -/
structure Stands (tripped : Prop) (c : String) (db y : Db) : Prop where
  kept : ¬ tripped → y.trust c = db.trust c ∧ y.diag c = db.diag c ∧ y.action c = db.action c
  trust : tripped → (y.trust c).state = if (db.trust c).state = .canAct then .reportOnly else (db.trust c).state
  diag : tripped → c ∈ FAULT_CLASSES → (y.diag c).state = .stub
  action : tripped → c ∈ FAULT_CLASSES → (y.action c).state = .deterministicFallback

theorem stands_failed (f : FailureRow) (tripped : Prop) [Decidable tripped] (c : String) (db : Db) :
    Stands tripped c db (if tripped then (failed db f).trip else failed db f) where
  kept h := by rw [if_neg h]; exact ⟨rfl, rfl, rfl⟩
  trust h := by
    rw [if_pos h, trip_trust]
    change (if (db.trust c).state = .canAct then (⟨.reportOnly, 0⟩ : Rung TrustLevel) else db.trust c).state = _
    split <;> rfl
  diag h hc := by rw [if_pos h, trip_diag, if_pos hc]
  action h hc := by rw [if_pos h, trip_action, if_pos hc]

theorem policy_faultClass {c : String} (h : HasPolicy c) : c ∈ FAULT_CLASSES := by
  have hall : ∀ row ∈ PROMOTION_STREAK, row.1 ∈ FAULT_CLASSES := by decide
  exact hall (c, 5) (mem_of_lookup (lookup_of_policy h))

section Judged
variable {x : Run} {db : Db} {e : String} {ep : EpisodeRow} {r : Result} {predicted : String}

/-- A judgement raises, has nothing against the run, or charges it with a failure. -/
theorem judge_fails (x : Run) (e : String) (ep : EpisodeRow) (hd : r.diag.diagnosis = some predicted) :
    let p := judge x e ep r (diagnosisMatches predicted ep.faultClass)
    (∃ err, p = raise err) ∨
      (¬ Fails x ep r ∧ ∃ o d, (o.isSome = true → HasPolicy ep.faultClass) ∧ p = done ⟨o, d, none⟩) ∨
      (Fails x ep r ∧ ∃ reason d, p = recordFailure (some e) x.failedAt x.checkedAt reason (some ep.faultClass) >>=
        fun b => done ⟨some false, d, some b⟩) := by
  have hany : r.diag.diagnosis.any (diagnosisMatches · ep.faultClass) = diagnosisMatches predicted ep.faultClass := by
    rw [hd, Option.any_some]
  simp only [Fails, hany]
  unfold judge
  cases r.act.actionTaken with
  | none => exact .inr (.inl ⟨by simp, _, _, by split <;> simp [*], rfl⟩)
  | some tool =>
    simp only [Option.isSome_some, true_and]
    split
    · rename_i h
      exact .inr (.inr ⟨h.imp id .inl, _, _, rfl⟩)
    · rename_i h
      obtain ⟨h1, h2⟩ := not_or.1 h
      unfold verifyDurability
      by_cases hw : (DURABILITY_WINDOWS.lookup ep.faultClass).isSome = true
      · simp only [if_pos hw]
        split
        · rename_i hc
          exact .inr (.inl ⟨by simp [hc, h1, not_not.1 h2], _, _, fun _ => (windows_policy _).1 hw, rfl⟩)
        · rename_i hc
          exact .inr (.inr ⟨.inr (.inr hc), _, _, rfl⟩)
      · simp only [if_neg hw]
        exact .inl ⟨_, rfl⟩

/-- A judgement that does not raise leaves the ladders as they were, or as a trip leaves them. -/
theorem judge_stands (x : Run) (db : Db) (e : String) (ep : EpisodeRow) (hd : r.diag.diagnosis = some predicted) :
    let k := run (judge x e ep r (diagnosisMatches predicted ep.faultClass)) (.idle db)
    (∃ err, k = (.error err, .idle db)) ∨ ∃ j y, k = (.ok j, .idle y) ∧
      Stands (TripsItself x db ep r) ep.faultClass db y ∧ (TripsItself x db ep r → j.trustCorrect ≠ none) := by
  rcases judge_fails x e ep hd with ⟨err, h⟩ | ⟨hf, o, d, -, h⟩ | ⟨hf, reason, d, h⟩ <;> rw [h]
  · exact .inl ⟨err, rfl⟩
  · have hq : ¬ TripsItself x db ep r := fun ht => hf ht.1
    exact .inr ⟨_, db, rfl, ⟨fun _ => ⟨rfl, rfl, rfl⟩, fun ht => absurd ht hq, fun ht => absurd ht hq, fun ht => absurd ht hq⟩,
      fun ht => absurd ht hq⟩
  · obtain ⟨b, hb, hb'⟩ := run_recordFailure (some e) x.failedAt x.checkedAt reason (some ep.faultClass) db
    rw [run_bind_ok hb]
    have htrips : TripsItself x db ep r ↔ b.tripped = true := by
      rw [hb', recentFailures_failed]
      exact ⟨fun ht => ht.2, fun ht => ⟨hf, ht⟩⟩
    rw [htrips]
    exact .inr ⟨_, _, rfl, stands_failed _ _ _ _, fun _ => by simp⟩

/-- Nothing a judgement writes carries an episode, or scores one. -/
theorem judge_unheard (x : Run) (ep : EpisodeRow) (r : Result) (hnew : episodeTrust db e = {}) (hs : e ∉ db.scores) (correct : Bool) :
    let y := (run (judge x e ep r correct) (.idle db)).2.committed
    episodeTrust y e = {} ∧ e ∉ y.scores := by
  refine (run_keeps (fun z => episodeTrust z e = {} ∧ e ∉ z.scores) _ ?_ (judge_all x e ep r correct) ⟨hnew, hs⟩ ⟨hnew, hs⟩).1
  rintro s z z' hst happ ⟨h1, h2⟩
  have hown : anyRows e s = 0 := by
    rcases hst with h | ⟨f, rfl⟩
    · exact anyRows_owner (by rw [owner_of_trip h]; simp)
    · rfl
  refine ⟨(episodeTrust_app e s z z' hown happ).trans h1, ?_⟩
  rcases hst with h | ⟨f, rfl⟩
  · cases s <;> first | exact h.elim | (cases happ; exact h2)
  · cases happ; exact h2

theorem pick_unscored (hpick : (run (pickEpisode x) (.idle db)).1 = .ok (some (e, ep))) : e ∉ db.scores := by
  unfold pickEpisode at hpick
  cases ht : truthy x.episodeId with
  | some e' =>
    rw [ht] at hpick
    have hrow : (if e' ∈ db.scores then none else (db.episodes.lookup e').map (e', ·)) = some (e, ep) := Except.ok.inj hpick
    by_cases h : e' ∈ db.scores
    · rw [if_pos h] at hrow
      cases hrow
    · rw [if_neg h] at hrow
      obtain ⟨row, -, hrow⟩ := Option.map_eq_some_iff.1 hrow
      cases hrow
      exact h
  | none =>
    rw [ht] at hpick
    have hrow := Option.filter_eq_some_iff.1 (Except.ok.inj hpick)
    have hmem := List.argmax_mem (Option.mem_def.2 hrow.1)
    exact of_decide_eq_true (List.mem_filter.1 hmem).2

/-- From a row of `scores` on, the dimensions with an outcome are recorded; an
action taken for a class without a policy ends the run before the first. -/
theorem remainder_ends {j : Judged} {y : Db} (h1 : e ∉ y.scores)
    (hs : e ∈ (run (remainder x e ep r predicted j) (.idle y)).2.committed.scores) :
    let y' := (run (remainder x e ep r predicted j) (.idle y)).2.committed
    (j.trustCorrect.isSome = true → HasPolicy ep.faultClass) ∧
        Ends e ep.faultClass j.trustCorrect (outcomeB ep r) (outcomeC x.liveCpu ep r) y y' ∨
      ¬ HasPolicy ep.faultClass ∧ Ends e ep.faultClass none none none y y' := by
  have h2 : e ∉ y.episodeSnapshots := by
    intro h2
    obtain ⟨err, k, hk, hy⟩ := run_insertScored_stale (.inr h2)
      (scoresRow ep r predicted (diagnosisMatches predicted ep.faultClass) j) (snapshotRow r j)
    unfold remainder at hs
    rw [run_bind_error hk, hy] at hs
    exact h1 hs
  by_cases hp : j.trustCorrect.isSome = true → HasPolicy ep.faultClass
  · obtain ⟨hg, ht⟩ := remainder_told (x := x) (r := r) hp h1 h2
    -- Dimension A's outcome moves neither of the other two.
    exact .inl ⟨hp, ⟨hg.trustState, ht.trustHistory, by rw [hg.diagnoserMode]; cases j.trustCorrect <;> rfl,
      by rw [ht.diagnoserModeHistory]; cases j.trustCorrect <;> rfl, by rw [hg.actionTrust]; cases j.trustCorrect <;> rfl,
      by rw [ht.actionTrustHistory]; cases j.trustCorrect <;> rfl⟩⟩
  · obtain ⟨hj, hp⟩ := Classical.not_imp.1 hp
    obtain ⟨err, herr⟩ := run_recordTrust_error hj hp x e r predicted
      (scored y e (scoresRow ep r predicted (diagnosisMatches predicted ep.faultClass) j) (snapshotRow r j))
    refine .inr ⟨hp, ?_⟩
    unfold remainder
    rw [run_bind_ok (run_insertScored h1 h2 _ _), herr]
    exact ⟨rfl, rfl, rfl, (List.append_nil _).symm, rfl, (List.append_nil _).symm⟩

end Judged

/-! ## What is published of it -/

/-- The pair, where there is one, is the state at the decision and the state at the end. -/
def Shows {τ : Type} (before after : Option τ) (decided ended : τ) : Prop :=
  (∀ s ∈ before, s = decided) ∧ ∀ s ∈ after, s = ended

/-- What is published of an episode of class `c` whose run went from `db` to `y`
is the trust it ran under; and if it lost its class the right to act, it shows. -/
structure Faithful (c : String) (db y : Db) (t : EpisodeTrust) : Prop where
  trust : Shows t.dimensionABefore t.dimensionAAfter (db.trust c).state (y.trust c).state
  diag : Shows t.dimensionBBefore t.dimensionBAfter (db.diag c).state (y.diag c).state
  action : Shows t.dimensionCBefore t.dimensionCAfter (db.action c).state (y.action c).state
  demoted : (db.trust c).state = .canAct → (y.trust c).state = .reportOnly →
    t.dimensionABefore = some .canAct ∧ t.dimensionAAfter = some .reportOnly

/-- Where the run's own failure trips the breaker, its class could not act
before, and had no trust in a dimension that the run then records. -/
def Undisturbed (x : Run) (db : Db) (ep : EpisodeRow) (r : Result) : Prop :=
  TripsItself x db ep r → (db.trust ep.faultClass).state ≠ .canAct ∧ (HasPolicy ep.faultClass →
    (outcomeB ep r ≠ none → (db.diag ep.faultClass).state = .stub) ∧
      (outcomeC x.liveCpu ep r ≠ none → (db.action ep.faultClass).state = .deterministicFallback))

theorem shows_map {τ : Type} (o : Option Bool) (before ended decided : τ) :
    Shows (o.map fun _ => before) (o.map fun _ => ended) decided ended ↔ (o ≠ none → before = decided) := by
  cases o <;> simp [Shows]

/-- After a recording, the published trust is the trust at `db` where every ladder
that was recorded had not moved since, and a demotion was recorded. -/
theorem Ends.faithful_iff {e c : String} {oa ob oc : Option Bool} {db y y' : Db} (h : Ends e c oa ob oc y y')
    (hy : episodeTrust y e = {}) : Faithful c db y' (episodeTrust y' e) ↔
      (oa ≠ none → (y.trust c).state = (db.trust c).state) ∧ (ob ≠ none → (y.diag c).state = (db.diag c).state) ∧
        (oc ≠ none → (y.action c).state = (db.action c).state) ∧
        ((db.trust c).state = .canAct → (y'.trust c).state = .reportOnly → oa ≠ none) := by
  rw [h.shown hy]
  constructor
  · rintro ⟨a, b, c', d⟩
    refine ⟨(shows_map _ _ _ _).1 a, (shows_map _ _ _ _).1 b, (shows_map _ _ _ _).1 c', fun h1 h2 ho => ?_⟩
    have := (d h1 h2).1
    simp [ho] at this
  · rintro ⟨a, b, c', d⟩
    refine ⟨(shows_map _ _ _ _).2 a, (shows_map _ _ _ _).2 b, (shows_map _ _ _ _).2 c', fun h1 h2 => ?_⟩
    obtain ⟨correct, ho⟩ := Option.ne_none_iff_exists'.1 (d h1 h2)
    simp [ho, h2, ← h1, a (by simp [ho])]

/-- Where Dimension A is not recorded, its ladder stays where the judgement left it. -/
theorem Ends.unmoved {e c : String} {ob oc : Option Bool} {y y' : Db} (h : Ends e c none ob oc y y') :
    y'.trust c = y.trust c := trust_of_state h.trustState c

theorem Stands.eq_iff {tripped : Prop} {c : String} {db y : Db} (h : Stands tripped c db y) (ht : tripped) :
    (y.trust c).state = (db.trust c).state ↔ (db.trust c).state ≠ .canAct := by
  rw [h.trust ht]
  by_cases hc : (db.trust c).state = .canAct <;> simp [hc]

section Runs
variable {x : Run} {db : Db} {e : String} {ep : EpisodeRow} {r : Result}

theorem faithful_of_recorded {oa : Option Bool} {y y' : Db} (hst : Stands (TripsItself x db ep r) ep.faultClass db y)
    (hy : episodeTrust y e = {}) (hp : oa ≠ none → HasPolicy ep.faultClass) (ho : TripsItself x db ep r → oa ≠ none)
    (h : Ends e ep.faultClass oa (outcomeB ep r) (outcomeC x.liveCpu ep r) y y') :
    Faithful ep.faultClass db y' (episodeTrust y' e) ↔ Undisturbed x db ep r := by
  rw [h.faithful_iff hy]
  by_cases ht : TripsItself x db ep r
  · have hpolicy := hp (ho ht)
    have hclass := policy_faultClass hpolicy
    simp only [Undisturbed, ht, ho ht, hpolicy, hst.eq_iff ht, hst.diag ht hclass, hst.action ht hclass, ne_eq, not_false_eq_true,
      forall_const, implies_true, and_true, eq_comm]
  · obtain ⟨ka, kb, kc⟩ := hst.kept ht
    refine iff_of_true ⟨fun _ => by rw [ka], fun _ => by rw [kb], fun _ => by rw [kc], ?_⟩ fun h => absurd h ht
    rintro h1 h2 rfl
    rw [h.unmoved, ka, h1] at h2
    cases h2

theorem faithful_of_cut {y y' : Db} (hst : Stands (TripsItself x db ep r) ep.faultClass db y)
    (hy : episodeTrust y e = {}) (hp : ¬ HasPolicy ep.faultClass) (h : Ends e ep.faultClass none none none y y') :
    Faithful ep.faultClass db y' (episodeTrust y' e) ↔ Undisturbed x db ep r := by
  rw [h.faithful_iff hy, h.unmoved]
  by_cases ht : TripsItself x db ep r
  · by_cases hc : (db.trust ep.faultClass).state = .canAct <;> simp [Undisturbed, ht, hp, hst.trust ht, hc]
  · obtain ⟨ka, -, -⟩ := hst.kept ht
    by_cases hc : (db.trust ep.faultClass).state = .canAct <;> simp [Undisturbed, ht, ka, hc]

/-- A run that scores its episode goes through a judgement and the rest of the
recording, which is cut short where an action was taken for a class without a policy. -/
theorem main_ends (hattr : Attributed db) (hpick : (run (pickEpisode x) (.idle db)).1 = .ok (some (e, ep)))
    (hans : x.answer db e ep = .ok r) (hs : e ∈ (after (main x) db).scores) :
    ∃ y, Stands (TripsItself x db ep r) ep.faultClass db y ∧ episodeTrust y e = {} ∧
      ((∃ oa, (oa ≠ none → HasPolicy ep.faultClass) ∧ (TripsItself x db ep r → oa ≠ none) ∧
          Ends e ep.faultClass oa (outcomeB ep r) (outcomeC x.liveCpu ep r) y (after (main x) db)) ∨
        ¬ HasPolicy ep.faultClass ∧ Ends e ep.faultClass none none none y (after (main x) db)) := by
  have hunscored := pick_unscored hpick
  have hnew := hattr e hunscored
  unfold after at hs ⊢
  rw [run_main hpick hans] at hs ⊢
  cases hd : r.diag.diagnosis with
  | none =>
    unfold record at hs
    rw [hd] at hs
    exact absurd hs hunscored
  | some predicted =>
    rw [record_eq hd] at hs ⊢
    rcases judge_stands x db e ep hd with ⟨err, h⟩ | ⟨j, y, h, hst, hj⟩
    · rw [run_bind_error h] at hs
      exact absurd hs hunscored
    · have hquiet := judge_unheard x ep r hnew hunscored (diagnosisMatches predicted ep.faultClass)
      rw [h] at hquiet
      rw [run_bind_ok h] at hs ⊢
      refine ⟨y, hst, hquiet.1, ?_⟩
      rcases remainder_ends hquiet.2 hs with ⟨hp, hends⟩ | hdied
      · exact .inl ⟨_, fun ho => hp (Option.isSome_iff_ne_none.2 ho), hj, hends⟩
      · exact .inr hdied

variable {ι : Type} [DecidableEq ι]

/-- However often it is published, whoever has worked on the database since, a
scored episode shows the trust it ran under exactly when its own run did not
trip the breaker under it. -/
theorem published_iff (hattr : Attributed db) (hpick : (run (pickEpisode x) (.idle db)).1 = .ok (some (e, ep)))
    (hans : x.answer db e ep = .ok r) (hscored : e ∈ (after (main x) db).scores) (ps : ι → Party) (ms : List (Move ι))
    (entry : Entry)
    (hpub : entry ∈ buildEpisodes ((Fleet.init (after (main x) db) fun i => (ps i).program).runs ms).db)
    (hentry : entry.episodeId = e) :
    Faithful ep.faultClass db (after (main x) db) entry.trust ↔ Undisturbed x db ep r := by
  obtain ⟨y, hst, hy, hends⟩ := main_ends hattr hpick hans hscored
  rw [trust_of_mem hpub, hentry, episodeTrust_settled hscored]
  rcases hends with ⟨oa, hp, ho, h⟩ | ⟨hp, h⟩
  · exact faithful_of_recorded hst hy hp ho h
  · exact faithful_of_cut hst hy hp h

end Runs

/-- One restart that will not apply is shown as the demotion it is. -/
theorem lone_failure_shown : ∃ entry ∈ buildEpisodes (after (main failing) crashed), entry.episodeId = "ep-1" ∧
    Faithful "crash-loop" crashed (after (main failing) crashed) entry.trust := by
  obtain ⟨s, hs⟩ : ∃ s, (after (main failing) crashed).scores.lookup "ep-1" = some s := ⟨_, rfl⟩
  have hmem := mem_buildEpisodes crashLoop rfl hs
  refine ⟨_, hmem, rfl, (published_iff (show Attributed crashed from fun _ _ => rfl) rfl rfl (Table.mem_iff_lookup.2 ⟨s, hs⟩)
    (fun _ : Unit => .promote "oom") [] _ hmem rfl).2 fun h => absurd h.2 ?_⟩
  decide +kernel

/-- The third one in five minutes trips the breaker, and is shown as that of a class that could not act. -/
theorem demotion_not_shown : let y := after (main failing) onTheBrink
    (onTheBrink.trust "crash-loop").state = .canAct ∧ (y.trust "crash-loop").state = .reportOnly ∧
      ∃ entry ∈ buildEpisodes y, entry.episodeId = "ep-1" ∧ entry.trust.dimensionABefore = some .reportOnly ∧
        ¬ Faithful "crash-loop" onTheBrink y entry.trust := by
  have hended : ((after (main failing) onTheBrink).trust "crash-loop").state = .reportOnly := rfl
  have hshown : (episodeTrust (after (main failing) onTheBrink) "ep-1").dimensionABefore = some .reportOnly := rfl
  obtain ⟨s, hs⟩ : ∃ s, (after (main failing) onTheBrink).scores.lookup "ep-1" = some s := ⟨_, rfl⟩
  refine ⟨rfl, hended, _, mem_buildEpisodes crashLoop rfl hs, rfl, hshown, fun h => ?_⟩
  exact absurd (hshown.symm.trans (h.demoted rfl hended).1) (by simp)

end Wardence.Published
