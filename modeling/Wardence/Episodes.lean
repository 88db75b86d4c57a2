import Wardence.Lib.Once
import Wardence.Dispatch
import Wardence.Statements
/-!
# One episode, many runs

Any number of scorers and operators work on one database, in any interleaving,
each killed at any point. All a scorer does to the ladders for an episode
follows its row of `scores`, whose key only one run can take; what one run does
afterwards is at most one move of each ladder.
-/
namespace Wardence.Episodes

open Keyed Txn Client Dispatch

/-- Who works on the database. -/
inductive Party where
  | scorer (x : Run)
  | promote (c : String)
  | demote (c : String)

def Party.program : Party → Prog Unit
  | .scorer x => main x
  | .promote c => Wardence.promote c
  | .demote c => Wardence.demote c

inductive Dimension where
  | a
  | b
  | c

/-- The rows of a ladder's history that carry episode `e`. -/
def rowsOf : Dimension → String → Db → Nat
  | .a, e, db => db.trustHistory.countP fun h => h.episodeId = some e
  | .b, e, db => db.diagnoserModeHistory.countP fun h => h.episodeId = some e
  | .c, e, db => db.actionTrustHistory.countP fun h => h.episodeId = some e

/-- The history rows a statement adds for episode `e`. -/
def rows : Dimension → String → Stmt → Nat
  | .a, e, .insertTrustHistory h => if h.episodeId = some e then 1 else 0
  | .b, e, .insertDiagnoserModeHistory h => if h.episodeId = some e then 1 else 0
  | .c, e, .insertActionTrustHistory h => if h.episodeId = some e then 1 else 0
  | _, _, _ => 0

/-- The moves of a ladder a statement makes on behalf of episode `e`. -/
def moves : Dimension → String → Stmt → Nat
  | .a, e, .upsertTrustState behalf _ _ => if behalf = some e then 1 else 0
  | .b, e, .upsertDiagnoserMode behalf _ _ => if behalf = some e then 1 else 0
  | .c, e, .upsertActionTrust behalf _ _ => if behalf = some e then 1 else 0
  | _, _, _ => 0

theorem rowsOf_app (d : Dimension) (e : String) (s : Stmt) (x x' : Db) (h : s.app x = .ok x') :
    rowsOf d e x' ≤ rowsOf d e x + rows d e s := by
  cases s with
  | insertScores e' r => obtain ⟨-, rfl⟩ := app_insertScores h; cases d <;> exact Nat.le_refl _
  | insertSnapshot e' r => obtain ⟨-, rfl⟩ := app_insertSnapshot h; cases d <;> exact Nat.le_refl _
  | _ => cases h; cases d <;> simp [rowsOf, rows, List.countP_append, List.countP_singleton]

/-! ## The key of `scores` -/

/-- The statement takes episode `e`'s key. -/
def scores (e : String) : Stmt → Bool
  | .insertScores e' _ => e' = e
  | _ => false

/-- Nothing takes a row out of `scores`. -/
theorem scores_mono {s : Stmt} {x x' : Db} (h : s.app x = .ok x') {e : String} (he : e ∈ x.scores) : e ∈ x'.scores := by
  cases s with
  | insertScores e' r => obtain ⟨-, rfl⟩ := app_insertScores h; exact (AList.mem_insert _).2 (.inr he)
  | insertSnapshot e' r => obtain ⟨-, rfl⟩ := app_insertSnapshot h; exact he
  | _ => cases h; exact he

theorem scores_guard (e : String) : Guard Db (fun db => e ∈ db.scores) (scores e) where
  fresh {s x x'} hs h := by
    cases s with
    | insertScores e' r => obtain rfl := of_decide_eq_true hs; exact (app_insertScores h).1
    | _ => cases hs
  opens {s x x'} hs h := by
    cases s with
    | insertScores e' r =>
      obtain rfl := of_decide_eq_true hs
      obtain ⟨-, rfl⟩ := app_insertScores h
      exact (AList.mem_insert _).2 (.inl rfl)
    | _ => cases hs
  keeps h he := scores_mono h he

theorem step_scores {α : Type} {x x' : Db} {p p' : Prog α} {ws : List Stmt} (h : step x p = some (x', ws, p'))
    {e : String} (he : e ∈ x.scores) : e ∈ x'.scores := by
  rcases step_cases h with ⟨k, -, rfl, -⟩ | hpath | ⟨-, rfl, -⟩
  · exact he
  · exact hpath.keeps (scores_guard e) he
  · exact he

/-! ## What a run does after its row of `scores` -/

/-- The episode a statement is executed for. -/
def owner : Stmt → Option String
  | .upsertTrustState behalf _ _ => behalf
  | .insertTrustHistory h => h.episodeId
  | .upsertDiagnoserMode behalf _ _ => behalf
  | .insertDiagnoserModeHistory h => h.episodeId
  | .upsertActionTrust behalf _ _ => behalf
  | .insertActionTrustHistory h => h.episodeId
  | _ => none

theorem owner_of_trip {s : Stmt} (h : s.OfTrip) : owner s = none := by
  cases s <;> first | exact h | rfl | exact h.elim

/-- Outcomes recorded for episode `e` write on its behalf, and nothing but ladders. -/
theorem outcomes_all (c : String) (correct : Bool) (e : Option String) :
    (recordOutcome c correct e).All (owner · = e) ∧ (recordDiagnoserOutcome c correct e).All (owner · = e) ∧
      (recordActionOutcome c correct e).All (owner · = e) := by
  refine ⟨(recordOutcome_all c correct e).mono ?_, (recordDiagnoserOutcome_all c correct e).mono ?_,
    (recordActionOutcome_all c correct e).mono ?_⟩ <;>
  · intro s hs
    cases s <;> first | exact hs.elim | exact hs.1

/-- The statements of `recordTrust` that touch no ladder. -/
def Stmt.Logs : Stmt → Prop
  | .insertMisdispatch _ => True
  | .upsertSafetyHold _ _ => True
  | .insertDiagnosisLog _ => True
  | .insertProposalLog _ => True
  | _ => False

theorem misdispatch_logs (now later : Nat) (e predicted actual : String) :
    (recordMisdispatch now later e predicted actual).All Stmt.Logs :=
  (recordMisdispatch_all now later e predicted actual).mono fun s hs => by
    rcases hs with rfl | ⟨h, rfl⟩ <;> trivial

section Weights
variable {w : Stmt → Nat} {e : String} {a b c : Nat}

theorem recordLlmTrust_weighs (h0 : ∀ s, Stmt.Logs s → w s = 0)
    (hB : ∀ f correct, (recordDiagnoserOutcome f correct (some e)).Weighs w b)
    (hC : ∀ f correct, (recordActionOutcome f correct (some e)).Weighs w c) (x : Run) (ep : EpisodeRow) (r : Result) :
    (recordLlmTrust x e ep r).Weighs w (b + c) := by
  have dimensionB : (recordDimensionB e ep.faultClass r.diag.llmResult).Weighs w b := by
    unfold recordDimensionB
    split
    · exact (hB _ _).bind (n := 0) fun _ => trivial
    · trivial
  have dimensionC : (recordDimensionC x e ep r).Weighs w c := by
    unfold recordDimensionC
    split
    · trivial
    · split
      · refine ((Weighs.of_all (w := w) (p := logProposal e ep _ _) ⟨h0 _ trivial, trivial⟩).bind fun _ => ?_).mono
          (Nat.le_of_eq (Nat.zero_add c))
        split
        · trivial
        · split
          · exact (hC _ _).bind (n := 0) fun _ => trivial
          · trivial
      · trivial
  have log : w (.insertDiagnosisLog (diagnosisLogRow e ep.faultClass r)) = 0 := h0 _ trivial
  refine ⟨by rw [log]; exact Nat.zero_le _, ?_⟩
  rw [log]
  exact dimensionB.bind fun _ => dimensionC

/-- After its row of `scores`, a run does at most one of each, and in Dimension A as it was judged. -/
theorem recordTrust_weighs_judged (h0 : ∀ s, Stmt.Logs s → w s = 0) {j : Judged}
    (hA : ∀ f, ∀ correct ∈ j.trustCorrect, (recordOutcome f correct (some e)).Weighs w a)
    (hB : ∀ f correct, (recordDiagnoserOutcome f correct (some e)).Weighs w b)
    (hC : ∀ f correct, (recordActionOutcome f correct (some e)).Weighs w c) (x : Run) (ep : EpisodeRow) (r : Result)
    (predicted : String) : (recordTrust x e ep r predicted j).Weighs w (a + (b + c)) := by
  have rest : ∀ _ : Unit, (if Misdispatched ep r predicted then do
      ensureMisdispatchTables
      let _ ← recordMisdispatch x.misdispatchedAt x.countedAt e predicted ep.faultClass
      recordLlmTrust x e ep r
    else recordLlmTrust x e ep r : Prog Unit).Weighs w (b + c) := by
    intro
    split
    · refine ((Weighs.of_all ?_).bind fun _ => recordLlmTrust_weighs h0 hB hC x ep r).mono (Nat.le_of_eq (Nat.zero_add _))
      exact (misdispatch_logs _ _ _ _ _).mono h0
    · exact recordLlmTrust_weighs h0 hB hC x ep r
  unfold recordTrust
  cases hj : j.trustCorrect with
  | none => exact (rest ()).mono (Nat.le_add_left _ _)
  | some correct => exact (hA _ _ hj).bind fun _ => rest ()

theorem recordTrust_weighs (h0 : ∀ s, Stmt.Logs s → w s = 0)
    (hA : ∀ f correct, (recordOutcome f correct (some e)).Weighs w a)
    (hB : ∀ f correct, (recordDiagnoserOutcome f correct (some e)).Weighs w b)
    (hC : ∀ f correct, (recordActionOutcome f correct (some e)).Weighs w c) (x : Run) (ep : EpisodeRow) (r : Result)
    (predicted : String) (j : Judged) : (recordTrust x e ep r predicted j).Weighs w (a + (b + c)) :=
  recordTrust_weighs_judged h0 (fun f correct _ => hA f correct) hB hC x ep r predicted

end Weights

theorem windows_policy (c : String) : (DURABILITY_WINDOWS.lookup c).isSome = true ↔ HasPolicy c := by
  have hnone : DURABILITY_WINDOWS.lookup c = none ↔ PROMOTION_STREAK.lookup c = none := by
    simp [List.lookup_eq_none_iff, DURABILITY_WINDOWS, PROMOTION_STREAK]
  rw [HasPolicy, Option.isSome_iff_ne_none, Option.isSome_iff_ne_none, ne_eq, ne_eq, hnone]

/-- Judging an episode raises where an action was taken for a class without a
window, ends at once with an outcome for a class with a policy, or records a
failure. A verdict is the watch's; one that ends at once is no flap. -/
theorem judge_cases (x : Run) (e : String) (ep : EpisodeRow) (r : Result) (correct : Bool) :
    (r.act.actionTaken.isSome = true ∧ ¬ HasPolicy ep.faultClass ∧ ∃ err, judge x e ep r correct = raise err) ∨
      ((r.act.actionTaken = none ∨ HasPolicy ep.faultClass) ∧ ∃ o d, (o.isSome = true ↔ HasPolicy ep.faultClass) ∧
        (∀ v ∈ d, v = x.watch ep.faultClass ∧ v.1 = .confirmed) ∧ judge x e ep r correct = done ⟨o, d, none⟩) ∨
      (r.act.actionTaken.isSome = true ∧ ∃ reason d, (∀ v ∈ d, v = x.watch ep.faultClass) ∧ judge x e ep r correct =
        recordFailure (some e) x.failedAt x.checkedAt reason (some ep.faultClass) >>= fun b => done ⟨some false, d, some b⟩) := by
  unfold judge
  cases r.act.actionTaken with
  | none =>
    refine .inr (.inl ⟨.inl rfl, _, _, ?_, by simp, rfl⟩)
    by_cases h : HasPolicy ep.faultClass <;> simp [h]
  | some tool =>
    simp only
    split
    · exact .inr (.inr ⟨rfl, _, _, by simp, rfl⟩)
    · unfold verifyDurability
      by_cases h : (DURABILITY_WINDOWS.lookup ep.faultClass).isSome = true
      · have hp := (windows_policy _).1 h
        simp only [if_pos h]
        split
        · rename_i hv
          refine .inr (.inl ⟨.inr hp, _, _, by simp [hp], ?_, rfl⟩)
          rintro v ⟨⟩
          exact ⟨rfl, hv⟩
        · exact .inr (.inr ⟨rfl, _, _, by simp, rfl⟩)
      · simp only [if_neg h]
        exact .inl ⟨rfl, fun hp => h ((windows_policy _).2 hp), _, rfl⟩

/-- Judging an episode writes a failure on its behalf, and perhaps a trip. -/
theorem judge_all (x : Run) (e : String) (ep : EpisodeRow) (r : Result) (correct : Bool) :
    (judge x e ep r correct).All fun s => s.OfTrip ∨ ∃ f, s = .insertFailure (some e) f := by
  rcases judge_cases x e ep r correct with ⟨-, -, err, h⟩ | ⟨-, o, d, -, -, h⟩ | ⟨-, reason, d, -, h⟩ <;> rw [h]
  · trivial
  · trivial
  · exact (recordFailure_all _ _ _ _ _).bind fun _ => trivial

/-- A property of every recording is one of the run, which only reads and commits before it. -/
theorem main_of_record {P : Prog Unit → Prop} (hread : ∀ k, (∀ db, P (k db)) → P (.read k)) (hcommit : ∀ k, P k → P (.commit k))
    (hdone : P (done ())) (hraise : ∀ err, P (raise err)) (x : Run) (hrec : ∀ e ep r, P (record x e ep r)) : P (main x) := by
  have picked (o : Option (String × EpisodeRow)) : P (scorePicked x o) := by
    cases o with
    | none => exact hdone
    | some o =>
      refine hread _ fun db => ?_
      simp only
      cases x.answer db o.1 o.2 with
      | error err => exact hraise err
      | ok r => exact hrec _ _ r
  unfold main pickEpisode
  refine hcommit _ (hcommit _ (hcommit _ (hcommit _ (hcommit _ ?_))))
  cases truthy x.episodeId with
  | none => exact hread _ fun db => picked _
  | some e => exact hread _ fun db => picked _

/-! ## Guarded runs -/

section Guarded
variable {w : Stmt → Nat} {e : String} {n : Nat}

/-- The statement writes episode `e`'s snapshot. -/
def snapshots (e : String) : Stmt → Bool
  | .insertSnapshot e' _ => e' = e
  | _ => false

/-- A run on another episode has nothing to do with `e`. -/
theorem recordTrust_other {e' : String} (he : e' ≠ e) (x : Run) (ep : EpisodeRow) (r : Result) (predicted : String)
    (j : Judged) : (recordTrust x e' ep r predicted j).All fun s =>
      owner s ≠ some e ∧ scores e s = false ∧ snapshots e s = false := by
  let P (s : Stmt) : Prop := owner s ≠ some e ∧ scores e s = false ∧ snapshots e s = false
  let w (s : Stmt) : Nat := if P s then 0 else 1
  have hw {s : Stmt} : w s = 0 ↔ P s := by by_cases h : P s <;> simp [w, h]
  have hown : ∀ s, owner s = some e' → w s = 0 := fun s hs => hw.2 ⟨by rw [hs]; simpa using he, by
    cases s <;> first | exact ⟨rfl, rfl⟩ | cases hs⟩
  refine (Weighs.all (w := w) ?_).mono fun s => hw.1
  refine recordTrust_weighs (a := 0) (b := 0) (c := 0) (fun s hs => hw.2 ?_)
    (fun f ok => .of_all ((outcomes_all f ok _).1.mono hown)) (fun f ok => .of_all ((outcomes_all f ok _).2.1.mono hown))
    (fun f ok => .of_all ((outcomes_all f ok _).2.2.mono hown)) x ep r predicted j
  cases s <;> first | exact hs.elim | exact ⟨by simp [owner], rfl, rfl⟩

/-- The judgement of a run: the verdict is its watch's, and a flap is a failure. -/
def Consistent (x : Run) (ep : EpisodeRow) (j : Judged) : Prop :=
  ∀ v ∈ j.durability, v = x.watch ep.faultClass ∧ (v.1 = .flapped → j.trustCorrect = some false)

theorem judge_guarded {w : Stmt → Nat} {g : Stmt → Bool} {n : Nat} {x : Run} {e : String} {ep : EpisodeRow} {r : Result}
    {correct : Bool} {f : Judged → Prog Unit}
    (hw : ∀ s, (s.OfTrip ∨ ∃ row, s = .insertFailure (some e) row) → w s = 0 ∧ g s = false)
    (hf : ∀ j, Consistent x ep j → (f j).Guarded g w n) : (judge x e ep r correct >>= f).Guarded g w n := by
  rcases judge_cases x e ep r correct with ⟨-, -, err, h⟩ | ⟨-, o, d, -, hd, h⟩ | ⟨-, reason, d, hd, h⟩ <;> rw [h]
  · trivial
  · refine hf _ fun v hv => ⟨(hd v hv).1, fun hflap => ?_⟩
    rw [(hd v hv).2] at hflap
    cases hflap
  · rw [bind_assoc]
    exact .bind ((recordFailure_all _ _ _ _ _).mono hw) fun b => hf _ fun v hv => ⟨hd v hv, fun _ => rfl⟩

/-- After its row of `scores`, a run of the scorer writes the snapshot and the trust of a consistent judgement. -/
theorem main_guarded_judged {x : Run} (hw : ∀ s, owner s ≠ some e → snapshots e s = false → w s = 0)
    (hrest : ∀ ep r predicted j, Consistent x ep j → w (.insertSnapshot e (snapshotRow r j)) ≤ n ∧
      (recordTrust x e ep r predicted j).Weighs w (n - w (.insertSnapshot e (snapshotRow r j)))) :
    (main x).Guarded (scores e) w n := by
  have record_guarded (e' : String) (ep : EpisodeRow) (r : Result) : (record x e' ep r).Guarded (scores e) w n := by
    unfold record
    split
    · trivial
    · rename_i predicted _
      refine judge_guarded ?_ fun j hj => ⟨hw _ (by simp [owner]) rfl, ?_⟩
      · rintro s (hs | ⟨f, rfl⟩)
        · refine ⟨hw s (by rw [owner_of_trip hs]; simp) ?_, ?_⟩ <;> cases s <;> first | rfl | exact hs.elim
        · exact ⟨hw _ (by simp [owner]) rfl, rfl⟩
      · by_cases he : e' = e
        · subst he
          rw [if_pos (by simp [scores])]
          exact hrest ep r predicted j hj
        · rw [if_neg (by simpa [scores] using he)]
          refine ⟨hw _ (by simp [owner]) (by simpa [snapshots] using he), ?_⟩
          rw [if_neg (by simp [scores])]
          exact .of_all ((recordTrust_other he x ep r predicted j).mono fun s hs => ⟨hw s hs.1 hs.2.2, hs.2.1⟩)
  exact main_of_record (fun _ h => h) (fun _ h => h) trivial (fun _ => trivial) x record_guarded

theorem main_guarded (hw : ∀ s, owner s ≠ some e → w s = 0)
    (hrest : ∀ x ep r predicted j, (recordTrust x e ep r predicted j).Weighs w n) (x : Run) :
    (main x).Guarded (scores e) w n := by
  refine main_guarded_judged (fun s hs _ => hw s hs) fun ep r predicted j _ => ?_
  rw [hw _ (by simp [owner])]
  exact ⟨Nat.zero_le _, hrest x ep r predicted j⟩

end Guarded

/-! ## At most once -/

theorem rows_owner {d : Dimension} {e : String} {s : Stmt} (h : owner s ≠ some e) : rows d e s = 0 := by
  cases d <;> cases s <;> first | rfl | exact if_neg h

theorem moves_owner {d : Dimension} {e : String} {s : Stmt} (h : owner s ≠ some e) : moves d e s = 0 := by
  cases d <;> cases s <;> first | rfl | exact if_neg h

theorem outcome_weighs {w : Stmt → Nat} {e : String} {n : Nat}
    (hw : ∀ c r h, h.episodeId = some e → w (.upsertTrustState (some e) c r) + w (.insertTrustHistory h) ≤ n)
    (c : String) (correct : Bool) : (recordOutcome c correct (some e)).Weighs w n := by
  unfold recordOutcome
  split
  · trivial
  · exact fun x => ⟨Nat.le_trans (Nat.le_add_right _ _) (hw c _ ⟨some e, c, correct, .reportOnly, .reportOnly, 0, 0⟩ rfl),
      Nat.le_sub_of_add_le' (hw c _ _ rfl), trivial⟩

theorem diagnoserOutcome_weighs {w : Stmt → Nat} {e : String} {n : Nat}
    (hw : ∀ c r h, h.episodeId = some e → w (.upsertDiagnoserMode (some e) c r) + w (.insertDiagnoserModeHistory h) ≤ n)
    (c : String) (correct : Bool) : (recordDiagnoserOutcome c correct (some e)).Weighs w n :=
  fun _ => ⟨Nat.le_trans (Nat.le_add_right _ _) (hw c _ ⟨some e, c, correct, .stub, .stub, 0, 0⟩ rfl),
    Nat.le_sub_of_add_le' (hw c _ _ rfl), trivial⟩

theorem actionOutcome_weighs {w : Stmt → Nat} {e : String} {n : Nat}
    (hw : ∀ c r h, h.episodeId = some e → w (.upsertActionTrust (some e) c r) + w (.insertActionTrustHistory h) ≤ n)
    (c : String) (correct : Bool) : (recordActionOutcome c correct (some e)).Weighs w n :=
  fun _ => ⟨Nat.le_trans (Nat.le_add_right _ _) (hw c _ ⟨some e, c, correct, .deterministicFallback, .deterministicFallback, 0, 0⟩ rfl),
    Nat.le_sub_of_add_le' (hw c _ _ rfl), trivial⟩

/-- One run's recording adds one history row and makes one move in each dimension, at most. -/
theorem recordTrust_once (d : Dimension) (e : String) (x : Run) (ep : EpisodeRow) (r : Result) (predicted : String)
    (j : Judged) : (recordTrust x e ep r predicted j).Weighs (rows d e) 1 ∧
      (recordTrust x e ep r predicted j).Weighs (moves d e) 1 := by
  have logs {s : Stmt} (h : Stmt.Logs s) : owner s ≠ some e := by
    cases s <;> first | exact h.elim | simp [owner]
  have one {a b c : Nat} {w : Stmt → Nat} (hw : ∀ s, owner s ≠ some e → w s = 0) (habc : a + (b + c) = 1)
      (hA : ∀ f r h, h.episodeId = some e → w (.upsertTrustState (some e) f r) + w (.insertTrustHistory h) ≤ a)
      (hB : ∀ f r h, h.episodeId = some e → w (.upsertDiagnoserMode (some e) f r) + w (.insertDiagnoserModeHistory h) ≤ b)
      (hC : ∀ f r h, h.episodeId = some e → w (.upsertActionTrust (some e) f r) + w (.insertActionTrustHistory h) ≤ c) :
      (recordTrust x e ep r predicted j).Weighs w 1 :=
    habc ▸ recordTrust_weighs (fun s hs => hw s (logs hs)) (outcome_weighs hA) (diagnoserOutcome_weighs hB)
      (actionOutcome_weighs hC) x ep r predicted j
  cases d with
  | a =>
    exact ⟨one (a := 1) (b := 0) (c := 0) (fun _ => rows_owner) rfl (by simp +contextual [rows]) (by simp [rows]) (by simp [rows]),
      one (a := 1) (b := 0) (c := 0) (fun _ => moves_owner) rfl (by simp [moves]) (by simp [moves]) (by simp [moves])⟩
  | b =>
    exact ⟨one (a := 0) (b := 1) (c := 0) (fun _ => rows_owner) rfl (by simp [rows]) (by simp +contextual [rows]) (by simp [rows]),
      one (a := 0) (b := 1) (c := 0) (fun _ => moves_owner) rfl (by simp [moves]) (by simp [moves]) (by simp [moves])⟩
  | c =>
    exact ⟨one (a := 0) (b := 0) (c := 1) (fun _ => rows_owner) rfl (by simp [rows]) (by simp [rows]) (by simp +contextual [rows]),
      one (a := 0) (b := 0) (c := 1) (fun _ => moves_owner) rfl (by simp [moves]) (by simp [moves]) (by simp [moves])⟩

theorem program_guarded {w : Stmt → Nat} {e : String} (hw : ∀ s, owner s ≠ some e → w s = 0)
    (hrest : ∀ x ep r predicted j, (recordTrust x e ep r predicted j).Weighs w 1) (p : Party) :
    p.program.Guarded (scores e) w 1 := by
  have manual (c : String) (s : Stmt) (hs : Stmt.OfOutcome c none s) : w s = 0 ∧ scores e s = false := by
    refine ⟨hw s ?_, ?_⟩ <;> cases s <;> first | exact hs.elim | rfl | simp [owner, hs.1]
  cases p with
  | scorer x => exact main_guarded hw hrest x
  | promote c => exact .of_all ((promote_all c).mono (manual c))
  | demote c => exact .of_all ((demote_all c).mono (manual c))

variable {ι : Type} [DecidableEq ι]

/-- However many scorers run on an episode, in whatever interleaving and wherever
they are killed, each history has at most one row of it, and each ladder was
moved at most once on its behalf. -/
theorem at_most_once_per_episode (e : String) (db : Db) (h0 : ∀ d, rowsOf d e db = 0) (ps : ι → Party)
    (ms : List (Move ι)) (d : Dimension) :
    let f := (Fleet.init db fun i => (ps i).program).runs ms
    rowsOf d e f.db ≤ 1 ∧ weight (moves d e) f.log ≤ 1 := by
  have hrows := once (x := db) (scores_guard e) (fun i => program_guarded (fun _ => rows_owner)
    (fun x ep r predicted j => (recordTrust_once d e x ep r predicted j).1) (ps i)) ms
  have hmoves := once (x := db) (scores_guard e) (fun i => program_guarded (fun _ => moves_owner)
    (fun x ep r predicted j => (recordTrust_once d e x ep r predicted j).2) (ps i)) ms
  have hdb := runs_measure (rowsOf_app d e) db (fun i => (ps i).program) ms
  rw [h0 d, Nat.zero_add] at hdb
  exact ⟨Nat.le_trans hdb hrows, hmoves⟩

/-- A crash-loop on `carts`, not scored yet. -/
def crashLoop : EpisodeRow := ⟨"crash-loop", "carts", "sock-shop", 0⟩

/-- A scorer on `ep-1`, at time 0, with the agent's answer and a fix that holds. -/
def scoring (answer : Db → String → EpisodeRow → Except PyErr Result) : Run :=
  ⟨some "ep-1", 0, 0, 0, 0, 0, answer, fun _ => (.confirmed, 120), fun _ _ => none⟩

/-- The stub's crash-loop, while no LLM answers. -/
def stubbed (w : World) (toolOutput : Option Py.Dict) : Db → String → EpisodeRow → Except PyErr Result :=
  handle w ⟨"crash-loop", none, none⟩ ⟨.llmUnavailable, none, none, none, none, none, none⟩ toolOutput

/-- Two runs that both find the episode unscored. -/
theorem two_runs_one_row :
    let f := (Fleet.init { episodes := (∅ : Table String EpisodeRow).insert "ep-1" crashLoop }
      fun _ : Bool => main (scoring (stubbed (replying .failure) none))).runs
        ((List.replicate 12 [Move.go true, .go false]).flatten)
    rowsOf .a "ep-1" f.db ≤ 1 ∧ weight (moves .a "ep-1") f.log ≤ 1 :=
  at_most_once_per_episode "ep-1" _ (by intro d; cases d <;> rfl) (fun _ => .scorer _) _ .a

end Wardence.Episodes
