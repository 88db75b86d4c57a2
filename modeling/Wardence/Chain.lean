import Wardence.Ladder
import Wardence.Trip
import Wardence.Publisher
import Wardence.Lib.History
/-!
# The history of Dimension A

`trust_history` is the journal of `trust_state`. A trip writes both in one
transaction, and an outcome catches up with its second commit. `/promote` and
`/demote` write the ladder and no history: from then on the journal does not
lead to the row.
-/
namespace Wardence.Chain

open Keyed Txn Client History Ladder

/-! ## Runs with crashes -/

/-- A call, and after how many of its steps its process is killed, if it is. -/
structure Attempt where
  op : Op
  killed : Option Nat

/-- How often the call commits. -/
def Attempt.made (s : Attempt) (x : Db) : Nat :=
  match s.killed with
  | none => (commits s.op.program (.idle x)).length
  | some n => commitsBy n s.op.program (.idle x)

/-- The database the call leaves. -/
def leaves (x : Db) (s : Attempt) : Db :=
  match s.killed with
  | none => s.op.does x
  | some n => stop n s.op.program (.idle x)

/-- A call leaves what its last commit left. -/
theorem leaves_eq (x : Db) (s : Attempt) :
    (x :: commits s.op.program (.idle x))[s.made x]? = some (leaves x s) := by
  obtain ⟨op, _ | n⟩ := s
  · simp only [Attempt.made, leaves, Op.does, after, run_committed, Conn.idle_committed]
    cases commits op.program (.idle x) with
    | nil => rfl
    | cons y ys => simp [List.getLast?_eq_getElem?, List.getLastD_eq_getLast?]
  · exact stop_eq n op.program (.idle x)

/-- What holds of the database and of every commit holds of what is left. -/
theorem leaves_of_commits {P : Db → Prop} {x : Db} {s : Attempt} (h0 : P x)
    (h : ∀ y ∈ commits s.op.program (.idle x), P y) : P (leaves x s) := by
  have hm := List.mem_of_getElem? (leaves_eq x s)
  rcases List.mem_cons.1 hm with he | hm
  · rw [he]; exact h0
  · exact h _ hm

/-- The same for a call whose result is discarded. -/
theorem leaves_discarded {P : Db → Prop} {α : Type} {p : Prog α} {x : Db} {s : Attempt}
    (hs : s.op.program = (do let _ ← p)) (h0 : P x) (h : ∀ y ∈ commits p (.idle x), P y) : P (leaves x s) := by
  apply leaves_of_commits h0
  intro y hy
  rw [hs, commits_discard] at hy
  exact h y hy

/-! ## The journal of a class -/

/-- The row as it was before, and after, what a history row tells. -/
def rowBefore (h : HistoryRow TrustLevel) : Rung TrustLevel := ⟨h.stateBefore, h.streakBefore⟩
def rowAfter (h : HistoryRow TrustLevel) : Rung TrustLevel := ⟨h.stateAfter, h.streakAfter⟩

/-- The class's rows of `trust_history`, by id. -/
def historyOf (c : String) (x : Db) : List (HistoryRow TrustLevel) :=
  x.trustHistory.filter fun h => h.faultClass = c

def journal (c : String) : Journal Db (Rung TrustLevel) (HistoryRow TrustLevel) :=
  ⟨fun x => x.trust c, historyOf c, rowBefore, rowAfter⟩

/-- The class's history is a chain that ends in its row, replays to it, and
whose peak the row does not exceed. -/
structure Faithful (c : String) (x : Db) : Prop where
  chain : (historyOf c x).IsChain fun h h' =>
    h'.stateBefore = h.stateAfter ∧ h'.streakBefore = h.streakAfter
  last : ∀ h ∈ (historyOf c x).getLast?, rowAfter h = x.trust c
  replays : (journal c).replay ⟨.reportOnly, 0⟩ (historyOf c x) = some (x.trust c)
  distance : ∀ d, (dimensionA x c).distanceToPeak = some d → d ≤ 0

/-- A row its history leads to does not stand above the history's peak. -/
theorem streak_le_peak {c : String} {x : Db} (h : (journal c).Faithful ⟨.reportOnly, 0⟩ x) :
    (x.trust c).streak ≤ (x.maxStreak c).getD 0 := by
  rcases List.eq_nil_or_concat (historyOf c x) with h0 | ⟨init, r, hr⟩
  · have hx : (⟨.reportOnly, 0⟩ : Rung TrustLevel) = x.trust c := by
      simpa only [Journal.Faithful, journal, h0, Journal.Leads] using h
    rw [← hx]
    exact Nat.zero_le _
  · have hl : rowAfter r = x.trust c := Journal.Leads.getLast h r (by simp [journal, hr])
    have hm : r.streakAfter ∈ (historyOf c x).map (·.streakAfter) := by simp [hr]
    unfold Db.maxStreak
    rw [← hl]
    cases he : ((historyOf c x).map (·.streakAfter)).max? with
    | none => rw [List.max?_eq_none_iff.1 he] at hm; cases hm
    | some m =>
      have := (List.max?_eq_some_iff.1 he).2 _ hm
      unfold historyOf at he
      rw [he]
      exact this

theorem faithful_iff {c : String} {x : Db} : Faithful c x ↔ (journal c).Faithful ⟨.reportOnly, 0⟩ x := by
  constructor
  · intro h
    exact Journal.replay_eq_some.1 h.replays
  · intro h
    refine ⟨?_, Journal.Leads.getLast h, Journal.replay_eq_some.2 h, fun d hd => ?_⟩
    · refine (Journal.Leads.isChain h).imp fun r r' he => ?_
      simpa [journal, rowBefore, rowAfter] using he
    · by_cases hp : HasPolicy c
      · rw [dimensionA_distance hp] at hd
        have := streak_le_peak h
        obtain rfl := Option.some.inj hd
        omega
      · rw [dimensionA_no_distance hp] at hd
        cases hd

/-! ## What a call writes of the class -/

/-- The statements that write Dimension A or its history. -/
def WritesTrust : Stmt → Prop
  | .upsertTrustState _ _ _ => True
  | .updateTrustState _ _ => True
  | .insertTrustHistory _ => True
  | _ => False

theorem app_trust {s : Stmt} {x x' : Db} (hs : ¬ WritesTrust s) (h : s.app x = .ok x') :
    x'.trustState = x.trustState ∧ x'.trustHistory = x.trustHistory := by
  cases s with
  | upsertTrustState b c r => exact absurd trivial hs
  | updateTrustState c r => exact absurd trivial hs
  | insertTrustHistory r => exact absurd trivial hs
  | insertScores e r => obtain ⟨-, rfl⟩ := app_insertScores h; exact ⟨rfl, rfl⟩
  | insertSnapshot e r => obtain ⟨-, rfl⟩ := app_insertSnapshot h; exact ⟨rfl, rfl⟩
  | _ => cases h; exact ⟨rfl, rfl⟩

/-- A program that writes no row and no history of Dimension A has nothing to journal. -/
theorem commits_journalled {α : Type} {p : Prog α} (hp : p.All fun s => ¬ WritesTrust s) (c : String) (k : Conn Db) :
    ∀ y ∈ commits p k, (journal c).Journalled k.view y := by
  intro y hy
  have hsame : y.trustState = k.view.trustState ∧ y.trustHistory = k.view.trustHistory := by
    refine commits_keep (fun y : Db => y.trustState = k.view.trustState ∧ y.trustHistory = k.view.trustHistory)
      (fun s => ¬ WritesTrust s) (fun s z z' hs ha hz => ?_) hp ⟨rfl, rfl⟩ y hy
    obtain ⟨h1, h2⟩ := app_trust hs ha
    exact ⟨h1.trans hz.1, h2.trans hz.2⟩
  apply Journal.Journalled.of_same
  · simp only [journal, Db.trust, hsame.1]
  · simp only [journal, historyOf, hsame.2]

theorem reset_all (c : String) (e : Option String) : (resetToSafeDefaults c e).All fun s => ¬ WritesTrust s :=
  (reset_sure_of id (fun _ _ => id) id fun _ _ => id).all

theorem tripRest_all (now : Nat) : (tripRest now).All fun s => ¬ WritesTrust s := by
  refine (tripRest_sure now).all.mono ?_
  rintro s (h | ⟨c, r, rfl⟩) hw
  · cases s <;> first | exact h.elim | exact hw.elim
  · exact hw.elim

/-! ## What a call leaves of the class -/

/-- The call writes the class's row and leaves no history of it: an override by
hand that goes through, or an outcome that moves the row and is killed between
its two commits. -/
def Unrecorded (c : String) (x : Db) (s : Attempt) : Prop :=
  match s.op with
  | .recordOutcome j correct _ => j = c ∧ HasPolicy c ∧ s.made x = 1 ∧
      (correct = true ∨ (x.trust c).state = .canAct ∨ (x.trust c).streak ≠ 0)
  | .promote j => j = c ∧ HasPolicy c ∧ (x.trust c).state ≠ .canAct ∧ s.made x ≠ 0
  | .demote j => j = c ∧ (x.trust c).state ≠ .reportOnly ∧ s.made x ≠ 0
  | _ => False

/-- The outcomes that move a row. -/
theorem afterOutcome_ne_iff (r : Rung TrustLevel) (correct : Bool) :
    r.afterOutcome 5 correct ≠ r ↔ correct = true ∨ r.state = .canAct ∨ r.streak ≠ 0 := by
  obtain ⟨st, k⟩ := r
  cases correct <;> cases st <;> simp [Rung.afterOutcome, eq_comm]

theorem commits_recordOutcome {c : String} (h : HasPolicy c) (correct : Bool) (e : Option String) (x : Db) :
    commits (recordOutcome c correct e) (.idle x) =
      [x.setTrust c ((x.trust c).afterOutcome 5 correct), x.outcome c correct e] := by
  simp only [recordOutcome, lookup_of_policy h]
  rfl

theorem commits_recordOutcome_error {c : String} (h : ¬ HasPolicy c) (correct : Bool) (e : Option String) (x : Db) :
    commits (recordOutcome c correct e) (.idle x) = [] := by
  simp only [recordOutcome, lookup_of_no_policy h]
  rfl

theorem commits_promote (c : String) (x : Db) : commits (promote c) (.idle x) =
    if HasPolicy c ∧ (x.trust c).state ≠ .canAct then [x.setTrust c ⟨.canAct, 5⟩] else [] := by
  unfold promote
  by_cases hp : HasPolicy c
  · rw [lookup_of_policy hp]
    by_cases hc : (x.trust c).state = .canAct
    · simp [getTrustState, hc, Client.throw, commits]
    · simp [getTrustState, hc, hp, manualSetState, upsertTrustState, commits_exec_ok, Stmt.app, Db.setTrust]
  · rw [lookup_of_no_policy hp]
    simp [hp, Client.throw, commits]

theorem commits_demote (c : String) (x : Db) : commits (demote c) (.idle x) =
    if (x.trust c).state ≠ .reportOnly then [x.setTrust c ⟨.reportOnly, 0⟩] else [] := by
  unfold demote
  by_cases hc : (x.trust c).state = .reportOnly
  · simp [getTrustState, hc, Client.throw, commits]
  · simp [getTrustState, hc, manualSetState, upsertTrustState, commits_exec_ok, Stmt.app, Db.setTrust]

/-- A write of another class's row, with or without its history. -/
theorem journalled_other {c j : String} (hj : c ≠ j) (x : Db) (r : Rung TrustLevel) (hs : List (HistoryRow TrustLevel))
    (hh : ∀ h ∈ hs, h.faultClass = j) :
    (journal c).Journalled x { x.setTrust j r with trustHistory := x.trustHistory ++ hs } := by
  apply Journal.Journalled.of_same
  · exact (trust_insert x j c r).trans (if_neg hj)
  · have h0 : hs.filter (fun h => h.faultClass = c) = [] := by
      rw [List.filter_eq_nil_iff]
      intro h hm he
      exact hj ((of_decide_eq_true he).symm.trans (hh h hm))
    simp [journal, historyOf, h0]

/-- An outcome whose history is committed. -/
theorem journalled_outcome (c j : String) (x : Db) (correct : Bool) (e : Option String) :
    (journal c).Journalled x (x.outcome j correct e) := by
  by_cases hj : c = j
  · subst hj
    refine .of_row (r := ⟨e, c, correct, (x.trust c).state, ((x.trust c).afterOutcome 5 correct).state,
      (x.trust c).streak, ((x.trust c).afterOutcome 5 correct).streak⟩) ?_ rfl ?_
    · simp [journal, historyOf, Db.outcome]
    · exact ((trust_insert x c c _).trans (if_pos rfl)).symm
  · exact journalled_other hj x _ _ (by simp)

theorem journalled_demoteClass (c : String) (x : Db) (j : String) : (journal c).Journalled x (x.demoteClass j) := by
  by_cases hcan : (x.trust j).state = .canAct
  · by_cases hj : c = j
    · subst hj
      refine .of_row (r := ⟨none, c, false, .canAct, .reportOnly, (x.trust c).streak, 0⟩) ?_ ?_ ?_
      · simp [journal, historyOf, demoteClass_history, hcan]
      · simp only [journal, rowBefore, ← hcan]
      · simp [journal, rowAfter, demoteClass_trust, hcan]
    · apply Journal.Journalled.of_same
      · exact demoteClass_other hj x
      · simp [journal, historyOf, demoteClass_history, hcan, Ne.symm hj]
  · apply Journal.Journalled.of_same <;> simp [journal, historyOf, Db.demoteClass, hcan]

/-- Wherever a check of the breaker is killed, it has journalled what it did. -/
theorem journalled_check (c : String) (now : Nat) (x : Db) :
    ∀ y ∈ commits (checkCircuitBreaker now) (.idle x), (journal c).Journalled x y := by
  intro y hy
  by_cases ht : FAILURE_THRESHOLD ≤ x.recentFailures now
  · rw [Trip.commits_check_trip ht] at hy
    have hd : (journal c).Journalled x (x.demoteClasses x.trustState.keys) :=
      .foldl (journalled_demoteClass c) _ x
    exact hd.trans (commits_journalled (tripRest_all now) c _ y hy)
  · rw [Trip.commits_check_quiet (Nat.lt_of_not_le ht)] at hy
    cases hy

theorem getElem?_pair {α : Type} {a b y : α} {n : Nat} (h : [a, b][n]? = some y) : n = 0 ∧ y = a ∨ n = 1 ∧ y = b := by
  cases n with
  | zero => exact .inl ⟨rfl, (Option.some.inj h).symm⟩
  | succ n =>
    cases n with
    | zero => exact .inr ⟨rfl, (Option.some.inj h).symm⟩
    | succ n => simp at h

/-- What an override leaves, which commits at most once. -/
theorem leaves_override (op : Op) {x : Db} {j : String} {r : Rung TrustLevel} {G : Prop} [Decidable G]
    (hc : commits op.program (.idle x) = if G then [x.setTrust j r] else []) (killed : Option Nat) :
    let s : Attempt := ⟨op, killed⟩
    (G ∧ s.made x ≠ 0) ∧ leaves x s = x.setTrust j r ∨ ¬ (G ∧ s.made x ≠ 0) ∧ leaves x s = x := by
  intro s
  have h := leaves_eq x s
  rw [hc] at h
  by_cases hg : G
  · rw [if_pos hg] at h
    rcases getElem?_pair h with ⟨hm, he⟩ | ⟨hm, he⟩
    · exact .inr ⟨fun hg' => hg'.2 hm, he⟩
    · exact .inl ⟨⟨hg, by rw [hm]; simp⟩, he⟩
  · rw [if_neg hg] at h
    have hx := List.mem_of_getElem? h
    exact .inr ⟨fun hg' => hg hg'.1, List.mem_singleton.1 hx⟩

/-- What an outcome leaves: nothing, the row alone, or the row and its history. -/
theorem leaves_outcome {j : String} (hp : HasPolicy j) (x : Db) (correct : Bool) (e : Option String)
    (killed : Option Nat) :
    let s : Attempt := ⟨.recordOutcome j correct e, killed⟩
    s.made x ≠ 1 ∧ (leaves x s = x ∨ leaves x s = x.outcome j correct e) ∨
      s.made x = 1 ∧ leaves x s = x.setTrust j ((x.trust j).afterOutcome 5 correct) := by
  intro s
  have h := leaves_eq x s
  rw [Op.program, commits_discard, commits_recordOutcome hp] at h
  cases hm : s.made x with
  | zero =>
    rw [hm] at h
    exact .inl ⟨by simp, .inl (Option.some.inj h).symm⟩
  | succ n =>
    rw [hm, List.getElem?_cons_succ] at h
    rcases getElem?_pair h with ⟨rfl, he⟩ | ⟨rfl, he⟩
    · exact .inr ⟨rfl, he⟩
    · exact .inl ⟨by simp, .inr he⟩

theorem setTrust_trust (x : Db) (c : String) (r : Rung TrustLevel) : (x.setTrust c r).trust c = r :=
  (trust_insert x c c r).trans (if_pos rfl)

/-- An unrecorded call moves the row and leaves the history as it was. -/
theorem leaves_unrecorded {c : String} {x : Db} {s : Attempt} (h : Unrecorded c x s) :
    historyOf c (leaves x s) = historyOf c x ∧ (leaves x s).trust c ≠ x.trust c := by
  obtain ⟨op, killed⟩ := s
  cases op with
  | recordOutcome j correct e =>
    obtain ⟨rfl, hp, hm, hmove⟩ := h
    rcases leaves_outcome hp x correct e killed with ⟨hne, -⟩ | ⟨-, he⟩
    · exact absurd hm hne
    · rw [he, setTrust_trust]
      exact ⟨rfl, (afterOutcome_ne_iff _ _).2 hmove⟩
  | promote j =>
    obtain ⟨rfl, hp, hn, hm⟩ := h
    rcases leaves_override (.promote j) (commits_promote j x) killed with ⟨-, he⟩ | ⟨hno, -⟩
    · rw [he, setTrust_trust]
      exact ⟨rfl, fun heq => hn (by rw [← heq])⟩
    · exact absurd ⟨⟨hp, hn⟩, hm⟩ hno
  | demote j =>
    obtain ⟨rfl, hn, hm⟩ := h
    rcases leaves_override (.demote j) (commits_demote j x) killed with ⟨-, he⟩ | ⟨hno, -⟩
    · rw [he, setTrust_trust]
      exact ⟨rfl, fun heq => hn (by rw [← heq])⟩
    · exact absurd ⟨hn, hm⟩ hno
  | _ => exact h.elim

/-- Every other call has journalled what it left, wherever it was killed. -/
theorem leaves_recorded {c : String} {x : Db} {s : Attempt} (h : ¬ Unrecorded c x s) :
    (journal c).Journalled x (leaves x s) := by
  obtain ⟨op, killed⟩ := s
  have other (j : String) (hj : c ≠ j) (r : Rung TrustLevel) : (journal c).Journalled x (x.setTrust j r) := by
    have := journalled_other hj x r [] (by simp)
    rwa [List.append_nil] at this
  cases op with
  | recordOutcome j correct e =>
    by_cases hp : HasPolicy j
    · rcases leaves_outcome hp x correct e killed with ⟨-, he | he⟩ | ⟨hm, he⟩
      · rw [he]; exact .refl x
      · rw [he]; exact journalled_outcome c j x correct e
      · rw [he]
        by_cases hj : c = j
        · -- Killed between its commits, and yet recorded: the outcome did not move the row.
          subst hj
          apply Journal.Journalled.of_same
          · have hsame : ¬ (x.trust c).afterOutcome 5 correct ≠ x.trust c := by
              rw [afterOutcome_ne_iff]
              intro hmove
              exact h ⟨rfl, hp, hm, hmove⟩
            exact (setTrust_trust x c _).trans (not_not.1 hsame)
          · rfl
        · exact other j hj _
    · refine leaves_discarded rfl (.refl x) fun y hy => ?_
      rw [commits_recordOutcome_error hp] at hy
      cases hy
  | recordFailure now later reason j =>
    have hx : (journal c).Journalled x (withFailure x now reason j) := .of_same rfl rfl
    refine leaves_discarded rfl (.refl x) fun y hy => ?_
    rcases List.mem_cons.1 hy with rfl | hy
    · exact hx
    · exact hx.trans (journalled_check c later _ y hy)
  | checkCircuitBreaker now =>
    exact leaves_discarded rfl (.refl x) (journalled_check c now x)
  -- An override that goes through is unrecorded for its own class alone.
  | promote j =>
    rcases leaves_override (.promote j) (commits_promote j x) killed with ⟨⟨⟨hp, hn⟩, hm⟩, he⟩ | ⟨-, he⟩
    · rw [he]
      refine other j (fun hj => ?_) _
      subst hj
      exact h ⟨rfl, hp, hn, hm⟩
    · rw [he]; exact .refl x
  | demote j =>
    rcases leaves_override (.demote j) (commits_demote j x) killed with ⟨⟨hn, hm⟩, he⟩ | ⟨-, he⟩
    · rw [he]
      refine other j (fun hj => ?_) _
      subst hj
      exact h ⟨rfl, hn, hm⟩
    · rw [he]; exact .refl x
  | recordDiagnoserOutcome j correct e =>
    refine leaves_discarded rfl (.refl x) (commits_journalled ((recordDiagnoserOutcome_all j correct e).mono fun s hs hw => ?_) c _)
    cases s <;> first | exact hs.elim | exact hw.elim
  | recordActionOutcome j correct e =>
    refine leaves_discarded rfl (.refl x) (commits_journalled ((recordActionOutcome_all j correct e).mono fun s hs hw => ?_) c _)
    cases s <;> first | exact hs.elim | exact hw.elim
  | resetToSafeDefaults j e =>
    exact leaves_of_commits (.refl x) (commits_journalled (reset_all j e) c _)

theorem journalled_iff (c : String) (x : Db) (s : Attempt) :
    (journal c).Journalled x (leaves x s) ↔ ¬ Unrecorded c x s := by
  refine ⟨fun hj h => ?_, leaves_recorded⟩
  obtain ⟨hr, hn⟩ := leaves_unrecorded h
  exact hj.not_of_rows hr hn

/-! ## Whole runs -/

theorem history_grows (c : String) (x : Db) (s : Attempt) : historyOf c x <+: historyOf c (leaves x s) := by
  by_cases h : Unrecorded c x s
  · obtain ⟨hr, -⟩ := leaves_unrecorded h
    exact ⟨[], by rw [List.append_nil, hr]⟩
  · exact (leaves_recorded h).grows

/-- From empty tables a class's history is faithful in every state of a run
exactly when no call of the run goes unrecorded. -/
theorem faithful_throughout_iff (c : String) (steps : List Attempt) :
    (∀ pre, pre <+: steps → Faithful c (pre.foldl leaves {})) ↔
      ∀ pre s, pre ++ [s] <+: steps → ¬ Unrecorded c (pre.foldl leaves {}) s := by
  have h0 : (journal c).Faithful ⟨.reportOnly, 0⟩ {} := rfl
  have h := Journal.faithful_run_iff h0 (history_grows c) steps
  simpa only [faithful_iff, journalled_iff] using h

/-- One `/promote`: a row at the top, no history, and a distance above the peak. -/
theorem promote_unrecorded :
    let x := [(⟨.promote "oom", none⟩ : Attempt)].foldl leaves {}
    ¬ Faithful "oom" x ∧ x.trust "oom" = ⟨.canAct, 5⟩ ∧ (dimensionA x "oom").distanceToPeak = some 5 := by
  refine ⟨fun h => ?_, by decide, by decide⟩
  exact absurd (h.distance 5 (by decide)) (by decide)

end Wardence.Chain
