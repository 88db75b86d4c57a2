import Wardence.Episodes
/-!
# The failures and the scores

A run commits an episode's failure before its row of `scores`. Between the two
it owes the row: killed there, it leaves a failure without an episode, and the
rerun adds another. `failures_agree`: when no run is killed while it owes, and
none records a failure of an episode that is scored or owed already, the log
has one failure an episode, and every failure's episode is scored or still owed.
-/
namespace Wardence.Failures

open Keyed Txn Client Episodes Dispatch

/-- A statement that writes no failure, no score and no snapshot. -/
def Plain : Stmt → Prop
  | .insertFailure _ _ => False
  | .insertScores _ _ => False
  | .insertSnapshot _ _ => False
  | _ => True

theorem plain_of_trip {s : Stmt} (h : s.OfTrip) : Plain s := by
  cases s <;> trivial

theorem app_plain {s : Stmt} (h : Plain s) (x : Db) : ∃ x', s.app x = .ok x' ∧ x'.scores = x.scores ∧
    x'.episodeSnapshots = x.episodeSnapshots ∧ x'.failureLog = x.failureLog := by
  cases s <;> first | exact h.elim | exact ⟨_, rfl, rfl, rfl, rfl⟩

/-- Every snapshot is of a scored episode. -/
def Snapped (x : Db) : Prop := ∀ e ∈ x.episodeSnapshots, e ∈ x.scores

/-- The failure a statement records, and its episode. -/
def failure : Stmt → Option (String × FailureRow)
  | .insertFailure (some e) f => some (e, f)
  | _ => none

theorem failure_plain {s : Stmt} (h : Plain s) : failure s = none := by
  cases s <;> first | rfl | exact h.elim

/-! ## The stages of a run -/

/-- `p` inserts episode `e`'s two rows in one transaction, and then nothing but plain statements. -/
def Settles (e : String) (p : Prog Unit) : Prop :=
  ∃ r n k, p = .exec (.insertScores e r) (.exec (.insertSnapshot e n) (.commit k)) ∧ k.All Plain

/-- `p` does not end before it has tried to insert episode `e`'s rows. -/
def Owes (e : String) : Prog Unit → Prop
  | .read k => ∀ x, Owes e (k x)
  | .commit k => Owes e k
  | .exec s k => Settles e (.exec s k) ∨ Plain s ∧ Owes e k
  | _ => False

/-- `p` first inserts an episode's rows, or a failure it then owes the rows of. -/
def Fresh : Prog Unit → Prop
  | .read k => ∀ x, Fresh (k x)
  | .commit k => Fresh k
  | .exec s k => (∃ e, Settles e (.exec s k)) ∨ ∃ e f k', s = .insertFailure (some e) f ∧ k = .commit k' ∧ Owes e k'
  | _ => True

/-- Where a run is. -/
def Stage (p : Prog Unit) : Prop := Fresh p ∨ (∃ e, Owes e p) ∨ p.All Plain

theorem Owes.bind {α : Type} {e : String} {p : Prog α} {f : α → Prog Unit} (hp : p.Sure Plain) (hf : ∀ a, Owes e (f a)) :
    Owes e (p >>= f) := by
  induction p with
  | done a => exact hf a
  | raise err => exact hp.elim
  | read k ih => exact fun x => ih x (hp x)
  | exec s k ih => exact .inr ⟨hp.1, ih hp.2⟩
  | commit k ih => exact ih hp

theorem owes_running {e : String} {p : Prog Unit} (h : Owes e p) (x : Db) : (step x p).isSome = true := by
  cases p <;> first | exact h.elim | rfl

theorem recordTrust_plain (x : Run) (e : String) (ep : EpisodeRow) (r : Result) (predicted : String) (j : Judged) :
    (recordTrust x e ep r predicted j).All Plain := by
  classical
  let w (s : Stmt) : Nat := if Plain s then 0 else 1
  have hw {s : Stmt} : w s = 0 ↔ Plain s := by by_cases h : Plain s <;> simp [w, h]
  have hown : ∀ s, owner s = some e → w s = 0 := fun s hs => hw.2 (by cases s <;> trivial)
  refine (Weighs.all (w := w) ?_).mono fun s => hw.1
  refine recordTrust_weighs (a := 0) (b := 0) (c := 0) (fun s hs => hw.2 (by cases s <;> trivial))
    (fun f ok => .of_all ((outcomes_all f ok _).1.mono hown)) (fun f ok => .of_all ((outcomes_all f ok _).2.1.mono hown))
    (fun f ok => .of_all ((outcomes_all f ok _).2.2.mono hown)) x ep r predicted j

theorem record_fresh (x : Run) (e : String) (ep : EpisodeRow) (r : Result) : Fresh (record x e ep r) := by
  unfold record
  split
  · trivial
  · rename_i predicted _
    have settles (j : Judged) : Settles e (do
        insertScored e (scoresRow ep r predicted (diagnosisMatches predicted ep.faultClass) j) (snapshotRow r j)
        recordTrust x e ep r predicted j) := ⟨_, _, _, rfl, recordTrust_plain x e ep r predicted j⟩
    simp only
    rcases judge_cases x e ep r (diagnosisMatches predicted ep.faultClass) with
      ⟨-, -, err, h⟩ | ⟨-, o, d, -, -, h⟩ | ⟨-, reason, d, -, h⟩ <;> rw [h]
    · trivial
    · exact .inl ⟨e, settles _⟩
    · rw [bind_assoc]
      exact .inr ⟨e, _, _, rfl, rfl, .bind ((checkCircuitBreaker_sure _).mono fun _ => plain_of_trip) fun b => .inl (settles _)⟩

theorem program_stage (p : Party) : Stage p.program := by
  have manual (c : String) (s : Stmt) (hs : Stmt.OfOutcome c none s) : Plain s := by
    cases s <;> first | exact hs.elim | trivial
  cases p with
  | promote c => exact .inr (.inr ((promote_all c).mono (manual c)))
  | demote c => exact .inr (.inr ((demote_all c).mono (manual c)))
  | scorer x => exact .inl (main_of_record (fun _ h => h) (fun _ h => h) trivial (fun _ => trivial) x (record_fresh x))

/-! ## What a step does -/

theorem settles_path {e : String} {p p' : Prog Unit} {v v' : Db} {zs : List Stmt} (hp : Settles e p) (h : Path p v zs v' p')
    (hv : Snapped v) :
    e ∈ v'.scores ∧ Snapped v' ∧ v'.failureLog = v.failureLog ∧ zs.filterMap failure = [] ∧ p'.All Plain := by
  obtain ⟨r, n, k, rfl, hk⟩ := hp
  cases h with
  | exec h1 h =>
    obtain ⟨-, rfl⟩ := app_insertScores h1
    cases h with
    | exec h2 h =>
      obtain ⟨-, rfl⟩ := app_insertSnapshot h2
      cases h with
      | commit =>
        refine ⟨(AList.mem_insert _).2 (.inl rfl), fun e' he' => ?_, rfl, rfl, hk⟩
        rcases (AList.mem_insert _).1 he' with rfl | he'
        · exact (AList.mem_insert _).2 (.inl rfl)
        · exact (AList.mem_insert _).2 (.inr (hv e' he'))

/-- Inserting an episode's rows fails only where the episode is scored. -/
theorem settles_abort {e : String} {p p' : Prog Unit} {v : Db} (hp : Settles e p) (h : Abort p v p') (hv : Snapped v) :
    e ∈ v.scores := by
  obtain ⟨r, n, k, rfl, -⟩ := hp
  cases h with
  | failed h1 =>
    by_contra he
    simp [Stmt.app, Table.insertNew, he] at h1
  | exec h1 h =>
    obtain ⟨-, rfl⟩ := app_insertScores h1
    cases h with
    | failed h2 =>
      by_contra he
      have : e ∉ v.episodeSnapshots := fun hs => he (hv e hs)
      simp [Stmt.app, Table.insertNew, this] at h2
    | exec h2 h => cases h

theorem plain_path {p p' : Prog Unit} {v v' : Db} {zs : List Stmt} (h : Path p v zs v' p') (hp : p.All Plain) :
    v'.scores = v.scores ∧ v'.episodeSnapshots = v.episodeSnapshots ∧ v'.failureLog = v.failureLog ∧
      zs.filterMap failure = [] ∧ p'.All Plain := by
  induction h with
  | commit => exact ⟨rfl, rfl, rfl, rfl, hp⟩
  | read _ ih => exact ih (hp _)
  | @exec s _ _ _ _ _ _ ha _ ih =>
    obtain ⟨u, hu, h1, h2, h3⟩ := app_plain hp.1 _
    obtain rfl := Except.ok.inj (ha.symm.trans hu)
    obtain ⟨i1, i2, i3, i4, i5⟩ := ih hp.2
    refine ⟨i1.trans h1, i2.trans h2, i3.trans h3, ?_, i5⟩
    rw [List.filterMap_cons_none (failure_plain hp.1), i4]

theorem owes_path {e : String} {p p' : Prog Unit} {v v' : Db} {zs : List Stmt} (h : Path p v zs v' p') (hp : Owes e p)
    (hv : Snapped v) : (Owes e p' ∨ e ∈ v'.scores ∧ p'.All Plain) ∧ Snapped v' ∧ v'.failureLog = v.failureLog ∧
      zs.filterMap failure = [] := by
  induction h with
  | commit => exact ⟨.inl hp, hv, rfl, rfl⟩
  | read _ ih => exact ih (hp _) hv
  | @exec s _ _ _ _ _ _ ha hk ih =>
    rcases hp with hp | ⟨hs, hp⟩
    · obtain ⟨h1, h2, h3, h4, h5⟩ := settles_path hp (.exec ha hk) hv
      exact ⟨.inr ⟨h1, h5⟩, h2, h3, h4⟩
    · obtain ⟨u, hu, h1, h2, h3⟩ := app_plain hs _
      obtain rfl := Except.ok.inj (ha.symm.trans hu)
      obtain ⟨i1, i2, i3, i4⟩ := ih hp (by unfold Snapped; rwa [h1, h2])
      exact ⟨i1, i2, i3.trans h3, by rw [List.filterMap_cons_none (failure_plain hs), i4]⟩

theorem owes_abort {e : String} {p p' : Prog Unit} {v : Db} (h : Abort p v p') (hp : Owes e p) (hv : Snapped v) :
    e ∈ v.scores := by
  induction h with
  | done => exact hp.elim
  | raise => exact hp.elim
  | read _ ih => exact ih (hp _) hv
  | exec ha hk ih =>
    rcases hp with hp | ⟨hs, hp⟩
    · exact settles_abort hp (.exec ha hk) hv
    · obtain ⟨u, hu, h1, h2, -⟩ := app_plain hs _
      obtain rfl := Except.ok.inj (ha.symm.trans hu)
      exact h1 ▸ ih hp (by unfold Snapped; rwa [h1, h2])
  | failed ha =>
    rcases hp with hp | ⟨hs, -⟩
    · exact settles_abort hp (.failed ha) hv
    · obtain ⟨u, hu, -⟩ := app_plain hs _
      cases ha.symm.trans hu

/-- A run that owes an episode's rows goes on owing them until the episode is scored. -/
theorem step_owes {e : String} {x x' : Db} {p p' : Prog Unit} {ws : List Stmt} (hs : step x p = some (x', ws, p'))
    (hp : Owes e p) (hx : Snapped x) : Owes e p' ∨ e ∈ x'.scores := by
  rcases step_cases hs with ⟨k, rfl, -, -, rfl⟩ | hpath | ⟨hab, rfl, -⟩
  · exact .inl (hp _)
  · exact (owes_path hpath hp hx).1.imp_right (·.1)
  · exact .inr (owes_abort hab hp hx)

theorem stage_abort {x : Db} {p p' : Prog Unit} (h : Abort p x p') : Stage p' := by
  rcases h.ended with ⟨a, rfl⟩ | ⟨err, rfl⟩ <;> exact .inl trivial

/-- A step records one failure and then owes, or records none. -/
theorem step_stage {x x' : Db} {p p' : Prog Unit} {ws : List Stmt} (hs : step x p = some (x', ws, p')) (hp : Stage p)
    (hx : Snapped x) : Snapped x' ∧ Stage p' ∧
      ((ws.filterMap failure = [] ∧ x'.failureLog = x.failureLog) ∨ ∃ e f k, p = .exec (.insertFailure (some e) f) k ∧
        ws = [.insertFailure (some e) f] ∧ x'.failureLog = x.failureLog ++ [f] ∧ Owes e p') := by
  rcases step_cases hs with ⟨k, rfl, rfl, rfl, rfl⟩ | hpath | ⟨hab, rfl, rfl⟩
  · exact ⟨hx, hp.imp (· _) (Or.imp (fun ⟨e, he⟩ => ⟨e, he _⟩) (· _)), .inl ⟨rfl, rfl⟩⟩
  · rcases hp with hp | ⟨e, hp⟩ | hp
    · cases p with
      | done a => cases hpath
      | raise err => cases hpath
      | read k => cases hs; exact ⟨hx, .inl (hp _), .inl ⟨rfl, rfl⟩⟩
      | commit k => cases hs; exact ⟨hx, .inl hp, .inl ⟨rfl, rfl⟩⟩
      -- The transaction the run is about to commit is of its row of `scores`, or of a failure.
      | exec s k =>
        rcases hp with ⟨e, hp⟩ | ⟨e, f, k', rfl, rfl, hp⟩
        · obtain ⟨-, h2, h3, h4, h5⟩ := settles_path hp hpath hx
          exact ⟨h2, .inr (.inr h5), .inl ⟨h4, h3⟩⟩
        · cases hpath with
          | exec ha hk =>
            cases ha
            cases hk with
            | commit => exact ⟨hx, .inr (.inl ⟨e, hp⟩), .inr ⟨e, f, _, rfl, rfl, rfl, hp⟩⟩
    · obtain ⟨h1, h2, h3, h4⟩ := owes_path hpath hp hx
      refine ⟨h2, ?_, .inl ⟨h4, h3⟩⟩
      rcases h1 with h1 | ⟨-, h1⟩
      · exact .inr (.inl ⟨e, h1⟩)
      · exact .inr (.inr h1)
    · obtain ⟨h1, h2, h3, h4, h5⟩ := plain_path hpath hp
      exact ⟨by unfold Snapped; rwa [h1, h2], .inr (.inr h5), .inl ⟨h4, h3⟩⟩
  · exact ⟨hx, stage_abort hab, .inl ⟨rfl, rfl⟩⟩

/-! ## The fleet -/

variable {ι : Type}

/-- The failures a fleet recorded, with their episodes, in order. -/
def failures (log : List (ι × Stmt)) : List (String × FailureRow) := log.filterMap fun r => failure r.2

/-- Run `i`, still under way, has recorded a failure of `e`, and `e` has no row of `scores` yet. -/
def Window (f : Fleet ι Db Stmt PyErr Unit) (i : ι) (e : String) : Prop :=
  (∃ p, f.procs i = some p ∧ (step f.db p).isSome = true) ∧ (∃ r, (i, .insertFailure (some e) r) ∈ f.log) ∧
    e ∉ f.db.scores

/-- No run is killed in its window, and none records a failure of an episode
that is scored, or in another run's window. -/
def Unbroken (f : Fleet ι Db Stmt PyErr Unit) : Move ι → Prop
  | .kill i => ∀ e, ¬ Window f i e
  | .go i => ∀ e r k, f.procs i = some (.exec (.insertFailure (some e) r) k) → e ∉ f.db.scores ∧ ∀ j, ¬ Window f j e

/-- What every unbroken run keeps. -/
structure Kept (f : Fleet ι Db Stmt PyErr Unit) : Prop where
  snapped : Snapped f.db
  stage : ∀ i p, f.procs i = some p → Stage p
  logged : f.db.failureLog = (failures f.log).map (·.2)
  owed : ∀ i e r, (i, .insertFailure (some e) r) ∈ f.log → e ∈ f.db.scores ∨ ∃ p, f.procs i = some p ∧ Owes e p
  once : ((failures f.log).map (·.1)).Nodup

theorem failures_append (log : List (ι × Stmt)) (i : ι) (ws : List Stmt) :
    failures (log ++ ws.map (i, ·)) = failures log ++ ws.filterMap failure := by
  simp [failures, List.filterMap_append, List.filterMap_map]

theorem mem_failures {log : List (ι × Stmt)} {e : String} (h : e ∈ (failures log).map (·.1)) :
    ∃ i r, (i, .insertFailure (some e) r) ∈ log := by
  obtain ⟨⟨e', r⟩, hr, rfl⟩ := List.mem_map.1 h
  obtain ⟨⟨i, s⟩, hs, he⟩ := List.mem_filterMap.1 hr
  cases s with
  | insertFailure b f =>
    cases b with
    | none => cases he
    | some b => cases he; exact ⟨i, _, hs⟩
  | _ => cases he

theorem Kept.window {f : Fleet ι Db Stmt PyErr Unit} (h : Kept f) {i : ι} {e : String} {r : FailureRow}
    (hr : (i, .insertFailure (some e) r) ∈ f.log) : e ∈ f.db.scores ∨ Window f i e := by
  by_cases he : e ∈ f.db.scores
  · exact .inl he
  · obtain ⟨p, hp, ho⟩ := (h.owed i e r hr).resolve_left he
    exact .inr ⟨⟨p, hp, owes_running ho _⟩, ⟨r, hr⟩, he⟩

variable [DecidableEq ι]

theorem Kept.kill {f : Fleet ι Db Stmt PyErr Unit} (h : Kept f) {i : ι} (hc : Unbroken f (.kill i)) :
    Kept { f with procs := Function.update f.procs i none } where
  snapped := h.snapped
  stage j := update_all (by simp) fun _ => h.stage j
  logged := h.logged
  once := h.once
  owed j e r hr := by
    by_cases hj : j = i
    · subst hj
      exact .inl ((h.window hr).resolve_right (hc e))
    · simp only [Function.update_of_ne hj]
      exact h.owed j e r hr

theorem Kept.step {f : Fleet ι Db Stmt PyErr Unit} (h : Kept f) {i : ι} {p p' : Prog Unit} {x : Db} {ws : List Stmt}
    (hc : Unbroken f (.go i)) (hp : f.procs i = some p) (hs : Txn.step f.db p = some (x, ws, p')) :
    Kept ⟨x, Function.update f.procs i (some p'), f.log ++ ws.map (i, ·)⟩ := by
  obtain ⟨hsnap, hstage, hfail⟩ := step_stage hs (h.stage i p hp) h.snapped
  have hmono : ∀ e ∈ f.db.scores, e ∈ x.scores := fun e he => step_scores hs he
  have hprocs : ∀ j q, Function.update f.procs i (some p') j = some q → Stage q := fun j =>
    update_all (fun _ q hq => Option.some.inj hq ▸ hstage) fun _ => h.stage j
  have howed : ∀ j e r, (j, Stmt.insertFailure (some e) r) ∈ f.log →
      e ∈ x.scores ∨ ∃ q, Function.update f.procs i (some p') j = some q ∧ Owes e q := by
    intro j e r hr
    rcases h.owed j e r hr with he | ⟨q, hq, ho⟩
    · exact .inl (hmono e he)
    · by_cases hj : j = i
      · subst hj
        obtain rfl := Option.some.inj (hp.symm.trans hq)
        rcases step_owes hs ho h.snapped with ho | he
        · exact .inr ⟨p', Function.update_self .., ho⟩
        · exact .inl he
      · exact .inr ⟨q, by rw [Function.update_of_ne hj]; exact hq, ho⟩
  -- Either the step records no failure, and the log of failures stays as it was.
  rcases hfail with ⟨hws, hlog⟩ | ⟨e, r, k, rfl, rfl, hlog, ho⟩
  · refine ⟨hsnap, hprocs, ?_, fun j e r hr => ?_, ?_⟩
    · rw [failures_append, hws, List.append_nil, hlog, h.logged]
    · rcases List.mem_append.1 hr with hr | hr
      · exact howed j e r hr
      · obtain ⟨s, hs, heq⟩ := List.mem_map.1 hr
        cases heq
        have := List.filterMap_eq_nil_iff.1 hws _ hs
        cases this
    · rw [failures_append, hws, List.append_nil]
      exact h.once
  · -- the run records a failure: nobody has recorded one of this episode
    obtain ⟨hsc, hwin⟩ := hc e r k hp
    have hnew : e ∉ (failures f.log).map (·.1) := fun hmem => by
      obtain ⟨j, r', hr'⟩ := mem_failures hmem
      rcases h.window hr' with he | hw
      · exact hsc he
      · exact hwin j hw
    refine ⟨hsnap, hprocs, ?_, fun j e' r' hr => ?_, ?_⟩
    · rw [failures_append, hlog, h.logged]; simp [failure]
    · rcases List.mem_append.1 hr with hr | hr
      · exact howed j e' r' hr
      · obtain ⟨s, hs, heq⟩ := List.mem_map.1 hr
        obtain rfl := List.mem_singleton.1 hs
        cases heq
        exact .inr ⟨p', Function.update_self .., ho⟩
    · rw [failures_append, List.map_append]
      refine List.nodup_append.2 ⟨h.once, List.nodup_singleton e, ?_⟩
      rintro a ha b hb rfl
      obtain rfl : a = e := List.mem_singleton.1 hb
      exact hnew ha

/-! ## The published integrity score -/

/-- From `publish_to_r2.py`, before it is rounded for display. -/
def integrityScore (db : Db) : Option ℚ :=
  let totalEpisodes := db.scores.keys.length
  if totalEpisodes = 0 then none else some ((1 - (db.failureLog.length : ℚ) / totalEpisodes) * 100)

theorem integrity_bounds {db : Db} (h : db.failureLog.length ≤ db.scores.keys.length) {q : ℚ}
    (hq : integrityScore db = some q) : 0 ≤ q ∧ q ≤ 100 := by
  unfold integrityScore at hq
  simp only at hq
  split at hq
  · cases hq
  · rename_i hn
    obtain rfl := Option.some.inj hq
    have hpos : (0 : ℚ) < db.scores.keys.length := by exact_mod_cast Nat.pos_of_ne_zero hn
    have h1 : (db.failureLog.length : ℚ) / db.scores.keys.length ≤ 1 := by
      rw [div_le_one hpos]; exact_mod_cast h
    have h0 : (0 : ℚ) ≤ (db.failureLog.length : ℚ) / db.scores.keys.length := by positivity
    constructor <;> linarith

/-- In an unbroken run of any fleet, every failure is of an episode of its own
that is scored, or that a run is just about to score. With no run in its window,
no more failures than scores are counted. -/
theorem failures_agree (db : Db) (hlog : db.failureLog = []) (hsnap : Snapped db) (ps : ι → Party) (ms : List (Move ι))
    (hclean : Fleet.Clean Unbroken (Fleet.init db fun i => (ps i).program) ms) :
    let f := (Fleet.init db fun i => (ps i).program).runs ms
    f.db.failureLog = (failures f.log).map (·.2) ∧ ((failures f.log).map (·.1)).Nodup ∧
      (∀ i e r, (i, .insertFailure (some e) r) ∈ f.log → e ∈ f.db.scores ∨ Window f i e) ∧
      ((∀ i e, ¬ Window f i e) → ∀ q, integrityScore f.db = some q → 0 ≤ q ∧ q ≤ 100) := by
  have h0 : Kept (Fleet.init db fun i => (ps i).program) :=
    ⟨hsnap, fun i p hp => Option.some.inj hp ▸ program_stage (ps i), hlog, by simp [Fleet.init], List.nodup_nil⟩
  have h : Kept ((Fleet.init db fun i => (ps i).program).runs ms) := by
    refine Fleet.runs_clean (fun f m hm hf => ?_) h0 hclean
    rcases f.move_cases m with he | ⟨i, rfl, he⟩ | ⟨i, p, x, ws, p', rfl, hp, hs, he⟩
    · rwa [he]
    · rw [he]; exact hf.kill hm
    · rw [he]; exact hf.step hm hp hs
  refine ⟨h.logged, h.once, fun i e r => h.window, fun hw q => integrity_bounds ?_⟩
  have hsub : (failures ((Fleet.init db fun i => (ps i).program).runs ms).log).map (·.1) ⊆
      ((Fleet.init db fun i => (ps i).program).runs ms).db.scores.keys := fun e he => by
    obtain ⟨i, r, hr⟩ := mem_failures he
    exact AList.mem_keys.1 ((h.window hr).resolve_right (hw i e))
  have hlen := (List.subperm_of_subset h.once hsub).length_le
  rw [h.logged]
  simpa using hlen

/-- A database in which crash-loops may be acted on, with one on `carts` to score. -/
def crashed : Db := { acting "crash-loop" with episodes := (∅ : Table String EpisodeRow).insert "ep-1" crashLoop }

/-- A restart that does not apply. -/
def failing : Run := scoring (stubbed ⟨fun _ => .failure, fun _ _ => none, fun _ _ => ⟨false⟩⟩ none)

/-- A run of its own records a failure, and scores the episode. -/
theorem failures_agree_alone :
    let f := (Fleet.init crashed fun _ : Unit => main failing).runs (List.replicate 10 (.go ()))
    f.db.failureLog = (failures f.log).map (·.2) ∧ ((failures f.log).map (·.1)).Nodup ∧
      (∀ i e r, (i, .insertFailure (some e) r) ∈ f.log → e ∈ f.db.scores ∨ Window f i e) ∧
      ((∀ i e, ¬ Window f i e) → ∀ q, integrityScore f.db = some q → 0 ≤ q ∧ q ≤ 100) := by
  refine failures_agree crashed rfl (fun e he => absurd he (AList.notMem_empty e)) (fun _ => .scorer failing) _ ?_
  refine ⟨?_, ?_, ?_, ?_, ?_, ?_, ?_, ?_, ?_, ?_, trivial⟩
  case refine_8 =>
    -- the step that records the failure
    intro e r k h
    cases h
    refine ⟨by decide +kernel, fun j hw => ?_⟩
    obtain ⟨-, ⟨r, hr⟩, -⟩ := hw
    cases hr
  all_goals
    intro e r k h
    cases h

/-- A run killed between its two commits, and its rerun: two failures for one episode. -/
theorem counted_twice :
    let f := (Fleet.init crashed fun _ : Bool => main failing).runs
      (List.replicate 8 (.go true) ++ [.kill true] ++ List.replicate 30 (.go false))
    (failures f.log).map (·.1) = ["ep-1", "ep-1"] ∧ f.db.failureLog.length = 2 ∧ integrityScore f.db = some (-100) ∧
      f.procs true = none ∧ (f.procs false).map (fun p => (step f.db p).isSome) = some false := by
  decide +kernel

end Wardence.Failures
