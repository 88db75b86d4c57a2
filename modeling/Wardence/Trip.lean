import Wardence.Effects
import Wardence.Statements
/-!
# The trip, whole and in part

A trip that runs to its end takes everything it should and nothing else. It is
not one transaction: the resets and the releases commit one by one, so a process
killed among them leaves a trip half done. `Db.tripCommits` counts those
commits, and `complete_and_atomic_iff` says that every other place to be killed
in is safe.
-/
namespace Wardence.Trip

open Keyed Txn Client

/-- A call that checks the breaker. -/
inductive Call where
  | check (now : Nat)
  | failure (behalf : Option String) (now later : Nat) (reason : String) (c : Option String)

def Call.program : Call → Prog Unit
  | .check now => do let _ ← checkCircuitBreaker now
  | .failure behalf now later reason c => do let _ ← recordFailure behalf now later reason c

/-- The database once the call's own failure row, if any, is committed. -/
def Call.failed (x : Db) : Call → Db
  | .check _ => x
  | .failure _ now _ reason c => { x with failureLog := x.failureLog ++ [⟨reason, c, now⟩] }

/-- When the call checks the breaker. -/
def Call.checkedAt : Call → Nat
  | .check now => now
  | .failure _ _ later _ _ => later

/-- Three failures lie in the window, the call's own among them. -/
def Call.Trips (x : Db) (call : Call) : Prop := FAILURE_THRESHOLD ≤ (call.failed x).recentFailures call.checkedAt

/-- The commits of the failure row. -/
def Call.before : Call → Nat
  | .check _ => 0
  | .failure .. => 1

/-- Run to its end, the call does all of a trip and nothing else, or, short of
three failures, nothing but its failure row. -/
def Complete (x : Db) (call : Call) : Prop :=
  let y := after call.program x
  (call.Trips x →
    (∀ c, (y.trust c).state ≠ .canAct) ∧
    (∀ c ∈ FAULT_CLASSES, y.diag c = ⟨.stub, 0⟩ ∧ y.action c = ⟨.deterministicFallback, 0⟩) ∧
    (∀ c, (y.hold c).active = false) ∧
    (∀ c, (x.trust c).state ≠ .canAct → y.trustState.lookup c = x.trustState.lookup c) ∧
    y.trustHistory = x.trustHistory ++
      (x.trustState.keys.filter fun c => (x.trust c).state = .canAct).map fun c =>
        ⟨none, c, false, .canAct, .reportOnly, (x.trust c).streak, 0⟩) ∧
  (¬ call.Trips x → y = call.failed x)

/-- Killed after `n` steps, the call leaves none of the trip or all of it. -/
def AllOrNothing (x : Db) (call : Call) (n : Nat) : Prop :=
  let s := stop n call.program (.idle x)
  s = x ∨ s = call.failed x ∨ call.Trips x ∧ s = (call.failed x).trip

/-! ## What a reset commits -/

/-- How often resetting `c` commits. -/
def resetCommits (x : Db) (c : String) : Nat :=
  (if x.diag c = ⟨.stub, 0⟩ then 0 else 1) + (if x.action c = ⟨.deterministicFallback, 0⟩ then 0 else 1) + 1

/-- Class `c`'s reset, begun on `x`, shows in `s`. -/
def Begun (c : String) (x s : Db) : Prop :=
  x.diagnoserModeHistory.length < s.diagnoserModeHistory.length ∨ s.diag c = ⟨.stub, 0⟩ ∧ x.diag c ≠ ⟨.stub, 0⟩

/-- The commits of a reset: the history of Dimension C comes with the last, and
the first already shows. -/
theorem commits_reset (c : String) (k : Conn Db) :
    ∃ part, commits (resetToSafeDefaults c none) k = part ++ [k.view.reset c none] ∧
      part.length + 1 = resetCommits k.view c ∧
      (∀ s ∈ part, s.actionTrustHistory = k.view.actionTrustHistory) ∧ ∀ s ∈ part, Begun c k.view s := by
  unfold resetToSafeDefaults resetCommits Db.reset Begun
  by_cases hd : k.view.diag c = ⟨.stub, 0⟩ <;> by_cases ha : k.view.action c = ⟨.deterministicFallback, 0⟩
  all_goals
    have ha' := ha
    simp only [Db.action] at ha'
    simp [getDiagnoserMode, getActionTrust, upsertDiagnoserMode, upsertActionTrust, commits_exec_ok, Stmt.app, hd, ha', Db.action]
  · exact ⟨[_], rfl, rfl, by simp⟩
  · exact ⟨[_], rfl, rfl, by simp⟩
  · exact ⟨[_, _], rfl, rfl, by simp, by simp⟩

theorem begun_reset (c : String) (x : Db) (e : Option String) : Begun c x (x.reset c e) :=
  .inl (by simp [Db.reset])

theorem resetCommits_reset {c j : String} (h : j ≠ c) (x : Db) (e : Option String) :
    resetCommits (x.reset c e) j = resetCommits x j := by
  unfold resetCommits
  rw [reset_diag, reset_action, if_neg h, if_neg h]

theorem actionHistory_resets (x : Db) (cs : List String) :
    (x.resets cs).actionTrustHistory.length = x.actionTrustHistory.length + cs.length := by
  induction cs generalizing x with
  | nil => rfl
  | cons c cs ih =>
    have := ih (x.reset c none)
    simp only [Db.resets, List.foldl_cons, List.length_cons] at this ⊢
    rw [this]
    simp only [Db.reset, List.length_append, List.length_singleton]
    omega

/-- The commits of the resets: the last is all of them done, and every earlier
one lacks a row of Dimension C's history. -/
theorem commits_resets {cs : List String} (hn : cs.Nodup) (hne : cs ≠ []) (k : Conn Db) :
    ∃ part, commits (forM cs fun c => resetToSafeDefaults c none) k = part ++ [k.view.resets cs] ∧
      part.length + 1 = (cs.map (resetCommits k.view)).sum ∧
      ∀ s ∈ part, s.actionTrustHistory.length < k.view.actionTrustHistory.length + cs.length := by
  induction cs generalizing k with
  | nil => exact absurd rfl hne
  | cons c cs ih =>
    obtain ⟨hc, hn⟩ := List.nodup_cons.1 hn
    obtain ⟨p1, he1, hl1, ha1, -⟩ := commits_reset c k
    have hrun : commits (forM (c :: cs) fun c => resetToSafeDefaults c none) k =
        p1 ++ [k.view.reset c none] ++ commits (forM cs fun c => resetToSafeDefaults c none) (.idle (k.view.reset c none)) := by
      rw [List.forM_cons, commits_bind_ok (run_reset c none k), he1]
    rw [hrun]
    have hlen : (k.view.reset c none).actionTrustHistory.length = k.view.actionTrustHistory.length + 1 := by
      simp [Db.reset]
    -- The last class: what is left is its own reset.
    by_cases hcs : cs = []
    · subst hcs
      refine ⟨p1, by simp [Db.resets], by simpa using hl1, fun s hs => ?_⟩
      simp [ha1 s hs]
    · obtain ⟨p2, he2, hl2, ha2⟩ := ih hn hcs (.idle (k.view.reset c none))
      refine ⟨p1 ++ [k.view.reset c none] ++ p2, ?_, ?_, fun s hs => ?_⟩
      · simp only [he2, List.append_assoc]; rfl
      · have hsame : cs.map (resetCommits (k.view.reset c none)) = cs.map (resetCommits k.view) :=
          List.map_congr_left fun j hj => resetCommits_reset (by rintro rfl; exact hc hj) _ _
        simp only [Conn.idle_view, hsame] at hl2
        simp only [List.length_append, List.length_singleton, List.map_cons, List.sum_cons]
        omega
      · simp only [List.length_cons, Conn.idle_view, hlen, List.mem_append, List.mem_singleton] at hs ha2 ⊢
        rcases hs with (hs | rfl) | hs
        · rw [ha1 s hs]; omega
        · have := List.length_pos_iff.2 hcs; omega
        · have := ha2 s hs; omega

/-! ## What a trip commits -/

/-- The commits of the releases: before the last, the last class is still held. -/
theorem commits_releases (now : Nat) (reason : String) {cs : List String} {c : String} (hn : (cs ++ [c]).Nodup) (x : Db) :
    ∃ part, commits (forM (cs ++ [c]) fun j => setSafetyHold now j false (some reason)) (.idle x) =
        part ++ [x.release reason (cs ++ [c])] ∧
      part.length = cs.length ∧ ∀ s ∈ part, s.hold c = x.hold c := by
  induction cs generalizing x with
  | nil => exact ⟨[], rfl, rfl, by simp⟩
  | cons j cs ih =>
    rw [List.cons_append] at hn ⊢
    obtain ⟨hj, hn⟩ := List.nodup_cons.1 hn
    have hjc : c ≠ j := by rintro rfl; simp at hj
    obtain ⟨part, he, hl, hh⟩ := ih hn (x.setHold j ⟨false, some reason, none⟩)
    have hsame : (x.setHold j ⟨false, some reason, none⟩).hold c = x.hold c :=
      (hold_insert x j c _).trans (if_neg hjc)
    refine ⟨x.setHold j ⟨false, some reason, none⟩ :: part, ?_, by simp [hl], ?_⟩
    · rw [List.forM_cons, commits_bind_ok (run_releaseHold now j _ _), Conn.idle_view, he]; rfl
    · rintro s (_ | ⟨_, hs⟩)
      · exact hsame
      · rw [hh s hs, hsame]

/-- How often a trip on `x` commits, up to the last commit that changes anything. -/
def tripCommits (x : Db) : Nat :=
  (FAULT_CLASSES.map (resetCommits x)).sum + if x.held = [] then 0 else x.held.length + 1

theorem faultClasses_nodup : FAULT_CLASSES.Nodup := by decide

theorem resets_hold (x : Db) (cs : List String) (c : String) : (x.resets cs).hold c = x.hold c := by
  unfold Db.hold
  rw [resets_frame]

theorem resets_held (x : Db) (cs : List String) : (x.resets cs).held = x.held := by
  unfold Db.held
  rw [resets_frame]

theorem tripOver_nil (x : Db) :
    x.tripOver [] = (x.resets FAULT_CLASSES).release "circuit breaker global trip" x.held := by
  rw [← resets_held x FAULT_CLASSES]; rfl

theorem actionHistory_tripOver (x : Db) :
    (x.tripOver []).actionTrustHistory.length = x.actionTrustHistory.length + FAULT_CLASSES.length := by
  rw [tripOver_nil, release_frame, ← actionHistory_resets]

theorem commits_tripRest_eq (now : Nat) (k : Conn Db) :
    commits (tripRest now) k = commits (forM FAULT_CLASSES fun c => resetToSafeDefaults c none) k ++
      (k.view.resets FAULT_CLASSES ::
        (commits (forM k.view.held fun c => setSafetyHold now c false (some "circuit breaker global trip"))
          (.idle (k.view.resets FAULT_CLASSES)) ++ [k.view.tripOver []])) := by
  unfold tripRest
  rw [commits_bind_ok (run_forM (run_reset · none) _), ensureMisdispatchTables, commitNow_bind, commits_commit,
    foldl_idle_view (fun (x : Db) c => x.reset c none), commits_bind_ok (run_clearAllSafetyHolds _ _ _),
    commits_commitNow]
  change _ ++ (_ :: (commits (forM (k.view.resets FAULT_CLASSES).held _) _ ++ [k.view.tripOver []])) = _
  rw [resets_held]
  rfl

/-- A trip's commits: `mid`, none of them the trip whole, and then the trip whole. -/
theorem commits_tripRest (now : Nat) (k : Conn Db) :
    ∃ mid new, commits (tripRest now) k = mid ++ new ∧ mid.length + 1 = tripCommits k.view ∧
      (∀ s ∈ new, s = k.view.tripOver []) ∧ ∀ s ∈ mid, s ≠ k.view.tripOver [] := by
  obtain ⟨part, he, hl, ha⟩ := commits_resets faultClasses_nodup (by decide) k
  have hpart : ∀ s ∈ part, s ≠ k.view.tripOver [] := by
    rintro s hs rfl
    have := ha _ hs
    rw [actionHistory_tripOver] at this
    omega
  rw [commits_tripRest_eq, he]
  unfold tripCommits
  rw [← hl]
  -- With no class held the trip is whole once the resets are; else with the last release.
  rcases List.eq_nil_or_concat k.view.held with h0 | ⟨cs, c, hcs⟩
  · have hy : k.view.resets FAULT_CLASSES = k.view.tripOver [] := by
      rw [tripOver_nil, h0, Db.release, List.foldl_nil]
    rw [h0, hy, if_pos rfl, List.append_assoc]
    exact ⟨part, _, rfl, rfl, by simp, hpart⟩
  · have hn : (cs ++ [c]).Nodup := by
      rw [← List.concat_eq_append, ← hcs]; exact Table.keysWhere_nodup _ _
    have hc : (k.view.hold c).active = true := mem_held.1 (by rw [hcs]; simp)
    have hheld : ∀ s : Db, s.hold c = k.view.hold c → s ≠ k.view.tripOver [] := by
      rintro _ hs rfl
      rw [tripOver_nil, release_hold, if_pos (mem_held.2 hc)] at hs
      rw [← hs] at hc
      cases hc
    rw [List.concat_eq_append] at hcs
    obtain ⟨part2, he2, hl2, hh2⟩ := commits_releases now "circuit breaker global trip" hn (k.view.resets FAULT_CLASSES)
    have hy : (k.view.resets FAULT_CLASSES).release "circuit breaker global trip" (cs ++ [c]) = k.view.tripOver [] := by
      rw [tripOver_nil, hcs]
    rw [hcs, he2, hy, if_neg (by simp)]
    refine ⟨part ++ [k.view.resets FAULT_CLASSES, k.view.resets FAULT_CLASSES] ++ part2,
      [k.view.tripOver [], k.view.tripOver []], by simp, ?_, by simp, ?_⟩
    · simp only [List.length_append, List.length_cons, List.length_nil]
      omega
    · simp only [List.mem_append, List.mem_cons, List.not_mem_nil, or_false, or_self]
      rintro s ((hs | rfl) | hs)
      · exact hpart s hs
      · exact hheld _ (resets_hold _ _ _)
      · exact hheld _ ((hh2 s hs).trans (resets_hold _ _ _))

/-- No statement shortens a history. -/
theorem app_diagHistory {s : Stmt} {x x' : Db} (h : s.app x = .ok x') :
    x.diagnoserModeHistory.length ≤ x'.diagnoserModeHistory.length := by
  cases s with
  | insertDiagnoserModeHistory r => cases h; simp
  | insertScores e r => obtain ⟨-, rfl⟩ := app_insertScores h; exact Nat.le_refl _
  | insertSnapshot e r => obtain ⟨-, rfl⟩ := app_insertSnapshot h; exact Nat.le_refl _
  | _ => cases h; exact Nat.le_refl _

/-- Every commit of a trip shows that the trip has begun. -/
theorem commits_begun (now : Nat) (k : Conn Db) : ∀ s ∈ commits (tripRest now) k, Begun "crash-loop" k.view s := by
  obtain ⟨part, he, -, -, hb⟩ := commits_reset "crash-loop" k
  obtain ⟨rest, hsplit⟩ : ∃ rest : Prog Unit,
      tripRest now = resetToSafeDefaults "crash-loop" none >>= fun _ => rest := by
    simp only [tripRest, FAULT_CLASSES, List.forM_cons, bind_assoc]
    exact ⟨_, rfl⟩
  rw [hsplit, commits_bind_ok (run_reset _ none k), he]
  simp only [List.mem_append, List.mem_singleton]
  rintro s ((hs | rfl) | hs)
  · exact hb s hs
  · exact begun_reset _ _ _
  · refine .inl (commits_keep (fun y : Db => k.view.diagnoserModeHistory.length < y.diagnoserModeHistory.length)
      (fun _ => True) (fun _ _ _ _ ha hI => Nat.lt_of_lt_of_le hI (app_diagHistory ha)) (all_true _) ?_ s hs)
    simp [Db.reset]

/-! ## The calls -/

theorem commits_demoteClasses (cs : List String) (k : Conn Db) : commits (demoteClasses cs) k = [] := by
  induction cs generalizing k with
  | nil => rfl
  | cons c cs ih =>
    have h1 : commits (demoteClass c) k = [] := by
      unfold demoteClass
      by_cases h : (k.view.trust c).state = .canAct
      · simp [getTrustState, h, commits_exec_ok, Stmt.app]
      · simp [getTrustState, h]
    rw [demoteClasses, commits_bind_ok (run_demoteClass c k), h1, commits_bind, ih]
    cases run (demoteClasses cs) _ with
    | mk r k' => cases r <;> rfl

theorem tripCommits_demoted (x : Db) (cs : List String) : tripCommits (x.demoteClasses cs) = tripCommits x := by
  unfold tripCommits Db.held resetCommits Db.diag Db.action
  rw [demoteClasses_frame]

/-- A check that trips commits what the trip commits after its demotions, which it takes with it. -/
theorem commits_check_trip {now : Nat} {x : Db} (h : FAILURE_THRESHOLD ≤ x.recentFailures now) :
    commits (checkCircuitBreaker now) (.idle x) = commits (tripRest now) ⟨x, x.demoteClasses x.trustState.keys⟩ := by
  have h' : ¬ (Conn.idle x).view.recentFailures now < FAILURE_THRESHOLD := Nat.not_lt.2 h
  unfold checkCircuitBreaker recentFailureCount allFaultClasses tripOver
  simp only [select_bind, commits_read, if_neg h', bind_assoc]
  rw [commits_bind_ok (run_demoteClasses (AList.keys_nodup _) _), commits_demoteClasses,
    commits_bind_ok (run_tripRest now _), List.nil_append]
  exact List.append_nil _

theorem commits_check_quiet {now : Nat} {x : Db} (h : x.recentFailures now < FAILURE_THRESHOLD) :
    commits (checkCircuitBreaker now) (.idle x) = [] := by
  have h' : (Conn.idle x).view.recentFailures now < FAILURE_THRESHOLD := h
  unfold checkCircuitBreaker recentFailureCount
  simp only [select_bind, commits_read, if_pos h', pure_eq, commits_done]

/-- The commits of a check that trips. -/
theorem commits_check {now : Nat} {x : Db} (h : FAILURE_THRESHOLD ≤ x.recentFailures now) :
    ∃ mid new, commits (checkCircuitBreaker now) (.idle x) = mid ++ new ∧ mid.length + 1 = tripCommits x ∧
      (∀ s ∈ new, s = x.trip) ∧ ∀ s ∈ mid, s ≠ x.trip ∧ Begun "crash-loop" x s := by
  let v : Conn Db := ⟨x, x.demoteClasses x.trustState.keys⟩
  obtain ⟨mid, new, he, hl, hnew, hmid⟩ := commits_tripRest now v
  refine ⟨mid, new, (commits_check_trip h).trans he, hl.trans (tripCommits_demoted _ _), hnew, fun s hs => ⟨hmid s hs, ?_⟩⟩
  have hb := commits_begun now v s (by rw [he]; exact List.mem_append_left _ hs)
  unfold Begun Db.diag at hb ⊢
  rwa [show v.view = _ from demoteClasses_frame _ _] at hb

/-- The commits of a call: its failure row, and those of the check. -/
theorem commits_call (call : Call) (x : Db) : ∃ old, old.length = call.before ∧ (∀ s ∈ old, s = call.failed x) ∧
    (call.failed x = x ∨ call.failed x ∈ old) ∧
    commits call.program (.idle x) = old ++ commits (checkCircuitBreaker call.checkedAt) (.idle (call.failed x)) := by
  cases call with
  | check now => exact ⟨[], rfl, by simp, .inl rfl, commits_discard _ _⟩
  | failure b now later reason c =>
    refine ⟨[_], rfl, fun s hs => List.mem_singleton.1 hs, .inr (List.mem_singleton.2 rfl), ?_⟩
    exact commits_discard _ _

theorem after_call (call : Call) (x : Db) : after call.program x =
    (run (checkCircuitBreaker call.checkedAt) (.idle (call.failed x))).2.committed := by
  cases call with
  | check now => exact congrArg Conn.committed (run_discard _ _)
  | failure b now later reason c => exact congrArg Conn.committed (run_discard _ _)

theorem demoteClasses_lookup {x : Db} {c : String} (h : (x.trust c).state ≠ .canAct) (cs : List String) :
    (x.demoteClasses cs).trustState.lookup c = x.trustState.lookup c := by
  induction cs generalizing x with
  | nil => rfl
  | cons j cs ih =>
    have hj : (x.demoteClass j).trustState.lookup c = x.trustState.lookup c := by
      unfold Db.demoteClass
      split
      · rename_i hcan
        simp only [Table.lookup_update]
        rw [if_neg (by rintro rfl; exact h hcan)]
      · rfl
    have hc : ((x.demoteClass j).trust c).state ≠ .canAct := by unfold Db.trust; rw [hj]; exact h
    exact (ih hc).trans hj

theorem complete (x : Db) (call : Call) : Complete x call := by
  have hx (c : String) : (call.failed x).trust c = x.trust c := by cases call <;> rfl
  have hl : (call.failed x).trustState = x.trustState := by cases call <;> rfl
  have hh : (call.failed x).trustHistory = x.trustHistory := by cases call <;> rfl
  unfold Complete
  rw [after_call]
  refine ⟨fun ht => ?_, fun hq => ?_⟩
  · rw [run_check_trip (k := .idle (call.failed x)) ht]
    refine ⟨fun c => ?_, fun c hc => ?_, trip_hold _, fun c hc => ?_, ?_⟩
    · simp only [Conn.idle_committed, Conn.idle_view, trip_trust]
      split
      · decide
      · assumption
    · simp only [Conn.idle_committed, Conn.idle_view, trip_diag, trip_action, if_pos hc, and_self]
    · simp only [Conn.idle_committed, Conn.idle_view, trip_trustState, ← hl]
      exact demoteClasses_lookup (by rwa [hx]) _
    · simp only [Conn.idle_committed, Conn.idle_view, trip_history]
      rw [demoteClasses_history (AList.keys_nodup _), hh, hl]
      simp only [hx]
  · rw [run_check_quiet (k := .idle (call.failed x)) (Nat.lt_of_not_le hq)]; rfl

theorem begun_ne {c : String} {x s : Db} (h : Begun c x s) : s ≠ x := by
  rintro rfl
  rcases h with h | ⟨h1, h2⟩
  · exact Nat.lt_irrefl _ h
  · exact h2 h1

/-- A call always completes, and is all or nothing exactly when it does not trip
or is not killed between the trip's first commit and its last. -/
theorem complete_and_atomic_iff (x : Db) (call : Call) (n : Nat) :
    Complete x call ∧ AllOrNothing x call n ↔ (call.Trips x →
      commitsBy n call.program (.idle x) ≤ call.before ∨
        call.before + tripCommits x ≤ commitsBy n call.program (.idle x)) := by
  rw [and_iff_right (complete x call)]
  obtain ⟨old, hlen, hold, hmem, hc⟩ := commits_call call x
  have hstart (s : Db) : s ∈ x :: old ↔ s = x ∨ s = call.failed x := by
    rw [List.mem_cons]
    refine or_congr_right' fun hne => ⟨hold s, ?_⟩
    rintro rfl
    exact hmem.resolve_left hne
  unfold AllOrNothing
  by_cases ht : call.Trips x
  · obtain ⟨mid, new, he, hl, hnew, hmid⟩ := commits_check ht
    have hcount : tripCommits (call.failed x) = tripCommits x := by cases call <;> rfl
    have hbegun : ∀ s, Begun "crash-loop" (call.failed x) s → Begun "crash-loop" x s := by cases call <;> exact fun _ => id
    rw [hcount] at hl
    rw [he] at hc
    have hiff := stop_iff hc (fun s hs => ⟨fun hs' => ?_, (hmid s hs).1⟩) hnew n
    · simp only [Conn.idle_committed, hstart, hlen] at hiff
      simp only [ht, true_and, forall_true_left, ← or_assoc]
      rw [hiff]
      exact or_congr_right (by omega)
    · have hb := (hmid s hs).2
      rcases (hstart s).1 hs' with rfl | rfl
      · exact begun_ne (hbegun _ hb) rfl
      · exact begun_ne hb rfl
  · have hs := List.mem_of_getElem? (stop_eq n call.program (.idle x))
    rw [hc, commits_check_quiet (Nat.lt_of_not_le ht), List.append_nil, Conn.idle_committed, hstart] at hs
    exact iff_of_true (hs.imp_right .inl) (fun h => absurd h ht)

/-- Three failures, and a class that can act and whose diagnoser is the LLM. -/
def acting : Db :=
  { trustState := (∅ : Table String (Rung TrustLevel)).insert "oom" ⟨.canAct, 5⟩
    diagnoserMode := (∅ : Table String (Rung DiagMode)).insert "oom" ⟨.llm, 5⟩
    failureLog := [⟨"", none, 0⟩, ⟨"", none, 0⟩, ⟨"", none, 0⟩] }

/-- Killed after its first commit, the trip has demoted the class and left its diagnoser. -/
theorem half_a_trip : ¬ (Complete acting (.check 0) ∧ AllOrNothing acting (.check 0) 10) := by
  rintro ⟨-, h | h | ⟨-, h⟩⟩
  · exact absurd (congrArg (fun s : Db => s.trust "oom") h) (by decide)
  · exact absurd (congrArg (fun s : Db => s.trust "oom") h) (by decide)
  · exact absurd (congrArg (fun s : Db => s.diag "oom") h) (by decide)

end Wardence.Trip
