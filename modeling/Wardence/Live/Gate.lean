import Wardence.Live.Lifecycle
/-!
# Gate 2

The compare-and-set from `awaiting_fix` to `resolving`. An episode enters
`awaiting_fix` at most once, whoever brings it there, so Gate 2 is won at most
once; the winner is the one thread that may start the episode's scorer.
-/
namespace Wardence.Live

open Threads EpisodeState

/-- Thread `i` has won Gate 2 for `e`. -/
def Won (log : List (Event World Stmt)) (i e : Nat) : Prop :=
  ∃ ev ∈ log, ev.thread = i ∧ ev.stmt = .claim e ∧ ev.raised = false ∧ ev.seen.stateOf e = some awaitingFix

instance (log : List (Event World Stmt)) (i e : Nat) : Decidable (Won log i e) := by unfold Won; infer_instance

namespace Phase

/-- The thread has won Gate 2 for `e`, and has not written its result. -/
def Works (e : Nat) : Phase → Prop
  | owner e' _ | scoring e' _ | rescuing e' => e' = e
  | _ => False

/-- The thread brings `e` to Gate 2, and has not tried it. -/
def Unclaimed (e : Nat) : Phase → Prop
  | fresh e' | forked e' _ | tracked e' _ | reaped e' | doomed e' | armed e' => e' = e
  | _ => False

theorem Works.owns {φ : Phase} {e : Nat} (h : φ.Works e) : φ.Owns e := by
  cases φ <;> first | exact h | exact h.elim

end Phase

section Rules
variable {φ φ' : Phase} {s : Stmt} {w w' : World} {e : Nat}

/-- An episode past Gate 2 stays past it. -/
theorem Step.claimed (hs : Step φ w w'.stateOf) (hf : φ.Fits w) (h : w.Claimed e) : w'.Claimed e := by
  rcases hs.at e with hst | hst | ⟨-, s', hs', hst⟩ | ⟨hst, -⟩ | ⟨-, hst, -⟩
  · simpa only [World.Claimed, hst] using h
  · exact absurd h.past (hf.arms e hst).not_past
  · exact ⟨s', hst, (terminal_unsettled hs').1, (terminal_unsettled hs').2.1⟩
  · exact absurd hst h.ne_awaiting
  · exact absurd hst h.past.ne_none

/-- A thread works on an episode because it just won it, or did before. -/
theorem rule_works (hr : Rule φ s w φ') (h : φ'.Works e) :
    φ.Works e ∨ (s = .claim e ∧ w.stateOf e = some awaitingFix) := by
  cases hr with
  | neutral | resolve | probe | lose => exact .inl h
  | claimArmed hs | claim hs =>
    obtain rfl : _ = e := h
    exact .inr ⟨rfl, hs⟩
  | score => exact .inl h
  | _ => exact h.elim

theorem rule_unclaimed (hr : Rule φ s w φ') (h : φ'.Unclaimed e) : φ.Unclaimed e := by
  cases hr with
  | neutral | resolve | probe | lose => exact h
  | popen | hold | setPid | reap | kill | arm => exact h
  | _ => exact h.elim

/-- A statement that wins Gate 2. -/
theorem rule_wins (hr : Rule φ (.claim e) w φ') (hs : w.stateOf e = some awaitingFix) : φ'.Works e ∧ ¬ φ'.Unclaimed e := by
  cases hr with
  | neutral _ hn => exact hn.elim
  | reap hp => simp [Stmt.Probes] at hp
  | claimArmed | claim => exact ⟨rfl, id⟩
  | lose _ hn => exact absurd hs hn

theorem fault_works (h : (fault φ s).Works e) : φ.Works e := by
  unfold fault at h
  split at h <;> first | exact h | exact h.elim

theorem fault_unclaimed (h : (fault φ s).Unclaimed e) : φ.Unclaimed e := by
  unfold fault at h
  split at h <;> first | exact h | exact h.elim

end Rules

/-- The winners of Gate 2, and their phases. -/
structure Gate (w : World) (ph : Nat → Option Phase) (log : List (Event World Stmt)) : Prop where
  claimed : ∀ i e, Won log i e → w.Claimed e
  unique : ∀ i k e, Won log i e → Won log k e → i = k
  works : ∀ i φ e, ph i = some φ → φ.Works e → Won log i e
  unclaimed : ∀ i φ e, ph i = some φ → φ.Unclaimed e → ¬ Won log i e

section Run
variable {w w' : World} {ph ph' : Nat → Option Phase} {log l : List (Event World Stmt)}

theorem won_cons {ev : Event World Stmt} {i e : Nat} :
    Won (ev :: log) i e ↔ (ev.thread = i ∧ ev.stmt = .claim e ∧ ev.raised = false ∧ ev.seen.stateOf e = some awaitingFix) ∨
      Won log i e := by
  simp [Won]

theorem Gate.exec {i : Nat} {φ φ' : Phase} {s : Stmt} (h : Gate w ph log) (hl : Lifecycle w ph) (hi : ph i = some φ)
    (hr : Rule φ s w φ') (ha : app s w = some w') :
    Gate w' (Function.update ph i (some φ')) (⟨i, s, w, false⟩ :: log) := by
  have hf := hl.fits i φ hi
  have hstep := rule_step hf hr ha
  have hnew : ∀ e, s = .claim e → w.stateOf e = some awaitingFix → ∀ k, ¬ Won log k e := by
    intro e _ hst k hk
    exact (h.claimed k e hk).ne_awaiting hst
  refine ⟨?_, ?_, ?_, ?_⟩
  -- Only Gate 2 makes a winner, and an episode once claimed stays so.
  · intro k e hk
    rcases won_cons.1 hk with ⟨-, rfl, -, hst⟩ | hk
    · refine ⟨resolving, ?_, by decide, by decide⟩
      rw [stateOf_claim ha hst, Function.update_self]
    · exact hstep.claimed hf (h.claimed k e hk)
  -- A second winner would have found the episode in `awaiting_fix`.
  · intro k k' e hk hk'
    rcases won_cons.1 hk with ⟨rfl, hs, -, hst⟩ | hk
    · rcases won_cons.1 hk' with ⟨rfl, -⟩ | hk'
      · rfl
      · exact absurd hk' (hnew e hs hst k')
    · rcases won_cons.1 hk' with ⟨rfl, hs, -, hst⟩ | hk'
      · exact absurd hk (hnew e hs hst k)
      · exact h.unique k k' e hk hk'
  · intro k ψ e hk hψ
    rcases of_update hk with ⟨rfl, rfl⟩ | ⟨-, hk⟩
    · rcases rule_works hr hψ with h' | ⟨rfl, hst⟩
      · exact won_cons.2 (.inr (h.works k φ e hi h'))
      · exact won_cons.2 (.inl ⟨rfl, rfl, rfl, hst⟩)
    · exact won_cons.2 (.inr (h.works k ψ e hk hψ))
  · intro k ψ e hk hψ hw
    rcases of_update hk with ⟨rfl, rfl⟩ | ⟨hki, hk⟩
    · rcases won_cons.1 hw with ⟨-, rfl, -, hst⟩ | hw
      · exact (rule_wins hr hst).2 hψ
      · exact h.unclaimed k φ e hi (rule_unclaimed hr hψ) hw
    · rcases won_cons.1 hw with ⟨rfl, -⟩ | hw
      · exact hki rfl
      · exact h.unclaimed k ψ e hk hψ hw

/-- A new thread has won nothing. -/
theorem Gate.add {n : Nat} {j : Job} (h : Gate w ph log) (hn : ∀ ev ∈ log, ev.thread ≠ n) :
    Gate w (Function.update ph n (some j.entry)) log := by
  have hnone : ∀ e, ¬ Won log n e := by
    rintro e ⟨ev, hev, ht, -⟩
    exact hn ev hev ht
  refine ⟨h.claimed, h.unique, ?_, ?_⟩
  · intro k ψ e hk hψ
    rcases of_update hk with ⟨rfl, rfl⟩ | ⟨-, hk⟩
    · cases j <;> exact hψ.elim
    · exact h.works k ψ e hk hψ
  · intro k ψ e hk hψ
    by_cases hkn : k = n
    · subst hkn
      exact hnone e
    · rw [Function.update_of_ne hkn] at hk
      exact h.unclaimed k ψ e hk hψ

theorem Gate.same (h : Gate w ph log) (hw : ∀ e, w'.stateOf e = w.stateOf e) : Gate w' ph log := by
  refine ⟨fun i e hi => ?_, h.unique, h.works, h.unclaimed⟩
  simpa only [World.Claimed, hw] using h.claimed i e hi

theorem Gate.fail {i : Nat} {φ : Phase} {s : Stmt} (h : Gate w ph log) (hi : ph i = some φ) :
    Gate w (Function.update ph i (some (fault φ s))) (⟨i, s, w, true⟩ :: log) := by
  have hw : ∀ k e, Won (⟨i, s, w, true⟩ :: log) k e ↔ Won log k e := by
    intro k e
    simp [won_cons]
  refine ⟨?_, ?_, ?_, ?_⟩
  · intro k e hk
    exact h.claimed k e ((hw k e).1 hk)
  · intro k k' e hk hk'
    exact h.unique k k' e ((hw k e).1 hk) ((hw k' e).1 hk')
  · intro k ψ e hk hψ
    rw [hw]
    rcases of_update hk with ⟨rfl, rfl⟩ | ⟨-, hk⟩
    · exact h.works k φ e hi (fault_works hψ)
    · exact h.works k ψ e hk hψ
  · intro k ψ e hk hψ
    rw [hw]
    rcases of_update hk with ⟨rfl, rfl⟩ | ⟨-, hk⟩
    · exact h.unclaimed k φ e hi (fault_unclaimed hψ)
    · exact h.unclaimed k ψ e hk hψ

/-- Starting a thread from outside touches no row and no process. -/
theorem post_same {j : Job} (hp : Live.post j w = some w') : w'.episodes = w.episodes ∧ w'.procs = w.procs := by
  cases j <;> simp only [Live.post, reduceCtorEq] at hp
  case attemptResolve e' t =>
    cases t <;> simp only [Option.ite_none_right_eq_some, Option.some.injEq, reduceCtorEq] at hp
    obtain ⟨-, rfl⟩ := hp
    exact ⟨rfl, rfl⟩
  all_goals
    simp only [Option.ite_none_right_eq_some, Option.some.injEq] at hp
    obtain ⟨-, rfl⟩ := hp
    exact ⟨rfl, rfl⟩

theorem post_state {j : Job} (hp : Live.post j w = some w') (e : Nat) : w'.stateOf e = w.stateOf e := by
  simp only [World.stateOf, (post_same hp).1]

theorem gate_effect {st : State World Stmt Job} {m : Move Job Env} (hl : Lifecycle st.world ph) (h : Gate st.world ph st.log)
    (he : Effect operatorApi discipline st ph m w' ph' l) : Gate w' ph' l := by
  cases he with
  | stay => exact h
  | exec _ hi _ hr ha _ => exact h.exec hl hi hr ha
  | spawn _ hi _ hr ha _ _ hne hn =>
    refine (h.exec hl hi hr ha).add ?_
    intro ev hev
    rcases List.mem_cons.1 hev with rfl | hev
    · exact Ne.symm hne
    · exact hn ev hev
  | fail _ hi _ => exact h.fail hi
  | post hp _ hn => exact (h.same (post_state hp)).add hn
  | env x => exact h.same (env_frame x _).state
  | kill => exact ⟨h.claimed, h.unique, by simp, by simp⟩

theorem gate_boot (w : World) : Gate w (fun _ => none) [] := by
  constructor <;> simp [Won]

end Run

/-! ## The scorer -/

/-- The statement starts the scorer of episode `e`. -/
def Stmt.startsScorer (e : Nat) : Stmt → Bool
  | .startScorer e' _ => e' = e
  | _ => false

/-- A start of the scorer of episode `e`. -/
def ScorerStart (e : Nat) (ev : Event World Stmt) : Prop := ev.stmt.startsScorer e = true ∧ ev.raised = false

instance (e : Nat) (ev : Event World Stmt) : Decidable (ScorerStart e ev) := by unfold ScorerStart; infer_instance

/-- How often the scorer of `e` was started. -/
def scorerStarts (e : Nat) (log : List (Event World Stmt)) : Nat := log.countP fun ev => ScorerStart e ev

/-- Every start of a scorer comes after its thread won Gate 2. -/
def Preceded : List (Event World Stmt) → Prop
  | [] => True
  | ev :: log => (∀ e, ScorerStart e ev → Won log ev.thread e) ∧ Preceded log

/-- Scorers started so far. -/
structure Once (w : World) (ph : Nat → Option Phase) (log : List (Event World Stmt)) : Prop where
  atMost : ∀ e, scorerStarts e log ≤ 1
  claimed : ∀ e, 0 < scorerStarts e log → w.Claimed e
  owner : ∀ i e g, ph i = some (.owner e g) → scorerStarts e log = 0
  preceded : Preceded log

section Run
variable {w w' : World} {ph ph' : Nat → Option Phase} {log l : List (Event World Stmt)}

/-- The scorer is started by a thread that won Gate 2 and has not started it. -/
theorem rule_scores {φ φ' : Phase} {s : Stmt} {e : Nat} (hr : Rule φ s w φ') (hs : s.startsScorer e = true) :
    ∃ g, φ = .owner e g ∧ φ' = .scoring e g := by
  cases hr with
  | neutral _ hn => cases s <;> first | exact hn.elim | cases hs
  | reap hp => rcases hp with rfl | rfl | rfl | ⟨t, rfl⟩ <;> cases hs
  | @score e' g =>
    obtain rfl : e' = e := by simpa [Stmt.startsScorer] using hs
    exact ⟨g, rfl, rfl⟩
  | _ => cases hs

/-- A thread owns an episode from the statement that wins Gate 2 on. -/
theorem rule_owner {φ φ' : Phase} {s : Stmt} {e : Nat} {g : Bool} (hr : Rule φ s w φ') (h : φ' = .owner e g) :
    φ = .owner e g ∨ w.stateOf e = some awaitingFix := by
  cases hr with
  | neutral | resolve | probe | lose => exact .inl h
  | claimArmed hs | claim hs =>
    cases h
    exact .inr hs
  | _ => cases h

theorem Once.exec {i : Nat} {φ φ' : Phase} {s : Stmt} (h : Once w ph log) (hl : Lifecycle w ph) (hg : Gate w ph log)
    (hi : ph i = some φ) (hr : Rule φ s w φ') (ha : app s w = some w') :
    Once w' (Function.update ph i (some φ')) (⟨i, s, w, false⟩ :: log) := by
  have hf := hl.fits i φ hi
  have hstep := rule_step hf hr ha
  have hcount : ∀ e, scorerStarts e (⟨i, s, w, false⟩ :: log) = scorerStarts e log + if s.startsScorer e then 1 else 0 := by
    intro e
    simp [scorerStarts, List.countP_cons, ScorerStart]
  refine ⟨?_, ?_, ?_, ?_, h.preceded⟩
  -- The statement that starts a scorer leaves the only phase it can be run in.
  · intro e
    rw [hcount]
    split
    · rename_i hs
      obtain ⟨g, rfl, -⟩ := rule_scores hr hs
      have := h.owner i e g hi
      omega
    · exact h.atMost e
  · intro e he
    rw [hcount] at he
    refine hstep.claimed hf ?_
    by_cases hs : s.startsScorer e = true
    · obtain ⟨g, rfl, -⟩ := rule_scores hr hs
      exact hf.owns e rfl
    · exact h.claimed e (by simpa [hs] using he)
  -- Whoever owns an episode has not started its scorer yet.
  · intro k e g hk
    rw [hcount]
    rcases of_update hk with ⟨rfl, hφ⟩ | ⟨hki, hk⟩
    · have hns : ¬ s.startsScorer e = true := by
        intro hs
        obtain ⟨g', -, rfl⟩ := rule_scores hr hs
        cases hφ
      rw [if_neg hns, Nat.add_zero]
      rcases rule_owner hr hφ with rfl | hst
      · exact h.owner k e g hi
      · by_contra hpos
        exact (h.claimed e (Nat.pos_of_ne_zero hpos)).ne_awaiting hst
    · have hns : ¬ s.startsScorer e = true := by
        intro hs
        obtain ⟨g', rfl, -⟩ := rule_scores hr hs
        exact hl.apart k i _ _ hki hk hi (.inl ⟨e, .inr rfl, .inr rfl⟩)
      rw [if_neg hns, Nat.add_zero]
      exact h.owner k e g hk
  · rintro e ⟨hs, -⟩
    obtain ⟨g, rfl, -⟩ := rule_scores hr hs
    exact hg.works i _ e hi rfl

theorem Once.add {n : Nat} {j : Job} (h : Once w ph log) : Once w (Function.update ph n (some j.entry)) log := by
  refine ⟨h.atMost, h.claimed, ?_, h.preceded⟩
  intro k e g hk
  rcases of_update hk with ⟨rfl, hφ⟩ | ⟨-, hk⟩
  · cases j <;> cases hφ
  · exact h.owner k e g hk

theorem Once.same (h : Once w ph log) (hw : ∀ e, w'.stateOf e = w.stateOf e) : Once w' ph log := by
  refine ⟨h.atMost, fun e he => ?_, h.owner, h.preceded⟩
  simpa only [World.Claimed, hw] using h.claimed e he

theorem Once.fail {i : Nat} {φ : Phase} {s : Stmt} (h : Once w ph log) (hi : ph i = some φ) :
    Once w (Function.update ph i (some (fault φ s))) (⟨i, s, w, true⟩ :: log) := by
  have hcount : ∀ e, scorerStarts e (⟨i, s, w, true⟩ :: log) = scorerStarts e log := by
    intro e
    simp [scorerStarts, ScorerStart]
  refine ⟨?_, ?_, ?_, ?_, h.preceded⟩
  · intro e
    rw [hcount]
    exact h.atMost e
  · intro e he
    rw [hcount] at he
    exact h.claimed e he
  · intro k e g hk
    rw [hcount]
    rcases of_update hk with ⟨rfl, hφ⟩ | ⟨-, hk⟩
    · refine h.owner k e g ?_
      rw [hi]
      unfold fault at hφ
      split at hφ <;> first | exact congrArg some hφ | cases hφ
    · exact h.owner k e g hk
  · rintro e ⟨-, hr⟩
    cases hr

theorem once_effect {st : State World Stmt Job} {m : Move Job Env} (hl : Lifecycle st.world ph) (hg : Gate st.world ph st.log)
    (h : Once st.world ph st.log) (he : Effect operatorApi discipline st ph m w' ph' l) : Once w' ph' l := by
  cases he with
  | stay => exact h
  | exec _ hi _ hr ha _ => exact h.exec hl hg hi hr ha
  | spawn _ hi _ hr ha _ _ _ _ => exact (h.exec hl hg hi hr ha).add
  | fail _ hi _ => exact h.fail hi
  | post hp _ _ => exact (h.same (post_state hp)).add
  | env x => exact h.same (env_frame x _).state
  | kill => exact ⟨h.atMost, h.claimed, by simp, h.preceded⟩

/-- The scorer of an episode is started at most once, every start comes after its
thread has won Gate 2 for that episode, and no other thread wins it. -/
theorem scorer_at_most_once {w : World} (h : Initial w) (ms : List (Move Job Env)) :
    (∀ e, scorerStarts e (operatorApi.run (boot w) ms).log ≤ 1) ∧ Preceded (operatorApi.run (boot w) ms).log ∧
      ∀ i k e, Won (operatorApi.run (boot w) ms).log i e → Won (operatorApi.run (boot w) ms).log k e → i = k := by
  obtain ⟨ph, -, -, hg, ho⟩ := operatorApi.invariant operatorApi_sound (fun _ _ => True)
    (fun w ph l => Lifecycle w ph ∧ Gate w ph l ∧ Once w ph l)
    (fun _ _ _ _ _ _ _ ⟨hl, hg, ho⟩ _ he => ⟨lifecycle_effect hl he, gate_effect hl hg he, once_effect hl hg ho he⟩)
    (agrees_boot w) ⟨lifecycle_boot h, gate_boot w, by constructor <;> simp [boot, scorerStarts, Preceded]⟩ ms
    (operatorApi.admits_true ms)
  exact ⟨ho.atMost, ho.preceded, hg.unique⟩

end Run

/-- Episode 0 of class `c` is triggered; its wrapper, thread 2, waits for the
injector, process 0. -/
def triggered (c : String) : List (Move Job Env) :=
  .post .onStartup :: turns 0 4 ++ .post (.triggerInject c .admin none "") :: turns 1 9 ++ turns 2 6

/-- The injector fills in its row, writes its evidence and ends well, and the
wrapper goes on. -/
def injected (c : String) (evidence : Option Nat) : List (Move Job Env) :=
  triggered c ++ [.env (.record 0 0 "chaos"), .env (.evidence 0 evidence), .env (.exit 0 0), .env (.tick 100)] ++ turns 2 12

/-- Two clicks on resolve find the episode in `awaiting_fix`; thread 6 comes to
Gate 2 first. -/
def twoClicks : List (Move Job Env) :=
  injected "bad-rollout" (some 0) ++ [.post (.triggerResolve 0), .post (.triggerResolve 0)] ++ turns 3 5 ++ turns 4 5 ++
    [.step 5, .step 6, .step 6, .step 5] ++ turns 6 12

theorem scorer_at_most_once_clicks :
    scorerStarts 0 (operatorApi.run (boot idle) twoClicks).log = 1 ∧
      scorerStarts 0 (operatorApi.run (boot idle) twoClicks).log ≤ 1 :=
  ⟨by decide +kernel, (scorer_at_most_once initial_idle twoClicks).1 0⟩

end Wardence.Live
