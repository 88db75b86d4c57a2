import Mathlib.Analysis.SpecialFunctions.Log.ENNRealLogExp
import Wardence.Detector
import Wardence.Lib.Markov
/-!
# The scores of the hidden Markov model

`continuous_per_step_log_probs` of `hmm_anomaly_scorer.py`, and the live check of
`detector_service.py` over it. Numbers are exact, with NaN and the infinities; what a
parameter of the model may be is the model's own matter.
-/
namespace Wardence.TrackB

open Markov Detector

section Steps
variable {σ ο K : Type} [Fintype σ] [Fintype ο] [Field K] [LinearOrder K]

/-- What a symbol adds to `log_probs` and to `is_unseen`: the sum its score is the logarithm of; `none`: NaN. -/
inductive Step (K : Type) where
  | unseen
  | scaled (c : Option K)

/-- `alpha /= c`: as no entry is negative, a sum of zero makes every entry NaN. -/
def normalise (alpha : σ → K) : Option (σ → K) :=
  if ∑ i, alpha i = 0 then none else some fun i => alpha i / ∑ i, alpha i

/-- The loop; `alpha` is `none` when its entries are NaN. -/
def steps (m : Hmm σ ο K) : Bool → Option (σ → K) → List (Option ο) → List (Step K)
  | _, _, [] => []
  | _, alpha, none :: symbols => .unseen :: steps m true alpha symbols
  | needRestart, alpha, some sym :: symbols =>
    let alpha := if needRestart then some (m.enter sym) else alpha.map (m.advance · sym)
    .scaled (alpha.map fun alpha => ∑ i, alpha i) :: steps m false (alpha.bind normalise) symbols

def perStep (m : Hmm σ ο K) (symbols : List (Option ο)) : List (Step K) := steps m true (some m.startprob) symbols

end Steps

section
variable {σ ο : Type} [Fintype σ] [Fintype ο]

/-- A float; `none`: NaN. -/
abbrev Score := Option EReal

noncomputable def log (c : Option ℝ) : Score := c.bind fun c => if c < 0 then none else some (ENNReal.log (ENNReal.ofReal c))

noncomputable def Step.logProb : Step ℝ → Score
  | .unseen => some ⊥
  | .scaled c => log c

def Step.isUnseen {K : Type} : Step K → Bool
  | .unseen => true
  | .scaled _ => false

noncomputable def continuousPerStepLogProbs (m : Hmm σ ο ℝ) (symbols : List (Option ο)) : List Score × List Bool :=
  ((perStep m symbols).map Step.logProb, (perStep m symbols).map Step.isUnseen)

/-! ## The live check -/

/-- `a < b`, which NaN never is. -/
def Score.Less (a b : Score) : Prop := ∃ x y, a = some x ∧ b = some y ∧ x < y

def Score.AtMost (a b : Score) : Prop := ∃ x y, a = some x ∧ b = some y ∧ x ≤ y

open Classical in
noncomputable def lesser (least x : Score) : Score := if x.Less least then x else least

/-- `min` of a window, which is not empty. -/
noncomputable def least : List Score → Score
  | [] => none
  | x :: xs => xs.foldl lesser x

structure HmmBundle (σ ο : Type) [Fintype σ] [Fintype ο] where
  model : Hmm σ ο ℝ
  idToIndex : ℕ → Option ο
  threshold : Score

inductive HmmDetection where
  | insufficientData (pulled required : ℕ)
  | scored (anomalyScore threshold : Score) (isAnomalous : Prop) (eventsUsed : ℕ)

def toSymbols (idToIndex : ℕ → Option ο) (sequence : List ℕ) : List (Option ο) := sequence.map idToIndex

def withoutNoise (service : String) (events : List Event) : List Event := events.filter fun e => !isNoiseTemplate service e.template

/-- `recent_ids`. -/
def recentIds (service : String) (events : List Event) : List ℕ := (lastOf HMM_WINDOW_SIZE (withoutNoise service events)).map (·.templateId)

open Classical in
noncomputable def scoreHmm (bundle : HmmBundle σ ο) (service : String) (events : List Event) : HmmDetection :=
  if (withoutNoise service events).length < HMM_WINDOW_SIZE then
    .insufficientData (withoutNoise service events).length HMM_WINDOW_SIZE
  else
    let symbols := toSymbols bundle.idToIndex (recentIds service events)
    if none ∈ symbols then .scored (some ⊥) bundle.threshold True (recentIds service events).length
    else
      let minScore := least (continuousPerStepLogProbs bundle.model symbols).1
      .scored minScore bundle.threshold (minScore.AtMost bundle.threshold) (recentIds service events).length

/-! ## What the scores are to say -/

/-- A run of seen symbols with nothing seen right before it. -/
structure Started (symbols before : List (Option ο)) (run : List ο) (after : List (Option ο)) : Prop where
  split : symbols = before ++ run.map some ++ after
  before : ∀ x ∈ before.getLast?, x = none

/-- A run that cannot be made longer. -/
structure Maximal (symbols before : List (Option ο)) (run : List ο) (after : List (Option ο)) : Prop
    extends Started symbols before run after where
  after : ∀ x ∈ after.head?, x = none

/-- The product of the exponentiated scores; `none`: NaN. -/
noncomputable def expProduct (scores : List Score) : Option ENNReal := (scores.mapM (Option.map EReal.exp)).map List.prod

def HmmDetection.Anomalous : HmmDetection → Prop
  | .insufficientData .. => False
  | .scored _ _ isAnomalous _ => isAnomalous

structure Scored (m : Hmm σ ο ℝ) (symbols : List (Option ο)) : Prop where
  normaliser : ∀ c, .scaled c ∈ perStep m symbols → c ≠ some 0
  likelihood : ∀ before run after, Maximal symbols before run after →
    expProduct (((continuousPerStepLogProbs m symbols).1.drop before.length).take run.length) = some (ENNReal.ofReal (m.likelihood run))
  /-- Of a window with these symbols. -/
  judged : ∀ (bundle : HmmBundle σ ο) (service : String) (events : List Event), bundle.model = m →
    HMM_WINDOW_SIZE ≤ (withoutNoise service events).length → toSymbols bundle.idToIndex (recentIds service events) = symbols →
    (none ∈ symbols ∨ ∃ before run after, Started symbols before run after ∧ m.likelihood run = 0) →
    (scoreHmm bundle service events).Anomalous

/-- The model gives every run of seen symbols a probability that is not zero. -/
def Possible (m : Hmm σ ο ℝ) (symbols : List (Option ο)) : Prop :=
  ∀ before run after, Maximal symbols before run after → m.likelihood run ≠ 0

/-! ## The steps of a run -/

section Steps
variable {K : Type} [Field K] [LinearOrder K] (m : Hmm σ ο K)

/-- After a restart the state does not matter. -/
theorem steps_restart (alpha alpha' : Option (σ → K)) (symbols : List (Option ο)) :
    steps m true alpha symbols = steps m true alpha' symbols := by
  induction symbols with
  | nil => rfl
  | cons x xs ih =>
    cases x with
    | none => rw [steps, steps, ih]
    | some sym => rfl

theorem steps_length (needRestart : Bool) (alpha : Option (σ → K)) (symbols : List (Option ο)) :
    (steps m needRestart alpha symbols).length = symbols.length := by
  induction symbols generalizing needRestart alpha with
  | nil => rfl
  | cons x xs ih =>
    cases x with
    | none => rw [steps, List.length_cons, ih, List.length_cons]
    | some sym => rw [steps, List.length_cons, ih, List.length_cons]

theorem steps_unseen (needRestart : Bool) (alpha : Option (σ → K)) (before after : List (Option ο)) :
    steps m needRestart alpha (before ++ none :: after) = steps m needRestart alpha before ++ .unseen :: perStep m after := by
  induction before generalizing needRestart alpha with
  | nil => exact congrArg _ (steps_restart m _ _ after)
  | cons x xs ih =>
    cases x with
    | none => rw [List.cons_append, steps, steps, ih, List.cons_append]
    | some sym => rw [List.cons_append, steps, steps, ih, List.cons_append]

/-- The steps before a run that is started, and the run's own. -/
theorem perStep_started {symbols before after : List (Option ο)} {run : List ο} (h : Started symbols before run after) :
    ∃ earlier, earlier.length = before.length ∧ perStep m symbols = earlier ++ perStep m (run.map some ++ after) := by
  rcases List.eq_nil_or_concat before with hb | ⟨init, x, hb⟩
  · exact ⟨[], by rw [hb]; rfl, by rw [h.split, hb]; rfl⟩
  · have hx : x = none := h.before x (by simp [hb])
    refine ⟨perStep m init ++ [.unseen], by simp [hb, perStep, steps_length], ?_⟩
    rw [h.split, hb, hx, List.append_assoc]
    simpa [perStep] using steps_unseen m true (some m.startprob) init (run.map some ++ after)

/-- While no sum is zero, the steps are those of the scaled algorithm. -/
theorem steps_scaled (v : σ → K) (os : List ο) (after : List (Option ο)) (h : 0 ∉ m.scaled v os) :
    ∃ alpha, Step.scaled (some (∑ i, v i)) :: steps m false (normalise v) (os.map some ++ after) =
      (m.scaled v os).map (fun c => .scaled (some c)) ++ steps m false alpha after := by
  induction os generalizing v with
  | nil => exact ⟨normalise v, rfl⟩
  | cons o os ih =>
    rw [Hmm.scaled, List.mem_cons, not_or] at h
    obtain ⟨alpha, ha⟩ := ih _ h.2
    refine ⟨alpha, ?_⟩
    rw [normalise, if_neg (Ne.symm h.1), Hmm.scaled, List.map_cons (f := some), List.cons_append, steps]
    exact congrArg _ ha

theorem perStep_run (run : List ο) (after : List (Option ο)) (h : 0 ∉ m.sums run) :
    ∃ needRestart alpha, perStep m (run.map some ++ after) =
      (m.sums run).map (fun c => .scaled (some c)) ++ steps m needRestart alpha after := by
  cases run with
  | nil => exact ⟨true, some m.startprob, rfl⟩
  | cons o os =>
    obtain ⟨alpha, ha⟩ := steps_scaled m (m.enter o) os after h
    exact ⟨false, alpha, ha⟩

/-- A sum that is zero is divided by; what is before it is not NaN. -/
theorem steps_zero (v : σ → K) (os : List ο) (after : List (Option ο)) (h : 0 ∈ m.scaled v os) :
    ∃ (cs : List K) (rest : List (Step K)), cs <+: m.scaled v os ∧
      Step.scaled (some (∑ i, v i)) :: steps m false (normalise v) (os.map some ++ after) =
        cs.map (fun c => .scaled (some c)) ++ .scaled (some 0) :: rest := by
  induction os generalizing v with
  | nil => exact ⟨[], _, List.nil_prefix, by rw [← List.mem_singleton.mp h]; rfl⟩
  | cons o os ih =>
    by_cases hsum : ∑ i, v i = 0
    · exact ⟨[], _, List.nil_prefix, by rw [hsum]; rfl⟩
    · obtain ⟨cs, rest, hcs, hr⟩ := ih _ ((List.mem_cons.mp h).resolve_left (Ne.symm hsum))
      refine ⟨(∑ i, v i) :: cs, rest, (List.prefix_cons_inj _).mpr hcs, ?_⟩
      rw [normalise, if_neg hsum, List.map_cons, List.cons_append, steps, List.map_cons, List.cons_append]
      exact congrArg _ hr

theorem perStep_zero (run : List ο) (after : List (Option ο)) (h : 0 ∈ m.sums run) :
    ∃ (cs : List K) (rest : List (Step K)), cs <+: m.sums run ∧
      perStep m (run.map some ++ after) = cs.map (fun c => .scaled (some c)) ++ .scaled (some 0) :: rest := by
  cases run with
  | nil => cases h
  | cons o os => exact steps_zero m (m.enter o) os after h

end Steps

end

/-! ## Runs -/

section Runs
variable {ο : Type} {symbols before after : List (Option ο)} {run : List ο}

/-- The symbols start with a run that cannot be made longer. -/
theorem exists_run (symbols : List (Option ο)) : ∃ run after, Maximal symbols [] run after := by
  induction symbols with
  | nil => exact ⟨[], [], ⟨rfl, by simp⟩, by simp⟩
  | cons x xs ih =>
    cases x with
    | none => exact ⟨[], none :: xs, ⟨rfl, by simp⟩, by simp⟩
    | some sym =>
      obtain ⟨run, after, h⟩ := ih
      refine ⟨sym :: run, after, ⟨?_, by simp⟩, h.after⟩
      rw [List.nil_append, List.map_cons, List.cons_append]
      exact congrArg _ h.split

theorem Maximal.later (h : Maximal symbols before run after) (earlier : List (Option ο)) :
    Maximal (earlier ++ none :: symbols) (earlier ++ none :: before) run after where
  split := by simp [h.split]
  before := by
    intro x hx
    rw [List.getLast?_append_cons, List.getLast?_cons] at hx
    cases hb : before.getLast? with
    | none => simpa [hb, eq_comm] using hx
    | some y =>
      have hy := h.before y hb
      simp_all
  after := h.after

/-- A run that is started is the beginning of one that cannot be made longer. -/
theorem Started.extend (h : Started symbols before run after) :
    ∃ more after', Maximal symbols before (run ++ more) after' := by
  obtain ⟨more, after', hm⟩ := exists_run after
  refine ⟨more, after', ⟨?_, h.before⟩, hm.after⟩
  rw [h.split, hm.split]
  simp

end Runs

section
variable {σ ο : Type} [Fintype σ] [Fintype ο] (m : Hmm σ ο ℝ) (symbols : List (Option ο))

theorem possible_of_normaliser (h : ∀ c, .scaled c ∈ perStep m symbols → c ≠ some 0) : Possible m symbols := by
  intro before run after hm hz
  obtain ⟨earlier, _, hsteps⟩ := perStep_started m hm.toStarted
  obtain ⟨cs, rest, _, hzero⟩ := perStep_zero m run after ((m.zero_mem_sums run).mpr hz)
  exact h (some 0) (by rw [hsteps, hzero]; simp) rfl

theorem normaliser_of_possible (h : Possible m symbols) : ∀ c, .scaled c ∈ perStep m symbols → c ≠ some 0 := by
  -- run by run
  induction hn : symbols.length using Nat.strong_induction_on generalizing symbols with
  | _ n ih =>
    intro c hc
    obtain ⟨run, after, hm⟩ := exists_run symbols
    have hsplit : symbols = run.map some ++ after := hm.split
    have hne := mt (m.zero_mem_sums run).mp (h _ _ _ hm)
    obtain ⟨needRestart, alpha, hrun⟩ := perStep_run m run after hne
    rw [hsplit, hrun, List.mem_append] at hc
    rcases hc with hc | hc
    · obtain ⟨c', hc', hcc⟩ := List.mem_map.mp hc
      cases hcc
      exact fun hz => hne (Option.some.inj hz ▸ hc')
    · cases hafter : after with
      | nil =>
        rw [hafter] at hc
        cases hc
      | cons x rest =>
        cases hm.after x (by simp [hafter])
        have hlater : Possible m rest := by
          intro b r a hr
          have hm' := hr.later (run.map some)
          rw [← hafter, ← hsplit] at hm'
          exact h _ _ _ hm'
        have hunseen := steps_unseen m needRestart alpha [] rest
        rw [hafter, ← List.nil_append (none :: rest), hunseen] at hc
        rcases List.mem_cons.mp hc with hc | hc
        · cases hc
        · exact ih rest.length (by rw [← hn, hsplit, hafter]; simp; omega) rest hlater rfl c hc

theorem exp_log {c : ℝ} (h : 0 ≤ c) : (log (some c)).map EReal.exp = some (ENNReal.ofReal c) := by
  rw [log, Option.bind_some, if_neg (not_lt.mpr h), Option.map_some, ENNReal.exp_log]

theorem expProduct_log (cs : List ℝ) (h : ∀ c ∈ cs, 0 ≤ c) : expProduct (cs.map fun c => log (some c)) = some (ENNReal.ofReal cs.prod) := by
  have hmap : (cs.map fun c => log (some c)).mapM (Option.map EReal.exp) = some (cs.map ENNReal.ofReal) := by
    induction cs with
    | nil => rfl
    | cons c cs ih =>
      rw [List.map_cons, List.mapM_cons, exp_log (h c (.head _)), ih fun x hx => h x (.tail _ hx)]
      rfl
  have hprod : (cs.map ENNReal.ofReal).prod = ENNReal.ofReal cs.prod := by
    clear hmap
    induction cs with
    | nil => simp
    | cons c cs ih =>
      rw [List.map_cons, List.prod_cons, List.prod_cons, ENNReal.ofReal_mul (h c (.head _)), ih fun x hx => h x (.tail _ hx)]
  rw [expProduct, hmap, Option.map_some, hprod]

theorem likelihood_of_possible (h : Possible m symbols) {before after : List (Option ο)} {run : List ο}
    (hm : Maximal symbols before run after) :
    expProduct (((continuousPerStepLogProbs m symbols).1.drop before.length).take run.length) = some (ENNReal.ofReal (m.likelihood run)) := by
  obtain ⟨earlier, hlen, hsteps⟩ := perStep_started m hm.toStarted
  have hne := mt (m.zero_mem_sums run).mp (h _ _ _ hm)
  obtain ⟨needRestart, alpha, hrun⟩ := perStep_run m run after hne
  have hscores : ((continuousPerStepLogProbs m symbols).1.drop before.length).take run.length = (m.sums run).map fun c => log (some c) := by
    rw [continuousPerStepLogProbs, hsteps, hrun, ← hlen]
    simp only [List.map_append, List.map_map]
    rw [List.drop_left' (by simp), List.take_left' (by simp [m.length_sums])]
    rfl
  rw [hscores, expProduct_log _ (m.sums_nonneg run), m.prod_sums hne]

/-- A started run with no probability is the beginning of a maximal one with none. -/
theorem likelihood_ne_zero (h : Possible m symbols) {before after : List (Option ο)} {run : List ο}
    (hs : Started symbols before run after) : m.likelihood run ≠ 0 := by
  obtain ⟨more, after', hm⟩ := hs.extend
  exact fun hz => h _ _ _ hm (m.likelihood_append_zero hz more)

theorem unseen_anomalous {bundle : HmmBundle σ ο} {service : String} {events : List Event}
    (hn : HMM_WINDOW_SIZE ≤ (withoutNoise service events).length) (h : none ∈ toSymbols bundle.idToIndex (recentIds service events)) :
    (scoreHmm bundle service events).Anomalous := by
  rw [scoreHmm, if_neg (Nat.not_lt.mpr hn)]
  simp only [if_pos h]
  trivial

theorem lesser_bot (x : Score) : lesser (some ⊥) x = some ⊥ := by
  apply if_neg
  rintro ⟨a, b, _, hb, hab⟩
  cases hb
  exact not_lt_bot hab

theorem lesser_number (a x : EReal) : lesser (some a) (some x) = some (min a x) := by
  unfold lesser
  split_ifs with h
  · obtain ⟨b, c, hb, hc, hlt⟩ := h
    cases hb
    cases hc
    rw [min_eq_right hlt.le]
  · rw [min_eq_left (not_lt.mp fun hlt => h ⟨x, a, rfl, rfl, hlt⟩)]

/-- Nothing after `-inf` takes its place, and NaN does not. -/
theorem least_bot (xs : List EReal) (rest : List Score) : least (xs.map some ++ some ⊥ :: rest) = some ⊥ := by
  have hrest : ∀ rest : List Score, rest.foldl lesser (some ⊥) = some ⊥ := by
    intro rest
    induction rest with
    | nil => rfl
    | cons x rest ih => rw [List.foldl_cons, lesser_bot, ih]
  have hfold : ∀ (xs : List EReal) (a : EReal), (xs.map some ++ some ⊥ :: rest).foldl lesser (some a) = some ⊥ := by
    intro xs
    induction xs with
    | nil =>
      intro a
      rw [List.map_nil, List.nil_append, List.foldl_cons, lesser_number, min_bot_right, hrest]
    | cons x xs ih =>
      intro a
      rw [List.map_cons, List.cons_append, List.foldl_cons, lesser_number, ih]
  cases xs with
  | nil => exact hrest rest
  | cons x xs => exact hfold xs x

/-- The scores of a run that becomes impossible. -/
theorem scores_zero {run : List ο} (h : m.likelihood run = 0) (after : List (Option ο)) :
    ∃ (xs : List EReal) (rest : List Score), (continuousPerStepLogProbs m (run.map some ++ after)).1 = xs.map some ++ some ⊥ :: rest := by
  obtain ⟨cs, rest, hcs, hzero⟩ := perStep_zero m run after ((m.zero_mem_sums run).mpr h)
  refine ⟨cs.map fun c => ENNReal.log (ENNReal.ofReal c), rest.map Step.logProb, ?_⟩
  have hnumber : ∀ c ∈ cs, Step.logProb (.scaled (some c)) = some (ENNReal.log (ENNReal.ofReal c)) := by
    intro c hc
    rw [Step.logProb, log, Option.bind_some, if_neg (not_lt.mpr (m.sums_nonneg run c (hcs.mem hc)))]
  have hbot : Step.logProb (.scaled (some 0)) = some ⊥ := by
    rw [Step.logProb, log, Option.bind_some, if_neg (lt_irrefl _), ENNReal.ofReal_zero, ENNReal.log_zero]
  rw [continuousPerStepLogProbs, hzero]
  simp only [List.map_append, List.map_map, List.map_cons, hbot]
  congr 1
  exact List.map_congr_left hnumber

/-- A step of probability zero is an anomaly too, unless the threshold is NaN. -/
theorem impossible_anomalous {bundle : HmmBundle σ ο} {service : String} {events : List Event}
    (hn : HMM_WINDOW_SIZE ≤ (withoutNoise service events).length) {threshold : EReal} (ht : bundle.threshold = some threshold)
    {before after : List (Option ο)} {run : List ο} (hs : Started (toSymbols bundle.idToIndex (recentIds service events)) before run after)
    (h : bundle.model.likelihood run = 0) : (scoreHmm bundle service events).Anomalous := by
  by_cases hseen : none ∈ toSymbols bundle.idToIndex (recentIds service events)
  · exact unseen_anomalous hn hseen
  · have hbefore : before = [] := by
      rcases List.eq_nil_or_concat before with hb | ⟨init, x, hb⟩
      · exact hb
      · have hx : x = none := hs.before x (by simp [hb])
        exact absurd (by rw [hs.split, hb, hx]; simp) hseen
    have hsplit := hs.split
    rw [hbefore, List.nil_append] at hsplit
    obtain ⟨xs, rest, hscores⟩ := scores_zero bundle.model h after
    rw [← hsplit] at hscores
    rw [scoreHmm, if_neg (Nat.not_lt.mpr hn)]
    simp only [if_neg hseen]
    rw [hscores, least_bot, ht]
    exact ⟨⊥, threshold, rfl, rfl, bot_le⟩

/-- The scores are what they are to be exactly when no run of seen symbols has probability zero: the sum of an impossible step
is divided by, and the scores after it are NaN. -/
theorem scored_iff : Scored m symbols ↔ Possible m symbols := by
  constructor
  · exact fun h => possible_of_normaliser m symbols h.normaliser
  · intro h
    constructor
    case normaliser => exact normaliser_of_possible m symbols h
    case likelihood => exact fun _ _ _ hm => likelihood_of_possible m symbols h hm
    case judged =>
      intro bundle service events _ hn hsymbols hbad
      rcases hbad with hunseen | ⟨before, run, after, hs, hz⟩
      · exact unseen_anomalous hn (hsymbols ▸ hunseen)
      · exact absurd hz (likelihood_ne_zero m symbols h hs)

end

/-- Two states that each stay what they are, and each have a symbol of their own. -/
noncomputable def apart : Hmm Bool Bool ℝ where
  startprob i := if i then 0 else 1
  transmat i j := if i = j then 1 else 0
  emissionprob i o := if i = o then 1 else 0
  startprob_nonneg i := by split_ifs <;> norm_num
  transmat_nonneg i j := by split_ifs <;> norm_num
  emissionprob_nonneg i o := by split_ifs <;> norm_num
  startprob_sum := by simp
  transmat_sum i := by simp
  emissionprob_sum i := by simp

/-- The second symbol cannot follow the first. -/
theorem apart_divided : ¬ Scored apart [some false, some true] := by
  intro h
  have hpossible := possible_of_normaliser apart _ h.normaliser
  have hm : Maximal [some false, some true] [] [false, true] [] := ⟨⟨rfl, by simp⟩, by simp⟩
  apply hpossible _ _ _ hm
  simp [Hmm.likelihood, Hmm.forward, Hmm.enter, Hmm.advance, apart]

end Wardence.TrackB
