import Wardence.Grades
/-!
# What the LLM's authority to act rests on

Whole runs of scored episodes, in Dimension C. An episode tests the LLM where
the LLM's own diagnosis is a class that can act, so that `/act` proposes an
action for it, and where that proposal comes of a primary provider and can be
compared with the true class's fix. The authority rests on the last tests of the
class, all of them right in diagnosis and action. An episode that is no test
takes nothing away.
-/
namespace Wardence.Earned

open Keyed Txn Client Dispatch Recording Credit Verdict Grades

/-! ## Scored episodes -/

/-- One run of the scorer on one episode, and what stub and models say in it. -/
structure Trial where
  x : Run
  world : World
  stub : StubResult
  llm : LlmResult
  toolOutput : Option Py.Dict
  e : String
  ep : EpisodeRow

def Trial.answer (s : Trial) (y : Db) : Except PyErr Result := handle s.world s.stub s.llm s.toolOutput y s.e s.ep

/-- The scorer's run, answered by the agent. -/
def Trial.run (s : Trial) : Run := { s.x with answer := handle s.world s.stub s.llm s.toolOutput }

/-- The database once the episode is scored. -/
def leaves (y : Db) (s : Trial) : Db := after (score s.run s.e s.ep) y

/-- What `propose_action` proposes for a diagnosis. -/
def Trial.proposes (s : Trial) (d : String) : Except PyErr Proposal :=
  proposeAction s.world.replies d s.ep.target s.ep.ns s.llm.provider s.llm.model

/-- The episode has no row of `scores` yet. -/
def Fresh (y : Db) (s : Trial) : Prop := s.e ∉ y.scores ∧ s.e ∉ y.episodeSnapshots

instance (y : Db) (s : Trial) : Decidable (Fresh y s) := inferInstanceAs (Decidable (_ ∧ _))

/-- The episode tests the LLM: its own diagnosis is an auto-fix class that can
act, and the proposal for it is a primary provider's and can be judged. -/
def Tested (y : Db) (s : Trial) : Prop :=
  Fresh y s ∧ (∃ r, s.answer y = .ok r) ∧ ∃ d p b, s.llm.llmDiagnosis = some d ∧
    (DETERMINISTIC_ACTION_MAP.lookup d).isSome = true ∧ (y.trust d).state = .canAct ∧ s.proposes d = .ok p ∧
    eligibleActionForStreak p.tier = true ∧ verdict s.x.liveCpu s.ep.faultClass p s.toolOutput = some (.ok b)

/-- The LLM's diagnosis is the true class, and the action it proposes is right for it. -/
def BothRight (s : Trial) : Prop :=
  s.llm.llmDiagnosis = some s.ep.faultClass ∧ ∃ p, s.proposes s.ep.faultClass = .ok p ∧
    verdict s.x.liveCpu s.ep.faultClass p s.toolOutput = some (.ok true)

/-! ## The proposal in the answer -/

/-- Whatever `/act` dispatches, it reports the background proposal. -/
theorem act_proposal {w : World} {db : Db} {req : ActRequest} {a : Acted} (h : act w db req = .ok a) :
    backgroundProposal w db req = .ok a.response.llmActionProposal := by
  have gate {resp : ActResponse} {tool : String} {params : Py.Dict} {source : Source}
      (h : dispatchWithGate w req resp tool params source = .ok a) :
      a.response.llmActionProposal = resp.llmActionProposal := by
    unfold dispatchWithGate at h
    split at h
    · cases h; rfl
    · obtain ⟨g, -, h⟩ := Py.ok_of_bind h
      cases g <;> cases h <;> rfl
  have net (resp : ActResponse) : (safetyNet w db req resp).response.llmActionProposal = resp.llmActionProposal := by
    unfold safetyNet
    split
    · rfl
    · split
      · rfl
      · split <;> rfl
  unfold act at h
  obtain ⟨proposal, hp, h⟩ := Py.ok_of_bind h
  rw [hp]
  split at h
  · cases h
    rw [net]
  · split at h
    · cases h; rfl
    · obtain ⟨choice, -, h⟩ := Py.ok_of_bind h
      cases choice <;> rw [gate h]

/-- The background proposal is for the LLM's own diagnosis, where that is an auto-fix class that can act. -/
theorem backgroundProposal_iff {w : World} {db : Db} {req : ActRequest} {o : Option Proposal}
    (h : backgroundProposal w db req = .ok o) (p : Proposal) : o = some p ↔ ∃ d, req.llmDiagnosis = some d ∧
      (DETERMINISTIC_ACTION_MAP.lookup d).isSome = true ∧ (db.trust d).state = .canAct ∧
      proposeAction w.replies d req.target req.ns req.llmProvider req.llmModel = .ok p := by
  unfold backgroundProposal at h
  cases hd : req.llmDiagnosis with
  | none =>
    rw [hd] at h
    cases h
    simp
  | some d =>
    simp only [hd] at h
    simp only [Option.some.injEq, exists_eq_left']
    split at h
    · rename_i hgate
      cases hq : proposeAction w.replies d req.target req.ns req.llmProvider req.llmModel with
      | error err => rw [hq] at h; cases h
      | ok q =>
        rw [hq] at h
        cases h
        simp only [hgate.1, hgate.2, true_and, Option.some.injEq, Except.ok.injEq]
    · rename_i hgate
      cases h
      refine iff_of_false (by simp) ?_
      rintro ⟨hfix, hcan, -⟩
      exact hgate ⟨hfix, hcan⟩

/-- The answer is on the diagnosis, and carries the proposal for the LLM's own. -/
theorem answer_proposal {y : Db} {s : Trial} {r : Result} (h : s.answer y = .ok r) :
    r.diag.toolOutput = s.toolOutput ∧ (r.diag.diagnosis = none → r.act.llmActionProposal = none) ∧
    ∀ p, r.act.llmActionProposal = some p ↔ ∃ d, s.llm.llmDiagnosis = some d ∧
      (DETERMINISTIC_ACTION_MAP.lookup d).isSome = true ∧ (y.trust d).state = .canAct ∧ s.proposes d = .ok p := by
  unfold Trial.answer handle at h
  simp only at h
  split at h
  · split at h
    · cases h
    · rename_i predicted hd
      split at h
      · rename_i a ha
        cases h
        refine ⟨rfl, fun hn => ?_, backgroundProposal_iff (act_proposal ha)⟩
        cases hn.symm.trans hd
      · cases h
  · rename_i hw
    cases h
    refine ⟨rfl, fun _ => rfl, fun p => iff_of_false (by simp) ?_⟩
    rintro ⟨d, hd, hfix, -⟩
    -- A diagnosis with a fix makes `/act` worth a call.
    apply hw
    have hany : (s.llm.llmDiagnosis.any fun c => (DETERMINISTIC_ACTION_MAP.lookup c).isSome) = true := by
      rw [hd]; exact hfix
    have hllm : (diagnose y s.ep.target s.ep.ns s.toolOutput s.stub s.llm).llmResult = s.llm := rfl
    unfold worthCallingAct
    rw [hllm, hany, Bool.or_true, Bool.true_or]

/-! ## One episode -/

/-- The verdict an episode brings Dimension C of its class. -/
def verdictC (y : Db) (s : Trial) : Option Bool :=
  if Fresh y s then
    match s.answer y with
    | .ok r => outcomeC s.x.liveCpu s.ep r
    | .error _ => none
  else none

theorem outcomeC_eq_some {liveCpu : String → String → Option ℚ} {ep : EpisodeRow} {r : Result} {b : Bool} :
    outcomeC liveCpu ep r = some b ↔ ∃ p, r.act.llmActionProposal = some p ∧ eligibleActionForStreak p.tier = true ∧
      verdict liveCpu ep.faultClass p r.diag.toolOutput = some (.ok b) := by
  unfold outcomeC
  cases r.act.llmActionProposal with
  | none => simp
  | some p =>
    simp only [Option.bind_eq_bind, Option.bind_some, Option.some.injEq, exists_eq_left']
    cases verdict liveCpu ep.faultClass p r.diag.toolOutput with
    | none => simp
    | some v =>
      cases v with
      | error err => simp [Except.toOption]
      | ok b' => by_cases ht : eligibleActionForStreak p.tier = true <;> simp [Except.toOption, ht]

/-- A right verdict is on a proposal for the true class. -/
theorem class_of_right {s : Trial} {d : String} {p : Proposal} (hp : s.proposes d = .ok p)
    (h : verdict s.x.liveCpu s.ep.faultClass p s.toolOutput = some (.ok true)) : d = s.ep.faultClass := by
  unfold verdict at h
  have hfits : p.toolName = (DETERMINISTIC_ACTION_MAP.lookup d).map Fix.tool := proposeAction_tool hp
  cases htool : p.toolName with
  | none => rw [htool] at h; cases h
  | some tool =>
    cases hfix : DETERMINISTIC_ACTION_MAP.lookup s.ep.faultClass with
    | none => simp [htool, hfix] at h
    | some fix =>
      simp only [htool, hfix, Option.bind_eq_bind, Option.bind_some, Option.pure_def, Option.some.injEq] at h
      obtain ⟨own, hown, htools⟩ := Option.map_eq_some_iff.1 (hfits.symm.trans htool)
      exact tool_injective hown hfix (htools.trans (tool_of_correct h))

/-- The verdict on the LLM's proposal is right exactly when its diagnosis is, too. -/
theorem right_iff {s : Trial} {d : String} {p : Proposal} {b : Bool} (hd : s.llm.llmDiagnosis = some d)
    (hp : s.proposes d = .ok p) (h : verdict s.x.liveCpu s.ep.faultClass p s.toolOutput = some (.ok b)) :
    b = true ↔ BothRight s := by
  constructor
  · rintro rfl
    obtain rfl := class_of_right hp h
    exact ⟨hd, p, hp, h⟩
  · rintro ⟨hd', q, hq, hvq⟩
    obtain rfl := Option.some.inj (hd.symm.trans hd')
    obtain rfl := Except.ok.inj (hp.symm.trans hq)
    exact Except.ok.inj (Option.some.inj (h.symm.trans hvq))

/-- An episode has a verdict when it tests the LLM, and a right one when both its diagnosis and its action are. -/
theorem verdictC_iff (y : Db) (s : Trial) (b : Bool) :
    verdictC y s = some b ↔ Tested y s ∧ (b = true ↔ BothRight s) := by
  by_cases hf : Fresh y s
  · cases ha : s.answer y with
    | error err =>
      have hv : verdictC y s = none := by simp only [verdictC, hf, if_true, ha]
      rw [hv]
      refine iff_of_false (by simp) ?_
      rintro ⟨⟨-, ⟨r, hr⟩, -⟩, -⟩
      cases ha.symm.trans hr
    | ok r =>
      obtain ⟨htool, -, hprop⟩ := answer_proposal ha
      have hv : verdictC y s = outcomeC s.x.liveCpu s.ep r := by simp only [verdictC, hf, if_true, ha]
      rw [hv, outcomeC_eq_some, htool]
      constructor
      · rintro ⟨p, hpr, ht, hb⟩
        obtain ⟨d, hd, hfix, hcan, hp⟩ := (hprop p).1 hpr
        exact ⟨⟨hf, ⟨r, ha⟩, d, p, b, hd, hfix, hcan, hp, ht, hb⟩, right_iff hd hp hb⟩
      · rintro ⟨⟨-, -, d, p, b', hd, hfix, hcan, hp, ht, hb'⟩, hb⟩
        have heq : b' = b := Bool.eq_iff_iff.2 ((right_iff hd hp hb').trans hb.symm)
        exact ⟨p, (hprop p).2 ⟨d, hd, hfix, hcan, hp⟩, ht, heq ▸ hb'⟩
  · have hv : verdictC y s = none := if_neg hf
    rw [hv]
    refine iff_of_false (by simp) ?_
    rintro ⟨⟨hf', -⟩, -⟩
    exact hf hf'

theorem verdictC_none_iff (y : Db) (s : Trial) : verdictC y s = none ↔ ¬ Tested y s := by
  constructor
  · intro h ht
    obtain ⟨-, -, d, p, b, hd, -, -, hp, -, hb⟩ := id ht
    rw [(verdictC_iff y s b).2 ⟨ht, right_iff hd hp hb⟩] at h
    cases h
  · intro h
    cases hv : verdictC y s with
    | none => rfl
    | some b => exact absurd ((verdictC_iff y s b).1 hv).1 h

/-- The row of Dimension C a verdict leaves. -/
def judged (row : Rung ActionTrust) : Option Bool → Rung ActionTrust
  | none => row
  | some correct => row.afterResult .deterministicFallback .llmCanAct 5 correct

theorem graded_action {x : Run} {ep : EpisodeRow} {r : Result} {y y' : Db} (h : Graded x ep r y y') (c : String) :
    y'.action c = if c = ep.faultClass then judged (y.action c) (outcomeC x.liveCpu ep r) else y.action c := by
  have hy : y'.action c = ({ y with actionTrust := y'.actionTrust } : Db).action c := rfl
  rw [hy, h.actionTrust]
  cases outcomeC x.liveCpu ep r with
  | none =>
    simp only [gradedC, judged, ite_self]
  | some correct =>
    rw [gradedC, action_insert]
    by_cases hc : c = ep.faultClass
    · rw [if_pos hc, if_pos hc, hc]
      rfl
    · rw [if_neg hc, if_neg hc]

/-- Only a class with a fix is judged, and every class with a fix has a policy. -/
theorem policy_of_outcomeC {liveCpu : String → String → Option ℚ} {ep : EpisodeRow} {r : Result} {b : Bool}
    (h : outcomeC liveCpu ep r = some b) : HasPolicy ep.faultClass := by
  obtain ⟨p, -, -, hv⟩ := outcomeC_eq_some.1 h
  cases hfix : DETERMINISTIC_ACTION_MAP.lookup ep.faultClass with
  | none =>
    unfold verdict at hv
    cases htool : p.toolName <;> simp [htool, hfix] at hv
  | some fix =>
    have hall : ∀ q ∈ DETERMINISTIC_ACTION_MAP, HasPolicy q.1 := by
      simp only [DETERMINISTIC_ACTION_MAP, List.forall_mem_cons]
      decide
    exact hall (ep.faultClass, fix) (mem_of_lookup hfix)

section Record
variable {x : Run} {e : String} {ep : EpisodeRow} {r : Result} {predicted : String}

/-- From the judgement on, a recording moves Dimension C by the verdict, where the episode is fresh. -/
theorem remainder_action (j : Judged) (y : Db) (c : String) :
    (run (remainder x e ep r predicted j) (.idle y)).2.committed.action c = judged (y.action c)
      (if c = ep.faultClass ∧ e ∉ y.scores ∧ e ∉ y.episodeSnapshots then outcomeC x.liveCpu ep r else none) := by
  by_cases hf : e ∉ y.scores ∧ e ∉ y.episodeSnapshots
  · by_cases hj : j.trustCorrect.isSome = true → HasPolicy ep.faultClass
    · rw [graded_action (remainder_graded hj hf.1 hf.2)]
      have hsame : (outcomeOf y ep.faultClass e j.trustCorrect).action c = y.action c := by
        cases j.trustCorrect <;> rfl
      rw [hsame]
      by_cases hc : c = ep.faultClass
      · rw [if_pos hc, if_pos ⟨hc, hf⟩]
      · rw [if_neg hc, if_neg fun h => hc h.1]
        rfl
    · -- An outcome for a class without a policy raises, but such a class has no verdict either.
      obtain ⟨hs, hp⟩ := Classical.not_imp.1 hj
      obtain ⟨err, herr⟩ := run_recordTrust_error hs hp x e r predicted
        (scored y e (scoresRow ep r predicted (diagnosisMatches predicted ep.faultClass) j) (snapshotRow r j))
      have hrun := (run_bind_ok (run_insertScored hf.1 hf.2 (scoresRow ep r predicted
        (diagnosisMatches predicted ep.faultClass) j) (snapshotRow r j)) fun _ => recordTrust x e ep r predicted j).trans herr
      have hnone : outcomeC x.liveCpu ep r = none := by
        cases ho : outcomeC x.liveCpu ep r with
        | none => rfl
        | some b => exact absurd (policy_of_outcomeC ho) hp
      unfold remainder
      rw [hrun, hnone, ite_self]
      rfl
  -- The key is taken: the recording dies on it.
  · have hstale : e ∈ y.scores ∨ e ∈ y.episodeSnapshots := by tauto
    obtain ⟨err, k, hrun, hk⟩ := run_insertScored_stale hstale
      (scoresRow ep r predicted (diagnosisMatches predicted ep.faultClass) j) (snapshotRow r j)
    unfold remainder
    rw [run_bind_error hrun, if_neg fun h => hf h.2]
    simp only [hk, judged]

/-- What a failure leaves of Dimension C: the row, or the bottom where it trips the breaker. -/
theorem failed_action (y : Db) (f : FailureRow) (tripped : Bool) (c : String) :
    let y' := if tripped then (failed y f).trip else failed y f
    y'.action c = y.action c ∨ y'.action c = ⟨.deterministicFallback, 0⟩ := by
  cases tripped with
  | false => exact .inl rfl
  | true =>
    simp only [if_true, trip_action]
    split
    · exact .inr rfl
    · exact .inl rfl

end Record

/-- A recording moves Dimension C by the verdict, and before it perhaps by a trip. -/
theorem record_action {r : Result} {predicted : String} (hd : r.diag.diagnosis = some predicted) (x : Run) (e : String)
    (ep : EpisodeRow) (y : Db) (c : String) :
    ∃ row, (row = y.action c ∨ row = ⟨.deterministicFallback, 0⟩) ∧ (after (record x e ep r) y).action c = judged row
      (if c = ep.faultClass ∧ e ∉ y.scores ∧ e ∉ y.episodeSnapshots then outcomeC x.liveCpu ep r else none) := by
  unfold after
  rw [record_eq hd]
  rcases Episodes.judge_cases x e ep r (diagnosisMatches predicted ep.faultClass) with
    ⟨-, hp, err, hj⟩ | ⟨-, o, d, -, -, hj⟩ | ⟨-, reason, d, -, hj⟩
  -- The recording raises; a class without a policy has no verdict.
  · have hnone : outcomeC x.liveCpu ep r = none := by
      cases ho : outcomeC x.liveCpu ep r with
      | none => rfl
      | some b => exact absurd (policy_of_outcomeC ho) hp
    refine ⟨y.action c, .inl rfl, ?_⟩
    rw [hj, hnone, ite_self]
    rfl
  · refine ⟨y.action c, .inl rfl, ?_⟩
    rw [hj, done_bind]
    exact remainder_action _ y c
  -- The failure comes first, and only a trip touches Dimension C.
  · obtain ⟨b, hb, -⟩ := run_recordFailure (some e) x.failedAt x.checkedAt reason (some ep.faultClass) y
    obtain ⟨h1, h2, -, -⟩ := failed_frame y ⟨reason, some ep.faultClass, x.failedAt⟩ b.tripped
    refine ⟨_, failed_action y ⟨reason, some ep.faultClass, x.failedAt⟩ b.tripped c, ?_⟩
    rw [hj, bind_assoc, run_bind_ok hb, done_bind, remainder_action, h1, h2]

/-- A scored episode moves Dimension C of its class by its verdict, and before it perhaps by a trip. -/
theorem leaves_action (y : Db) (s : Trial) (c : String) :
    ∃ row, (row = y.action c ∨ row = ⟨.deterministicFallback, 0⟩) ∧
      (leaves y s).action c = judged row (if c = s.ep.faultClass then verdictC y s else none) := by
  cases ha : s.answer y with
  -- The agent did not answer: the scorer ends before it records.
  | error err =>
    have hv : verdictC y s = none := by simp only [verdictC, ha, ite_self]
    have hleft : leaves y s = y := by
      unfold leaves after
      rw [run_score_error (x := s.run) ha]
      rfl
    refine ⟨y.action c, .inl rfl, ?_⟩
    rw [hleft, hv, ite_self]
    rfl
  | ok r =>
    obtain ⟨-, hsilent, -⟩ := answer_proposal ha
    have hleft : leaves y s = after (record s.run s.e s.ep r) y := by
      unfold leaves after
      rw [run_score_ok (x := s.run) ha]
    have hv : verdictC y s = if Fresh y s then outcomeC s.x.liveCpu s.ep r else none := by simp only [verdictC, ha]
    rw [hleft, hv]
    cases hd : r.diag.diagnosis with
    | none =>
      have hnone : outcomeC s.x.liveCpu s.ep r = none := by rw [outcomeC, hsilent hd]; rfl
      refine ⟨y.action c, .inl rfl, ?_⟩
      rw [hnone, ite_self, ite_self]
      simp only [record, hd]
      rfl
    | some predicted =>
      obtain ⟨row, hrow, he⟩ := record_action hd s.run s.e s.ep y c
      refine ⟨row, hrow, ?_⟩
      rw [← ite_and]
      exact he

/-! ## Whole runs -/

instance (y : Db) (s : Trial) : Decidable (Tested y s) :=
  decidable_of_iff (verdictC y s ≠ none) ((verdictC_none_iff y s).not.trans not_not)

/-- The episode, if it is a test of class `c`. -/
def test (c : String) (y : Db) (s : Trial) : List Trial := if s.ep.faultClass = c ∧ Tested y s then [s] else []

/-- The tests of class `c` in a run, oldest first. -/
def tests (c : String) : Db → List Trial → List Trial
  | _, [] => []
  | y, s :: steps => test c y s ++ tests c (leaves y s) steps

theorem tests_concat (c : String) (y : Db) (pre : List Trial) (s : Trial) :
    tests c y (pre ++ [s]) = tests c y pre ++ test c (pre.foldl leaves y) s := by
  induction pre generalizing y with
  | nil => simp only [List.nil_append, tests, List.append_nil, List.foldl_nil]
  | cons t pre ih => simp only [List.cons_append, tests, ih, List.append_assoc, List.foldl_cons]

/-- A row of Dimension C counts the last tests, all of them right, and grants only from five on. -/
structure Rests (row : Rung ActionTrust) (ts : List Trial) : Prop where
  last : ∃ last, last <:+ ts ∧ last.length = row.streak ∧ ∀ s ∈ last, BothRight s
  granted : row.state = .llmCanAct → 5 ≤ row.streak

theorem rests_bottom (ts : List Trial) : Rests ⟨.deterministicFallback, 0⟩ ts where
  last := ⟨[], List.nil_suffix, rfl, by simp⟩
  granted h := by cases h

/-- A test keeps the count. -/
theorem Rests.judged {row : Rung ActionTrust} {ts : List Trial} (h : Rests row ts) {s : Trial} {b : Bool}
    (hb : b = true ↔ BothRight s) : Rests (judged row (some b)) (ts ++ [s]) := by
  cases b with
  | false => exact rests_bottom _
  | true =>
    obtain ⟨last, hsuf, hlen, hright⟩ := h.last
    obtain ⟨older, rfl⟩ := hsuf
    refine ⟨⟨last ++ [s], ⟨older, (List.append_assoc _ _ _).symm⟩, ?_, ?_⟩, ?_⟩
    · rw [List.length_append, hlen]; rfl
    · intro t ht
      rcases List.mem_append.1 ht with ht | ht
      · exact hright t ht
      · rw [List.mem_singleton.1 ht]
        exact hb.1 rfl
    · intro hg
      simp only [Earned.judged, Rung.afterResult, if_true] at hg ⊢
      split at hg
      · assumption
      · have := h.granted hg
        omega

theorem rests_step {c : String} {y : Db} {ts : List Trial} (h : Rests (y.action c) ts) (s : Trial) :
    Rests ((leaves y s).action c) (ts ++ test c y s) := by
  obtain ⟨row, hrow, he⟩ := leaves_action y s c
  have hr : Rests row ts := by
    rcases hrow with rfl | rfl
    · exact h
    · exact rests_bottom ts
  rw [he, test]
  by_cases hc : s.ep.faultClass = c
  · rw [if_pos hc.symm]
    cases hv : verdictC y s with
    | none =>
      rw [if_neg fun ht => (verdictC_none_iff y s).1 hv ht.2, List.append_nil]
      exact hr
    | some b =>
      obtain ⟨ht, hb⟩ := (verdictC_iff y s b).1 hv
      rw [if_pos ⟨hc, ht⟩]
      exact hr.judged hb
  · rw [if_neg fun heq => hc heq.symm, if_neg fun ht => hc ht.1, List.append_nil]
    exact hr

theorem rests_run (c : String) (steps : List Trial) :
    Rests ((steps.foldl leaves {}).action c) (tests c {} steps) := by
  induction steps using List.reverseRecOn with
  | nil => exact rests_bottom _
  | append_singleton pre s ih =>
    rw [tests_concat, List.foldl_append]
    exact rests_step ih s

/-- A crash-loop that the stub calls by its name and the LLM calls `d`; asked for an action, the LLM restarts `carts`. -/
def called (e d : String) : Trial where
  x := Episodes.scoring fun _ _ _ => .error (.httpError 500)
  world := replying restart
  stub := ⟨"crash-loop", none, none⟩
  llm := ⟨.diagnosed, some d, none, none, some "gemini", some "gemini-3-flash-preview", some .primary⟩
  toolOutput := none
  e := e
  ep := Episodes.crashLoop

/-- Five episodes earn the class its action, five more the LLM. -/
def tenRight : List Trial :=
  ["ep-1", "ep-2", "ep-3", "ep-4", "ep-5", "ep-6", "ep-7", "ep-8", "ep-9", "ep-10"].map fun e => called e "crash-loop"

end Wardence.Earned
