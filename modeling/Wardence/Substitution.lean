import Wardence.Grades
/-!
# Substituted actions and the grades

`/act` puts the true class's fix in the place of a wrong class's action, or of
no action at all. An agent that is not told the truth never does. The same
episode is scored twice, once with each agent, and `neutral_iff` says exactly
when the grades come out the same.
-/
namespace Wardence.Substitution

open Keyed Txn Client Dispatch Episodes Recording Credit Verdict Grades

/-! ## The agent, told the truth or not -/

theorem mapping_tool_injective {a b : String} {m m' : Mapping} (ha : ACTION_MAP.lookup a = some m)
    (hb : ACTION_MAP.lookup b = some m') (h : m.tool = m'.tool) : a = b := by
  have hn : (ACTION_MAP.map fun r => r.2.tool).Nodup := by decide
  exact key_of_lookup hn ha hb h

/-- The fix of a mapping is dispatched, and the proposal is reported as before. -/
structure Fixed (req : ActRequest) (m : Mapping) (proposal : Option Proposal) (b : Acted) : Prop where
  call : b.call = some ⟨m.tool, m.kwargs req.target req.ns⟩
  taken : b.response.actionTaken.isSome = true
  proposal : b.response.llmActionProposal = proposal

/-- The gate puts the true class's fix in the place of another tool. -/
theorem dispatch_told {actual tool : String} {m : Mapping} (hm : ACTION_MAP.lookup actual = some m) {req : ActRequest}
    (hne : req.predicted ≠ actual) (htool : tool ≠ m.tool) (w : World) (resp : ActResponse) (params : Py.Dict)
    (source : Source) : ∃ b, dispatchWithGate w { req with actualClass := some actual } resp tool params source = .ok b ∧
      Fixed req m resp.llmActionProposal b := by
  simp only [dispatchWithGate, gateCheck, if_neg hne, hm, ne_eq, htool, not_false_eq_true, if_true]
  exact ⟨_, rfl, rfl, rfl, rfl⟩

/-- A true class without a fix changes nothing. -/
theorem dispatch_unfixable {actual : String} (hm : ACTION_MAP.lookup actual = none) {req : ActRequest}
    (hne : req.predicted ≠ actual) (w : World) (resp : ActResponse) (tool : String) (params : Py.Dict) (source : Source) :
    dispatchWithGate w { req with actualClass := some actual } resp tool params source =
      .ok (perform w resp tool params source) := by
  simp only [dispatchWithGate, gateCheck, if_neg hne, hm]
  rfl

/-- The agent that is told the truth dispatches the true class's fix instead of `own`. -/
def Replaces (db : Db) (predicted actual : String) (own : Acted) : Prop :=
  own.call.isSome = true ∨ ACTION_MAP.lookup predicted = none ∧ Authorised db actual

theorem safetyNet_untold (w : World) (db : Db) (req : ActRequest) (resp : ActResponse) :
    safetyNet w db { req with actualClass := none } resp = { response := resp } := rfl

/-- The safety net steps in exactly where the true class has a fix that may be dispatched. -/
theorem safetyNet_told {actual : String} {req : ActRequest} (hne : req.predicted ≠ actual) (w : World) (db : Db)
    (resp : ActResponse) : safetyNet w db { req with actualClass := some actual } resp = { response := resp } ∧
        (∀ m, ACTION_MAP.lookup actual = some m → ¬ Authorised db actual) ∨
      ∃ m, ACTION_MAP.lookup actual = some m ∧ Authorised db actual ∧
        Fixed req m resp.llmActionProposal (safetyNet w db { req with actualClass := some actual } resp) := by
  have hfilter : (some actual).filter (· ≠ req.predicted) = some actual := by simp [Option.filter, Ne.symm hne]
  simp only [safetyNet, hfilter]
  cases hm : ACTION_MAP.lookup actual with
  | none => exact .inl ⟨rfl, fun m h => by cases h⟩
  | some m =>
    simp only [mapping_class hm]
    split
    · rename_i hauth
      exact .inr ⟨m, rfl, hauth, rfl, rfl, rfl⟩
    · rename_i hauth
      exact .inl ⟨rfl, fun _ _ => hauth⟩

/-- Every dispatch of its own is of the predicted class's tool. -/
theorem llmChoice_tool {w : World} {db : Db} {req : ActRequest} {m : Mapping} {proposal : Option Proposal} {tool : String}
    {params : Py.Dict} {source : Source} (h : llmChoice w db req m proposal = .ok (some (tool, params, source))) :
    tool = m.tool := by
  obtain ⟨p, rfl, -⟩ := llmChoice_source h
  exact (llmChoice_ok h).2.2.1

/-- A dispatch of the predicted class's tool, told the truth and not. -/
theorem dispatch_cases_told {actual : String} {req : ActRequest} {mine : Mapping}
    (hpred : ACTION_MAP.lookup req.predicted = some mine) (hne : req.predicted ≠ actual) {tool : String}
    (htool : tool = mine.tool) (w : World) (resp : ActResponse) (params : Py.Dict) (source : Source) :
    let own := perform w resp tool params source
    dispatchWithGate w { req with actualClass := some actual } resp tool params source = .ok own ∧
        ACTION_MAP.lookup actual = none ∨
      ∃ m b, ACTION_MAP.lookup actual = some m ∧
        dispatchWithGate w { req with actualClass := some actual } resp tool params source = .ok b ∧
        Fixed req m own.response.llmActionProposal b := by
  intro own
  cases hm : ACTION_MAP.lookup actual with
  | none => exact .inl ⟨dispatch_unfixable hm hne w resp tool params source, rfl⟩
  | some m =>
    have hother : tool ≠ m.tool := by
      intro h
      exact hne (mapping_tool_injective hpred hm (htool.symm.trans h))
    obtain ⟨b, hb, hfixed⟩ := dispatch_told hm hne hother w resp params source
    exact .inr ⟨m, b, rfl, hb, hfixed⟩

/-- What the agent does when it is told the truth, from what it does when it is not. -/
theorem told_cases {w : World} {db : Db} {req : ActRequest} {actual : String} {own : Acted} (hne : req.predicted ≠ actual)
    (h : act w db { req with actualClass := none } = .ok own) :
    act w db { req with actualClass := some actual } = .ok own ∧
        (∀ m, ACTION_MAP.lookup actual = some m → ¬ Replaces db req.predicted actual own) ∨
      ∃ m b, ACTION_MAP.lookup actual = some m ∧ Replaces db req.predicted actual own ∧
        act w db { req with actualClass := some actual } = .ok b ∧ Fixed req m own.response.llmActionProposal b := by
  unfold act at h ⊢
  obtain ⟨proposal, hp, h⟩ := Py.ok_of_bind h
  have hp' : backgroundProposal w db { req with actualClass := some actual } = .ok proposal := hp
  rw [hp', ok_bind]
  cases hpred : ACTION_MAP.lookup req.predicted with
  -- The agent has no fix for its own class, and the safety net decides.
  | none =>
    simp only [hpred, safetyNet_untold] at h ⊢
    cases h
    rcases safetyNet_told hne w db { llmActionProposal := proposal } with ⟨he, hno⟩ | ⟨m, hm, hauth, hfixed⟩
    · refine .inl ⟨by rw [he]; rfl, fun m hm hrep => ?_⟩
      rcases hrep with hcall | ⟨-, hauth⟩
      · cases hcall
      · exact hno m hm hauth
    · exact .inr ⟨m, _, hm, .inr ⟨hpred, hauth⟩, rfl, hfixed⟩
  | some mine =>
    simp only [hpred] at h ⊢
    split at h
    -- It may not act for its own class, told or not.
    · rename_i hno
      rw [if_pos hno]
      cases h
      refine .inl ⟨rfl, fun m hm hrep => ?_⟩
      rcases hrep with hcall | ⟨hnone, -⟩
      · cases hcall
      · rw [hpred] at hnone; cases hnone
    -- It dispatches, and the gate decides.
    · rename_i hok
      rw [if_neg hok]
      obtain ⟨choice, hch, h⟩ := Py.ok_of_bind h
      have hch' : llmChoice w db { req with actualClass := some actual } mine proposal = .ok choice := hch
      rw [hch', ok_bind]
      have through {tool : String} {params : Py.Dict} {source : Source} (htool : tool = mine.tool)
          (hown : own = perform w { llmActionProposal := proposal } tool params source) :
          dispatchWithGate w { req with actualClass := some actual } { llmActionProposal := proposal } tool params source =
              .ok own ∧ (∀ m, ACTION_MAP.lookup actual = some m → ¬ Replaces db req.predicted actual own) ∨
            ∃ m b, ACTION_MAP.lookup actual = some m ∧ Replaces db req.predicted actual own ∧
              dispatchWithGate w { req with actualClass := some actual } { llmActionProposal := proposal } tool params
                source = .ok b ∧ Fixed req m own.response.llmActionProposal b := by
        subst hown
        rcases dispatch_cases_told hpred hne htool w { llmActionProposal := proposal } params source with
          ⟨hd, hnone⟩ | ⟨m, b, hm, hb, hfixed⟩
        · exact .inl ⟨hd, fun m hm => by rw [hnone] at hm; cases hm⟩
        · exact .inr ⟨m, b, hm, .inl rfl, hb, hfixed⟩
      cases choice with
      | none => exact through rfl (Except.ok.inj h).symm
      | some c =>
        obtain ⟨tool, params, source⟩ := c
        exact through (llmChoice_tool hch) (Except.ok.inj h).symm

/-! ## The scorer, with either agent -/

/-- An episode as the agent meets it: the cluster, the models and what was measured. -/
structure Scene where
  api : Api
  cluster : Cluster
  replies : Nat → Reply
  stub : StubResult
  llm : LlmResult
  toolOutput : Option Py.Dict

def Scene.world (s : Scene) : World := s.api.world s.cluster s.replies

def Scene.diag (s : Scene) (db : Db) (ep : EpisodeRow) : DiagnoseResponse :=
  diagnose db ep.target ep.ns s.toolOutput s.stub s.llm

/-- `/act`, where it is worth a call, for an agent that is told `truth`. An action function that raises takes the
request with it. -/
def Scene.acts (s : Scene) (truth : Option String) (db : Db) (e : String) (ep : EpisodeRow) : Except PyErr Acted :=
  let d := s.diag db ep
  if worthCallingAct d ep.faultClass then
    match d.diagnosis with
    | none => .error (.httpError 422)
    | some predicted =>
      match act s.world db { actRequest d predicted e ep.faultClass with actualClass := truth } with
      | .ok a => if a.call.all fun c => (c.run s.api s.cluster).isSome then .ok a else .error (.httpError 500)
      | .error _ => .error (.httpError 500)
  else .ok { response := {} }

/-- A run of the scorer on that agent's answer and the cluster it leaves. -/
def Scene.run (s : Scene) (truth : Option String) (x : Run) (db : Db) (e : String) (ep : EpisodeRow) : Run :=
  { x with
    answer := fun db e ep => (s.acts truth db e ep).map fun a => ⟨s.diag db ep, a.response⟩
    liveCpu := fun target ns => match s.acts truth db e ep with
      | .ok a => (s.cluster.after s.api a.call).liveCpu target ns
      | .error _ => none }

/-- The database once the scorer has scored the episode with that agent. -/
def Scene.scored (s : Scene) (truth : Option String) (x : Run) (db : Db) (e : String) (ep : EpisodeRow) : Db :=
  after (score (s.run truth x db e ep) e ep) db

/-- The agent that is told the truth is the real one. -/
theorem acts_eq_handle {s : Scene} {db : Db} {e : String} {ep : EpisodeRow} {a : Acted}
    (h : s.acts (some ep.faultClass) db e ep = .ok a) :
    handle s.world s.stub s.llm s.toolOutput db e ep = .ok ⟨s.diag db ep, a.response⟩ := by
  have heq : diagnose db ep.target ep.ns s.toolOutput s.stub s.llm = s.diag db ep := rfl
  by_cases hw : worthCallingAct (s.diag db ep) ep.faultClass = true
  · cases hd : (s.diag db ep).diagnosis with
    | none =>
      simp only [Scene.acts, hw, if_true, hd] at h
      cases h
    | some predicted =>
      cases ha : act s.world db { actRequest (s.diag db ep) predicted e ep.faultClass with actualClass := some ep.faultClass } with
      | error err =>
        simp only [Scene.acts, hw, if_true, hd, ha] at h
        cases h
      | ok a' =>
        simp only [Scene.acts, hw, if_true, hd, ha] at h
        split at h
        · cases h
          have ha' : act s.world db (actRequest (s.diag db ep) predicted e ep.faultClass) = .ok a := ha
          simp only [handle, heq, hw, if_true, hd, ha']
        · cases h
  · simp only [Scene.acts, if_neg hw] at h
    cases h
    simp only [handle, heq, if_neg hw]

/-- The grades of two databases are the same. -/
structure SameGrades (y₁ y₂ : Db) : Prop where
  trustState : y₁.trustState = y₂.trustState
  diagnoserMode : y₁.diagnoserMode = y₂.diagnoserMode
  actionTrust : y₁.actionTrust = y₂.actionTrust
  failureLog : y₁.failureLog = y₂.failureLog

/-! ## What is left of a wrong diagnosis -/

theorem matches_self (c : String) : diagnosisMatches c c = true := by
  unfold diagnosisMatches
  simp only
  split
  · rename_i h
    simp [h]
  · simp

theorem ne_of_wrong {predicted actual : String} (h : diagnosisMatches predicted actual = false) : predicted ≠ actual := by
  rintro rfl
  rw [matches_self] at h
  cases h

/-- The failure that a wrong diagnosis costs an action. -/
def charged (x : Run) (db : Db) (e : String) (ep : EpisodeRow) : Db :=
  after (recordFailure (some e) x.failedAt x.checkedAt "action failed or misdiagnosed" (some ep.faultClass)) db

theorem charged_failureLog (x : Run) (db : Db) (e : String) (ep : EpisodeRow) :
    (charged x db e ep).failureLog = db.failureLog ++ [⟨"action failed or misdiagnosed", some ep.faultClass, x.failedAt⟩] := by
  obtain ⟨b, hb, -⟩ := run_recordFailure (some e) x.failedAt x.checkedAt "action failed or misdiagnosed" (some ep.faultClass) db
  unfold charged after
  rw [hb]
  cases b.tripped with
  | false => rfl
  | true =>
    simp only [if_true, Conn.idle_committed]
    rw [trip_frame]
    rfl

theorem charged_ne {x : Run} {db : Db} {e : String} {ep : EpisodeRow}
    (h : (charged x db e ep).failureLog = db.failureLog) : False := by
  rw [charged_failureLog] at h
  simp at h

theorem judge_acted {x : Run} {e : String} {ep : EpisodeRow} {r : Result} (h : r.act.actionTaken.isSome = true) :
    judge x e ep r false = recordFailure (some e) x.failedAt x.checkedAt "action failed or misdiagnosed" (some ep.faultClass) >>=
      fun b => done ⟨some false, none, some b⟩ := by
  obtain ⟨tool, htool⟩ := Option.isSome_iff_exists.1 h
  unfold judge
  rw [htool]
  simp only [true_or, if_true]
  rfl

theorem judge_idle {x : Run} {e : String} {ep : EpisodeRow} {r : Result} (h : r.act.actionTaken = none)
    (hp : HasPolicy ep.faultClass) : judge x e ep r false = done ⟨some false, none, none⟩ := by
  unfold judge
  rw [h]
  simp only [if_pos hp]
  rfl

section Wrong
variable {x : Run} {db : Db} {e : String} {ep : EpisodeRow} {r : Result} {predicted : String}

/-- After a wrong diagnosis with an action: the failure is charged first. -/
theorem acted_graded (hd : r.diag.diagnosis = some predicted) (hw : diagnosisMatches predicted ep.faultClass = false)
    (ht : r.act.actionTaken.isSome = true) (hp : HasPolicy ep.faultClass) (h1 : e ∉ db.scores) (h2 : e ∉ db.episodeSnapshots) :
    Graded x ep r (outcomeOf (charged x db e ep) ep.faultClass e (some false)) (after (record x e ep r) db) := by
  obtain ⟨b, hb, -⟩ := run_recordFailure (some e) x.failedAt x.checkedAt "action failed or misdiagnosed" (some ep.faultClass) db
  obtain ⟨f1, f2, -, -⟩ := failed_frame db ⟨"action failed or misdiagnosed", some ep.faultClass, x.failedAt⟩ b.tripped
  unfold after
  rw [record_eq hd, hw, judge_acted ht, bind_assoc, run_bind_ok hb, done_bind]
  have hy : (if b.tripped then (failed db ⟨"action failed or misdiagnosed", some ep.faultClass, x.failedAt⟩).trip
      else failed db ⟨"action failed or misdiagnosed", some ep.faultClass, x.failedAt⟩) = charged x db e ep := by
    unfold charged after
    rw [hb]
    rfl
  rw [← hy]
  exact remainder_graded (j := ⟨some false, none, some b⟩) (fun _ => hp) (by rw [f1]; exact h1) (by rw [f2]; exact h2)

/-- After a wrong diagnosis without one. -/
theorem idle_graded (hd : r.diag.diagnosis = some predicted) (hw : diagnosisMatches predicted ep.faultClass = false)
    (ht : r.act.actionTaken = none) (hp : HasPolicy ep.faultClass) (h1 : e ∉ db.scores) (h2 : e ∉ db.episodeSnapshots) :
    Graded x ep r (outcomeOf db ep.faultClass e (some false)) (after (record x e ep r) db) := by
  unfold after
  rw [record_eq hd, hw, judge_idle ht hp, done_bind]
  exact remainder_graded (j := ⟨some false, none, none⟩) (fun _ => hp) h1 h2

end Wrong

/-! ## The two runs -/

/-- Not told the truth, the agent takes no action, or one of its own for a class that may act. -/
theorem untold_cases {w : World} {db : Db} {req : ActRequest} {own : Acted}
    (h : act w db { req with actualClass := none } = .ok own) :
    own.call = none ∧ own.response.actionTaken = none ∨ own.call.isSome = true ∧ own.response.actionTaken.isSome = true ∧
      Authorised db req.predicted ∧ (ACTION_MAP.lookup req.predicted).isSome = true := by
  unfold act at h
  obtain ⟨proposal, -, h⟩ := Py.ok_of_bind h
  cases hpred : ACTION_MAP.lookup req.predicted with
  | none =>
    simp only [hpred, safetyNet_untold] at h
    cases h
    exact .inl ⟨rfl, rfl⟩
  | some mine =>
    simp only [hpred, mapping_class hpred] at h
    split at h
    · cases h
      exact .inl ⟨rfl, rfl⟩
    · rename_i hok
      have hauth : Authorised db req.predicted := by
        refine ⟨?_, ?_⟩
        · by_contra hcan
          exact hok (.inl hcan)
        · exact Bool.eq_false_iff.2 fun hheld => hok (.inr hheld)
      obtain ⟨choice, -, h⟩ := Py.ok_of_bind h
      cases choice <;> cases h <;> exact .inr ⟨rfl, rfl, hauth, rfl⟩

theorem fixable_iff (c : String) : (ACTION_MAP.lookup c).isSome = (DETERMINISTIC_ACTION_MAP.lookup c).isSome := by
  have hnone : ACTION_MAP.lookup c = none ↔ DETERMINISTIC_ACTION_MAP.lookup c = none := by
    simp [List.lookup_eq_none_iff, ACTION_MAP, DETERMINISTIC_ACTION_MAP, mapping]
  rw [Bool.eq_iff_iff, Option.isSome_iff_ne_none, Option.isSome_iff_ne_none, ne_eq, ne_eq, hnone]

theorem policy_of_mapping {c : String} {m : Mapping} (h : ACTION_MAP.lookup c = some m) : HasPolicy c := by
  have hall : ∀ r ∈ ACTION_MAP, HasPolicy r.1 := by simp only [ACTION_MAP, mapping, List.forall_mem_cons]; decide
  exact hall (c, m) (mem_of_lookup h)

/-- The arguments of a fix bind. -/
theorem fix_binds {c : String} {m : Mapping} (h : ACTION_MAP.lookup c = some m) (api : Api) (k : Cluster) (t n : String) :
    ((⟨m.tool, m.kwargs t n⟩ : Call).run api k).isSome = true := by
  have hall : ∀ r ∈ ACTION_MAP, ((⟨r.2.tool, r.2.kwargs t n⟩ : Call).run api k).isSome = true := by
    simp only [ACTION_MAP, mapping, List.forall_mem_cons]
    exact ⟨rfl, rfl, rfl, rfl, rfl, rfl, by simp⟩
  exact hall (c, m) (mem_of_lookup h)

theorem gradedC_inj {y : Db} {c : String} {a b : Bool} (h : gradedC y c (some a) = gradedC y c (some b)) : a = b := by
  have hrow : (y.action c).afterResult .deterministicFallback .llmCanAct 5 a =
      (y.action c).afterResult .deterministicFallback .llmCanAct 5 b := by
    have := congrArg (fun t => t.lookup c) h
    simpa only [gradedC, AList.lookup_insert, Option.some.injEq] using this
  have hstreak := congrArg Rung.streak hrow
  cases a <;> cases b <;> simp [Rung.afterResult] at hstreak ⊢

/-- Two recordings of one proposal leave the same Dimension C, unless they judge its CPU limit differently. -/
theorem gradedC_same_iff (y : Db) (ep : EpisodeRow) {r₁ r₂ : Result} (hdiag : r₁.diag = r₂.diag)
    (hp : r₁.act.llmActionProposal = r₂.act.llmActionProposal) (k₁ k₂ : Cluster) :
    gradedC y ep.faultClass (outcomeC k₁.liveCpu ep r₁) = gradedC y ep.faultClass (outcomeC k₂.liveCpu ep r₂) ↔
      ∀ p, r₂.act.llmActionProposal = some p → p.tier = some .primary → JudgesCpu ep.faultClass p →
        ¬ Straddles ((p.params.getD ∅).get "limit") k₁ k₂ := by
  unfold outcomeC
  rw [hdiag, hp]
  cases r₂.act.llmActionProposal with
  | none => simp
  | some p =>
    simp only [Option.bind_eq_bind, Option.bind_some, Option.some.injEq, forall_eq']
    by_cases ht : p.tier = some .primary
    · have hsame := verdict_same_iff k₁ k₂ ep.faultClass p r₂.diag.toolOutput
      simp only [eligibleActionForStreak, ht, decide_true, if_true, forall_true_left]
      rw [← hsame]
      constructor
      · intro hg
        by_cases hj : JudgesCpu ep.faultClass p
        · obtain ⟨hc, htool⟩ := id hj
          rw [hc, verdict_cpu htool, verdict_cpu htool] at hg ⊢
          rw [gradedC_inj hg]
        · exact verdict_other hj _ _ _
      · intro hv
        rw [hv]
    · simp [eligibleActionForStreak, ht]

/-- What the agent would do of its own accord for a diagnosis. -/
def Scene.own (s : Scene) (db : Db) (e : String) (ep : EpisodeRow) (predicted : String) : Except PyErr Acted :=
  act s.world db { actRequest (s.diag db ep) predicted e ep.faultClass with actualClass := none }

/-- The fix of the true class may take the place of what the agent does of its own accord. Where that is nothing, the
fix may not be dispatched. Where it is a call, the call goes through, and the LLM's CPU proposal is judged alike
after it and after the fix. -/
structure Spares (s : Scene) (db : Db) (ep : EpisodeRow) (predicted : String) (own : Acted) (fix : Call) : Prop where
  idle : own.call = none → ACTION_MAP.lookup predicted = none → ¬ Authorised db ep.faultClass
  binds : ∀ c, own.call = some c → (c.run s.api s.cluster).isSome = true
  judged : ∀ c, own.call = some c → ∀ p, own.response.llmActionProposal = some p → p.tier = some .primary →
    JudgesCpu ep.faultClass p →
      ¬ Straddles ((p.params.getD ∅).get "limit") (s.cluster.after s.api (some fix)) (s.cluster.after s.api (some c))

/-- Substituting makes no difference to the grades, whatever the agent does of its own accord. -/
def Neutral (s : Scene) (db : Db) (e : String) (ep : EpisodeRow) : Prop :=
  ∀ predicted own m, (s.diag db ep).diagnosis = some predicted → s.own db e ep predicted = .ok own →
    ACTION_MAP.lookup ep.faultClass = some m → Spares s db ep predicted own ⟨m.tool, m.kwargs ep.target ep.ns⟩

section Runs
variable {s : Scene} {x : Run} {db : Db} {e : String} {ep : EpisodeRow} {truth : Option String} {a : Acted}

theorem scored_error {err : PyErr} (h : s.acts truth db e ep = .error err) : s.scored truth x db e ep = db := by
  have hans : (s.run truth x db e ep).answer db e ep = .error err := by
    simp only [Scene.run, h]
    rfl
  unfold Scene.scored after
  rw [run_score_error hans]
  rfl

theorem scored_ok (h : s.acts truth db e ep = .ok a) : s.scored truth x db e ep =
    after (record (s.run truth x db e ep) e ep ⟨s.diag db ep, a.response⟩) db := by
  have hans : (s.run truth x db e ep).answer db e ep = .ok ⟨s.diag db ep, a.response⟩ := by
    simp only [Scene.run, h]
    rfl
  unfold Scene.scored after
  rw [run_score_ok hans]

theorem liveCpu_ok (h : s.acts truth db e ep = .ok a) :
    (s.run truth x db e ep).liveCpu = (s.cluster.after s.api a.call).liveCpu := by
  funext target ns
  simp only [Scene.run, h]

theorem worth_of_authorised {predicted : String} {m : Mapping} (hd : (s.diag db ep).diagnosis = some predicted)
    (hm : ACTION_MAP.lookup predicted = some m) (hauth : Authorised db predicted) :
    worthCallingAct (s.diag db ep) ep.faultClass = true := by
  have helig : (s.diag db ep).eligibleForAction = ((s.diag db ep).diagnosis.bind fun c => ACTION_MAP.lookup c).any
      fun m => (db.trust m.faultClass).state = .canAct ∧ (db.hold m.faultClass).active = false := rfl
  have hyes : (s.diag db ep).eligibleForAction = true := by
    rw [helig, hd, Option.bind_some, hm, Option.any_some, mapping_class hm]
    exact decide_eq_true hauth
  rw [worthCallingAct, hyes]
  rfl

theorem worth_of_fixable {predicted : String} {m : Mapping} (hd : (s.diag db ep).diagnosis = some predicted)
    (hnone : ACTION_MAP.lookup predicted = none) (hm : ACTION_MAP.lookup ep.faultClass = some m) :
    worthCallingAct (s.diag db ep) ep.faultClass = true := by
  have h1 : (DETERMINISTIC_ACTION_MAP.lookup predicted).isSome = false := by rw [← fixable_iff, hnone]; rfl
  have h2 : (DETERMINISTIC_ACTION_MAP.lookup ep.faultClass).isSome = true := by rw [← fixable_iff, hm]; rfl
  rw [worthCallingAct, hd, Option.any_some, h1, h2]
  simp

/-- Where `/act` is worth a call, the agent's answer is what `act` gives, if the call it makes binds. -/
theorem acts_ok {predicted : String} (hd : (s.diag db ep).diagnosis = some predicted)
    (hw : worthCallingAct (s.diag db ep) ep.faultClass = true)
    (h : act s.world db { actRequest (s.diag db ep) predicted e ep.faultClass with actualClass := truth } = .ok a)
    (hb : ∀ c, a.call = some c → (c.run s.api s.cluster).isSome = true) : s.acts truth db e ep = .ok a := by
  have hall : (a.call.all fun c => (c.run s.api s.cluster).isSome) = true := by
    cases hc : a.call with
    | none => rfl
    | some c => exact hb c hc
  simp only [Scene.acts, hw, if_true, hd, h, hall]

/-- The grades depend on what `/act` does and on nothing else it is told. -/
theorem same_of_acts {truth' : Option String} (h : s.acts truth db e ep = s.acts truth' db e ep) :
    SameGrades (s.scored truth x db e ep) (s.scored truth' x db e ep) := by
  cases ha : s.acts truth db e ep with
  | error err =>
    rw [scored_error ha, scored_error (h ▸ ha)]
    exact ⟨rfl, rfl, rfl, rfl⟩
  | ok a =>
    have ha' : s.acts truth' db e ep = .ok a := h ▸ ha
    have hrun : s.run truth x db e ep = { s.run truth' x db e ep with answer := (s.run truth x db e ep).answer } := by
      simp only [Scene.run, ha, ha']
    have hrec : record (s.run truth x db e ep) e ep ⟨s.diag db ep, a.response⟩ =
        record (s.run truth' x db e ep) e ep ⟨s.diag db ep, a.response⟩ := by
      rw [hrun]
      rfl
    rw [scored_ok ha, scored_ok ha', hrec]
    exact ⟨rfl, rfl, rfl, rfl⟩

/-- A request that fails without the truth fails with it. -/
theorem told_error {w : World} {req : ActRequest} {actual : String} {err : PyErr}
    (h : act w db { req with actualClass := none } = .error err) :
    act w db { req with actualClass := some actual } = .error err := by
  unfold act at h ⊢
  cases hp : backgroundProposal w db { req with actualClass := none } with
  | error err' =>
    have hp' : backgroundProposal w db { req with actualClass := some actual } = .error err' := hp
    rw [hp] at h
    rw [hp']
    exact h
  | ok proposal =>
    have hp' : backgroundProposal w db { req with actualClass := some actual } = .ok proposal := hp
    rw [hp, ok_bind] at h
    rw [hp', ok_bind]
    cases hpred : ACTION_MAP.lookup req.predicted with
    | none =>
      simp only [hpred] at h
      cases h
    | some mine =>
      simp only [hpred] at h ⊢
      split at h
      · cases h
      · rename_i hok
        rw [if_neg hok]
        cases hch : llmChoice w db { req with actualClass := none } mine proposal with
        | error err' =>
          have hch' : llmChoice w db { req with actualClass := some actual } mine proposal = .error err' := hch
          rw [hch] at h
          rw [hch']
          exact h
        | ok choice =>
          rw [hch, ok_bind] at h
          cases choice <;> cases h

/-- Where nothing is replaced, the truth makes no difference to what the agent does. -/
theorem acts_same
    (hwrong : ∀ predicted, (s.diag db ep).diagnosis = some predicted → diagnosisMatches predicted ep.faultClass = false)
    (hno : ∀ predicted own m, (s.diag db ep).diagnosis = some predicted → s.own db e ep predicted = .ok own →
      ACTION_MAP.lookup ep.faultClass = some m → ¬ Replaces db predicted ep.faultClass own) :
    s.acts (some ep.faultClass) db e ep = s.acts none db e ep := by
  cases hd : (s.diag db ep).diagnosis with
  | none => simp only [Scene.acts, hd]
  | some predicted =>
    have hne : predicted ≠ ep.faultClass := ne_of_wrong (hwrong predicted hd)
    have hact : act s.world db { actRequest (s.diag db ep) predicted e ep.faultClass with actualClass := some ep.faultClass } =
        act s.world db { actRequest (s.diag db ep) predicted e ep.faultClass with actualClass := none } := by
      cases hown : s.own db e ep predicted with
      | error err =>
        rw [told_error hown]
        exact hown.symm
      | ok own =>
        rcases told_cases hne hown with ⟨htold, -⟩ | ⟨m, b, hm, hrep, -⟩
        · rw [htold]
          exact hown.symm
        · exact absurd hrep (hno predicted own m hd hown hm)
    simp only [Scene.acts, hd, hact]

/-- Where the fix takes the place of the agent's own action, or of none. -/
theorem replaced_iff {predicted : String} {own b : Acted} {m : Mapping} (hd : (s.diag db ep).diagnosis = some predicted)
    (hw : diagnosisMatches predicted ep.faultClass = false) (hm : ACTION_MAP.lookup ep.faultClass = some m)
    (hown : s.own db e ep predicted = .ok own) (hrep : Replaces db predicted ep.faultClass own)
    (htold : act s.world db (actRequest (s.diag db ep) predicted e ep.faultClass) = .ok b)
    (hfixed : Fixed (actRequest (s.diag db ep) predicted e ep.faultClass) m own.response.llmActionProposal b)
    (h1 : e ∉ db.scores) (h2 : e ∉ db.episodeSnapshots) :
    SameGrades (s.scored (some ep.faultClass) x db e ep) (s.scored none x db e ep) ↔
      Spares s db ep predicted own ⟨m.tool, m.kwargs ep.target ep.ns⟩ := by
  have hp := policy_of_mapping hm
  have hfix : b.call = some ⟨m.tool, m.kwargs ep.target ep.ns⟩ := hfixed.call
  have hbinds : ∀ c, b.call = some c → (c.run s.api s.cluster).isSome = true := by
    intro c hc
    rw [hfix] at hc
    cases hc
    exact fix_binds hm s.api s.cluster _ _
  rcases untold_cases hown with ⟨hcall, htaken⟩ | ⟨hcall, htaken, hauth, hpred⟩
  · -- the safety net: one run charges a failure, the other has none to charge
    obtain ⟨hnone, hauth⟩ := hrep.resolve_left (by rw [hcall]; simp)
    have hworth := worth_of_fixable hd hnone hm
    have ha : s.acts (some ep.faultClass) db e ep = .ok b := acts_ok hd hworth htold hbinds
    have ha' : s.acts none db e ep = .ok own := acts_ok hd hworth hown fun c hc => by rw [hcall] at hc; cases hc
    refine iff_of_false ?_ fun h => h.idle hcall hnone hauth
    intro hsame
    have g := acted_graded (x := s.run (some ep.faultClass) x db e ep) (r := ⟨s.diag db ep, b.response⟩) hd hw
      hfixed.taken hp h1 h2
    have g' := idle_graded (x := s.run none x db e ep) (r := ⟨s.diag db ep, own.response⟩) hd hw htaken hp h1 h2
    have hlog := hsame.failureLog
    rw [scored_ok ha, scored_ok ha', g.failureLog, g'.failureLog] at hlog
    exact charged_ne hlog
  -- The gate: both runs charge the failure, if both calls bind.
  · obtain ⟨c, hc⟩ := Option.isSome_iff_exists.1 hcall
    obtain ⟨mine, hmine⟩ := Option.isSome_iff_exists.1 hpred
    have hworth : worthCallingAct (s.diag db ep) ep.faultClass = true := worth_of_authorised hd hmine hauth
    have ha : s.acts (some ep.faultClass) db e ep = .ok b := acts_ok hd hworth htold hbinds
    have g := acted_graded (x := s.run (some ep.faultClass) x db e ep) (r := ⟨s.diag db ep, b.response⟩) hd hw
      hfixed.taken hp h1 h2
    by_cases hbind : (c.run s.api s.cluster).isSome = true
    · have ha' : s.acts none db e ep = .ok own := acts_ok hd hworth hown fun c' hc' => by
        rw [hc] at hc'
        cases hc'
        exact hbind
      have g' := acted_graded (x := s.run none x db e ep) (r := ⟨s.diag db ep, own.response⟩) hd hw htaken hp h1 h2
      have hdiag : (⟨s.diag db ep, b.response⟩ : Result).diag = (⟨s.diag db ep, own.response⟩ : Result).diag := rfl
      have hC := gradedC_same_iff (outcomeOf (charged x db e ep) ep.faultClass e (some false)) ep hdiag hfixed.proposal
        (s.cluster.after s.api (some ⟨m.tool, m.kwargs ep.target ep.ns⟩)) (s.cluster.after s.api (some c))
      have hcpu : (s.run (some ep.faultClass) x db e ep).liveCpu =
          (s.cluster.after s.api (some ⟨m.tool, m.kwargs ep.target ep.ns⟩)).liveCpu := by rw [liveCpu_ok ha, hfix]
      have hcpu' : (s.run none x db e ep).liveCpu = (s.cluster.after s.api (some c)).liveCpu := by rw [liveCpu_ok ha', hc]
      have hrow := g.actionTrust
      have hrow' := g'.actionTrust
      rw [hcpu] at hrow
      rw [hcpu'] at hrow'
      rw [scored_ok ha, scored_ok ha']
      constructor
      · intro hsame
        refine ⟨fun hn => absurd (hc.symm.trans hn) (by simp), fun c' hc' => ?_, fun c' hc' p hprop ht hj => ?_⟩
        · rw [hc] at hc'
          cases hc'
          exact hbind
        · rw [hc] at hc'
          cases hc'
          exact hC.1 (hrow.symm.trans (hsame.actionTrust.trans hrow')) p hprop ht hj
      · intro h
        refine ⟨g.trustState.trans g'.trustState.symm, g.diagnoserMode.trans g'.diagnoserMode.symm, ?_,
          g.failureLog.trans g'.failureLog.symm⟩
        exact hrow.trans ((hC.2 (h.judged c hc)).trans hrow'.symm)
    · -- the agent's own call raises: its run dies before it charges anything
      have ha' : s.acts none db e ep = .error (.httpError 500) := by
        have hown' : act s.world db { actRequest (s.diag db ep) predicted e ep.faultClass with actualClass := none } = .ok own :=
          hown
        simp only [Scene.acts, hworth, if_true, hd, hown', hc, Option.all_some, hbind]
        rfl
      refine iff_of_false ?_ fun h => hbind (h.binds c hc)
      intro hsame
      have hlog := hsame.failureLog
      rw [scored_ok ha, scored_error ha', g.failureLog] at hlog
      exact charged_ne hlog

end Runs

/-- A wrong diagnosis leaves the same grades with either agent, exactly where substituting is neutral. -/
theorem neutral_iff (s : Scene) (x : Run) (db : Db) (e : String) (ep : EpisodeRow)
    (hwrong : ∀ predicted, (s.diag db ep).diagnosis = some predicted → diagnosisMatches predicted ep.faultClass = false)
    (h1 : e ∉ db.scores) (h2 : e ∉ db.episodeSnapshots) :
    SameGrades (s.scored (some ep.faultClass) x db e ep) (s.scored none x db e ep) ↔ Neutral s db e ep := by
  by_cases hrep : ∃ predicted own m, (s.diag db ep).diagnosis = some predicted ∧ s.own db e ep predicted = .ok own ∧
      ACTION_MAP.lookup ep.faultClass = some m ∧ Replaces db predicted ep.faultClass own
  · obtain ⟨predicted, own, m, hd, hown, hm, hrep⟩ := hrep
    have hw := hwrong predicted hd
    have hne : predicted ≠ ep.faultClass := ne_of_wrong hw
    rcases told_cases hne hown with ⟨-, hno⟩ | ⟨m', b, hm', -, htold, hfixed⟩
    · exact absurd hrep (hno m hm)
    · obtain rfl : m = m' := Option.some.inj (hm.symm.trans hm')
      rw [replaced_iff hd hw hm hown hrep htold hfixed h1 h2]
      constructor
      · intro h predicted' own' m' hd' hown' hm'
        rw [hd] at hd'
        cases hd'
        rw [hown] at hown'
        cases hown'
        rw [hm] at hm'
        cases hm'
        exact h
      · intro h
        exact h predicted own m hd hown hm
  · -- nothing is replaced: the two agents do the same
    refine iff_of_true (same_of_acts (acts_same hwrong fun predicted own m hd hown hm h => ?_)) ?_
    · exact hrep ⟨predicted, own, m, hd, hown, hm, h⟩
    · intro predicted own m hd hown hm
      have hno : ¬ Replaces db predicted ep.faultClass own := fun h => hrep ⟨predicted, own, m, hd, hown, hm, h⟩
      refine ⟨fun hcall hnone hauth => hno (.inr ⟨hnone, hauth⟩), fun c hc => ?_, fun c hc => ?_⟩
      · exact absurd (.inl (by rw [hc]; rfl)) hno
      · exact absurd (.inl (by rw [hc]; rfl)) hno

/-- `carts` and `catalogue` run as they should, and the LLM has nothing to say. -/
def silent (stub : String) : Scene where
  api := patching
  cluster := {
    deployments := ((∅ : Table Address Deployment).insert ("sock-shop", "carts") ⟨[⟨"carts", none, none⟩], 1, 1, []⟩).insert
      ("sock-shop", "catalogue") ⟨[⟨"catalogue", none, some "200Mi"⟩], 1, 1, []⟩
    running := fun _ => [] }
  replies _ := .failure
  stub := ⟨stub, none, none⟩
  llm := ⟨.llmUnavailable, none, none, none, none, none, none⟩
  toolOutput := none

/-- A restart that was really needed for memory: the grades are those of the restart. -/
theorem neutral_iff_restart :
    SameGrades ((silent "crash-loop").scored (some "oom") (scoring fun _ _ _ => .error (.httpError 500)) (acting "crash-loop")
        "ep-1" killed)
      ((silent "crash-loop").scored none (scoring fun _ _ _ => .error (.httpError 500)) (acting "crash-loop") "ep-1" killed) := by
  apply (neutral_iff (silent "crash-loop") (scoring fun _ _ _ => .error (.httpError 500)) (acting "crash-loop") "ep-1" killed
    ?_ (AList.notMem_empty _) (AList.notMem_empty _)).2
  · intro predicted own m hd hown hm
    cases hd
    have hrestart : (silent "crash-loop").own (acting "crash-loop") "ep-1" killed "crash-loop" =
      .ok (perform (silent "crash-loop").world {} "restart_deployment" (withParams (addressed "catalogue" "sock-shop") [])
        .deterministicProduction) := rfl
    cases hrestart.symm.trans hown
    refine ⟨fun hn => ?_, fun c hc => ?_, fun c hc p hp => ?_⟩
    · cases hn
    · cases hc
      rfl
    · cases hp
  · intro predicted hd
    cases hd
    decide

/-- An unnoticed crash-loop that the safety net fixes costs the agent a failure;
without the net there is none to charge. -/
theorem net_charges :
    diagnosisMatches "no anomaly detected" "crash-loop" = false ∧
    ¬ SameGrades ((silent "no anomaly detected").scored (some "crash-loop") (scoring fun _ _ _ => .error (.httpError 500))
        (acting "crash-loop") "ep-1" crashLoop)
      ((silent "no anomaly detected").scored none (scoring fun _ _ _ => .error (.httpError 500)) (acting "crash-loop")
        "ep-1" crashLoop) := by
  refine ⟨by decide, fun h => ?_⟩
  exact absurd (congrArg List.length h.failureLog) (by decide +kernel)

end Wardence.Substitution
