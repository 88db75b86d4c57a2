import Wardence.Cluster
import Wardence.Credit
/-!
# The verdict on a proposal, after the dispatch

The scorer judges the LLM's proposal after `/act` has dispatched something. The
memory and the replica bounds come from the diagnosis and do not move; the CPU
bound is read live. `verdict_blind_iff` says exactly when two dispatches in one
episode leave the same verdict.
-/
namespace Wardence.Verdict

open Keyed Txn Client Dispatch Credit

/-- The `action_ok` of `record_llm_trust`, where it gets that far. -/
def verdict (liveCpu : String → String → Option ℚ) (actual : String) (p : Proposal) (toolOutput : Option Py.Dict) :
    Option (Except PyErr Bool) := do
  let tool ← p.toolName
  let fix ← DETERMINISTIC_ACTION_MAP.lookup actual
  return actionIsCorrect liveCpu actual tool (p.params.getD ∅) fix.tool toolOutput

/-- What `record_llm_trust` does with the verdict. -/
def recordVerdict (e : String) (ep : EpisodeRow) (p : Proposal) : Option (Except PyErr Bool) → Prog Unit
  | none => pure ()
  | some v => do
    logProposal e ep p (p.toolName.getD "")
    match v with
    | .error err => throw err
    | .ok correct =>
      if eligibleActionForStreak p.tier then do
        let _ ← recordActionOutcome ep.faultClass correct (some e)
      else pure ()

/-- Dimension C is recorded on the verdict, and on nothing else that is read live. -/
theorem recordDimensionC_eq (x : Run) (e : String) (ep : EpisodeRow) (r : Result) : recordDimensionC x e ep r =
    r.act.llmActionProposal.elim (pure ()) fun p =>
      recordVerdict e ep p (verdict x.liveCpu ep.faultClass p r.diag.toolOutput) := by
  unfold recordDimensionC verdict
  cases r.act.llmActionProposal with
  | none => rfl
  | some p =>
    cases htool : p.toolName with
    | none => simp [htool, recordVerdict]
    | some tool =>
      cases hfix : DETERMINISTIC_ACTION_MAP.lookup ep.faultClass with
      | none => simp [htool, recordVerdict]
      | some fix =>
        simp only [htool, recordVerdict, Option.elim_some, Option.bind_eq_bind, Option.bind_some, Option.getD_some]
        rfl

/-- The live CPU limit of `user` is known and below `q` millicores. -/
def Below (k : Cluster) (q : ℚ) : Prop := ∃ current, k.liveCpu "user" "sock-shop" = some current ∧ current < q

/-- A limit within the cap is above the live one of one cluster, and not of the other. -/
def Straddles (limit : Py.Val) (k₁ k₂ : Cluster) : Prop :=
  ∃ q, toMillicores limit = some q ∧ q ≤ MAX_CPU_LIMIT_M ∧ ¬ (Below k₁ q ↔ Below k₂ q)

/-- The proposal's CPU limit is up for judgement. -/
def JudgesCpu (actual : String) (p : Proposal) : Prop :=
  actual = "cpu-throttling" ∧ p.toolName = some "patch_cpu_limit"

theorem checkCpu_ok (k : Cluster) (limit : Py.Val) : (checkCpu k.liveCpu limit "cpu-throttling").ok = true ↔
    ∃ q, toMillicores limit = some q ∧ q ≤ MAX_CPU_LIMIT_M ∧ Below k q := by
  have hconfig : FAULT_CONFIG.lookup "cpu-throttling" = some ("user", "sock-shop") := by decide
  simp only [checkCpu, hconfig, Below]
  cases k.liveCpu "user" "sock-shop" with
  | none => simp [Safety.ok]
  | some current =>
    cases toMillicores limit with
    | none => simp [Safety.ok]
    | some q =>
      by_cases h : current < q ∧ q ≤ MAX_CPU_LIMIT_M
      · simp [inBounds, h, Safety.ok]
      · simp only [inBounds, if_neg h, Safety.ok, Option.some.injEq, exists_eq_left', Bool.false_eq_true, false_iff]
        exact fun h' => h h'.symm

/-- A verdict on a CPU limit is whether it is above the live one and within the cap. -/
theorem verdict_cpu {p : Proposal} (hp : p.toolName = some "patch_cpu_limit") (k : Cluster) (toolOutput : Option Py.Dict) :
    verdict k.liveCpu "cpu-throttling" p toolOutput =
      some (.ok (checkCpu k.liveCpu ((p.params.getD ∅).get "limit") "cpu-throttling").ok) := by
  simp only [verdict, hp]
  rfl

/-- Where no CPU limit is up for judgement, the live read is not looked at. -/
theorem verdict_other {actual : String} {p : Proposal} (h : ¬ JudgesCpu actual p) (liveCpu liveCpu' : String → String → Option ℚ)
    (toolOutput : Option Py.Dict) : verdict liveCpu actual p toolOutput = verdict liveCpu' actual p toolOutput := by
  unfold verdict
  cases hp : p.toolName with
  | none => rfl
  | some tool =>
    cases hfix : DETERMINISTIC_ACTION_MAP.lookup actual with
    | none => rfl
    | some fix =>
      simp only [Option.bind_eq_bind, Option.bind_some]
      unfold actionIsCorrect
      split
      · rfl
      · rename_i htool
        split
        · rfl
        · have hne : tool ≠ "patch_cpu_limit" := by
            rintro rfl
            have hcpu : ∃ own, DETERMINISTIC_ACTION_MAP.lookup "cpu-throttling" = some own ∧ own.tool = "patch_cpu_limit" :=
              ⟨_, rfl, rfl⟩
            obtain ⟨own, hown, ht⟩ := hcpu
            exact h ⟨tool_injective hfix hown ((not_not.1 htool).symm.trans ht.symm), hp⟩
          simp only [checkSafe, if_neg hne]

/-- Two clusters give a proposal the same verdict, unless its CPU limit lies
between the live limits they show. -/
theorem verdict_same_iff (k₁ k₂ : Cluster) (actual : String) (p : Proposal) (toolOutput : Option Py.Dict) :
    verdict k₁.liveCpu actual p toolOutput = verdict k₂.liveCpu actual p toolOutput ↔
    (JudgesCpu actual p → ¬ Straddles ((p.params.getD ∅).get "limit") k₁ k₂) := by
  by_cases h : JudgesCpu actual p
  · obtain ⟨rfl, hp⟩ := id h
    rw [verdict_cpu hp, verdict_cpu hp, Option.some.injEq, Except.ok.injEq, Bool.eq_iff_iff, checkCpu_ok, checkCpu_ok]
    unfold Straddles
    cases toMillicores ((p.params.getD ∅).get "limit") with
    | none => simp
    | some q => simp only [Option.some.injEq, exists_eq_left', h, forall_true_left]; tauto
  · exact iff_of_true (verdict_other h _ _ toolOutput) (fun hj => absurd hj h)

/-- An API server that has no pod to resize and takes everything else. -/
def patching : Api := ⟨fun _ => true, id, fun _ _ => true⟩

/-- `user` at its 300m, with no pod running. -/
def throttled : Cluster where
  deployments := (∅ : Table Address Deployment).insert ("sock-shop", "user") ⟨[⟨"user", some "300m", none⟩], 1, 1, []⟩
  running _ := []

/-- The LLM would have 500m. -/
def halfCore : Reply :=
  .call (.str "patch_cpu_limit")
    (.dict (((Py.Dict.set ∅ "name" (.str "user")).set "container" (.str "user")).set "limit" (.str "500m")))

def throttling : ActRequest :=
  ⟨"user", "sock-shop", "cpu-throttling", .stub, some "gemini", some "gemini-3-flash-preview", some "cpu-throttling", none,
    none, some "cpu-throttling"⟩

/-- `c` may act, but for a hold. -/
def held (c : String) : Db :=
  { acting c with safetyHold := (∅ : Table String HoldRow).insert c ⟨true, none, some 0⟩ }

/-- The agent on that cluster. -/
def agent : World := patching.world throttled fun _ => halfCore

/-- What `/act` dispatches, and the verdict afterwards on the proposal it made. -/
def dispatchedAndJudged (db : Db) : Option (Option String × Option Bool) := do
  let a ← (act agent db throttling).toOption
  let p ← a.response.llmActionProposal
  let v ← verdict (throttled.after patching a.call).liveCpu "cpu-throttling" p none
  return (a.call.map (·.tool), v.toOption)

end Wardence.Verdict
