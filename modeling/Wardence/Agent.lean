import Wardence.Breaker
import Wardence.Proposer
/-!
# The agent

From `p3_agent.py`, with `dispatch_gate.py`: which diagnosis drives production,
and what `/act` dispatches for it. Both endpoints read the database and leave
these tables alone, so they are functions of what they read. The model's
replies, the live reads and the actions' results are the `World`'s.
-/
namespace Wardence

open Keyed

/-- What an action function reports. -/
structure ActionResult where
  applied : Bool
  deriving DecidableEq, Repr

/-- What is outside the code. -/
structure World where
  replies : Nat → Reply
  liveCpu : String → String → Option ℚ
  perform : String → Py.Dict → ActionResult

/-! ## Production's own fixes -/

def FIX_PARAMS : List (String × List (String × Py.Val)) :=
  [("oom", [("container", .str "catalogue"), ("limit", .str "400Mi")]), ("disk-full", [("replicas", .int 1)]),
    ("cpu-throttling", [("container", .str "user"), ("limit", .str "600m")]),
    ("under-provisioned-replicas", [("replicas", .int 3)]), ("bad-rollout", [])]

/-- An entry of `ACTION_MAP`: the class whose trust it needs, and its fix. -/
structure Mapping where
  faultClass : String
  tool : String
  kwargs : String → String → Py.Dict

/-- The entry of class `c`, whose arguments are its `FIX_PARAMS` on top of the address. -/
def mapping (c tool : String) : String × Mapping :=
  (c, ⟨c, tool, fun t n => withParams (addressed t n) ((FIX_PARAMS.lookup c).getD [])⟩)

def ACTION_MAP : List (String × Mapping) :=
  [mapping "crash-loop" "restart_deployment", mapping "oom" "patch_memory_limit",
    mapping "disk-full" "restore_from_disk_full", mapping "cpu-throttling" "patch_cpu_limit",
    mapping "under-provisioned-replicas" "scale_deployment", mapping "bad-rollout" "rollback_deployment"]

/-! ## Diagnosis -/

inductive LlmStatus where
  | diagnosed
  | maxTurnsExceeded
  | invalidToolName
  | llmUnavailable
  deriving DecidableEq, Repr

/-- The background diagnosis. -/
structure LlmResult where
  status : LlmStatus
  llmDiagnosis : Option String
  llmConfidence : Option ℚ
  llmReasoning : Option String
  provider : Option String
  model : Option String
  tier : Option Tier

/-- The rule-based diagnosis, its fallbacks included. -/
structure StubResult where
  diagnosis : String
  confidence : Option ℚ
  reasoning : Option String

/-- The class the ladders know a diagnosis by. -/
def normalizePredictedClass (predicted : String) : Option String :=
  if predicted = "no anomaly detected" then some "none"
  else if predicted = "log-anomaly detected (unclassified)" then none
  else some predicted

structure DiagnoseResponse where
  target : String
  ns : String
  toolOutput : Option Py.Dict
  diagnosis : Option String
  confidence : Option ℚ
  reasoning : Option String
  trustState : Option (Rung TrustLevel)
  eligibleForAction : Bool
  diagnoserModeUsed : DiagMode
  stubResult : StubResult
  llmResult : LlmResult

/-- The mode `/diagnose` reads: that of the stub's class. -/
def readMode (db : Db) (stub : StubResult) : DiagMode :=
  match normalizePredictedClass stub.diagnosis with
  | some c => (db.diag c).state
  | none => .stub

/-- `/diagnose`, given the two diagnoses and what the diagnosis measured. -/
def diagnose (db : Db) (target ns : String) (toolOutput : Option Py.Dict) (stub : StubResult) (llm : LlmResult) :
    DiagnoseResponse :=
  let used := if readMode db stub = .llm ∧ llm.status = .diagnosed then DiagMode.llm else .stub
  let production : Option String × Option ℚ × Option String :=
    match used with
    | .llm => (llm.llmDiagnosis, llm.llmConfidence, llm.llmReasoning)
    | .stub => (some stub.diagnosis, stub.confidence, stub.reasoning)
  let found := production.1.bind fun c => ACTION_MAP.lookup c
  { target, ns, toolOutput
    diagnosis := production.1
    confidence := production.2.1
    reasoning := production.2.2
    trustState := found.map fun m => db.trust m.faultClass
    eligibleForAction := found.any fun m => (db.trust m.faultClass).state = .canAct ∧ (db.hold m.faultClass).active = false
    diagnoserModeUsed := used
    stubResult := stub
    llmResult := llm }

/-! ## The dispatch gate -/

inductive GateReason where
  | crossTool (predictedClass proposedTool actualClass actualTool : String)
  | unsafeMagnitude (tool actualClass : String) (safety : Safety)
  | groundTruthSafetyNet (predictedClass actualClass : String)

inductive GateResult where
  | pass
  | substitute (tool : String) (params : Py.Dict) (reason : GateReason)

/-- `dispatch_gate.check`. -/
def gateCheck (liveCpu : String → String → Option ℚ) (predictedClass actualClass tool : String) (params : Py.Dict)
    (target ns : String) (toolOutput : Option Py.Dict) : Except PyErr GateResult :=
  if predictedClass = actualClass then .ok .pass
  else
    match ACTION_MAP.lookup actualClass with
    | none => .ok .pass
    | some m =>
      if tool ≠ m.tool then
        .ok (.substitute m.tool (m.kwargs target ns) (.crossTool predictedClass tool actualClass m.tool))
      else do
        let safety ← checkSafe liveCpu tool params actualClass toolOutput
        if safety.ok then return .pass
        else return .substitute m.tool (m.kwargs target ns) (.unsafeMagnitude tool actualClass safety)

/-- A row of `gate_intervention_log`. -/
structure InterventionRow where
  episodeId : Option String
  predictedClass : String
  actualClass : String
  proposedTool : String
  substitutedTool : String
  reason : GateReason

/-! ## Action -/

structure ActRequest where
  target : String
  ns : String
  predicted : String
  diagnoserModeUsed : DiagMode
  llmProvider : Option String
  llmModel : Option String
  llmDiagnosis : Option String
  toolOutput : Option Py.Dict
  episodeId : Option String
  actualClass : Option String

structure GateSubstitution where
  predictedClass : String
  actualClass : String
  proposedTool : Option String
  proposedParams : Option Py.Dict
  substitutedTool : String
  substitutedParams : Py.Dict
  reason : GateReason

structure ActResponse where
  actionTaken : Option String := none
  actionResult : Option ActionResult := none
  actionSource : Option Source := none
  llmActionProposal : Option Proposal := none
  gateSubstitution : Option GateSubstitution := none

/-- A call of an action function, with its keyword arguments. -/
structure Call where
  tool : String
  params : Py.Dict

/-- The namespace the call's function sees. -/
def Call.ns (c : Call) : Py.Val := (c.params.lookup "namespace").getD (.str DEFAULT_NAMESPACE)

/-- The response of `/act`, the call it made and the intervention it logged. -/
structure Acted where
  response : ActResponse
  call : Option Call := none
  intervention : Option InterventionRow := none

/-- Calls an action function and reports it. -/
def perform (w : World) (response : ActResponse) (tool : String) (params : Py.Dict) (source : Source) :
    Acted :=
  { response := { response with
      actionTaken := some tool
      actionResult := some (w.perform tool params)
      actionSource := some source }
    call := some ⟨tool, params⟩ }

/-- `_dispatch_with_gate`. -/
def dispatchWithGate (w : World) (req : ActRequest) (response : ActResponse) (tool : String)
    (params : Py.Dict) (source : Source) : Except PyErr Acted :=
  match req.actualClass with
  | none => .ok (perform w response tool params source)
  | some actual => do
    match ← gateCheck w.liveCpu req.predicted actual tool params req.target req.ns req.toolOutput with
    | .pass => return perform w response tool params source
    | .substitute tool' params' reason =>
      let done := perform w response tool' params' .gateSubstituted
      return { done with
        response := { done.response with
          gateSubstitution := some ⟨req.predicted, actual, some tool, some params, tool', params', reason⟩ }
        intervention := some ⟨req.episodeId, req.predicted, actual, tool, tool', reason⟩ }

/-- The background proposal: for the LLM's own diagnosis, once its class can act. -/
def backgroundProposal (w : World) (db : Db) (req : ActRequest) : Except PyErr (Option Proposal) :=
  match req.llmDiagnosis with
  | none => .ok none
  | some c =>
    if (DETERMINISTIC_ACTION_MAP.lookup c).isSome ∧ (db.trust c).state = .canAct then
      some <$> proposeAction w.replies c req.target req.ns req.llmProvider req.llmModel
    else .ok none

/-- The fix of the ground truth, when the diagnosis maps to no action. -/
def safetyNet (w : World) (db : Db) (req : ActRequest) (response : ActResponse) : Acted :=
  match req.actualClass.filter (· ≠ req.predicted) with
  | none => { response }
  | some actual =>
    match ACTION_MAP.lookup actual with
    | none => { response }
    | some m =>
      if (db.trust m.faultClass).state = .canAct ∧ (db.hold m.faultClass).active = false then
        let params := m.kwargs req.target req.ns
        let reason := GateReason.groundTruthSafetyNet req.predicted actual
        let done := perform w response m.tool params .groundTruthSafetyNet
        { done with
          response := { done.response with
            gateSubstitution := some ⟨req.predicted, actual, none, none, m.tool, params, reason⟩ }
          intervention := some ⟨req.episodeId, req.predicted, actual, "none", m.tool, reason⟩ }
      else { response }

/-- The LLM's own tool and parameters, when `/act` is to dispatch them. -/
def llmChoice (w : World) (db : Db) (req : ActRequest) (m : Mapping) (proposal : Option Proposal) :
    Except PyErr (Option (String × Py.Dict × Source)) :=
  match proposal with
  | some ⟨source, _, some tool, some params, _, _, _⟩ =>
    if req.diagnoserModeUsed = .llm ∧ (db.action m.faultClass).state = .llmCanAct ∧ tool = m.tool then do
      let safety ← checkSafe w.liveCpu tool params req.predicted req.toolOutput
      return if safety.ok then some (tool, params, source) else none
    else .ok none
  | _ => .ok none

/-- `/act`. -/
def act (w : World) (db : Db) (req : ActRequest) : Except PyErr Acted := do
  let proposal ← backgroundProposal w db req
  let response : ActResponse := { llmActionProposal := proposal }
  match ACTION_MAP.lookup req.predicted with
  | none => return safetyNet w db req response
  | some m =>
    if (db.trust m.faultClass).state ≠ .canAct ∨ (db.hold m.faultClass).active = true then return { response }
    else
      match ← llmChoice w db req m proposal with
      | some (tool, params, source) => dispatchWithGate w req response tool params source
      | none => dispatchWithGate w req response m.tool (m.kwargs req.target req.ns) .deterministicProduction

end Wardence
