import Wardence.Magnitudes
/-!
# The decision of the dispatch gate

`dispatch_gate.check` asks for an action map, so `check` has one too; the
agent's own gate is the instance at `ACTION_MAP`. What `check_safe` accepts is
stated by itself, as `SafeFor`, and decides what gets past the gate.
-/
namespace Wardence.Gate

open Keyed Dispatch Magnitudes

/-- Each class's tool and parameters. -/
abbrev ActionMap := List (String × Mapping)

section Decision
variable (actionMap : ActionMap) (liveCpu : String → String → Option ℚ) (predicted actual tool : String) (params : Py.Dict)
  (target ns : String) (toolOutput : Option Py.Dict)

/-- `dispatch_gate.check`, for any action map. -/
def check : Except PyErr GateResult :=
  if predicted = actual then .ok .pass
  else
    match actionMap.lookup actual with
    | none => .ok .pass
    | some m =>
      if tool ≠ m.tool then
        .ok (.substitute m.tool (m.kwargs target ns) (.crossTool predicted tool actual m.tool))
      else do
        let safety ← checkSafe liveCpu tool params actual toolOutput
        if safety.ok then return .pass
        else return .substitute m.tool (m.kwargs target ns) (.unsafeMagnitude tool actual safety)

theorem gateCheck_eq : gateCheck liveCpu predicted actual tool params target ns toolOutput =
    check ACTION_MAP liveCpu predicted actual tool params target ns toolOutput := rfl

/-- `check_safe` finds the parameters unsafe. -/
def Rejects : Prop := ∃ s, checkSafe liveCpu tool params actual toolOutput = .ok s ∧ s.ok = false

/-- The magnitude, where the tool has one, is above what was measured for the class, and at most the cap. -/
structure SafeFor : Prop where
  memory : tool = "patch_memory_limit" → ∃ limit peak v, params.get "limit" = .str limit ∧
    (measured toolOutput "peak_memory_mib").asNum = some peak ∧ toMi (.str limit) = some v ∧
    max peak 200 < v ∧ v ≤ MAX_MEMORY_LIMIT_MI
  cpu : tool = "patch_cpu_limit" → ∃ limit at' current v, params.get "limit" = .str limit ∧
    FAULT_CONFIG.lookup actual = some at' ∧ liveCpu at'.1 at'.2 = some current ∧
    toMillicores (.str limit) = some v ∧ current < v ∧ v ≤ MAX_CPU_LIMIT_M
  replicas : tool = "scale_deployment" → ∃ (n : Int) (current : ℚ), params.get "replicas" = .int n ∧
    (FAULT_CONFIG.lookup actual).isSome = true ∧ (measured toolOutput "current_replicas").asNum = some current ∧
    max current 2 < n ∧ n ≤ MAX_REPLICAS
end Decision

/-! ## What `check_safe` accepts -/

section Safe
variable {liveCpu : String → String → Option ℚ} {actual tool : String} {params : Py.Dict} {toolOutput : Option Py.Dict}

theorem ne_none_of_asNum {v : Py.Val} {q : ℚ} (h : v.asNum = some q) : v ≠ .none := by
  rintro rfl
  cases h

theorem inBounds_of {proposed floor cap : ℚ} (hlow : floor < proposed) (hhigh : proposed ≤ cap) :
    inBounds proposed floor cap = .inRange proposed floor cap := if_pos ⟨hlow, hhigh⟩

theorem checkMemory_of {limit : String} {peak : Py.Val} {p v : ℚ} (hp : peak.asNum = some p) (hv : toMi (.str limit) = some v)
    (hlow : max p 200 < v) (hhigh : v ≤ MAX_MEMORY_LIMIT_MI) : ∃ s, checkMemory (.str limit) peak = .ok s ∧ s.ok = true := by
  refine ⟨.inRange v (max p 200) MAX_MEMORY_LIMIT_MI, ?_, rfl⟩
  simp only [checkMemory, if_neg (ne_none_of_asNum hp), hv, baseline_eq, maxNum, hp, Option.elim_some, ok_bind,
    inBounds_of hlow hhigh]
  rfl

theorem checkCpu_of {limit : String} {at' : String × String} {current v : ℚ} (hc : FAULT_CONFIG.lookup actual = some at')
    (hlive : liveCpu at'.1 at'.2 = some current) (hv : toMillicores (.str limit) = some v) (hlow : current < v)
    (hhigh : v ≤ MAX_CPU_LIMIT_M) : (checkCpu liveCpu (.str limit) actual).ok = true := by
  simp only [checkCpu, hc, hlive, hv, inBounds_of hlow hhigh]
  rfl

theorem checkReplicas_of {n : Int} {current : Py.Val} {p : ℚ} (hc : (FAULT_CONFIG.lookup actual).isSome = true)
    (hp : current.asNum = some p) (hlow : max p 2 < n) (hhigh : n ≤ MAX_REPLICAS) :
    ∃ s, checkReplicas (.int n) current actual = .ok s ∧ s.ok = true := by
  obtain ⟨at', hat⟩ := Option.isSome_iff_exists.1 hc
  have hcap : (n : ℚ) ≤ (MAX_REPLICAS : ℚ) := by exact_mod_cast hhigh
  refine ⟨.inRange n (max p 2) MAX_REPLICAS, ?_, rfl⟩
  have hfloor : maxNum current (some ((UNDER_PROVISIONED_VALIDATED_SAFE_REPLICAS - 1 : Nat) : ℚ)) = .ok (max p 2) := by
    simp [maxNum, hp, UNDER_PROVISIONED_VALIDATED_SAFE_REPLICAS]
  simp only [checkReplicas, hat, if_neg (ne_none_of_asNum hp), hfloor, ok_bind, inBounds_of hlow hcap]
  rfl

theorem configured_of_checkReplicas {replicas current : Py.Val} {s : Safety}
    (h : checkReplicas replicas current actual = .ok s) (hs : s.ok = true) : (FAULT_CONFIG.lookup actual).isSome = true := by
  unfold checkReplicas at h
  split at h
  · cases h; cases hs
  · rename_i hc
    rw [hc]
    rfl

/-- `check_safe` accepts a call exactly when it is safe. -/
theorem checkSafe_ok_iff : (∃ s, checkSafe liveCpu tool params actual toolOutput = .ok s ∧ s.ok = true) ↔
    SafeFor liveCpu actual tool params toolOutput := by
  constructor
  · rintro ⟨s, h, hs⟩
    refine ⟨fun htool => ?_, fun htool => ?_, fun htool => ?_⟩
    · rw [checkSafe, if_pos htool] at h
      exact checkMemory_ok h hs
    · subst htool
      rw [checkSafe, if_neg (by decide), if_pos rfl] at h
      obtain rfl := Except.ok.inj h
      exact checkCpu_within hs
    · subst htool
      rw [checkSafe, if_neg (by decide), if_neg (by decide), if_pos rfl] at h
      obtain ⟨n, p, hn, hp, hlow, hhigh⟩ := checkReplicas_ok h hs
      exact ⟨n, p, hn, configured_of_checkReplicas h hs, hp, hlow, hhigh⟩
  · intro h
    unfold checkSafe
    split
    · rename_i htool
      obtain ⟨limit, p, v, hl, hp, hv, hlow, hhigh⟩ := h.memory htool
      rw [hl]
      exact checkMemory_of hp hv hlow hhigh
    · split
      · rename_i htool
        obtain ⟨limit, at', current, v, hl, hc, hlive, hv, hlow, hhigh⟩ := h.cpu htool
        rw [hl]
        exact ⟨_, rfl, checkCpu_of hc hlive hv hlow hhigh⟩
      · split
        · rename_i htool
          obtain ⟨n, p, hn, hc, hp, hlow, hhigh⟩ := h.replicas htool
          rw [hn]
          exact checkReplicas_of hc hp hlow hhigh
        · exact ⟨.trivial, rfl, rfl⟩
end Safe

/-! ## The gate -/

section Gate
variable {actionMap : ActionMap} {liveCpu : String → String → Option ℚ} {predicted actual tool : String}
  {params : Py.Dict} {target ns : String} {toolOutput : Option Py.Dict}

/-- The gate substitutes only the true class's own fix. -/
theorem substitute_fix {tool' : String} {params' : Py.Dict} {reason : GateReason}
    (h : check actionMap liveCpu predicted actual tool params target ns toolOutput = .ok (.substitute tool' params' reason)) :
    predicted ≠ actual ∧ ∃ m, actionMap.lookup actual = some m ∧ tool' = m.tool ∧ params' = m.kwargs target ns ∧
      (tool ≠ m.tool ∨ Rejects liveCpu actual tool params toolOutput) := by
  unfold check at h
  split at h
  · cases h
  · rename_i hne
    refine ⟨hne, ?_⟩
    split at h
    · cases h
    · rename_i m hm
      refine ⟨m, hm, ?_⟩
      split at h
      · rename_i htool
        cases h
        exact ⟨rfl, rfl, .inl htool⟩
      · obtain ⟨s, hs, h⟩ := Py.ok_of_bind h
        split at h
        · cases h
        · rename_i hok
          cases h
          exact ⟨rfl, rfl, .inr ⟨s, hs, by simpa using hok⟩⟩

/-- Past the gate, a wrong class's call is of the true class's tool, and safe. -/
theorem pass_safe {m : Mapping} (hne : predicted ≠ actual) (hm : actionMap.lookup actual = some m)
    (h : check actionMap liveCpu predicted actual tool params target ns toolOutput = .ok .pass) :
    tool = m.tool ∧ SafeFor liveCpu actual tool params toolOutput := by
  simp only [check, if_neg hne, hm] at h
  split at h
  · cases h
  · rename_i htool
    obtain ⟨s, hs, h⟩ := Py.ok_of_bind h
    split at h
    · rename_i hok
      exact ⟨not_not.1 htool, checkSafe_ok_iff.1 ⟨s, hs, hok⟩⟩
    · cases h

theorem check_substitutes {m : Mapping} (target ns : String) (hne : predicted ≠ actual) (hm : actionMap.lookup actual = some m)
    (h : tool ≠ m.tool ∨ Rejects liveCpu actual tool params toolOutput) :
    ∃ reason, check actionMap liveCpu predicted actual tool params target ns toolOutput =
      .ok (.substitute m.tool (m.kwargs target ns) reason) := by
  simp only [check, if_neg hne, hm]
  by_cases htool : tool = m.tool
  · obtain ⟨s, hs, hok⟩ := h.resolve_left (not_not.2 htool)
    rw [if_neg (not_not.2 htool), hs]
    exact ⟨.unsafeMagnitude tool actual s, by simp only [ok_bind, hok, Bool.false_eq_true, if_false]; rfl⟩
  · exact ⟨_, if_pos htool⟩
end Gate

/-! ## The dispatch -/

/-- `_dispatch_with_gate`, for any action map. It gives `none` where `ALLOWED_ACTIONS` has no function of that name,
which raises; a substitution is logged by then. -/
def dispatch (actionMap : ActionMap) (w : World) (req : ActRequest) (response : ActResponse) (tool : String) (params : Py.Dict)
    (source : Source) : Except PyErr (Option Acted) := do
  let own := if tool ∈ ALLOWED_ACTIONS then some (perform w response tool params source) else none
  match req.actualClass with
  | none => return own
  | some actual =>
    match ← check actionMap w.liveCpu req.predicted actual tool params req.target req.ns req.toolOutput with
    | .pass => return own
    | .substitute tool' params' reason =>
      if tool' ∈ ALLOWED_ACTIONS then
        let done := perform w response tool' params' .gateSubstituted
        return some { done with
          response := { done.response with
            gateSubstitution := some ⟨req.predicted, actual, some tool, some params, tool', params', reason⟩ }
          intervention := some ⟨req.episodeId, req.predicted, actual, tool, tool', reason⟩ }
      else return none

theorem action_map_allowed {c : String} {m : Mapping} (h : ACTION_MAP.lookup c = some m) : m.tool ∈ ALLOWED_ACTIONS := by
  have hall : ∀ t ∈ ACTION_MAP.map fun r => r.2.tool, t ∈ ALLOWED_ACTIONS := by decide
  exact hall _ (List.mem_map_of_mem (f := fun r => r.2.tool) (mem_of_lookup h))

/-- The agent's own dispatch is the one for `ACTION_MAP`. -/
theorem dispatch_action_map (w : World) (req : ActRequest) (resp : ActResponse) {tool : String} (ht : tool ∈ ALLOWED_ACTIONS)
    (params : Py.Dict) (source : Source) :
    dispatch ACTION_MAP w req resp tool params source = some <$> dispatchWithGate w req resp tool params source := by
  simp only [dispatch, dispatchWithGate, if_pos ht]
  cases req.actualClass with
  | none => rfl
  | some actual =>
    simp only [gateCheck_eq]
    cases h : check ACTION_MAP w.liveCpu req.predicted actual tool params req.target req.ns req.toolOutput with
    | error e => rfl
    | ok g =>
      cases g with
      | pass => rfl
      | substitute tool' params' reason =>
        obtain ⟨-, m, hm, rfl, -⟩ := substitute_fix h
        simp only [ok_bind, if_pos (action_map_allowed hm)]
        rfl

/-- The call is of the class's own tool, with its own parameters or with safe ones. -/
def Suits (w : World) (req : ActRequest) (actual : String) (m : Mapping) (call : Call) : Prop :=
  call.tool = m.tool ∧
    (call.params = m.kwargs req.target req.ns ∨ SafeFor w.liveCpu actual call.tool call.params req.toolOutput)

theorem dispatch_suits {actionMap : ActionMap} {w : World} {req : ActRequest} {resp : ActResponse} {tool : String}
    {params : Py.Dict} {source : Source} {actual : String} {m : Mapping} {a : Acted} (hact : req.actualClass = some actual)
    (hne : req.predicted ≠ actual) (hm : actionMap.lookup actual = some m)
    (h : dispatch actionMap w req resp tool params source = .ok (some a)) :
    ∃ call, a.call = some call ∧ Suits w req actual m call := by
  simp only [dispatch, hact] at h
  obtain ⟨g, hg, h⟩ := Py.ok_of_bind h
  cases g with
  | pass =>
    obtain ⟨htool, hsafe⟩ := pass_safe hne hm hg
    by_cases ht : tool ∈ ALLOWED_ACTIONS
    · simp only [if_pos ht] at h
      obtain rfl := Option.some.inj (Except.ok.inj h)
      exact ⟨⟨tool, params⟩, rfl, htool, .inr hsafe⟩
    · simp only [if_neg ht] at h
      cases h
  | substitute tool' params' reason =>
    obtain ⟨-, m', hm', rfl, rfl, -⟩ := substitute_fix hg
    obtain rfl := Option.some.inj (hm.symm.trans hm')
    by_cases ht : m.tool ∈ ALLOWED_ACTIONS
    · simp only [if_pos ht] at h
      obtain rfl := Option.some.inj (Except.ok.inj h)
      exact ⟨⟨m.tool, m.kwargs req.target req.ns⟩, rfl, rfl, .inl rfl⟩
    · simp only [if_neg ht] at h
      cases h

/-- Whatever `/act` calls, the safety net or the gate has let it call. -/
theorem act_gated {w : World} {db : Db} {req : ActRequest} {a : Acted} {call : Call} (h : act w db req = .ok a)
    (hc : a.call = some call) : (∃ actual, req.actualClass = some actual ∧ Fixes req actual call) ∨
      ∃ resp tool params source, tool ∈ ALLOWED_ACTIONS ∧ dispatchWithGate w req resp tool params source = .ok a := by
  unfold act at h
  obtain ⟨proposal, -, h⟩ := Py.ok_of_bind h
  simp only at h
  split at h
  · obtain rfl := Except.ok.inj h
    obtain ⟨actual, hact, -, hfix, -⟩ := safetyNet_fix hc
    exact .inl ⟨actual, hact, hfix⟩
  · rename_i m hm
    split at h
    · obtain rfl := Except.ok.inj h; cases hc
    · obtain ⟨choice, hch, h⟩ := Py.ok_of_bind h
      cases choice with
      | none => exact .inr ⟨_, _, _, _, action_map_allowed hm, h⟩
      | some c =>
        obtain ⟨tool, params, source⟩ := c
        obtain ⟨p, rfl, -⟩ := llmChoice_source hch
        refine .inr ⟨_, _, _, _, ?_, h⟩
        rw [(llmChoice_ok hch).2.2.1]
        exact action_map_allowed hm

/-! ## The decision and its consequence -/

/-- When the gate substitutes, for every action map; and that, whatever map it has, a wrong diagnosis of a class in the
map leaves only that class's own tool to be called, with its own parameters or with safe ones. So it is for `/act`. -/
theorem gate_decision :
    (∀ (actionMap : ActionMap) (liveCpu : String → String → Option ℚ) (predicted actual tool : String) (params : Py.Dict)
      (target ns : String) (toolOutput : Option Py.Dict),
      (∃ tool' params' reason, check actionMap liveCpu predicted actual tool params target ns toolOutput =
        .ok (.substitute tool' params' reason)) ↔
      predicted ≠ actual ∧ ∃ m, actionMap.lookup actual = some m ∧
        (tool ≠ m.tool ∨ Rejects liveCpu actual tool params toolOutput)) ∧
    (∀ (actionMap : ActionMap) (w : World) (req : ActRequest) (resp : ActResponse) (tool : String) (params : Py.Dict)
      (source : Source) (actual : String) (m : Mapping) (a : Acted), req.actualClass = some actual → req.predicted ≠ actual →
      actionMap.lookup actual = some m → dispatch actionMap w req resp tool params source = .ok (some a) →
      ∃ call, a.call = some call ∧ Suits w req actual m call) ∧
    (∀ (w : World) (db : Db) (req : ActRequest) (actual : String) (m : Mapping) (a : Acted) (call : Call),
      req.actualClass = some actual → req.predicted ≠ actual → ACTION_MAP.lookup actual = some m →
      act w db req = .ok a → a.call = some call → Suits w req actual m call) := by
  refine ⟨fun actionMap liveCpu predicted actual tool params target ns toolOutput => ⟨?_, ?_⟩, ?_, ?_⟩
  · rintro ⟨tool', params', reason, h⟩
    obtain ⟨hne, m, hm, -, -, hwhy⟩ := substitute_fix h
    exact ⟨hne, m, hm, hwhy⟩
  · rintro ⟨hne, m, hm, hwhy⟩
    obtain ⟨reason, h⟩ := check_substitutes target ns hne hm hwhy
    exact ⟨_, _, reason, h⟩
  · intro actionMap w req resp tool params source actual m a hact hne hm h
    exact dispatch_suits hact hne hm h
  · intro w db req actual m a call hact hne hm h hc
    rcases act_gated h hc with ⟨actual', hact', m', hm', rfl⟩ | ⟨resp, tool, params, source, ht, hd⟩
    · obtain rfl := Option.some.inj (hact.symm.trans hact')
      obtain rfl := Option.some.inj (hm.symm.trans hm')
      exact ⟨rfl, .inl rfl⟩
    · have hd' : dispatch ACTION_MAP w req resp tool params source = .ok (some a) := by
        rw [dispatch_action_map w req resp ht, hd]
        rfl
      obtain ⟨call', hcall', hsuits⟩ := dispatch_suits hact hne hm hd'
      obtain rfl := Option.some.inj (hc.symm.trans hcall')
      exact hsuits

/-- A second class whose fix raises the memory limit. -/
def twins : ActionMap := [mapping "oom" "patch_memory_limit", ("oom-twin", (mapping "oom" "patch_memory_limit").2)]

/-- The fault is the twin's, and the limit proposed for the other class is safe for it too. -/
theorem gate_decision_twins :
    (∃ a call, dispatch twins (replying .failure) { outOfMemory with actualClass := some "oom-twin" } {} "patch_memory_limit"
        (Py.Dict.set ∅ "limit" (.str "450Mi")) .llmPrimaryRetry = .ok (some a) ∧ a.call = some call ∧
      Suits (replying .failure) { outOfMemory with actualClass := some "oom-twin" } "oom-twin"
        (mapping "oom" "patch_memory_limit").2 call) ∧
    ∃ a call, act (replying .failure) (acting "crash-loop") (misdiagnosed "oom") = .ok a ∧ a.call = some call ∧
      Suits (replying .failure) (misdiagnosed "oom") "oom" (mapping "oom" "patch_memory_limit").2 call := by
  refine ⟨?_, _, _, rfl, rfl, gate_decision.2.2 (replying .failure) (acting "crash-loop") (misdiagnosed "oom") "oom" _ _ _ rfl
    (by decide) rfl rfl rfl⟩
  have hrun : ((dispatch twins (replying .failure) { outOfMemory with actualClass := some "oom-twin" } {} "patch_memory_limit"
      (Py.Dict.set ∅ "limit" (.str "450Mi")) .llmPrimaryRetry).toOption.bind id).isSome = true := by decide +kernel
  cases h : dispatch twins (replying .failure) { outOfMemory with actualClass := some "oom-twin" } {} "patch_memory_limit"
      (Py.Dict.set ∅ "limit" (.str "450Mi")) .llmPrimaryRetry with
  | error e => rw [h] at hrun; cases hrun
  | ok r =>
    rw [h] at hrun
    obtain ⟨a, rfl⟩ := Option.isSome_iff_exists.1 hrun
    obtain ⟨call, hcall, hsuits⟩ := gate_decision.2.1 _ _ _ _ _ _ _ _ _ _ rfl (by decide) rfl h
    exact ⟨a, call, rfl, hcall, hsuits⟩

end Wardence.Gate
