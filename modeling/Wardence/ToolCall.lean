import Wardence.Schema
/-!
# The tool-call validator

From `tool_call_validator.py`, with the allowlist of `actions.py`: what an
LLM's tool call must look like before anything may dispatch it.
-/
namespace Wardence

open Keyed

def DEFAULT_NAMESPACE : String := "sock-shop"

/-- The cage's allowlist. -/
def ALLOWED_ACTIONS : List String :=
  ["restart_deployment", "patch_memory_limit", "patch_cpu_limit", "scale_deployment", "rollback_deployment",
    "restore_from_disk_full"]

def MAX_REPLICAS : Nat := 20
def MAX_MEMORY_LIMIT_MI : Nat := 2048
def MAX_CPU_LIMIT_M : Nat := 2000

/-! ## Quantities -/

/-- Mebibytes in one of each memory unit. -/
def MI_FACTORS : List (String × ℚ) :=
  [("", 1 / (1024 * 1024)), ("Ki", 1 / 1024), ("Mi", 1), ("Gi", 1024), ("Ti", 1024 * 1024)]

/-- `_to_mi`: a Kubernetes memory quantity in mebibytes. -/
def toMi (v : Py.Val) : Option ℚ := do
  let (n, unit) ← Py.matchQuantity ["Ki", "Mi", "Gi", "Ti"] (← v.asStr)
  return Py.mulDouble n (← MI_FACTORS.lookup unit)

/-- `_to_millicores`. -/
def toMillicores (v : Py.Val) : Option ℚ := do
  let (n, unit) ← Py.matchQuantity ["m"] (← v.asStr)
  return Py.mulDouble n (if unit = "m" then 1 else 1000)

def isValidMemoryQuantity (v : Py.Val) : Bool :=
  match toMi v with
  | some mi => 0 < mi && mi ≤ MAX_MEMORY_LIMIT_MI
  | none => false

def isValidCpuQuantity (v : Py.Val) : Bool :=
  match toMillicores v with
  | some m => 0 < m && m ≤ MAX_CPU_LIMIT_M
  | none => false

def isValidReplicas : Py.Val → Bool
  | .int n => 0 ≤ n && n ≤ MAX_REPLICAS
  | _ => false

def isNonemptyStr : Py.Val → Bool
  | .str s => 0 < (Py.strip s).length
  | _ => false

/-! ## Tool calls -/

/-- Each tool's required parameters, and the check on each. -/
def TOOL_SCHEMAS : List (String × List (String × (Py.Val → Bool))) :=
  [("restart_deployment", [("name", isNonemptyStr)]),
    ("patch_memory_limit", [("name", isNonemptyStr), ("container", isNonemptyStr), ("limit", isValidMemoryQuantity)]),
    ("patch_cpu_limit", [("name", isNonemptyStr), ("container", isNonemptyStr), ("limit", isValidCpuQuantity)]),
    ("scale_deployment", [("name", isNonemptyStr), ("replicas", isValidReplicas)]),
    ("rollback_deployment", [("name", isNonemptyStr)]),
    ("restore_from_disk_full", [("name", isNonemptyStr)])]

/-- The `params` of a reply: an object, or any other JSON value. -/
inductive Params where
  | dict (d : Py.Dict)
  | other (v : Py.Val)

/-- Why a tool call is rejected. -/
inductive Reject where
  | notAllowed (tool : Py.Val)
  | notADict (params : Py.Val)
  | wrongNamespace (ns : Py.Val)
  | missing (tool param : String)
  | failed (tool param : String) (v : Py.Val)
  | unexpected (tool : String) (params : List String)
  | toolMismatch (faultClass expected tool : String)
  deriving DecidableEq

/-- The loop over a tool's schema: the first parameter that is missing or fails its check. -/
def checkSchema (tool : String) (d : Py.Dict) : List (String × (Py.Val → Bool)) → Option Reject
  | [] => none
  | (param, validator) :: rest =>
    match d.lookup param with
    | none => some (.missing tool param)
    | some v => if validator v then checkSchema tool d rest else some (.failed tool param v)

/-- The checks after the allowlist; `none` accepts. -/
def validateParams (tool : String) : Params → Option Reject
  | .other v => some (.notADict v)
  | .dict d =>
    if d.get "namespace" ≠ .none ∧ d.get "namespace" ≠ .str DEFAULT_NAMESPACE then
      some (.wrongNamespace (d.get "namespace"))
    else
      let schema := (TOOL_SCHEMAS.lookup tool).getD []
      match checkSchema tool d schema with
      | some r => some r
      | none =>
        match d.keys.filter fun k => k ∉ schema.map (·.1) ∧ k ≠ "namespace" with
        | [] => none
        | ks => some (.unexpected tool ks)

/-- `tool_name not in ALLOWED_ACTIONS` hashes the name first, which an array or an object has no hash for. -/
def validateToolCall (tool : Py.Val) (params : Params) : Except PyErr (Option Reject) :=
  if ¬ tool.hashable then .error (.typeError "unhashable type")
  else
    match tool with
    | .str t => if t ∈ ALLOWED_ACTIONS then .ok (validateParams t params) else .ok (some (.notAllowed tool))
    | _ => .ok (some (.notAllowed tool))

/-- The import-time self-test: no action goes without a schema. -/
theorem schemas_cover : ∀ t ∈ ALLOWED_ACTIONS, (TOOL_SCHEMAS.lookup t).isSome = true := by decide

/-! ## What an accepted call looks like -/

theorem checkSchema_none {tool : String} {d : Py.Dict} {schema : List (String × (Py.Val → Bool))}
    (h : checkSchema tool d schema = none) {param : String} {validator : Py.Val → Bool}
    (hp : (param, validator) ∈ schema) : ∃ v, d.lookup param = some v ∧ validator v = true := by
  induction schema with
  | nil => simp at hp
  | cons r rest ih =>
    simp only [checkSchema] at h
    cases hl : d.lookup r.1 with
    | none => rw [hl] at h; cases h
    | some v =>
      simp only [hl] at h
      by_cases hv : r.2 v = true
      · rw [if_pos hv] at h
        rcases List.mem_cons.1 hp with rfl | hp
        · exact ⟨v, hl, hv⟩
        · exact ih h hp
      · rw [if_neg hv] at h; cases h

theorem validateToolCall_ok {tool : Py.Val} {params : Params} (h : validateToolCall tool params = .ok none) :
    ∃ t d, tool = .str t ∧ t ∈ ALLOWED_ACTIONS ∧ params = .dict d ∧ validateParams t (.dict d) = none := by
  cases tool with
  | str t =>
    simp only [validateToolCall, Py.Val.hashable, not_true_eq_false, if_false] at h
    split at h
    · rename_i ht
      cases params with
      | dict d => exact ⟨t, d, rfl, ht, rfl, Except.ok.inj h⟩
      | other v => cases h
    · cases h
  | nested text => cases h
  | _ => cases h

/-- Every schema asks for a name. -/
theorem schema_name {tool : String} (ht : tool ∈ ALLOWED_ACTIONS) :
    ("name", isNonemptyStr) ∈ (TOOL_SCHEMAS.lookup tool).getD [] := by
  simp only [ALLOWED_ACTIONS, List.mem_cons, List.not_mem_nil, or_false] at ht
  rcases ht with rfl | rfl | rfl | rfl | rfl | rfl <;> exact List.mem_cons_self

/-- An accepted call names a workload, and the namespace it gives, if any, is the lab's or null. -/
theorem validateParams_ok {tool : String} {d : Py.Dict} (ht : tool ∈ ALLOWED_ACTIONS)
    (h : validateParams tool (.dict d) = none) :
    (d.get "namespace" = .none ∨ d.get "namespace" = .str DEFAULT_NAMESPACE) ∧
      ∃ s, d.lookup "name" = some (.str s) ∧ 0 < (Py.strip s).length := by
  simp only [validateParams] at h
  split at h
  · cases h
  · rename_i hns
    cases hschema : checkSchema tool d ((TOOL_SCHEMAS.lookup tool).getD []) with
    | some r => rw [hschema] at h; cases h
    | none =>
      obtain ⟨v, hv, hok⟩ := checkSchema_none hschema (schema_name ht)
      refine ⟨by tauto, ?_⟩
      cases v with
      | str s => exact ⟨s, hv, by simpa [isNonemptyStr] using hok⟩
      | _ => cases hok

end Wardence
