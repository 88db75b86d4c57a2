import Wardence.ToolCall
/-!
# Constraint satisfaction

From `constraint_checks.py`, with the constants of `injector.py` it reads: is
the magnitude a tool call proposes safe for a fault class? The live read of a
deployment's CPU limit is a parameter.
-/
namespace Wardence

open Keyed

/-- Each injectable class's target and namespace. -/
def FAULT_CONFIG : List (String × (String × String)) :=
  [("crash-loop", ("carts", "sock-shop")), ("oom", ("catalogue", "sock-shop")),
    ("disk-full", ("queue-master", "sock-shop")), ("network-latency", ("orders", "sock-shop")),
    ("network-partition", ("orders", "sock-shop")), ("memory-leak", ("shipping", "sock-shop")),
    ("connection-pool-exhaustion", ("catalogue-db", "sock-shop")), ("init-failure", ("payment", "sock-shop")),
    ("session-cart-failure", ("session-db", "sock-shop")), ("under-provisioned-replicas", ("catalogue", "sock-shop")),
    ("bad-rollout", ("front-end", "sock-shop")), ("cpu-throttling", ("user", "sock-shop"))]

def OOM_BASELINE_MEMORY_LIMIT : String := "200Mi"
def UNDER_PROVISIONED_VALIDATED_SAFE_REPLICAS : Nat := 3

/-- The verdict of `check_safe` and what it rests on. -/
inductive Safety where
  | trivial
  | inRange (proposed floor cap : ℚ)
  | outOfRange (proposed floor cap : ℚ)
  | noMeasurement (field : String)
  | unparseable (v : Py.Val)
  | notAnInteger (v : Py.Val)
  | noFaultConfig (c : String)
  | unreadable (target : String)
  deriving DecidableEq

def Safety.ok : Safety → Bool
  | .trivial => true
  | .inRange .. => true
  | _ => false

/-- `floor < proposed <= cap`. -/
def inBounds (proposed floor cap : ℚ) : Safety :=
  if floor < proposed ∧ proposed ≤ cap then .inRange proposed floor cap else .outOfRange proposed floor cap

/-- `(tool_output or {}).get(field)`. -/
def measured (toolOutput : Option Py.Dict) (field : String) : Py.Val := (toolOutput.getD ∅).get field

/-- `max(v, n) if n is not None else v`, which raises where `v` is no number. -/
def maxNum (v : Py.Val) (n : Option ℚ) : Except PyErr ℚ :=
  match v.asNum with
  | some q => .ok (n.elim q (max q))
  | none => .error (.typeError "'>' not supported between instances")

def checkMemory (limit peak : Py.Val) : Except PyErr Safety :=
  if peak = .none then .ok (.noMeasurement "peak_memory_mib")
  else
    match toMi limit with
    | none => .ok (.unparseable limit)
    | some proposed => do
      let floor ← maxNum peak (toMi (.str OOM_BASELINE_MEMORY_LIMIT))
      return inBounds proposed floor MAX_MEMORY_LIMIT_MI

def checkCpu (liveCpu : String → String → Option ℚ) (limit : Py.Val) (actualClass : String) : Safety :=
  match FAULT_CONFIG.lookup actualClass with
  | none => .noFaultConfig actualClass
  | some (target, ns) =>
    match liveCpu target ns with
    | none => .unreadable target
    | some current =>
      match toMillicores limit with
      | none => .unparseable limit
      | some proposed => inBounds proposed current MAX_CPU_LIMIT_M

def checkReplicas (replicas current : Py.Val) (actualClass : String) : Except PyErr Safety :=
  match FAULT_CONFIG.lookup actualClass with
  | none => .ok (.noFaultConfig actualClass)
  | some _ =>
    if current = .none then .ok (.noMeasurement "current_replicas")
    else
      match replicas with
      | .int proposed => do
        let floor ← maxNum current (some (UNDER_PROVISIONED_VALIDATED_SAFE_REPLICAS - 1 : Nat))
        return inBounds proposed floor MAX_REPLICAS
      | v => .ok (.notAnInteger v)

def checkSafe (liveCpu : String → String → Option ℚ) (tool : String) (params : Py.Dict) (actualClass : String)
    (toolOutput : Option Py.Dict) : Except PyErr Safety :=
  if tool = "patch_memory_limit" then checkMemory (params.get "limit") (measured toolOutput "peak_memory_mib")
  else if tool = "patch_cpu_limit" then .ok (checkCpu liveCpu (params.get "limit") actualClass)
  else if tool = "scale_deployment" then
    checkReplicas (params.get "replicas") (measured toolOutput "current_replicas") actualClass
  else .ok .trivial

/-- What the diagnosis measured is numbers, where it measured anything. -/
def Measured (toolOutput : Option Py.Dict) : Prop :=
  ∀ field ∈ ["peak_memory_mib", "current_replicas"],
    measured toolOutput field = .none ∨ (measured toolOutput field).asNum.isSome = true

end Wardence
