import Wardence.TrustEngine
/-!
# The operator's overrides

`/promote` and `/demote` of `operator_api.py`, after `require_role` has let the
admin through and up to the write of the ladder; the audit row that follows is
in a table of its own.
-/
namespace Wardence

open Txn Client

def promote (c : String) : Prog Unit :=
  match PROMOTION_STREAK.lookup c with
  | none => throw (.httpException 400 s!"'{c}' has no promotion policy")
  | some n => do
    let current ← getTrustState c
    if current.state = .canAct then
      throw (.httpException 400 s!"'{c}' is already can_act -- nothing to promote")
    else
      manualSetState c .canAct n

def demote (c : String) : Prog Unit := do
  let current ← getTrustState c
  if current.state = .reportOnly then
    throw (.httpException 400 s!"'{c}' is already report_only -- nothing to demote")
  else
    manualSetState c .reportOnly 0

end Wardence
