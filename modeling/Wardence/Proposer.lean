import Wardence.Constraints
/-!
# The action proposer

From `action_proposer.py`, with the provider chain of `model_backend.py`: at
most three replies of the chain, each validated, and the deterministic fix when
none survives. The replies are a parameter.
-/
namespace Wardence

open Keyed

/-! ## The deterministic fixes -/

/-- A tool, and its arguments for a target and a namespace. -/
structure Fix where
  tool : String
  kwargs : String → String → Py.Dict

/-- `{"name": t, "namespace": n}`. -/
def addressed (t n : String) : Py.Dict := (Py.Dict.set ∅ "name" (.str t)).set "namespace" (.str n)

/-- Updates a dictionary with another, given as its items. -/
def withParams (d : Py.Dict) (extra : List (String × Py.Val)) : Py.Dict := extra.foldl (fun d kv => d.set kv.1 kv.2) d

theorem lookup_withParams {extra : List (String × Py.Val)} {k : String} (h : ∀ kv ∈ extra, kv.1 ≠ k) (d : Py.Dict) :
    (withParams d extra).lookup k = d.lookup k := by
  induction extra generalizing d with
  | nil => rfl
  | cons kv extra ih =>
    refine (ih (fun r hr => h r (List.mem_cons_of_mem _ hr)) (d.set kv.1 kv.2)).trans ?_
    rw [Py.Dict.lookup_set, if_neg (Ne.symm (h kv List.mem_cons_self))]

theorem addressed_name (t n : String) : (addressed t n).lookup "name" = some (.str t) := by
  rw [addressed, Py.Dict.lookup_set, if_neg (by decide), Py.Dict.lookup_set, if_pos rfl]

theorem addressed_namespace (t n : String) : (addressed t n).lookup "namespace" = some (.str n) := by
  rw [addressed, Py.Dict.lookup_set, if_pos rfl]

def DETERMINISTIC_FIX_PARAMS : List (String × List (String × Py.Val)) :=
  [("oom", [("container", .str "catalogue"), ("limit", .str "400Mi")]), ("disk-full", [("replicas", .int 1)]),
    ("cpu-throttling", [("container", .str "user"), ("limit", .str "600m")]),
    ("under-provisioned-replicas", [("replicas", .int 3)]), ("bad-rollout", [])]

def fixParams (c : String) : List (String × Py.Val) := (DETERMINISTIC_FIX_PARAMS.lookup c).getD []

def DETERMINISTIC_ACTION_MAP : List (String × Fix) :=
  [("crash-loop", ⟨"restart_deployment", addressed⟩),
    ("oom", ⟨"patch_memory_limit", fun t n => withParams (addressed t n) (fixParams "oom")⟩),
    ("disk-full", ⟨"restore_from_disk_full", fun t n => withParams (addressed t n) (fixParams "disk-full")⟩),
    ("cpu-throttling", ⟨"patch_cpu_limit", fun t n => withParams (addressed t n) (fixParams "cpu-throttling")⟩),
    ("under-provisioned-replicas",
      ⟨"scale_deployment", fun t n => withParams (addressed t n) (fixParams "under-provisioned-replicas")⟩),
    ("bad-rollout", ⟨"rollback_deployment", addressed⟩)]

/-! ## One attempt -/

structure ChainEntry where
  provider : String
  model : String
  tier : Tier
  deriving DecidableEq

def PROVIDER_CHAIN : List ChainEntry :=
  [⟨"cloudflare", "@cf/google/gemma-4-26b-a4b-it", .primary⟩, ⟨"deepinfra", "nvidia/Nemotron-3-Nano-30B-A3B", .primary⟩,
    ⟨"gemini", "gemini-3-flash-preview", .primary⟩, ⟨"cloudflare", "@cf/moonshotai/kimi-k2.6", .fallback⟩,
    ⟨"groq", "llama-3.3-70b-versatile", .fallback⟩, ⟨"groq", "openai/gpt-oss-120b", .fallback⟩,
    ⟨"openrouter", "openai/gpt-oss-20b:free", .fallback⟩]

/-- What one call of a provider gives: nothing, text without a `tool`, or a tool
call. `params` is empty where the reply has none. -/
inductive Reply where
  | failure
  | noCall
  | call (tool : Py.Val) (params : Params)

inductive Attempt where
  | providerFailure
  | parseFailure
  | rejected (r : Reject)
  | validated (tool : String) (params : Py.Dict) (entry : ChainEntry)

/-- The replicas of a restore are never the model's to choose. -/
def forced (tool : String) (d : Py.Dict) : Py.Dict :=
  if tool = "restore_from_disk_full" then withParams d (fixParams "disk-full") else d

/-- After validation: the tool must be the diagnosed class's own. -/
def settle (entry : ChainEntry) (faultClass tool : String) (d : Py.Dict) : Attempt :=
  match DETERMINISTIC_ACTION_MAP.lookup faultClass with
  | some fix =>
    if tool ≠ fix.tool then .rejected (.toolMismatch faultClass fix.tool tool) else .validated tool (forced tool d) entry
  | none => .validated tool (forced tool d) entry

def proposeOnce (entry : ChainEntry) (faultClass : String) : Reply → Except PyErr Attempt
  | .failure => .ok .providerFailure
  | .noCall => .ok .parseFailure
  | .call tool params => do
    match ← validateToolCall tool params with
    | some r => return .rejected r
    | none =>
      match tool, params with
      | .str t, .dict d => return settle entry faultClass t d
      | _, _ => return .parseFailure  -- the validator lets nothing else through

def findChainEntry (provider model : Option String) : Option ChainEntry :=
  PROVIDER_CHAIN.find? fun e => some e.provider = provider && some e.model = model

/-! ## The proposal -/

structure Proposal where
  source : Source
  faultClass : String
  toolName : Option String
  params : Option Py.Dict
  provider : Option String
  model : Option String
  tier : Option Tier

/-- A validated attempt as a proposal. -/
def accepted (source : Source) (faultClass tool : String) (d : Py.Dict) (entry : ChainEntry) : Proposal :=
  ⟨source, faultClass, some tool, some d, some entry.provider, some entry.model, some entry.tier⟩

/-- The first provider's attempt and, when the validator rejects it, its retry. -/
def askTwice (replies : Nat → Reply) (entry : ChainEntry) (faultClass : String) : Except PyErr (Option Proposal) := do
  match ← proposeOnce entry faultClass (replies 0) with
  | .validated tool d e => return some (accepted .llmPrimaryRetry faultClass tool d e)
  | .rejected _ =>
    match ← proposeOnce entry faultClass (replies 1) with
    | .validated tool d e => return some (accepted .llmPrimaryRetry faultClass tool d e)
    | _ => return none
  | _ => return none

/-- The next provider of the chain, asked once. -/
def escalate (replies : Nat → Reply) (entry : ChainEntry) (faultClass : String) : Except PyErr (Option Proposal) :=
  match PROVIDER_CHAIN[PROVIDER_CHAIN.idxOf entry + 1]? with
  | none => .ok none
  | some next => do
    match ← proposeOnce next faultClass (replies 2) with
    | .validated tool d e => return some (accepted .llmEscalated faultClass tool d e)
    | _ => return none

/-- `replies k` answers the first attempt, its retry and the escalation. -/
def proposeAction (replies : Nat → Reply) (faultClass target ns : String) (provider model : Option String) :
    Except PyErr Proposal :=
  match DETERMINISTIC_ACTION_MAP.lookup faultClass with
  | none => .ok ⟨.notAutoFixClass, faultClass, none, none, none, none, none⟩
  | some fix => do
    let fallback : Proposal := ⟨.deterministicFallback, faultClass, some fix.tool, some (fix.kwargs target ns), none,
      none, some .deterministicFallback⟩
    match findChainEntry provider model with
    | none => return fallback
    | some entry =>
      match ← askTwice replies entry faultClass with
      | some p => return p
      | none => return (← escalate replies entry faultClass).getD fallback

/-- Whether a proposal is the deterministic fix; `none` for a class without one. -/
def matchesDeterministicAction (faultClass tool : String) (params : Option Py.Dict) (target ns : String) :
    Option Bool :=
  (DETERMINISTIC_ACTION_MAP.lookup faultClass).map fun fix =>
    tool == fix.tool && params.any fun d => decide (∀ k ∈ d.keys ++ (fix.kwargs target ns).keys,
      d.lookup k = (fix.kwargs target ns).lookup k)

end Wardence
