import Mathlib.Data.List.Infix
import Mathlib.Data.Rat.Defs
import Mathlib.Algebra.BigOperators.Group.List.Basic
import Mathlib.Algebra.Order.Field.Rat
/-!
# One call to a provider

`call_one` of `model_backend.py` with the backends' requests, and the tables of
`quota_tracker.py` that it reads and writes. What a provider answers is an input. Times are
seconds and days UTC days; Neurons are exact numbers. Prompts, confidences and the texts
of failures are left out.
-/
namespace Wardence.Quota

/-! ## Answers -/

/-- `usage` (or `usageMetadata`) of a response. -/
inductive Usage where
  | missing
  /-- Not an object: reading a field raises. -/
  | odd
  | reported (tokens : Option Nat) (neurons : Option ℚ)
  deriving DecidableEq

/-- The completion in a response. -/
inductive Content where
  | missing
  /-- Reading it raises another exception than the handled ones. -/
  | odd
  | empty
  | text (s : String)
  deriving DecidableEq

structure Body where
  content : Content
  usage : Usage
  /-- Computing the confidence raises. -/
  oddLogprobs : Bool
  deriving DecidableEq

/-- What a request comes to; `body` is `none` if it is no JSON. -/
inductive Http where
  | timeout
  | requestException
  | response (statusCode : Int) (text : String) (body : Option Body)
  deriving DecidableEq

inductive Format where
  | geminiNative
  | openaiCompat
  deriving DecidableEq

/-- An entry of the provider chain. -/
structure Entry where
  provider : String
  model : String
  format : Format
  deriving DecidableEq

/-- An invocation: when the quota is checked, when the call is recorded and logged, and what the
provider answers, a second time if there is a second request. `keyMissing`: the API key is not in
the environment; `dbFails`: the database raises after the request. -/
structure Call where
  entry : Entry
  checkedAt : Nat
  recordedAt : Nat
  loggedAt : Nat
  keyMissing : Bool
  first : Http
  second : Http
  dbFails : Bool
  episodeId : Option String
  deriving DecidableEq

/-! ## The tables -/

/-- A row of `provider_call_log`. -/
structure LogRow where
  provider : String
  model : String
  tokens : Nat
  neurons : ℚ
  episodeId : Option String
  calledAt : Nat
  deriving DecidableEq

/-- A row of `provider_quota_usage`. -/
structure UsageRow where
  provider : String
  model : String
  day : Nat
  calls : Nat
  tokens : Nat
  neurons : ℚ
  deriving DecidableEq

/-- A row of `provider_exhaustion`. -/
structure Exhaustion where
  provider : String
  model : String
  exhaustedUntil : Nat
  nextProbeAt : Option Nat
  deriving DecidableEq

/-- A request that was sent, with what its response reports if it is a 200. -/
structure Sent where
  provider : String
  tokens : Nat
  neurons : ℚ
  deriving DecidableEq

structure World where
  callLog : List LogRow := []
  usage : List UsageRow := []
  exhaustion : List Exhaustion := []
  /-- No table: the requests that were sent. -/
  sent : List Sent := []
  deriving DecidableEq

def DAY_S : Nat := 86400
def PROBE_COOLDOWN_MINUTES : Nat := 15
def CLOUDFLARE_DAILY_NEURON_BUDGET : ℚ := 10000
def CLOUDFLARE_NEURON_SAFETY_THRESHOLD : ℚ := 400

def KNOWN_DAILY_LIMITS : List ((String × String) × Nat) :=
  [(("gemini", "gemini-3-flash-preview"), 20), (("groq", "llama-3.3-70b-versatile"), 1000),
    (("groq", "openai/gpt-oss-120b"), 1000), (("openrouter", "openai/gpt-oss-20b:free"), 50)]

/-- `_today`. -/
def today (now : Nat) : Nat := now / DAY_S

/-- `INSERT ... ON CONFLICT DO UPDATE` of one call. -/
def bump (provider model : String) (day tokens : Nat) (neurons : ℚ) : List UsageRow → List UsageRow
  | [] => [⟨provider, model, day, 1, tokens, neurons⟩]
  | r :: rs =>
    if r.provider = provider ∧ r.model = model ∧ r.day = day then
      { r with calls := r.calls + 1, tokens := r.tokens + tokens, neurons := r.neurons + neurons } :: rs
    else r :: bump provider model day tokens neurons rs

/-- The `calls` of a row; 0 if there is none. -/
def callsOn (rows : List UsageRow) (provider model : String) (day : Nat) : Nat :=
  ((rows.find? fun r => r.provider = provider ∧ r.model = model ∧ r.day = day).map (·.calls)).getD 0

/-- The Neurons of all models of a provider. -/
def neuronsOn (rows : List UsageRow) (provider : String) (day : Nat) : ℚ :=
  ((rows.filter fun r => r.provider = provider ∧ r.day = day).map (·.neurons)).sum

namespace World
variable (w : World)

def getTodayUsage (provider model : String) (now : Nat) : Nat := callsOn w.usage provider model (today now)

def getTodayNeuronUsage (provider : String) (now : Nat) : ℚ := neuronsOn w.usage provider (today now)

def isMarkedExhausted (provider model : String) (now : Nat) : Bool :=
  match w.exhaustion.find? fun r => r.provider = provider ∧ r.model = model with
  | none => false
  | some r => !(r.nextProbeAt.any (· ≤ now)) && decide (now < r.exhaustedUntil)

/-- `check_quota`, where it says `exhausted`. -/
def exhausted (provider model : String) (now : Nat) : Bool :=
  w.isMarkedExhausted provider model now ||
    (provider = "cloudflare" && CLOUDFLARE_DAILY_NEURON_BUDGET - w.getTodayNeuronUsage provider now < CLOUDFLARE_NEURON_SAFETY_THRESHOLD) ||
    (KNOWN_DAILY_LIMITS.lookup (provider, model)).any (· ≤ w.getTodayUsage provider model now)

def markExhausted (provider model : String) (now : Nat) : World :=
  let midnight := (today now + 1) * DAY_S
  let row : Exhaustion := ⟨provider, model, midnight, some (min (now + 60 * PROBE_COOLDOWN_MINUTES) midnight)⟩
  { w with exhaustion := row :: w.exhaustion.filter fun r => ¬(r.provider = provider ∧ r.model = model) }

def clearExhausted (provider model : String) : World :=
  { w with exhaustion := w.exhaustion.filter fun r => ¬(r.provider = provider ∧ r.model = model) }

def recordCall (c : Call) (tokens : Nat) (neurons : ℚ) : World :=
  { w with
    callLog := w.callLog ++ [⟨c.entry.provider, c.entry.model, tokens, neurons, c.episodeId, c.loggedAt⟩]
    usage := bump c.entry.provider c.entry.model (today c.recordedAt) tokens neurons w.usage }

end World

/-! ## The backends -/

/-- `_extract_json`: what the library makes of a text. -/
abbrev Json := String → Bool

/-- What a backend returns, or that it raises. -/
inductive Outcome where
  | raised
  /-- `LLMFailure`; the flag: on the 429 of an exhausted Cloudflare account. -/
  | failure (exhausted : Bool)
  | result (usage : Usage)
  deriving DecidableEq

def contains (s part : String) : Bool := decide (part.toList <:+: s.toList)

/-- What is made of a 200 response. -/
def Body.outcome (json : Json) (b : Body) : Outcome :=
  match b.content with
  | .missing | .empty => .failure false
  | .odd => .raised
  | .text s => if json s then if b.oddLogprobs then .raised else .result b.usage else .failure false

/-- The status checks, and the body. -/
def Http.outcome (json : Json) (provider : String) : Http → Outcome
  | .timeout | .requestException => .failure false
  | .response code text body =>
    if code = 429 then .failure (provider = "cloudflare" && (contains text "4006" || contains text "daily free allocation"))
    else if code ≠ 200 then .failure false
    else
      match body with
      | none => .raised
      | some b => b.outcome json

/-- The one retry of `_call_gemini`. -/
def Http.retried (format : Format) : Http → Bool
  | .response code text _ => decide (format = .geminiNative) && code = 400 && contains text "Logprobs is not enabled"
  | _ => false

/-- The tokens and Neurons that a response reports. -/
def Http.reported : Http → Nat × ℚ
  | .response 200 _ (some ⟨_, .reported tokens neurons, _⟩) => (tokens.getD 0, neurons.getD 0)
  | _ => (0, 0)

def Http.sent (provider : String) (h : Http) : Sent := ⟨provider, h.reported.1, h.reported.2⟩

/-- The requests of a call. -/
def Call.requests (c : Call) : List Http :=
  if c.keyMissing then [] else if c.first.retried c.entry.format then [c.first, c.second] else [c.first]

/-- The last answer decides. -/
def Call.outcome (json : Json) (c : Call) : Outcome :=
  match c.requests.getLast? with
  | none => .raised
  | some h => h.outcome json c.entry.provider

/-- `_extract_total_tokens` and `_extract_neurons`; `none`: they raise. -/
def extract (provider : String) : Outcome → Option (Nat × ℚ)
  | .raised => none
  | .failure _ => some (0, 0)
  | .result .missing => some (0, 0)
  | .result .odd => none
  | .result (.reported tokens neurons) => some (tokens.getD 0, if provider = "cloudflare" then neurons.getD 0 else 0)

/-- `call_one`. -/
def callOne (json : Json) (w : World) (c : Call) : World :=
  if w.exhausted c.entry.provider c.entry.model c.checkedAt then w
  else
    let w := { w with sent := w.sent ++ c.requests.map (·.sent c.entry.provider) }
    let w := if c.outcome json = .failure true ∧ ¬ c.dbFails then w.markExhausted c.entry.provider c.entry.model c.recordedAt else w
    match extract c.entry.provider (c.outcome json) with
    | none => w
    | some (tokens, neurons) =>
      if c.dbFails then w
      else
        let w := w.recordCall c tokens neurons
        match c.outcome json with
        | .result _ => w.clearExhausted c.entry.provider c.entry.model
        | _ => w

/-- Invocations one after another. -/
def run (json : Json) (w : World) (cs : List Call) : World := cs.foldl (callOne json) w

end Wardence.Quota
