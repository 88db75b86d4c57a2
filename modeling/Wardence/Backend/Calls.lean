import Mathlib.Data.List.Infix
import Wardence.Lib.Json
/-!
# One call of a model, response by response

`call_one` of `model_backend.py` with its two request functions, on whatever a provider sends:
every value of the response is JSON that may have any shape. `Quota/Calls.lean` has what a call
does to the tables of `quota_tracker.py`; here they work, and what counts is which responses make
the code raise. Prompts and the texts of failures are left out.
-/
namespace Wardence.Backend

open Py

/-! ## Requests and their outcomes -/

inductive Format where
  | geminiNative
  | openaiCompat
  deriving DecidableEq

inductive Tier where
  | primary
  | fallback
  deriving DecidableEq

structure Entry where
  provider : String
  model : String
  format : Format
  tier : Tier
  deriving DecidableEq

def PROVIDER_CHAIN : List Entry :=
  [⟨"cloudflare", "@cf/google/gemma-4-26b-a4b-it", .openaiCompat, .primary⟩,
    ⟨"deepinfra", "nvidia/Nemotron-3-Nano-30B-A3B", .openaiCompat, .primary⟩,
    ⟨"gemini", "gemini-3-flash-preview", .geminiNative, .primary⟩,
    ⟨"cloudflare", "@cf/moonshotai/kimi-k2.6", .openaiCompat, .fallback⟩,
    ⟨"groq", "llama-3.3-70b-versatile", .openaiCompat, .fallback⟩,
    ⟨"groq", "openai/gpt-oss-120b", .openaiCompat, .fallback⟩,
    ⟨"openrouter", "openai/gpt-oss-20b:free", .openaiCompat, .fallback⟩]

/-- `json` is `none` where the body is no JSON, and `resp.json()` raises. -/
structure Response where
  statusCode : Int
  text : String
  json : Option Json

inductive Http where
  | timeout
  | requestException
  | response (r : Response)

inductive FailureType where
  | timeout
  | rateLimited
  | badResponse
  | parseFailure
  | quotaExhausted
  deriving DecidableEq

structure LLMFailure where
  provider : String
  model : String
  failureType : FailureType
  deriving DecidableEq

inductive Confidence where
  | logprob (n : Number)
  | selfReported (n : Number)
  deriving DecidableEq

structure LLMResult where
  text : String
  parsed : List (String × Json)
  provider : String
  model : String
  tier : Tier
  confidence : Option Confidence
  raw : Json
  versionFingerprint : Json

inductive Outcome where
  | result (r : LLMResult)
  | failure (f : LLMFailure)

/-- What the Python library makes of numbers and of texts. -/
structure Library where
  arithmetic : Arithmetic
  loads : String → Loaded

/-- `re.search(r"\x7b.*\x7d", text, re.DOTALL)`: from the first opening brace to the last closing one. -/
def braces (text : String) : Option String :=
  match (text.toList.dropWhile (· ≠ '{')).reverse.dropWhile (· ≠ '}') with
  | [] => none
  | cs => some (String.ofList cs.reverse)

/-- `_extract_json`. -/
def extractJson (lib : Library) (text : String) : Except Exc (Option (List (String × Json))) :=
  match braces text with
  | none => .ok none
  | some t =>
    match lib.loads t with
    | .object fields => .ok (some fields)
    | .undecodable => .ok none
    | .raised e => .error e

/-- The confidence the model reports of itself. -/
def selfReported (parsed : List (String × Json)) : Option Confidence :=
  ((parsed.lookup "confidence").bind Json.number?).map .selfReported

/-- `math.exp(v)`. -/
def mathExp (lib : Library) (v : Json) : Except Exc Number :=
  match v.number? with
  | none => .error .type
  | some n => (lib.arithmetic.exp n).elim (.error .overflow) .ok

/-- `t["logprob"]`, as a summand. -/
def logprob (t : Json) : Except Exc Number := do
  let v ← t.key "logprob"
  v.number?.elim (.error .type) .ok

/-- `math.exp(sum(t["logprob"] for t in content) / len(content))`. -/
def expMean (lib : Library) (content : List Json) : Except Exc Number := do
  let numbers ← content.mapM logprob
  match lib.arithmetic.mean numbers with
  | none => .error .overflow
  | some m => (lib.arithmetic.exp m).elim (.error .overflow) .ok

/-- `except (KeyError, IndexError)`: a failure where something is missing. -/
def catchMissing {α : Type} (f : LLMFailure) (x : Except Exc α) (go : α → Except Exc Outcome) : Except Exc Outcome :=
  match x with
  | .ok a => go a
  | .error err => if err.lookup then .ok (.failure f) else .error err

/-- `parsed = _extract_json(text)`: a failure without JSON in the text. -/
def withJson (lib : Library) (f : LLMFailure) (text : Json) (go : String → List (String × Json) → Except Exc Outcome) :
    Except Exc Outcome :=
  match text with
  | .str s => do
    match ← extractJson lib s with
    | none => return .failure f
    | some parsed => go s parsed
  | _ => .error .type

/-! ## Gemini -/

def candidatePath : List Step := [.key "candidates", .first]

def partPath : List Step := [.key "content", .key "parts", .first, .key "text"]

/-- The candidate and its text. -/
def geminiText (data : Json) : Except Exc (Json × Json) := do
  let candidate ← readPath candidatePath data
  let text ← readPath partPath candidate
  return (candidate, text)

def geminiConfidence (lib : Library) (candidate : Json) (parsed : List (String × Json)) : Except Exc (Option Confidence) := do
  match ← candidate.get "avgLogprobs" .null with
  | .null => return selfReported parsed
  | avgLogprob => return some (.logprob (← mathExp lib avgLogprob))

/-- The handling of a body with status 200. -/
def readGemini (lib : Library) (e : Entry) (data : Json) : Except Exc Outcome :=
  catchMissing ⟨"gemini", e.model, .badResponse⟩ (geminiText data) fun (candidate, text) =>
    withJson lib ⟨"gemini", e.model, .parseFailure⟩ text fun s parsed => do
      let confidence ← geminiConfidence lib candidate parsed
      let fingerprint ← data.get "modelVersion" .null
      return .result ⟨s, parsed, "gemini", e.model, .primary, confidence, data, fingerprint⟩

/-- What a call has done: how many requests it sent, and what it came to. -/
structure Ran where
  sent : Nat
  outcome : Except Exc Outcome

/-- A status that tells of a failure. -/
def statusFailure (e : Entry) (statusCode : Int) : Option LLMFailure :=
  if statusCode = 429 then some ⟨e.provider, e.model, .rateLimited⟩
  else if statusCode ≠ 200 then some ⟨e.provider, e.model, .badResponse⟩
  else none

/-- The last response: a failure by its status, or its body; `read` is given the JSON. -/
def settle (e : Entry) (read : Json → Except Exc Outcome) : Http → Except Exc Outcome
  | .timeout => .ok (.failure ⟨e.provider, e.model, .timeout⟩)
  | .requestException => .ok (.failure ⟨e.provider, e.model, .badResponse⟩)
  | .response r =>
    match statusFailure e r.statusCode with
    | some f => .ok (.failure f)
    | none =>
      match r.json with
      | none => .error .value
      | some data => read data

def contains (s part : String) : Bool := decide (part.toList <:+: s.toList)

/-- Is the request repeated without logprobs? -/
def Http.refusesLogprobs : Http → Bool
  | .response r => r.statusCode = 400 && contains r.text "Logprobs is not enabled"
  | _ => false

def callGemini (lib : Library) (e : Entry) (keyPresent : Bool) (first second : Http) : Ran :=
  if keyPresent then
    if first.refusesLogprobs then ⟨2, settle e (readGemini lib e) second⟩ else ⟨1, settle e (readGemini lib e) first⟩
  else ⟨0, .error .key⟩

/-! ## The other providers -/

def requestLogprobs (provider : String) : Bool := provider ∈ ["cloudflare", "deepinfra"]

/-- `(choice.get("logprobs") or {}).get("content")`. -/
def logprobsContent (choice : Json) : Except Exc Json := do
  let l ← choice.get "logprobs" .null
  (l.orElse (.obj [])).get "content" .null

/-- The confidence by the logprobs of the tokens, if there are any. -/
def confidenceOf (lib : Library) (content : Json) (parsed : List (String × Json)) : Except Exc (Option Confidence) :=
  if content.truthy then (fun n => some (.logprob n)) <$> (content.items >>= expMean lib) else .ok (selfReported parsed)

def choiceConfidence (lib : Library) (provider : String) (choice : Json) (parsed : List (String × Json)) :
    Except Exc (Option Confidence) := do
  let content ← if requestLogprobs provider then logprobsContent choice else .ok .null
  confidenceOf lib content parsed

def choicePath : List Step := [.key "choices", .first]

/-- The choice and the content of its message. -/
def compatText (data : Json) : Except Exc (Json × Json) := do
  let choice ← readPath choicePath data
  let message ← choice.key "message"
  let text ← message.get "content" .null
  return (choice, text)

/-- The tokens spent on reasoning, for the text of a failure. -/
def reasoningTokens (data : Json) : Except Exc Json := do
  let usage ← data.get "usage" (.obj [])
  let details ← usage.get "completion_tokens_details" (.obj [])
  details.get "reasoning_tokens" .null

def readCompat (lib : Library) (e : Entry) (data : Json) : Except Exc Outcome :=
  catchMissing ⟨e.provider, e.model, .badResponse⟩ (compatText data) fun (choice, text) =>
    if text.truthy then
      withJson lib ⟨e.provider, e.model, .parseFailure⟩ text fun s parsed => do
        let confidence ← choiceConfidence lib e.provider choice parsed
        let fingerprint ← data.get "system_fingerprint" .null
        return .result ⟨s, parsed, e.provider, e.model, e.tier, confidence, data, fingerprint⟩
    else do
      let _ ← reasoningTokens data
      return .failure ⟨e.provider, e.model, .badResponse⟩

def callOpenaiCompat (lib : Library) (e : Entry) (keyPresent : Bool) (first : Http) : Ran :=
  if keyPresent then ⟨1, settle e (readCompat lib e) first⟩ else ⟨0, .error .key⟩

/-! ## The books -/

def zero : Json := .num (.int 0)

/-- `_extract_total_tokens`. -/
def extractTotalTokens : Outcome → Except Exc Json
  | .failure _ => .ok zero
  | .result r =>
    if r.raw.truthy then do
      let (usage, count) := if r.provider = "gemini" then ("usageMetadata", "totalTokenCount") else ("usage", "total_tokens")
      let u ← r.raw.get usage (.obj [])
      return (← u.get count .null).orElse zero
    else .ok zero

/-- `_extract_neurons`. -/
def extractNeurons : Outcome → Except Exc Json
  | .failure _ => .ok zero
  | .result r =>
    if r.raw.truthy ∧ r.provider = "cloudflare" then do
      let u ← r.raw.get "usage" (.obj [])
      return (← u.get "neurons" .null).orElse zero
    else .ok zero

/-- Whether the database takes a value for a column that must not be null: a `nan` is null there. -/
def storable : Json → Bool
  | .bool _ | .str _ => true
  | .num (.int n) => -2 ^ 63 ≤ n ∧ n < 2 ^ 63
  | .num (.float x) => x ≠ .nan
  | _ => false

/-- What a call has done: the requests it sent, how often it reached `record_call`, what it came to. -/
structure Called where
  sent : Nat
  recorded : Nat
  outcome : Except Exc Outcome

/-- The end of `call_one` and `call_one_streaming`: the usage is read, the call is recorded. -/
def Ran.record (r : Ran) : Called :=
  match r.outcome with
  | .error err => ⟨r.sent, 0, .error err⟩
  | .ok o =>
    match extractTotalTokens o, extractNeurons o with
    | .ok tokens, .ok neurons => ⟨r.sent, 1, if storable tokens ∧ storable neurons then .ok o else .error .type⟩
    | .error err, _ => ⟨r.sent, 0, .error err⟩
    | _, .error err => ⟨r.sent, 0, .error err⟩

/-- What a call meets. -/
structure Call where
  quotaExhausted : Bool
  keyPresent : Bool
  first : Http
  second : Http

def callOne (lib : Library) (e : Entry) (c : Call) : Called :=
  if c.quotaExhausted then ⟨0, 0, .ok (.failure ⟨e.provider, e.model, .quotaExhausted⟩)⟩
  else
    match e.format with
    | .geminiNative => (callGemini lib e c.keyPresent c.first c.second).record
    | .openaiCompat => (callOpenaiCompat lib e c.keyPresent c.first).record

/-- It returned, and a call whose request was sent was recorded once. -/
def Called.Total (c : Called) : Prop := (∃ o, c.outcome = .ok o) ∧ (0 < c.sent → c.recorded = 1)

end Wardence.Backend
