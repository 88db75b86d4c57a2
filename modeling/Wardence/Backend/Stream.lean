import Wardence.Backend.Calls
import Wardence.Lib.Python
/-!
# One call of a model, read as a stream

`call_one_streaming` of `model_backend.py`. The lines are what `iter_lines(decode_unicode=True)`
yields; the accumulators of the loop are a `Parts`. The callbacks are taken to return.
-/
namespace Wardence.Backend

open Py

structure Streaming extends Library where
  /-- `json.loads`, of the payload of an event. -/
  payload : String → LoadedAny

/-- A line: text, or bytes where the response has no encoding. -/
inductive Line where
  | text (s : String)
  | bytes (empty : Bool)
  deriving DecidableEq

/-- How the iteration ends; `raised`: neither at an end nor by a `RequestException`. -/
inductive Ending where
  | finished
  | requestException
  | raised (e : Exc)
  deriving DecidableEq

structure Stream where
  lines : List Line
  ending : Ending

/-- The accumulators; a usage of null is none yet. -/
structure Parts where
  content : List Json
  reasoning : List Json
  logprobs : List Json
  usage : Json
  fingerprint : Json

def Parts.init : Parts := ⟨[], [], [], .null, .null⟩

/-- `if v: l.append(v)`. -/
def appendIf (l : List Json) (v : Json) : List Json := if v.truthy then l ++ [v] else l

/-- `if v: l.extend(v)`: what is added. -/
def extension (v : Json) : Except Exc (List Json) := if v.truthy then v.items else .ok []

/-- What a choice of an event holds: reasoning, content and tokens. -/
def readDelta (choice : Json) : Except Exc (Json × Json × List Json) := do
  let delta ← choice.get "delta" (.obj [])
  let reasoningContent ← delta.get "reasoning_content" .null
  let reasoning ← delta.get "reasoning" .null
  let content ← delta.get "content" .null
  let chunkLogprobs ← logprobsContent choice
  let entries ← extension chunkLogprobs
  return (reasoningContent.orElse reasoning, content, entries)

/-- What an event does to the accumulators. -/
def Parts.event (p : Parts) (chunk : Json) : Except Exc Parts := do
  let fingerprint ← chunk.get "system_fingerprint" p.fingerprint
  let usage ← chunk.get "usage" .null
  let p := { p with fingerprint := fingerprint, usage := usage.orElse p.usage }
  let choices ← chunk.get "choices" .null
  if choices.truthy then
    let (reasoning, content, entries) ← choices.first >>= readDelta
    return { p with
      reasoning := appendIf p.reasoning reasoning
      content := appendIf p.content content
      logprobs := p.logprobs ++ entries }
  else return p

inductive Event where
  | skip
  | done
  | payload (s : String)
  deriving DecidableEq

/-- `startswith("data:")`, and the rest of the line. -/
def lineOf : Line → Except Exc Event
  | .bytes empty => if empty then .ok .skip else .error .type
  | .text s =>
    if "data:".toList <+: s.toList then
      let payload := strip (String.ofList (s.toList.drop 5))
      .ok (if payload = "[DONE]" then .done else .payload payload)
    else .ok .skip

/-- The loop over the lines; `none`: cut by a `RequestException`. -/
def collect (lib : Streaming) (ending : Ending) : List Line → Parts → Except Exc (Option Parts)
  | [], p =>
    match ending with
    | .finished => .ok (some p)
    | .requestException => .ok none
    | .raised e => .error e
  | line :: rest, p =>
    match lineOf line with
    | .error e => .error e
    | .ok .skip => collect lib ending rest p
    | .ok .done => .ok (some p)
    | .ok (.payload s) =>
      match lib.payload s with
      | .undecodable => collect lib ending rest p
      | .raised e => .error e
      | .value chunk => p.event chunk >>= collect lib ending rest

def textOf : Json → Except Exc String
  | .str s => .ok s
  | _ => .error .type

/-- `"".join(parts)`. -/
def join (parts : List Json) : Except Exc String := String.join <$> parts.mapM textOf

/-- The response that the code puts together from the parts. -/
def Parts.raw (p : Parts) (reasoning : String) : Json :=
  .obj [("streamed", .bool true), ("usage", p.usage.orElse (.obj [])), ("system_fingerprint", p.fingerprint),
    ("reasoning_text", .str reasoning)]

/-- The result, once the text has been parsed. -/
def Parts.answer (lib : Streaming) (e : Entry) (p : Parts) (text : String) (parsed : List (String × Json)) : Except Exc Outcome := do
  let confidence ← confidenceOf lib.toLibrary (.arr p.logprobs) parsed
  let reasoning ← join p.reasoning
  return .result ⟨text, parsed, e.provider, e.model, e.tier, confidence, p.raw reasoning, p.fingerprint⟩

/-- From the parts to the outcome. -/
def Parts.read (lib : Streaming) (e : Entry) (p : Parts) : Except Exc Outcome := do
  let text ← join p.content
  if text = "" then
    let _ ← join p.reasoning
    return .failure ⟨e.provider, e.model, .badResponse⟩
  else withJson lib.toLibrary ⟨e.provider, e.model, .parseFailure⟩ (.str text) (p.answer lib e)

def readStream (lib : Streaming) (e : Entry) (stream : Stream) : Except Exc Outcome := do
  match ← collect lib stream.ending stream.lines .init with
  | none => return .failure ⟨e.provider, e.model, .badResponse⟩
  | some p => p.read lib e

/-- The outcome of the request. With `stream=True` the body is read later: its text, where the status tells of
a failure, or its lines. -/
inductive StreamHttp where
  | timeout
  | requestException
  | response (statusCode : Int) (text : Except Exc String) (stream : Stream)

def settleStream (lib : Streaming) (e : Entry) : StreamHttp → Except Exc Outcome
  | .timeout => .ok (.failure ⟨e.provider, e.model, .timeout⟩)
  | .requestException => .ok (.failure ⟨e.provider, e.model, .badResponse⟩)
  | .response statusCode text stream =>
    match statusFailure e statusCode with
    | some f => (fun _ => .failure f) <$> text
    | none => readStream lib e stream

def STREAMING_CAPABLE_PROVIDERS : List String := ["cloudflare"]

structure StreamCall where
  quotaExhausted : Bool
  keyPresent : Bool
  http : StreamHttp

def callOpenaiCompatStreaming (lib : Streaming) (e : Entry) (keyPresent : Bool) (http : StreamHttp) : Ran :=
  if keyPresent then ⟨1, settleStream lib e http⟩ else ⟨0, .error .key⟩

def callOneStreaming (lib : Streaming) (e : Entry) (c : StreamCall) : Called :=
  if e.provider ∈ STREAMING_CAPABLE_PROVIDERS ∧ e.format = .openaiCompat then
    if c.quotaExhausted then ⟨0, 0, .ok (.failure ⟨e.provider, e.model, .quotaExhausted⟩)⟩
    else (callOpenaiCompatStreaming lib e c.keyPresent c.http).record
  else ⟨0, 0, .error .value⟩

end Wardence.Backend
