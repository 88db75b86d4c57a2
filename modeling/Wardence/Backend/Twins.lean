import Wardence.Backend.Events
/-!
# A message sent whole and the same message streamed

What `_call_openai_compat` and `_call_openai_compat_streaming` of `model_backend.py` make of one
completion: the body of the plain response, and the lines a server may send for it, as
`iter_lines(decode_unicode=True)` decodes and splits them. They agree where decoding and splitting
leave the lines as they were sent, and the usage is the object it is documented to be.
-/
namespace Wardence.Backend

open Py

variable {lib : Streaming} {e : Entry}

/-! ## The message, whole and in pieces -/

/-- A completion; the usage and the fingerprint may be absent. -/
structure Completion where
  content : String
  reasoning : String
  logprobs : List Json
  usage : Option Json
  fingerprint : Option Json

/-- A field that may be absent. -/
def opt (k : String) (v : Option Json) : List (String × Json) := v.toList.map (k, ·)

def Completion.choice (m : Completion) : Json :=
  .obj [("message", .obj [("content", .str m.content), ("reasoning_content", .str m.reasoning)]), ("logprobs", .obj [("content", .arr m.logprobs)])]

/-- The body of the plain response. -/
def Completion.body (m : Completion) : Json :=
  .obj (("choices", .arr [m.choice]) :: (opt "usage" m.usage ++ opt "system_fingerprint" m.fingerprint))

/-- What one event carries of a message. -/
structure Piece where
  content : Option String
  reasoning : Option String
  logprobs : Option (List Json)
  fingerprint : Option Json

def Piece.choice (x : Piece) : List (String × Json) :=
  ("delta", .obj (opt "content" (x.content.map .str) ++ opt "reasoning_content" (x.reasoning.map .str))) ::
    opt "logprobs" (x.logprobs.map fun l => .obj [("content", .arr l)])

def Piece.event (x : Piece) : Json := .obj (("choices", .arr [.obj x.choice]) :: opt "system_fingerprint" x.fingerprint)

/-- The last event: the usage. -/
def Completion.last (m : Completion) : Json :=
  .obj (("choices", .arr []) :: (opt "usage" m.usage ++ opt "system_fingerprint" m.fingerprint))

/-- The pieces of a message, in order; the fingerprint is on any of them. -/
structure Cut (m : Completion) (pieces : List Piece) : Prop where
  content : String.join (pieces.map fun x => x.content.getD "") = m.content
  reasoning : String.join (pieces.map fun x => x.reasoning.getD "") = m.reasoning
  logprobs : pieces.flatMap (fun x => x.logprobs.getD []) = m.logprobs
  fingerprint : ∀ x ∈ pieces, x.fingerprint = none ∨ x.fingerprint = m.fingerprint

/-! ## The wire -/

/-- Where `str.splitlines` splits. -/
def isBreak (c : Char) : Bool := c.val ∈ [0x0A, 0x0B, 0x0C, 0x0D, 0x1C, 0x1D, 0x1E, 0x85, 0x2028, 0x2029]

/-- The lines of a text without `\r\n`. -/
def splitLines : List Char → List (List Char)
  | [] => [[]]
  | c :: cs =>
    if isBreak c then [] :: splitLines cs
    else
      match splitLines cs with
      | l :: rest => (c :: l) :: rest
      | [] => [[c]]

/-- The encoding of a response: of a text type without a charset it is ISO-8859-1. -/
inductive Encoding where
  | utf8
  | latin1
  | unknown
  deriving DecidableEq

/-- The characters that ISO-8859-1 has for the UTF-8 bytes of a text. -/
def latin1 (cs : List Char) : List Char := cs.flatMap fun c => (String.utf8EncodeChar c).map fun b => Char.ofNat b.toNat

/-- What `iter_lines` makes of a line that was sent. -/
def received (enc : Encoding) (s : String) : List Line :=
  match enc with
  | .utf8 => (splitLines s.toList).map fun l => .text (String.ofList l)
  | .latin1 => (splitLines (latin1 s.toList)).map fun l => .text (String.ofList l)
  | .unknown => [.bytes (s = "")]

/-- The line arrives as it was sent. -/
def Intact (enc : Encoding) (s : String) : Prop :=
  match enc with
  | .utf8 => ∀ c ∈ s.toList, isBreak c = false
  | .latin1 => ∀ c ∈ s.toList, c.toNat < 128 ∧ isBreak c = false
  | .unknown => False

theorem intact_of_all {s : String} (h : (s.toList.all fun c => !isBreak c) = true) : Intact .utf8 s := by
  intro c hc
  simpa using List.all_eq_true.1 h c hc

theorem splitLines_of {cs : List Char} (h : ∀ c ∈ cs, isBreak c = false) : splitLines cs = [cs] := by
  induction cs with
  | nil => rfl
  | cons c cs ih =>
    simp [splitLines, h c (.head _), ih fun d hd => h d (.tail _ hd)]

theorem latin1_of {cs : List Char} (h : ∀ c ∈ cs, c.toNat < 128) : latin1 cs = cs := by
  induction cs with
  | nil => rfl
  | cons c cs ih =>
    have hc := h c (.head _)
    have hv : c.toNat ≤ 127 := Nat.le_of_lt_succ hc
    have hm : c.toNat % 256 = c.toNat := Nat.mod_eq_of_lt (by omega)
    have hone : (String.utf8EncodeChar c).map (fun b => Char.ofNat b.toNat) = [c] := by
      simp [String.utf8EncodeChar, hv, hm]
    rw [latin1, List.flatMap_cons, hone]
    exact congrArg _ (ih fun d hd => h d (.tail _ hd))

theorem received_intact {enc : Encoding} {s : String} (h : Intact enc s) : received enc s = [.text s] := by
  cases enc with
  | utf8 => simp [received, splitLines_of h]
  | latin1 =>
    have hl : latin1 s.toList = s.toList := latin1_of fun c hc => (h c hc).1
    simp [received, hl, splitLines_of fun c hc => (h c hc).2]
  | unknown => exact h.elim

/-- A line of the server: blank, a comment, or an event with its JSON. -/
inductive Served where
  | blank
  | comment (s : String)
  | event (t : String)

def Served.line : Served → String
  | blank => ""
  | comment s => ":" ++ s
  | event t => "data: " ++ t

def Served.payload? : Served → Option String
  | event t => some t
  | _ => none

/-- A text is the JSON of an event, without white space around it. -/
def Serialises (lib : Streaming) (t : String) (chunk : Json) : Prop :=
  lib.payload t = .value chunk ∧ t ≠ "[DONE]" ∧ strip (" " ++ t) = t

/-! ## What arrives -/

theorem lineOf_event {t : String} {chunk : Json} (h : Serialises lib t chunk) : lineOf (.text (Served.event t).line) = .ok (.payload t) := by
  have hl : (Served.event t).line.toList = "data:".toList ++ (" " ++ t).toList := by
    simp [Served.line]
  have hp : "data:".toList <+: (Served.event t).line.toList := ⟨_, hl.symm⟩
  have hd : (Served.event t).line.toList.drop 5 = (" " ++ t).toList := by rw [hl]; rfl
  simp only [lineOf, hp, if_true, hd, String.ofList_toList, h.2.2, h.2.1, if_false]

theorem lineOf_other {x : Served} (h : x.payload? = none) : lineOf (.text x.line) = .ok .skip := by
  cases x with
  | blank => rfl
  | comment s =>
    have hl : (Served.comment s).line.toList = ':' :: s.toList := by simp [Served.line]
    have hp : ¬ "data:".toList <+: (Served.comment s).line.toList := by
      rw [hl]
      rintro ⟨rest, h⟩
      cases h
    simp only [lineOf, hp, if_false]
  | event t => cases h

/-- The events among the lines are read one after the other, the other lines are passed over. -/
theorem collect_served (ending : Ending) {served : List Served} (rest : List Line) {chunks : List Json} {p : Parts}
    (h : List.Forall₂ (Serialises lib) (served.filterMap Served.payload?) chunks) (hf : ∀ chunk ∈ chunks, EventFine chunk) :
    collect lib ending ((served.map fun x => .text x.line) ++ rest) p = collect lib ending rest (chunks.foldl Parts.add p) := by
  induction served generalizing chunks p with
  | nil =>
    cases h
    rfl
  | cons x served ih =>
    rw [List.map_cons, List.cons_append, collect]
    cases hx : x.payload? with
    | none =>
      rw [List.filterMap_cons_none hx] at h
      rw [lineOf_other hx]
      exact ih h hf
    | some t =>
      rw [List.filterMap_cons_some hx] at h
      obtain ⟨rfl⟩ : x = .event t := by
        cases x <;> cases hx
        rfl
      cases h with
      | @cons _ chunk _ chunks hs h =>
        rw [lineOf_event hs]
        simp only [hs.1, event_iff.2 ⟨hf chunk (.head _), rfl⟩]
        exact ih h fun c hc => hf c (.tail _ hc)

/-! ## What the pieces add up to -/

/-- The parts hold the content, the reasoning and the tokens of the pieces so far. -/
structure Parts.Sums (p : Parts) (content reasoning : String) (logprobs : List Json) : Prop where
  content : ∃ l, Texts p.content l ∧ String.join l = content
  reasoning : ∃ l, Texts p.reasoning l ∧ String.join l = reasoning
  logprobs : p.logprobs = logprobs

theorem event_choice (x : Piece) : firstChoice x.event = .obj x.choice := rfl

theorem deltaContent_choice (x : Piece) : deltaContent (.obj x.choice) = (x.content.map .str).getD .null := by
  obtain ⟨c, r, _, _⟩ := x
  cases c <;> cases r <;> rfl

theorem deltaReasoning_choice (x : Piece) : deltaReasoning (.obj x.choice) = Json.orElse ((x.reasoning.map .str).getD .null) .null := by
  obtain ⟨c, r, _, _⟩ := x
  cases c <;> cases r <;> rfl

theorem extension_arr (l : List Json) : extension (.arr l) = .ok l := by
  cases l <;> rfl

theorem deltaLogprobs_choice (x : Piece) : deltaLogprobs (.obj x.choice) = x.logprobs.getD [] := by
  obtain ⟨c, r, l, f⟩ := x
  cases l with
  | none => rfl
  | some l =>
    have hf : field (field (.obj (Piece.choice ⟨c, r, some l, f⟩)) "logprobs") "content" = .arr l := rfl
    simp only [deltaLogprobs, hf, extension_arr, Option.getD_some]

theorem event_fine (x : Piece) : EventFine x.event := by
  refine ⟨⟨_, rfl⟩, fun _ => ⟨x.choice, rfl, ⟨_, x.choice, rfl, rfl⟩, ?_⟩⟩
  obtain ⟨_, _, l, _⟩ := x
  cases l with
  | none => exact ⟨[], rfl, [], rfl⟩
  | some l => exact ⟨[("content", .arr l)], rfl, l, extension_arr l⟩

theorem appendIf_orElse (l : List Json) (v : Json) : appendIf l (v.orElse .null) = appendIf l v := by
  cases h : v.truthy with
  | true => rw [Json.orElse_truthy h]
  | false =>
    rw [Json.orElse_falsy h, appendIf_null]
    simp [appendIf, h]

theorem texts_appendIf {parts : List Json} {s : String} (v : Option String) (h : ∃ l, Texts parts l ∧ String.join l = s) :
    ∃ l, Texts (appendIf parts ((v.map .str).getD .null)) l ∧ String.join l = s ++ v.getD "" := by
  cases v with
  | none => simpa using h
  | some t =>
    obtain ⟨l, hl, hs⟩ := h
    by_cases ht : t = ""
    · subst ht
      exact ⟨l, hl, by simpa using hs⟩
    · refine ⟨l ++ [t], ?_, by simp [hs]⟩
      simp only [Option.map_some, Option.getD_some, appendIf, Json.truthy, ht, ne_eq, not_false_eq_true, decide_true, if_true]
      rw [Texts, List.map_append, hl]
      rfl

theorem add_sums {p : Parts} {c r : String} {t : List Json} (h : p.Sums c r t) (x : Piece) :
    (p.add x.event).Sums (c ++ x.content.getD "") (r ++ x.reasoning.getD "") (t ++ x.logprobs.getD []) := by
  obtain ⟨hc, hr, hl⟩ := h
  refine ⟨?_, ?_, ?_⟩
  · have := texts_appendIf x.content hc
    rwa [← deltaContent_choice] at this
  · have := texts_appendIf x.reasoning hr
    rwa [← appendIf_orElse, ← deltaReasoning_choice] at this
  · simp only [Parts.add, event_choice, deltaLogprobs_choice, hl]

theorem foldl_sums {p : Parts} {c r : String} {t : List Json} (pieces : List Piece) (h : p.Sums c r t) :
    ((pieces.map Piece.event).foldl Parts.add p).Sums (c ++ String.join (pieces.map fun x => x.content.getD ""))
      (r ++ String.join (pieces.map fun x => x.reasoning.getD "")) (t ++ pieces.flatMap fun x => x.logprobs.getD []) := by
  induction pieces generalizing p c r t with
  | nil => simpa using h
  | cons x pieces ih =>
    have := ih (add_sums h x)
    simpa [String.append_assoc, List.append_assoc] using this

theorem add_fingerprint (p : Parts) (x : Piece) : (p.add x.event).fingerprint = x.fingerprint.getD p.fingerprint := by
  obtain ⟨_, _, _, f⟩ := x
  cases f <;> rfl

theorem add_usage (p : Parts) (x : Piece) : (p.add x.event).usage = p.usage := by
  obtain ⟨_, _, _, f⟩ := x
  cases f <;> rfl

/-- No piece has the usage; of a message without a fingerprint none has one. -/
theorem foldl_rest {m : Completion} {pieces : List Piece} {p : Parts} (hx : ∀ x ∈ pieces, x.fingerprint = none ∨ x.fingerprint = m.fingerprint)
    (hp : m.fingerprint = none → p.fingerprint = .null) :
    ((pieces.map Piece.event).foldl Parts.add p).usage = p.usage ∧
      (m.fingerprint = none → ((pieces.map Piece.event).foldl Parts.add p).fingerprint = .null) := by
  induction pieces generalizing p with
  | nil => exact ⟨rfl, hp⟩
  | cons x pieces ih =>
    have hx' : m.fingerprint = none → (p.add x.event).fingerprint = .null := by
      intro hn
      have : x.fingerprint = none := (hx x (.head _)).elim id fun h => h.trans hn
      rw [add_fingerprint, this]
      exact hp hn
    have := ih (fun y hy => hx y (.tail _ hy)) hx'
    rwa [add_usage] at this

theorem last_fine (m : Completion) : EventFine m.last := ⟨⟨_, rfl⟩, fun h => (by cases h)⟩

theorem add_last (m : Completion) (p : Parts) :
    p.add m.last = ⟨p.content, p.reasoning, p.logprobs, (m.usage.getD .null).orElse p.usage, m.fingerprint.getD p.fingerprint⟩ := by
  obtain ⟨_, _, _, u, f⟩ := m
  cases u <;> cases f <;> simp [Parts.add, Completion.last, opt, field, List.lookup_cons, firstChoice]

/-- What a streamed message is gathered into. -/
structure Gathered (m : Completion) (p : Parts) : Prop where
  sums : p.Sums m.content m.reasoning m.logprobs
  usage : p.usage = (m.usage.getD .null).orElse .null
  fingerprint : p.fingerprint = m.fingerprint.getD .null

theorem gathered {m : Completion} {pieces : List Piece} (hm : Cut m pieces) :
    Gathered m ((pieces.map Piece.event ++ [m.last]).foldl Parts.add .init) := by
  have hs : Parts.init.Sums "" "" [] := ⟨⟨[], rfl, rfl⟩, ⟨[], rfl, rfl⟩, rfl⟩
  have hsum := foldl_sums pieces hs
  rw [hm.content, hm.reasoning, hm.logprobs, String.empty_append, String.empty_append, List.nil_append] at hsum
  obtain ⟨husage, hfp⟩ := foldl_rest (p := .init) hm.fingerprint fun _ => rfl
  rw [List.foldl_append, List.foldl_cons, List.foldl_nil, add_last]
  refine ⟨⟨hsum.content, hsum.reasoning, hsum.logprobs⟩, ?_, ?_⟩
  · simp only [husage]
    rfl
  · cases hf : m.fingerprint with
    | none => exact hfp hf
    | some f => rfl

/-! ## The same outcome -/

/-- Two results with the same text, parsed object, confidence with its source, fingerprint and counts; two failures
of one kind; or an exception in both. -/
def Agrees : Except Exc Outcome → Except Exc Outcome → Prop
  | .ok (.result r), .ok (.result r') =>
    r.text = r'.text ∧ r.parsed = r'.parsed ∧ r.confidence = r'.confidence ∧ r.versionFingerprint = r'.versionFingerprint ∧
      extractTotalTokens (.result r) = extractTotalTokens (.result r') ∧ extractNeurons (.result r) = extractNeurons (.result r')
  | .ok (.failure f), .ok (.failure f') => f = f'
  | .error _, .error _ => True
  | _, _ => False

/-- The usage is absent or an object; where there is no content, so are its details. -/
def UsageTyped (m : Completion) : Prop :=
  ∃ u, m.usage.getD (.obj []) = .obj u ∧ (m.content = "" → ∃ d, Sub (.obj u) "completion_tokens_details" d)

theorem body_usage (m : Completion) (d : Json) : m.body.get "usage" d = .ok (m.usage.getD d) := by
  obtain ⟨_, _, _, u, f⟩ := m
  cases u <;> cases f <;> rfl

theorem body_fingerprint (m : Completion) (d : Json) : m.body.get "system_fingerprint" d = .ok (m.fingerprint.getD d) := by
  obtain ⟨_, _, _, u, f⟩ := m
  cases u <;> cases f <;> rfl

theorem body_text (m : Completion) : compatText m.body = .ok (m.choice, .str m.content) := rfl

theorem choiceConfidence_body (m : Completion) (parsed : List (String × Json)) :
    choiceConfidence lib.toLibrary "cloudflare" m.choice parsed = confidenceOf lib.toLibrary (.arr m.logprobs) parsed := rfl

theorem usage_typed {m : Completion} {p : Parts} {u : List (String × Json)} (hp : Gathered m p)
    (hu : m.usage.getD (.obj []) = .obj u) : p.usage.orElse (.obj []) = .obj u := by
  rw [hp.usage]
  cases hm : m.usage with
  | none =>
    rw [hm] at hu
    exact hu
  | some v =>
    rw [hm] at hu
    cases hu
    cases u <;> rfl

/-- The counts are read of the usage. -/
theorem counts_of {r r' : LLMResult} {u : Json} (hr : r.provider = r'.provider) (hc : r.provider = "cloudflare") (ht : r.raw.truthy = true)
    (ht' : r'.raw.truthy = true) (hu : r.raw.get "usage" (.obj []) = .ok u) (hu' : r'.raw.get "usage" (.obj []) = .ok u) :
    extractTotalTokens (.result r) = extractTotalTokens (.result r') ∧ extractNeurons (.result r) = extractNeurons (.result r') := by
  have hg : ("cloudflare" = "gemini") = False := by simp
  simp only [extractTotalTokens, extractNeurons, ht, ht', ← hr, hc, hg, if_true, if_false, and_self, hu, hu']

theorem answer_agrees {m : Completion} {p : Parts} {parsed : List (String × Json)} (he : e.provider = "cloudflare") (hp : Gathered m p)
    (hu : UsageTyped m) :
    Agrees (p.answer lib e m.content parsed) (do
      let confidence ← choiceConfidence lib.toLibrary e.provider m.choice parsed
      let fingerprint ← m.body.get "system_fingerprint" .null
      return .result ⟨m.content, parsed, e.provider, e.model, e.tier, confidence, m.body, fingerprint⟩) := by
  obtain ⟨u, hu, -⟩ := hu
  obtain ⟨r, hr, -⟩ := hp.sums.reasoning
  have hjoin : join p.reasoning = .ok (String.join r) := join_iff.2 ⟨r, hr, rfl⟩
  have hconf : choiceConfidence lib.toLibrary e.provider m.choice parsed = confidenceOf lib.toLibrary (.arr m.logprobs) parsed := by
    rw [he, choiceConfidence_body]
  rw [Parts.answer, hp.sums.logprobs, hconf, hjoin, body_fingerprint]
  cases confidenceOf lib.toLibrary (.arr m.logprobs) parsed with
  | error err => trivial
  | ok c =>
    refine ⟨rfl, rfl, rfl, hp.fingerprint, ?_⟩
    refine counts_of (u := .obj u) rfl he rfl rfl ?_ (hu ▸ body_usage m _)
    simp only [Parts.raw, Json.get_obj, ← usage_typed hp hu]
    rfl

theorem read_agrees {m : Completion} {p : Parts} (he : e.provider = "cloudflare") (hp : Gathered m p) (hu : UsageTyped m) :
    Agrees (p.read lib e) (readCompat lib.toLibrary e m.body) := by
  obtain ⟨l, hl, hc⟩ := hp.sums.content
  obtain ⟨r, hr, -⟩ := hp.sums.reasoning
  have hjoin : join p.content = .ok m.content := join_iff.2 ⟨l, hl, hc.symm⟩
  have hbody := hu
  obtain ⟨u, hu, hd⟩ := hu
  rw [Parts.read, hjoin, readCompat, body_text]
  by_cases hs : m.content = ""
  · obtain ⟨d, hd⟩ := hd hs
    have husage : Sub m.body "usage" u := ⟨_, rfl, (Except.ok.inj (body_usage m _)).trans hu⟩
    obtain ⟨y, hy⟩ := reasoningTokens_succeeds.2 ⟨u, d, husage, hd⟩
    have hjr : join p.reasoning = .ok (String.join r) := join_iff.2 ⟨r, hr, rfl⟩
    simp [catchMissing, hs, hjr, hy, Json.truthy, bind, Except.bind, pure, Except.pure, Agrees]
  · have ht : (Json.str m.content).truthy = true := by simp [Json.truthy, hs]
    simp only [catchMissing, ht, if_true, bind, Except.bind, hs, if_false, withJson]
    cases extractJson lib.toLibrary m.content with
    | error err => trivial
    | ok found =>
      cases found with
      | none => rfl
      | some parsed => exact answer_agrees he hp hbody

/-! ## The stream -/

/-- The lines of a response that end in `[DONE]`; what follows is not read. -/
def sent (enc : Encoding) (served : List Served) (tail : List String) : List Line :=
  (served.map Served.line ++ "data: [DONE]" :: tail).flatMap (received enc)

/-- The lines of a response that breaks off. -/
def cutOff (enc : Encoding) (served : List Served) : List Line := (served.map Served.line).flatMap (received enc)

theorem cutOff_intact {enc : Encoding} {served : List Served} (h : ∀ x ∈ served, Intact enc x.line) :
    cutOff enc served = served.map fun x => .text x.line := by
  induction served with
  | nil => rfl
  | cons x served ih =>
    rw [cutOff, List.map_cons, List.flatMap_cons, received_intact (h x (.head _))]
    exact congrArg _ (ih fun y hy => h y (.tail _ hy))

theorem sent_intact {enc : Encoding} {served : List Served} {tail : List String} (hk : enc ≠ .unknown) (h : ∀ x ∈ served, Intact enc x.line) :
    sent enc served tail = (served.map fun x => .text x.line) ++ .text "data: [DONE]" :: tail.flatMap (received enc) := by
  have hd : Intact enc "data: [DONE]" := by
    cases enc with
    | utf8 => simp [Intact, isBreak]
    | latin1 => simp [Intact, isBreak]
    | unknown => exact absurd rfl hk
  rw [sent, List.flatMap_append, List.flatMap_cons, received_intact hd, ← cutOff_intact h]
  rfl

theorem readStream_agrees {m : Completion} {pieces : List Piece} {served : List Served} {tail : List String} {enc : Encoding} {ending : Ending}
    (he : e.provider = "cloudflare") (hm : Cut m pieces)
    (hs : List.Forall₂ (Serialises lib) (served.filterMap Served.payload?) (pieces.map Piece.event ++ [m.last]))
    (hk : enc ≠ .unknown) (hi : ∀ x ∈ served, Intact enc x.line) (hu : UsageTyped m) :
    Agrees (readStream lib e ⟨sent enc served tail, ending⟩) (readCompat lib.toLibrary e m.body) := by
  have hf : ∀ chunk ∈ pieces.map Piece.event ++ [m.last], EventFine chunk := by
    intro chunk hc
    rcases List.mem_append.1 hc with hc | hc
    · obtain ⟨x, -, rfl⟩ := List.mem_map.1 hc
      exact event_fine x
    · exact List.mem_singleton.1 hc ▸ last_fine m
  have hdone : lineOf (.text "data: [DONE]") = .ok .done := by decide
  rw [readStream, sent_intact hk hi, collect_served _ _ hs hf, collect, hdone]
  exact read_agrees he (gathered hm) hu

theorem answer_no_failure {p : Parts} {s : String} {parsed : List (String × Json)} {f : LLMFailure} :
    p.answer lib e s parsed ≠ .ok (.failure f) := by
  intro h
  obtain ⟨_, -, h⟩ := bind_eq_ok.1 h
  obtain ⟨_, -, h⟩ := bind_eq_ok.1 h
  cases h

/-- Texts end in a failure when they hold no JSON together. -/
theorem read_failure {p : Parts} {c r : String} {t : List Json} (hp : p.Sums c r t) :
    (∃ f, p.read lib e = .ok (.failure f)) ↔ HoldsNoJson lib.toLibrary c := by
  obtain ⟨l, hl, hc⟩ := hp.content
  obtain ⟨l', hr, -⟩ := hp.reasoning
  have hjoin : join p.content = .ok c := join_iff.2 ⟨l, hl, hc.symm⟩
  have hjr : join p.reasoning = .ok (String.join l') := join_iff.2 ⟨l', hr, rfl⟩
  rw [Parts.read, hjoin, ← extractJson_none]
  by_cases hs : c = ""
  · subst hs
    simp [hjr, bind, Except.bind, pure, Except.pure, extractJson, braces]
  · simp only [bind, Except.bind, hs, if_false, withJson]
    cases extractJson lib.toLibrary c with
    | error err => simp
    | ok found =>
      cases found with
      | none => simp [pure, Except.pure]
      | some parsed => simp [answer_no_failure]

/-- What is read of a response that breaks off: a failure, unless what has arrived holds JSON. -/
theorem cutOff_failure {pieces : List Piece} {served : List Served} {enc : Encoding} {ending : Ending}
    (hs : List.Forall₂ (Serialises lib) (served.filterMap Served.payload?) (pieces.map Piece.event)) (hi : ∀ x ∈ served, Intact enc x.line) :
    (∃ f, readStream lib e ⟨cutOff enc served, ending⟩ = .ok (.failure f)) ↔
      ending = .requestException ∨ ending = .finished ∧ HoldsNoJson lib.toLibrary (String.join (pieces.map fun x => x.content.getD "")) := by
  have hf : ∀ chunk ∈ pieces.map Piece.event, EventFine chunk := by
    intro chunk hc
    obtain ⟨x, -, rfl⟩ := List.mem_map.1 hc
    exact event_fine x
  have hinit : Parts.init.Sums "" "" [] := ⟨⟨[], rfl, rfl⟩, ⟨[], rfl, rfl⟩, rfl⟩
  have hsum := foldl_sums pieces hinit
  have hcollect := collect_served ending [] (p := .init) hs hf
  rw [String.empty_append] at hsum
  rw [List.append_nil] at hcollect
  rw [readStream, cutOff_intact hi, hcollect]
  cases ending with
  | finished => simpa [collect, bind, Except.bind] using read_failure hsum
  | requestException => simp [collect, bind, Except.bind, pure, Except.pure]
  | raised err => simp [collect, bind, Except.bind]

/-- The outcome of a plain request whose response breaks off: an exception of `requests`, or a body that is no JSON. -/
def Ending.whole : Ending → Http
  | .requestException => .requestException
  | _ => .response ⟨200, "", none⟩

theorem whole_failure {ending : Ending} : (∃ f, settle e (readCompat lib.toLibrary e) ending.whole = .ok (.failure f)) ↔ ending = .requestException := by
  cases ending <;> simp [Ending.whole, settle, statusFailure]

/-- The JSON of an event, for a content that needs no escape. -/
def eventText (content : String) : String := "\x7b\"choices\":[\x7b\"delta\":\x7b\"content\":\"" ++ content ++ "\"\x7d\x7d]\x7d"

def lastText : String := "\x7b\"choices\":[]\x7d"

/-- A message of one piece. -/
def plainMessage (content : String) : Completion := ⟨content, "", [], none, none⟩

def onePiece (content : String) : Piece := ⟨some content, none, none, none⟩

/-- `json.loads` of the events of a message, and of an empty object. -/
def messageLibrary (content : String) : Streaming where
  arithmetic := ⟨fun _ => none, fun _ => none⟩
  loads t := if t = "\x7b\x7d" then .object [] else .undecodable
  payload t :=
    if t = eventText content then .value (onePiece content).event
    else if t = lastText then .value (plainMessage content).last else .undecodable

theorem onePiece_cut (content : String) : Cut (plainMessage content) [onePiece content] :=
  ⟨by simp [onePiece, plainMessage], rfl, rfl, fun x hx => .inl (by rw [List.mem_singleton.1 hx]; rfl)⟩

def gemma : Entry := ⟨"cloudflare", "@cf/google/gemma-4-26b-a4b-it", .openaiCompat, .primary⟩

end Wardence.Backend
