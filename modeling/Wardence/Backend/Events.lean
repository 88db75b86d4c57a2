import Wardence.Backend.Stream
import Wardence.Backend.Total
/-!
# Which streams a call survives

The shapes of an event that the loop over a stream reads without raising, what the accumulators
hold after it, and that a streaming call returns, and is recorded, on these streams and on no others.
-/
namespace Wardence.Backend

open Py

variable {lib : Streaming} {e : Entry}

/-! ## Shapes -/

/-- The value under `k`, where anything without one has null. -/
def field (v : Json) (k : String) : Json :=
  match v with
  | .obj fields => (fields.lookup k).getD .null
  | _ => .null

def firstChoice (chunk : Json) : Json :=
  match field chunk "choices" with
  | .arr (choice :: _) => choice
  | _ => .null

def deltaContent (choice : Json) : Json := field (field choice "delta") "content"

def deltaReasoning (choice : Json) : Json :=
  (field (field choice "delta") "reasoning_content").orElse (field (field choice "delta") "reasoning")

/-- The tokens of a choice; a text or an object yields its characters or its keys. -/
def deltaLogprobs (choice : Json) : List Json :=
  match extension (field (field choice "logprobs") "content") with
  | .ok l => l
  | .error _ => []

/-- The first choice of an event. -/
def DeltaFine (choice : List (String × Json)) : Prop :=
  (∃ d, Sub (.obj choice) "delta" d) ∧ ∃ l, ((choice.lookup "logprobs").getD .null).orElse (.obj []) = .obj l ∧
    Succeeds (extension ((l.lookup "content").getD .null))

/-- An event: an object, with no choices or with an object as the first one. -/
def EventFine (chunk : Json) : Prop :=
  (∃ fields, chunk = .obj fields) ∧ ((field chunk "choices").truthy = true → ∃ choice, firstChoice chunk = .obj choice ∧ DeltaFine choice)

/-- What an event adds. -/
def Parts.add (p : Parts) (chunk : Json) : Parts where
  content := appendIf p.content (deltaContent (firstChoice chunk))
  reasoning := appendIf p.reasoning (deltaReasoning (firstChoice chunk))
  logprobs := p.logprobs ++ deltaLogprobs (firstChoice chunk)
  usage := (field chunk "usage").orElse p.usage
  fingerprint := match chunk with
    | .obj fields => (fields.lookup "system_fingerprint").getD p.fingerprint
    | _ => p.fingerprint

/-! ## One event -/

theorem field_sub {v : Json} {k : String} {o : List (String × Json)} (h : Sub v k o) (j : String) :
    field (field v k) j = (o.lookup j).getD .null := by
  obtain ⟨fields, rfl, ho⟩ := h
  cases hl : fields.lookup k with
  | none =>
    rw [hl] at ho
    cases ho
    simp [field, hl]
  | some a =>
    rw [hl] at ho
    cases ho
    simp [field, hl]

theorem field_orElse {v : Json} {o : List (String × Json)} (h : v.orElse (.obj []) = .obj o) (j : String) :
    field v j = (o.lookup j).getD .null := by
  cases hv : v.truthy with
  | true =>
    rw [Json.orElse_truthy hv] at h
    subst h
    rfl
  | false =>
    rw [Json.orElse_falsy hv] at h
    cases h
    cases v with
    | obj fields =>
      cases fields with
      | nil => rfl
      | cons f fields => cases hv
    | _ => rfl

theorem readDelta_iff {choice : Json} {x : Json × Json × List Json} :
    readDelta choice = .ok x ↔ ∃ c, choice = .obj c ∧ DeltaFine c ∧ x = (deltaReasoning choice, deltaContent choice, deltaLogprobs choice) := by
  constructor
  · intro h
    obtain ⟨delta, hd, h⟩ := bind_eq_ok.1 h
    obtain ⟨c, rfl, rfl⟩ := Json.get_ok_iff.1 hd
    obtain ⟨reasoningContent, hr, h⟩ := bind_eq_ok.1 h
    obtain ⟨d, hd, rfl⟩ := Json.get_ok_iff.1 hr
    have hsub : Sub (.obj c) "delta" d := ⟨c, rfl, hd⟩
    simp only [hd, Json.get_obj, bind_eq_ok, Except.ok.injEq, exists_eq_left'] at h
    obtain ⟨chunkLogprobs, hl, entries, he, h⟩ := h
    obtain ⟨l, hor, rfl⟩ := logprobsContent_iff.1 hl
    cases h
    refine ⟨c, rfl, ⟨⟨d, hsub⟩, l, hor, entries, he⟩, ?_⟩
    simp only [deltaReasoning, deltaContent, deltaLogprobs, field_sub hsub, field_orElse (v := field (.obj c) "logprobs") hor, he]
  · rintro ⟨c, rfl, ⟨⟨d, hsub⟩, l, hl, entries, he⟩, rfl⟩
    have hlc : logprobsContent (.obj c) = .ok ((l.lookup "content").getD .null) := logprobsContent_iff.2 ⟨l, hl, rfl⟩
    simp only [deltaReasoning, deltaContent, deltaLogprobs, field_sub hsub, field_orElse (v := field (.obj c) "logprobs") hl, he]
    obtain ⟨_, hc, hd⟩ := hsub
    cases hc
    simp only [readDelta, Json.get_obj, hd, hlc, bind_eq_ok, Except.ok.injEq, exists_eq_left']
    exact ⟨entries, he, rfl⟩

theorem firstChoice_falsy {chunk : Json} (h : (field chunk "choices").truthy = false) : firstChoice chunk = .null := by
  simp only [firstChoice]
  generalize field chunk "choices" = v at h
  cases v with
  | arr l => cases l with
    | nil => rfl
    | cons a l => cases h
  | _ => rfl

/-- An object comes first only in a list. -/
theorem first_choices_iff {chunk : Json} {c : List (String × Json)} :
    (field chunk "choices").first = .ok (.obj c) ↔ firstChoice chunk = .obj c := by
  simp only [firstChoice]
  cases field chunk "choices" with
  | arr l => cases l <;> simp [Json.first]
  | str s => cases h : s.toList <;> simp [Json.first, h]
  | _ => simp [Json.first]

@[simp] theorem deltaContent_null : deltaContent .null = .null := rfl
@[simp] theorem deltaReasoning_null : deltaReasoning .null = .null := rfl
@[simp] theorem deltaLogprobs_null : deltaLogprobs .null = [] := rfl
@[simp] theorem appendIf_null (l : List Json) : appendIf l .null = l := rfl

theorem event_iff {p q : Parts} {chunk : Json} : p.event chunk = .ok q ↔ EventFine chunk ∧ q = p.add chunk := by
  cases chunk with
  | obj fields =>
    have hfield : ∀ k, (Json.obj fields).get k .null = .ok (field (.obj fields) k) := fun k => rfl
    simp only [Parts.event, hfield, Json.get_obj, EventFine, Parts.add]
    cases ht : (field (.obj fields) "choices").truthy with
    | false => simp [bind, Except.bind, pure, Except.pure, ht, firstChoice_falsy ht, eq_comm]
    | true =>
      have hev : ∀ x, ((field (.obj fields) "choices").first >>= readDelta) = .ok x ↔ ∃ c, firstChoice (.obj fields) = .obj c ∧ DeltaFine c ∧
          x = (deltaReasoning (.obj c), deltaContent (.obj c), deltaLogprobs (.obj c)) := by
        intro x
        simp [bind_eq_ok, readDelta_iff, first_choices_iff]
      simp only [bind_eq_ok, Except.ok.injEq, exists_eq_left', ht, if_true, hev, pure, Except.pure, Json.obj.injEq, forall_const]
      constructor
      · rintro ⟨x, ⟨c, hc, hd, rfl⟩, rfl⟩
        exact ⟨⟨⟨fields, rfl⟩, c, hc, hd⟩, by rw [hc]⟩
      · rintro ⟨⟨-, c, hc, hd⟩, rfl⟩
        exact ⟨_, ⟨c, hc, hd, rfl⟩, by rw [hc]⟩
  | _ => exact iff_of_false (fun h => (by cases h)) fun ⟨⟨⟨_, h⟩, _⟩, _⟩ => by cases h

/-! ## The loop -/

/-- What the lines of a stream add up to; `none`: cut by a `RequestException`. -/
def gather (lib : Streaming) (ending : Ending) : List Line → Parts → Option Parts
  | [], p => if ending = .requestException then none else some p
  | line :: rest, p =>
    match lineOf line with
    | .ok .done => some p
    | .ok (.payload s) =>
      match lib.payload s with
      | .value chunk => gather lib ending rest (p.add chunk)
      | _ => gather lib ending rest p
    | _ => gather lib ending rest p

/-- Every line up to the end or to `[DONE]` is text or empty, and every event among them is fine. -/
def LinesFine (lib : Streaming) (ending : Ending) : List Line → Prop
  | [] => ending = .finished ∨ ending = .requestException
  | line :: rest =>
    match lineOf line with
    | .error _ => False
    | .ok .skip => LinesFine lib ending rest
    | .ok .done => True
    | .ok (.payload s) =>
      match lib.payload s with
      | .undecodable => LinesFine lib ending rest
      | .raised _ => False
      | .value chunk => EventFine chunk ∧ LinesFine lib ending rest

theorem collect_iff {ending : Ending} {lines : List Line} {p : Parts} {r : Option Parts} :
    collect lib ending lines p = .ok r ↔ LinesFine lib ending lines ∧ r = gather lib ending lines p := by
  induction lines generalizing p with
  | nil => cases ending <;> simp [collect, LinesFine, gather, eq_comm]
  | cons line rest ih =>
    simp only [collect, LinesFine, gather]
    cases hl : lineOf line with
    | error err => simp
    | ok event =>
      cases event with
      | skip => simpa using ih
      | done => simp [eq_comm]
      | payload s =>
        cases hp : lib.payload s with
        | undecodable => simpa only [hp] using ih
        | raised err => simp [hp]
        | value chunk => simp only [hp, bind_eq_ok, event_iff, ih, and_assoc, exists_and_left, exists_eq_left]

/-! ## The end of the stream -/

/-- Parts that are texts. -/
def Texts (parts : List Json) (l : List String) : Prop := parts = l.map .str

/-- What the end of a streaming call survives. -/
inductive PartsFine (lib : Streaming) (p : Parts) : Prop
  | empty {l r : List String} : Texts p.content l → String.join l = "" → Texts p.reasoning r → PartsFine lib p
  | noJson {l : List String} : Texts p.content l → String.join l ≠ "" → HoldsNoJson lib.toLibrary (String.join l) → PartsFine lib p
  | answer {l r : List String} {parsed u : List (String × Json)} :
    Texts p.content l → HoldsJson lib.toLibrary (String.join l) parsed → ContentFine lib.toLibrary (.arr p.logprobs) → Texts p.reasoning r →
    p.usage.orElse (.obj []) = .obj u → Stored u "total_tokens" → Stored u "neurons" → PartsFine lib p

def StreamFine (lib : Streaming) : StreamHttp → Prop
  | .response statusCode text stream =>
    if statusCode = 200 then
      LinesFine lib stream.ending stream.lines ∧ ∀ p, gather lib stream.ending stream.lines .init = some p → PartsFine lib p
    else Succeeds text
  | _ => True

/-- What a streaming call survives. -/
def StreamCallFine (lib : Streaming) (e : Entry) (c : StreamCall) : Prop :=
  e.provider ∈ STREAMING_CAPABLE_PROVIDERS ∧ e.format = .openaiCompat ∧
    (c.quotaExhausted = true ∨ c.keyPresent = true ∧ StreamFine lib c.http)

theorem textOf_iff {v : Json} {s : String} : textOf v = .ok s ↔ v = .str s := by
  cases v <;> simp [textOf]

theorem join_iff {parts : List Json} {s : String} : join parts = .ok s ↔ ∃ l, Texts parts l ∧ s = String.join l := by
  have texts : ∀ l, parts.mapM textOf = .ok l ↔ Texts parts l := by
    intro l
    simp only [mapM_ok_iff, textOf_iff, Texts]
    rw [← List.forall₂_map_right_iff, List.forall₂_eq_eq_eq]
  cases h : parts.mapM textOf with
  | ok l =>
    have hl := (texts l).1 h
    refine ⟨fun hj => ⟨l, hl, ?_⟩, ?_⟩
    · rw [join, h] at hj
      exact (Except.ok.inj hj).symm
    · rintro ⟨l', hl', rfl⟩
      rw [join, (texts l').2 hl']
      rfl
  | error err =>
    refine iff_of_false (fun hj => ?_) ?_
    · rw [join, h] at hj
      cases hj
    · rintro ⟨l, hl, -⟩
      rw [(texts l).2 hl] at h
      cases h

theorem raw_usage {p : Parts} {text : String} :
    UsageFine "cloudflare" (p.raw text) ↔ ∃ u, p.usage.orElse (.obj []) = .obj u ∧ Stored u "total_tokens" ∧ Stored u "neurons" := by
  have sub : ∀ u, Sub (p.raw text) "usage" u ↔ p.usage.orElse (.obj []) = .obj u := by
    intro u
    simp [Sub, Parts.raw, List.lookup_cons]
  have hg : ("cloudflare" = "gemini") = False := by simp
  simp only [UsageFine, hg, if_false, forall_const, CountFine, sub]
  constructor
  · rintro ⟨⟨u, hu, ht⟩, u', hu', hn⟩
    cases hu.symm.trans hu'
    exact ⟨u, hu, ht, hn⟩
  · rintro ⟨u, hu, ht, hn⟩
    exact ⟨⟨u, hu, ht⟩, u, hu, hn⟩

theorem answer_fine {p : Parts} {s : String} {parsed : List (String × Json)} (he : e.provider = "cloudflare") :
    (∃ o, p.answer lib e s parsed = .ok o ∧ Booked o) ↔ ContentFine lib.toLibrary (.arr p.logprobs) ∧ (∃ r, Texts p.reasoning r) ∧
      ∃ u, p.usage.orElse (.obj []) = .obj u ∧ Stored u "total_tokens" ∧ Stored u "neurons" := by
  have booked : ∀ c text, Booked (.result ⟨s, parsed, e.provider, e.model, e.tier, c, p.raw text, p.fingerprint⟩) ↔
      ∃ u, p.usage.orElse (.obj []) = .obj u ∧ Stored u "total_tokens" ∧ Stored u "neurons" := by
    intro c text
    rw [booked_result rfl]
    exact he ▸ raw_usage
  rw [← confidenceOf_succeeds parsed, Parts.answer]
  simp only [bind_fine, join_iff, pure, Except.pure, Except.ok.injEq, exists_eq_left', booked, Succeeds]
  constructor
  · rintro ⟨c, hc, _, ⟨r, hr, -⟩, hu⟩
    exact ⟨⟨c, hc⟩, ⟨r, hr⟩, hu⟩
  · rintro ⟨⟨c, hc⟩, ⟨r, hr⟩, hu⟩
    exact ⟨c, hc, _, ⟨r, hr, rfl⟩, hu⟩

theorem read_fine {p : Parts} (he : e.provider = "cloudflare") : (∃ o, p.read lib e = .ok o ∧ Booked o) ↔ PartsFine lib p := by
  rw [Parts.read, bind_fine]
  constructor
  · rintro ⟨text, ht, hgo⟩
    obtain ⟨l, hl, rfl⟩ := join_iff.1 ht
    by_cases hs : String.join l = ""
    · rw [if_pos hs] at hgo
      obtain ⟨_, hr, -⟩ := bind_fine.1 hgo
      obtain ⟨r, hr, -⟩ := join_iff.1 hr
      exact .empty hl hs hr
    · rw [if_neg hs] at hgo
      obtain ⟨s, hj, hn | ⟨parsed, hp, hgo⟩⟩ := withJson_fine.1 hgo
      · cases hj
        exact .noJson hl hs hn
      · cases hj
        obtain ⟨hc, ⟨r, hr⟩, u, hu, ht, hn⟩ := (answer_fine he).1 hgo
        exact .answer hl hp hc hr hu ht hn
  · intro hf
    cases hf with
    | empty hl hs hr =>
      refine ⟨_, join_iff.2 ⟨_, hl, rfl⟩, ?_⟩
      rw [if_pos hs]
      exact bind_fine.2 ⟨_, join_iff.2 ⟨_, hr, rfl⟩, _, rfl, booked_failure _⟩
    | noJson hl hs hn =>
      refine ⟨_, join_iff.2 ⟨_, hl, rfl⟩, ?_⟩
      rw [if_neg hs]
      exact withJson_fine.2 ⟨_, rfl, .inl hn⟩
    | @answer l _ _ _ hl hp hc hr hu ht hn =>
      have hs : String.join l ≠ "" := by
        intro hs
        rw [hs] at hp
        obtain ⟨t, ht, -⟩ := hp
        cases ht
      refine ⟨_, join_iff.2 ⟨_, hl, rfl⟩, ?_⟩
      rw [if_neg hs]
      exact withJson_fine.2 ⟨_, rfl, .inr ⟨_, hp, (answer_fine he).2 ⟨hc, ⟨_, hr⟩, _, hu, ht, hn⟩⟩⟩

/-! ## The streaming call -/

theorem settleStream_fine {h : StreamHttp} (he : e.provider = "cloudflare") :
    (∃ o, settleStream lib e h = .ok o ∧ Booked o) ↔ StreamFine lib h := by
  cases h with
  | timeout => simpa [settleStream, StreamFine] using booked_failure _
  | requestException => simpa [settleStream, StreamFine] using booked_failure _
  | response statusCode text stream =>
    by_cases hs : statusCode = 200
    · subst hs
      simp only [settleStream, statusFailure_none.2 rfl, StreamFine, if_true, readStream, bind_fine, collect_iff]
      cases hg : gather lib stream.ending stream.lines .init with
      | none => simpa using fun _ => ⟨_, rfl, booked_failure _⟩
      | some p => simpa using fun _ => read_fine he
    · cases hf : statusFailure e statusCode with
      | none => exact absurd (statusFailure_none.1 hf) hs
      | some f =>
        simp only [settleStream, hf, StreamFine, hs, if_false]
        cases text with
        | ok t => exact iff_of_true ⟨_, rfl, booked_failure f⟩ (succeeds_ok t)
        | error err => exact iff_of_false (fun ⟨_, h, _⟩ => (by cases h)) (not_succeeds_error err)

theorem callOneStreaming_total (lib : Streaming) (e : Entry) (c : StreamCall) :
    (callOneStreaming lib e c).Total ↔ StreamCallFine lib e c := by
  by_cases hs : e.provider ∈ STREAMING_CAPABLE_PROVIDERS ∧ e.format = .openaiCompat
  · have he : e.provider = "cloudflare" := List.mem_singleton.1 hs.1
    rw [callOneStreaming, if_pos hs, StreamCallFine, ← and_assoc, and_iff_right hs]
    cases hq : c.quotaExhausted with
    | true => simp [Called.Total]
    | false =>
      cases hk : c.keyPresent with
      | false => simp [Called.Total, Ran.record, callOpenaiCompatStreaming]
      | true => simpa [callOpenaiCompatStreaming, record_total] using settleStream_fine he
  · rw [callOneStreaming, if_neg hs]
    refine iff_of_false (fun h => ?_) fun h => hs ⟨h.1, h.2.1⟩
    obtain ⟨o, ho⟩ := h.1
    cases ho

/-- Which outcomes of its request a call survives, sent whole or read as a stream: it returns, and is recorded once
if the request was sent, on the ones in these shapes and on no others. -/
theorem calls_total (lib : Streaming) (e : Entry) :
    (∀ c, (callOne lib.toLibrary e c).Total ↔ CallFine lib.toLibrary e c) ∧
    ∀ c, (callOneStreaming lib e c).Total ↔ StreamCallFine lib e c :=
  ⟨callOne_total lib.toLibrary e, callOneStreaming_total lib e⟩

/-- `json.loads` of an empty object; nothing is computed of one. -/
def emptyObjects : Streaming where
  arithmetic := ⟨fun _ => none, fun _ => none⟩
  loads t := if t = "\x7b\x7d" then .object [] else .undecodable
  payload t := if t = "\x7b\x7d" then .value (.obj []) else .undecodable

/-- An answer with a usage of null: the call raises after its request was sent, and is not recorded. -/
theorem null_usage_raises :
    let message := Json.obj [("content", .str "\x7b\x7d")]
    let body := Json.obj [("choices", .arr [.obj [("message", message)]]), ("usage", .null)]
    ∃ e ∈ PROVIDER_CHAIN, ¬ (callOne emptyObjects.toLibrary e ⟨false, true, .response ⟨200, "", some body⟩, .timeout⟩).Total ∧
      callOne emptyObjects.toLibrary e ⟨false, true, .response ⟨200, "", some body⟩, .timeout⟩ = ⟨1, 0, .error .attribute⟩ := by
  refine ⟨⟨"deepinfra", "nvidia/Nemotron-3-Nano-30B-A3B", .openaiCompat, .primary⟩, by decide, fun h => ?_, rfl⟩
  obtain ⟨o, ho⟩ := h.1
  cases ho

end Wardence.Backend
