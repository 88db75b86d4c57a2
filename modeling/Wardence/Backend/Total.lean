import Wardence.Backend.Calls
/-!
# Which responses a call survives

The shapes of a response that the code reads without raising, in terms of the JSON alone, and
that a call returns, and is recorded, on these and on no others.
-/
namespace Wardence.Backend

open Py

variable {lib : Library} {e : Entry}

/-! ## Shapes -/

/-- The object under `k`, where a missing one counts as empty. -/
def Sub (v : Json) (k : String) (o : List (String × Json)) : Prop :=
  ∃ fields, v = .obj fields ∧ (fields.lookup k).getD (.obj []) = .obj o

/-- A text that holds JSON in braces. -/
def HoldsJson (lib : Library) (s : String) (parsed : List (String × Json)) : Prop :=
  ∃ t, braces s = some t ∧ lib.loads t = .object parsed

def HoldsNoJson (lib : Library) (s : String) : Prop :=
  braces s = none ∨ ∃ t, braces s = some t ∧ lib.loads t = .undecodable

/-- A count the database takes; a missing, null or zero one counts as 0. -/
def Stored (u : List (String × Json)) (count : String) : Prop := storable (((u.lookup count).getD .null).orElse zero) = true

def CountFine (raw : Json) (usage count : String) : Prop := ∃ u, Sub raw usage u ∧ Stored u count

/-- The usage that is read of a result of a provider. -/
def UsageFine (provider : String) (raw : Json) : Prop :=
  (if provider = "gemini" then CountFine raw "usageMetadata" "totalTokenCount" else CountFine raw "usage" "total_tokens") ∧
    (provider = "cloudflare" → CountFine raw "usage" "neurons")

/-- A number with an exponential in reach. -/
def ExpFine (lib : Library) (v : Json) : Prop := ∃ n, v.number? = some n ∧ (lib.arithmetic.exp n).isSome

/-- The log probability of a token. -/
def Logprob (t : Json) (n : Number) : Prop := ∃ fields v, t = .obj fields ∧ fields.lookup "logprob" = some v ∧ v.number? = some n

/-- Token by token, with a mean and an exponential in reach. -/
def TokensFine (lib : Library) (ts : List Json) : Prop :=
  ∃ numbers m, List.Forall₂ Logprob ts numbers ∧ lib.arithmetic.mean numbers = some m ∧ (lib.arithmetic.exp m).isSome

/-- The content of logprobs: nothing to read, or a list of tokens. -/
def ContentFine (lib : Library) (content : Json) : Prop :=
  content.truthy = false ∨ ∃ ts, content = .arr ts ∧ TokensFine lib ts

/-- The logprobs of a choice: absent, or an object. -/
def ChoiceFine (lib : Library) (choice : List (String × Json)) : Prop :=
  ∃ l, ((choice.lookup "logprobs").getD .null).orElse (.obj []) = .obj l ∧ ContentFine lib ((l.lookup "content").getD .null)

/-- A body that Gemini's reader survives. -/
inductive GeminiFine (lib : Library) (data : Json) : Prop
  | missing : Missing (candidatePath ++ partPath) data → GeminiFine lib data
  | noJson {s : String} : Found (candidatePath ++ partPath) data (.str s) → HoldsNoJson lib s → GeminiFine lib data
  | answer {candidate : List (String × Json)} {s : String} {parsed : List (String × Json)} :
    Found candidatePath data (.obj candidate) → Found partPath (.obj candidate) (.str s) → HoldsJson lib s parsed →
    ((candidate.lookup "avgLogprobs").getD .null = .null ∨ ExpFine lib ((candidate.lookup "avgLogprobs").getD .null)) →
    UsageFine "gemini" data → GeminiFine lib data

/-- A body that the reader of the other providers survives. -/
inductive CompatFine (lib : Library) (provider : String) (data : Json) : Prop
  | missing : Missing (choicePath ++ [.key "message"]) data → CompatFine lib provider data
  | empty {m u d : List (String × Json)} :
    Found (choicePath ++ [.key "message"]) data (.obj m) → ((m.lookup "content").getD .null).truthy = false →
    Sub data "usage" u → Sub (.obj u) "completion_tokens_details" d → CompatFine lib provider data
  | noJson {m : List (String × Json)} {s : String} :
    Found (choicePath ++ [.key "message"]) data (.obj m) → m.lookup "content" = some (.str s) → s ≠ "" →
    HoldsNoJson lib s → CompatFine lib provider data
  | answer {choice m : List (String × Json)} {s : String} {parsed : List (String × Json)} :
    Found choicePath data (.obj choice) → choice.lookup "message" = some (.obj m) → m.lookup "content" = some (.str s) →
    HoldsJson lib s parsed → (requestLogprobs provider = true → ChoiceFine lib choice) →
    UsageFine provider data → CompatFine lib provider data

/-- The request failed, the status tells of a failure, or the body is JSON of a shape. -/
def HttpFine (shape : Json → Prop) : Http → Prop
  | .response r => r.statusCode = 200 → ∃ data, r.json = some data ∧ shape data
  | _ => True

/-- What a call survives. -/
def CallFine (lib : Library) (e : Entry) (c : Call) : Prop :=
  c.quotaExhausted = true ∨ c.keyPresent = true ∧
    match e.format with
    | .geminiNative => HttpFine (GeminiFine lib) (if c.first.refusesLogprobs then c.second else c.first)
    | .openaiCompat => HttpFine (CompatFine lib e.provider) c.first

/-! ## The readers, piece by piece -/

/-- `v.get(k, {}).get(j)` succeeds with `y`. -/
theorem getGet_iff {v y d : Json} {k j : String} :
    (v.get k (.obj []) >>= fun u => u.get j d) = .ok y ↔ ∃ u, Sub v k u ∧ y = (u.lookup j).getD d := by
  rw [bind_eq_ok]
  constructor
  · rintro ⟨u, hu, hy⟩
    obtain ⟨o, rfl, rfl⟩ := Json.get_ok_iff.1 hy
    obtain ⟨fields, rfl, hx⟩ := Json.get_ok_iff.1 hu
    exact ⟨o, ⟨fields, rfl, hx.symm⟩, rfl⟩
  · rintro ⟨u, ⟨fields, rfl, hx⟩, rfl⟩
    exact ⟨.obj u, by rw [Json.get_obj, hx], rfl⟩

theorem extractJson_some {s : String} {parsed : List (String × Json)} :
    extractJson lib s = .ok (some parsed) ↔ HoldsJson lib s parsed := by
  simp only [extractJson, HoldsJson]
  cases hb : braces s with
  | none => simp
  | some t => cases hl : lib.loads t <;> simp [hl]

theorem extractJson_none {s : String} : extractJson lib s = .ok none ↔ HoldsNoJson lib s := by
  simp only [extractJson, HoldsNoJson]
  cases hb : braces s with
  | none => simp
  | some t => cases hl : lib.loads t <;> simp [hl]

theorem logprob_iff {t : Json} {n : Number} : logprob t = .ok n ↔ Logprob t n := by
  simp only [logprob, bind_eq_ok, Json.key_ok_iff, Logprob]
  constructor
  · rintro ⟨v, ⟨fields, rfl, hv⟩, hn⟩
    refine ⟨fields, v, rfl, hv, ?_⟩
    cases h : v.number? with
    | none =>
      rw [h] at hn
      cases hn
    | some m =>
      rw [h] at hn
      exact congrArg some (Except.ok.inj hn)
  · rintro ⟨fields, v, rfl, hv, hn⟩
    exact ⟨v, ⟨fields, rfl, hv⟩, by rw [hn]; rfl⟩

theorem expMean_succeeds {ts : List Json} : Succeeds (expMean lib ts) ↔ TokensFine lib ts := by
  simp only [expMean, succeeds_bind, mapM_ok_iff, logprob_iff, TokensFine]
  refine exists_congr fun numbers => ?_
  cases hm : lib.arithmetic.mean numbers with
  | none => simp
  | some m => cases he : lib.arithmetic.exp m <;> simp [he]

theorem mathExp_succeeds {v : Json} : Succeeds (mathExp lib v) ↔ ExpFine lib v := by
  simp only [mathExp, ExpFine]
  cases hv : v.number? with
  | none => simp
  | some n => cases he : lib.arithmetic.exp n <;> simp [he]

/-- Only a list can be read token by token. -/
theorem tokens_of_truthy {v : Json} (hv : v.truthy = true) :
    Succeeds (v.items >>= expMean lib) ↔ ∃ ts, v = .arr ts ∧ TokensFine lib ts := by
  -- the items of a text, and those of an object, are texts
  have chars : ∀ s l, ¬ Succeeds (expMean lib (Json.str s :: l)) := by
    rintro s l ⟨a, h⟩
    obtain ⟨numbers, hm, -⟩ := bind_eq_ok.1 h
    cases mapM_ok_iff.1 hm with
    | cons h _ => cases h
  cases v with
  | arr ts =>
    rw [succeeds_bind]
    simp [Json.items, expMean_succeeds]
  | str s =>
    cases hs : s.toList with
    | nil => simp [Json.truthy, String.toList_eq_nil_iff.1 hs] at hv
    | cons c cs =>
      refine iff_of_false (fun h => ?_) (by simp)
      obtain ⟨l, hl, h⟩ := succeeds_bind.1 h
      simp only [Json.items, hs, List.map_cons, Except.ok.injEq] at hl
      exact chars _ _ (hl ▸ h)
  | obj fields =>
    cases fields with
    | nil => cases hv
    | cons f fields =>
      refine iff_of_false (fun h => ?_) (by simp)
      obtain ⟨l, hl, h⟩ := succeeds_bind.1 h
      simp only [Json.items, List.map_cons, Except.ok.injEq] at hl
      exact chars _ _ (hl ▸ h)
  | _ =>
    refine iff_of_false (fun h => ?_) (by simp)
    obtain ⟨l, hl, -⟩ := succeeds_bind.1 h
    cases hl

theorem confidenceOf_succeeds {content : Json} (parsed : List (String × Json)) :
    Succeeds (confidenceOf lib content parsed) ↔ ContentFine lib content := by
  cases hc : content.truthy with
  | false => simp [confidenceOf, ContentFine, hc]
  | true =>
    simp only [confidenceOf, ContentFine, hc, if_true, succeeds_map, reduceCtorEq, false_or]
    exact tokens_of_truthy hc

/-- `(choice.get("logprobs") or {}).get("content")`, read token by token. -/
theorem logprobsContent_iff {choice : List (String × Json)} {content : Json} :
    logprobsContent (.obj choice) = .ok content ↔
      ∃ l, ((choice.lookup "logprobs").getD .null).orElse (.obj []) = .obj l ∧ content = (l.lookup "content").getD .null := by
  simp only [logprobsContent, Json.get_obj, bind_eq_ok, Except.ok.injEq, exists_eq_left', Json.get_ok_iff]

theorem choiceConfidence_succeeds {provider : String} {choice parsed : List (String × Json)} :
    Succeeds (choiceConfidence lib provider (.obj choice) parsed) ↔ (requestLogprobs provider = true → ChoiceFine lib choice) := by
  cases hp : requestLogprobs provider with
  | false => simp [choiceConfidence, hp, succeeds_bind, confidenceOf_succeeds, ContentFine, Json.truthy]
  | true =>
    simp only [choiceConfidence, hp, if_true, forall_const, ChoiceFine, succeeds_bind, logprobsContent_iff, confidenceOf_succeeds]
    constructor
    · rintro ⟨_, ⟨l, hl, rfl⟩, h⟩
      exact ⟨l, hl, h⟩
    · rintro ⟨l, hl, h⟩
      exact ⟨_, ⟨l, hl, rfl⟩, h⟩

/-! ## Recording -/

/-- The usage of an outcome can be read and stored. -/
def Booked (o : Outcome) : Prop :=
  (∃ t, extractTotalTokens o = .ok t ∧ storable t = true) ∧ ∃ n, extractNeurons o = .ok n ∧ storable n = true

theorem booked_failure (f : LLMFailure) : Booked (.failure f) := ⟨⟨zero, rfl, rfl⟩, zero, rfl, rfl⟩

/-- `v.get(usage, {}).get(count) or 0`, and stored. -/
theorem count_iff {raw : Json} {usage count : String} :
    (∃ t, (do
      let u ← raw.get usage (.obj [])
      return (← u.get count .null).orElse zero : Except Exc Json) = .ok t ∧ storable t = true) ↔ CountFine raw usage count := by
  constructor
  · rintro ⟨t, ht, hs⟩
    obtain ⟨u, hu, ht⟩ := bind_eq_ok.1 ht
    obtain ⟨x, hx, ht⟩ := bind_eq_ok.1 ht
    obtain ⟨o, ho, rfl⟩ := getGet_iff.1 (bind_eq_ok.2 ⟨u, hu, hx⟩)
    cases ht
    exact ⟨o, ho, hs⟩
  · rintro ⟨o, ⟨fields, rfl, ho⟩, hs⟩
    exact ⟨_, by rw [Json.get_obj, ho]; rfl, hs⟩

theorem booked_result {r : LLMResult} (hr : r.raw.truthy = true) : Booked (.result r) ↔ UsageFine r.provider r.raw := by
  refine and_congr ?_ ?_
  · by_cases hp : r.provider = "gemini"
    · rw [if_pos hp, ← count_iff]
      simp only [extractTotalTokens, hr, if_true, hp]
    · rw [if_neg hp, ← count_iff]
      simp only [extractTotalTokens, hr, if_true, hp, if_false]
  · by_cases hp : r.provider = "cloudflare"
    · rw [forall_prop_of_true hp, ← count_iff]
      simp only [extractNeurons, hr, hp, and_self, if_true]
    · simp [extractNeurons, hp, storable, zero]

/-- A call returns, and is recorded, when it has an outcome of which the usage can be stored. -/
theorem record_total {n : Nat} {x : Except Exc Outcome} :
    (Ran.record ⟨n, x⟩).Total ↔ ∃ o, x = .ok o ∧ Booked o := by
  cases x with
  | error err => simp [Ran.record, Called.Total]
  | ok o =>
    simp only [Except.ok.injEq, exists_eq_left', Booked]
    cases ht : extractTotalTokens o with
    | error err => simp [Ran.record, Called.Total, ht]
    | ok t =>
      cases hn : extractNeurons o with
      | error err => simp [Ran.record, Called.Total, ht, hn]
      | ok n => by_cases h : storable t = true ∧ storable n = true <;> simp [Ran.record, Called.Total, ht, hn, h]

/-! ## Bodies -/

theorem bind_fine {α : Type} {x : Except Exc α} {f : α → Except Exc Outcome} :
    (∃ o, (x >>= f) = .ok o ∧ Booked o) ↔ ∃ a, x = .ok a ∧ ∃ o, f a = .ok o ∧ Booked o := by
  cases x <;> simp [bind, Except.bind]

theorem catchMissing_fine {α : Type} {f : LLMFailure} {x : Except Exc α} {go : α → Except Exc Outcome} :
    (∃ o, catchMissing f x go = .ok o ∧ Booked o) ↔
      (∃ err, x = .error err ∧ err.lookup = true) ∨ ∃ a, x = .ok a ∧ ∃ o, go a = .ok o ∧ Booked o := by
  cases x with
  | ok a => simp [catchMissing]
  | error err =>
    cases h : err.lookup with
    | true => simpa [catchMissing, h] using booked_failure f
    | false => simp [catchMissing, h]

theorem withJson_fine {f : LLMFailure} {text : Json} {go : String → List (String × Json) → Except Exc Outcome} :
    (∃ o, withJson lib f text go = .ok o ∧ Booked o) ↔
      ∃ s, text = .str s ∧ (HoldsNoJson lib s ∨ ∃ parsed, HoldsJson lib s parsed ∧ ∃ o, go s parsed = .ok o ∧ Booked o) := by
  cases text with
  | str s =>
    simp only [withJson, Json.str.injEq, exists_eq_left', ← extractJson_none, ← extractJson_some]
    cases h : extractJson lib s with
    | error err => simp [bind, Except.bind]
    | ok found =>
      cases found with
      | none => simpa [bind, Except.bind, pure, Except.pure] using booked_failure f
      | some parsed => simp [bind, Except.bind]
  | _ => simp [withJson]

/-- The end of both readers: the confidence, the fingerprint and the result. -/
theorem finish_fine {x : Except Exc (Option Confidence)} {k j provider : String} {rest : List Step} {data found : Json}
    {mk : Option Confidence → Json → LLMResult} (hd : Found (.key j :: rest) data found)
    (hmk : ∀ c f, (mk c f).raw = data ∧ (mk c f).provider = provider) :
    (∃ o, (do
      let confidence ← x
      let fingerprint ← data.get k .null
      return .result (mk confidence fingerprint) : Except Exc Outcome) = .ok o ∧ Booked o) ↔ Succeeds x ∧ UsageFine provider data := by
  have booked : ∀ c f, Booked (.result (mk c f)) ↔ UsageFine provider data := by
    intro c f
    rw [booked_result (by rw [(hmk c f).1]; exact hd.truthy), (hmk c f).1, (hmk c f).2]
  obtain ⟨fields, _, rfl, -, -⟩ := found_key_iff.1 hd
  cases x with
  | error err => simp [bind, Except.bind]
  | ok c => simp [bind, Except.bind, pure, Except.pure, booked]

theorem geminiText_ok {data candidate text : Json} :
    geminiText data = .ok (candidate, text) ↔ Found candidatePath data candidate ∧ Found partPath candidate text := by
  simp [geminiText, bind_eq_ok, readPath_ok_iff, pure, Except.pure]

theorem geminiText_missing {data : Json} :
    (∃ err, geminiText data = .error err ∧ err.lookup = true) ↔ Missing (candidatePath ++ partPath) data := by
  simp [← readPath_missing_iff, geminiText, readPath_append, bind_eq_error, pure, Except.pure]

theorem geminiConfidence_succeeds {candidate parsed : List (String × Json)} :
    Succeeds (geminiConfidence lib (.obj candidate) parsed) ↔
      (candidate.lookup "avgLogprobs").getD .null = .null ∨ ExpFine lib ((candidate.lookup "avgLogprobs").getD .null) := by
  simp only [geminiConfidence, Json.get_obj]
  generalize (candidate.lookup "avgLogprobs").getD .null = v
  cases v with
  | null => simp [bind, Except.bind]
  | _ =>
    rw [← mathExp_succeeds]
    simp [Succeeds, bind_eq_ok, pure, Except.pure]

theorem readGemini_fine {data : Json} : (∃ o, readGemini lib e data = .ok o ∧ Booked o) ↔ GeminiFine lib data := by
  rw [readGemini, catchMissing_fine, geminiText_missing]
  constructor
  · rintro (hm | ⟨⟨candidate, text⟩, ha, hgo⟩)
    · exact .missing hm
    obtain ⟨hc, ht⟩ := geminiText_ok.1 ha
    obtain ⟨s, rfl, hn | ⟨parsed, hp, hgo⟩⟩ := withJson_fine.1 hgo
    · exact .noJson (hc.append ht) hn
    obtain ⟨fields, _, rfl, -, -⟩ := found_key_iff.1 ht
    obtain ⟨hconf, hu⟩ := (finish_fine hc (by exact fun _ _ => ⟨rfl, rfl⟩)).1 hgo
    exact .answer hc ht hp (geminiConfidence_succeeds.1 hconf) hu
  · intro hf
    cases hf with
    | missing hm => exact .inl hm
    | noJson hf hn =>
      obtain ⟨candidate, hc, ht⟩ := hf.of_append
      exact .inr ⟨_, geminiText_ok.2 ⟨hc, ht⟩, withJson_fine.2 ⟨_, rfl, .inl hn⟩⟩
    | answer hc ht hp hl hu =>
      refine .inr ⟨_, geminiText_ok.2 ⟨hc, ht⟩, withJson_fine.2 ⟨_, rfl, .inr ⟨_, hp, ?_⟩⟩⟩
      exact (finish_fine hc (by exact fun _ _ => ⟨rfl, rfl⟩)).2 ⟨geminiConfidence_succeeds.2 hl, hu⟩

theorem compatText_ok {data choice text : Json} :
    compatText data = .ok (choice, text) ↔
      Found choicePath data choice ∧ ∃ m, Found [.key "message"] choice (.obj m) ∧ text = (m.lookup "content").getD .null := by
  simp only [compatText, bind_eq_ok, readPath_ok_iff, Json.key_ok_iff, Json.get_ok_iff, found_key_iff, found_nil_iff, pure, Except.pure]
  constructor
  · rintro ⟨_, hc, _, ⟨fields, rfl, hm⟩, _, ⟨m, rfl, rfl⟩, h⟩
    cases h
    exact ⟨hc, m, ⟨fields, _, rfl, hm, rfl⟩, rfl⟩
  · rintro ⟨hc, m, ⟨fields, _, rfl, hm, rfl⟩, rfl⟩
    exact ⟨_, hc, _, ⟨fields, rfl, hm⟩, _, ⟨m, rfl, rfl⟩, rfl⟩

theorem compatText_missing {data : Json} :
    (∃ err, compatText data = .error err ∧ err.lookup = true) ↔ Missing (choicePath ++ [.key "message"]) data := by
  have get : ∀ (v : Json) err, v.get "content" .null = .error err → err.lookup = false := by
    intro v err h
    cases v with
    | obj fields => cases h
    | _ =>
      cases h
      rfl
  rw [← readPath_missing_iff]
  refine exists_congr fun err => and_congr_left fun hl => ?_
  simp only [compatText, readPath_append, bind_eq_error, readPath_cons, Step.read, readPath_nil, pure, Except.pure, reduceCtorEq, and_false,
    exists_false, or_false]
  refine or_congr_right (exists_congr fun choice => and_congr_right fun _ => or_iff_left ?_)
  rintro ⟨m, -, h⟩
  rw [get m err h] at hl
  cases hl

theorem reasoningTokens_succeeds {data : Json} :
    Succeeds (reasoningTokens data) ↔ ∃ u d, Sub data "usage" u ∧ Sub (.obj u) "completion_tokens_details" d := by
  constructor
  · rintro ⟨y, h⟩
    obtain ⟨v, hv, h⟩ := bind_eq_ok.1 h
    obtain ⟨d, hd, -⟩ := getGet_iff.1 h
    obtain ⟨u, rfl, hu⟩ := hd
    obtain ⟨fields, rfl, hx⟩ := Json.get_ok_iff.1 hv
    exact ⟨u, d, ⟨fields, rfl, hx.symm⟩, u, rfl, hu⟩
  · rintro ⟨u, d, ⟨fields, rfl, hu⟩, hd⟩
    obtain ⟨y, h⟩ : ∃ y, ((Json.obj u).get "completion_tokens_details" (.obj []) >>= fun v => v.get "reasoning_tokens" .null) = .ok y :=
      ⟨_, getGet_iff.2 ⟨d, hd, rfl⟩⟩
    exact ⟨y, by rw [reasoningTokens, Json.get_obj, hu]; exact h⟩

theorem readCompat_fine {data : Json} : (∃ o, readCompat lib e data = .ok o ∧ Booked o) ↔ CompatFine lib e.provider data := by
  rw [readCompat, catchMissing_fine, compatText_missing]
  constructor
  · rintro (hm | ⟨⟨choice, text⟩, ha, hgo⟩)
    · exact .missing hm
    obtain ⟨hc, m, hm, rfl⟩ := compatText_ok.1 ha
    obtain ⟨fields, _, rfl, hl, hn⟩ := found_key_iff.1 hm
    cases found_nil_iff.1 hn
    cases ht : ((m.lookup "content").getD .null).truthy with
    | false =>
      simp only [ht, reduceCtorEq, if_false] at hgo
      obtain ⟨o, ho, -⟩ := hgo
      obtain ⟨y, hy, -⟩ := bind_eq_ok.1 ho
      obtain ⟨u, d, hu, hd⟩ := reasoningTokens_succeeds.1 ⟨y, hy⟩
      exact .empty (hc.append hm) ht hu hd
    | true =>
      simp only [ht, if_true] at hgo
      obtain ⟨s, hs, hgo⟩ := withJson_fine.1 hgo
      have hcontent : m.lookup "content" = some (.str s) := by
        cases h : m.lookup "content" with
        | none => rw [h] at hs; cases hs
        | some v => rw [h] at hs; exact congrArg some hs
      rcases hgo with hn | ⟨parsed, hp, hgo⟩
      · refine .noJson (hc.append hm) hcontent ?_ hn
        rintro rfl
        rw [hs] at ht
        cases ht
      obtain ⟨hconf, hu⟩ := (finish_fine hc (by exact fun _ _ => ⟨rfl, rfl⟩)).1 hgo
      exact .answer hc hl hcontent hp (choiceConfidence_succeeds.1 hconf) hu
  · intro hf
    cases hf with
    | missing hm => exact .inl hm
    | empty hf ht hu hd =>
      obtain ⟨choice, hc, hm⟩ := hf.of_append
      obtain ⟨y, hy⟩ := reasoningTokens_succeeds.2 ⟨_, _, hu, hd⟩
      refine .inr ⟨_, compatText_ok.2 ⟨hc, _, hm, rfl⟩, .failure ⟨e.provider, e.model, .badResponse⟩, ?_, booked_failure _⟩
      simp only [ht, reduceCtorEq, if_false]
      exact bind_eq_ok.2 ⟨y, hy, rfl⟩
    | noJson hf hl hs hn =>
      obtain ⟨choice, hc, hm⟩ := hf.of_append
      refine .inr ⟨_, compatText_ok.2 ⟨hc, _, hm, rfl⟩, ?_⟩
      simp only [hl, Option.getD_some, Json.truthy, hs, ne_eq, not_false_eq_true, decide_true, if_true]
      exact withJson_fine.2 ⟨_, rfl, .inl hn⟩
    | @answer choice m s parsed hc hl hcontent hp hconf hu =>
      refine .inr ⟨_, compatText_ok.2 ⟨hc, m, .key hl .nil, rfl⟩, ?_⟩
      have hs : s ≠ "" := by
        rintro rfl
        obtain ⟨t, ht, -⟩ := hp
        cases ht
      simp only [hcontent, Option.getD_some, Json.truthy, hs, ne_eq, not_false_eq_true, decide_true, if_true]
      refine withJson_fine.2 ⟨_, rfl, .inr ⟨_, hp, ?_⟩⟩
      exact (finish_fine hc (by exact fun _ _ => ⟨rfl, rfl⟩)).2 ⟨choiceConfidence_succeeds.2 hconf, hu⟩

/-! ## The call -/

theorem statusFailure_none {statusCode : Int} : statusFailure e statusCode = none ↔ statusCode = 200 := by
  simp only [statusFailure]
  split_ifs <;> simp_all

theorem settle_fine {read : Json → Except Exc Outcome} {shape : Json → Prop} {h : Http}
    (hread : ∀ data, (∃ o, read data = .ok o ∧ Booked o) ↔ shape data) :
    (∃ o, settle e read h = .ok o ∧ Booked o) ↔ HttpFine shape h := by
  cases h with
  | timeout => simpa [settle, HttpFine] using booked_failure _
  | requestException => simpa [settle, HttpFine] using booked_failure _
  | response r =>
    cases hf : statusFailure e r.statusCode with
    | some f =>
      have hs : r.statusCode ≠ 200 := fun hs => by rw [statusFailure_none.2 hs] at hf; cases hf
      simpa [settle, hf, HttpFine, hs] using booked_failure f
    | none =>
      have hs := statusFailure_none.1 hf
      cases hj : r.json with
      | none => simp [settle, statusFailure_none.2, hj, HttpFine, hs]
      | some data => simp [settle, statusFailure_none.2, hj, HttpFine, hs, hread]

theorem callOne_total (lib : Library) (e : Entry) (c : Call) : (callOne lib e c).Total ↔ CallFine lib e c := by
  cases hq : c.quotaExhausted with
  | true => simp [callOne, CallFine, Called.Total, hq]
  | false =>
    cases hk : c.keyPresent with
    | false =>
      cases hf : e.format <;>
        simp [callOne, CallFine, Called.Total, Ran.record, callGemini, callOpenaiCompat, hq, hk, hf]
    | true =>
      cases hf : e.format with
      | geminiNative =>
        simp only [callOne, CallFine, callGemini, hq, hk, hf, if_true, reduceCtorEq, if_false, false_or, true_and]
        cases hl : c.first.refusesLogprobs <;>
          simpa [hl, record_total] using settle_fine fun data => readGemini_fine
      | openaiCompat =>
        simp only [callOne, CallFine, callOpenaiCompat, hq, hk, hf, if_true, reduceCtorEq, if_false, false_or, true_and, record_total]
        exact settle_fine fun data => readCompat_fine

end Wardence.Backend
