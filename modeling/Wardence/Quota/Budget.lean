import Mathlib.Tactic.Linarith
import Wardence.Quota.Calls
/-!
# The daily budget

What the gate of `check_quota` keeps true of `provider_quota_usage`, over invocations one
after another and across midnight: an invocation checked on one day may be recorded on the
next, of which nothing is recorded yet.
-/
namespace Wardence.Quota

/-- One after another: each is checked after the one before it was recorded. -/
def InOrder : Nat → List Call → Prop
  | _, [] => True
  | t, c :: cs => t ≤ c.checkedAt ∧ c.checkedAt ≤ c.recordedAt ∧ InOrder c.recordedAt cs

/-- No answer reports more than the gate keeps in reserve. -/
def Call.WithinReserve (c : Call) : Prop := ∀ h ∈ c.requests, h.reported.2 ≤ CLOUDFLARE_NEURON_SAFETY_THRESHOLD

instance (c : Call) : Decidable c.WithinReserve :=
  inferInstanceAs (Decidable (∀ h ∈ c.requests, h.reported.2 ≤ CLOUDFLARE_NEURON_SAFETY_THRESHOLD))

/-- The calls of a model on all days. -/
def callsInAll (rows : List UsageRow) (provider model : String) : Nat :=
  ((rows.filter fun r => r.provider = provider ∧ r.model = model).map (·.calls)).sum

/-- The logged calls of a model. -/
def logged (rows : List LogRow) (provider model : String) : Nat :=
  (rows.filter fun r => r.provider = provider ∧ r.model = model).length

/-- What is kept: the budgets of each day, each logged call counted on one day, and nothing
recorded for a day after `now`. -/
structure World.Budget (w : World) (now : Nat) : Prop where
  neurons : ∀ d, neuronsOn w.usage "cloudflare" d ≤ CLOUDFLARE_DAILY_NEURON_BUDGET
  calls : ∀ provider model limit d, KNOWN_DAILY_LIMITS.lookup (provider, model) = some limit →
    callsOn w.usage provider model d ≤ limit
  counted : ∀ provider model, callsInAll w.usage provider model = logged w.callLog provider model
  restart : ∀ r ∈ w.usage, r.day ≤ today now

/-! ## One more call in the table -/

section Bump
variable {p m p' m' : String} {d d' t : Nat} {n : ℚ} {rows : List UsageRow}

theorem callsOn_bump : callsOn (bump p m d t n rows) p' m' d' =
    callsOn rows p' m' d' + if p = p' ∧ m = m' ∧ d = d' then 1 else 0 := by
  induction rows with
  | nil =>
    by_cases h : p = p' ∧ m = m' ∧ d = d' <;> simp [callsOn, bump, h]
  | cons r rows ih =>
    unfold bump
    split
    next hr =>
      obtain ⟨rfl, rfl, rfl⟩ := hr
      by_cases h : r.provider = p' ∧ r.model = m' ∧ r.day = d' <;> simp [callsOn, h]
    next hr =>
      by_cases h : r.provider = p' ∧ r.model = m' ∧ r.day = d'
      · have hne : ¬ (p = p' ∧ m = m' ∧ d = d') := by
          rintro ⟨rfl, rfl, rfl⟩
          exact hr h
        simp [callsOn, h, hne]
      · unfold callsOn at ih ⊢
        simpa [h] using ih

theorem neuronsOn_bump : neuronsOn (bump p m d t n rows) p' d' = neuronsOn rows p' d' + if p = p' ∧ d = d' then n else 0 := by
  induction rows with
  | nil => by_cases h : p = p' ∧ d = d' <;> simp [neuronsOn, bump, h]
  | cons r rows ih =>
    unfold bump
    split
    next hr =>
      obtain ⟨rfl, rfl, rfl⟩ := hr
      by_cases h : r.provider = p' ∧ r.day = d'
      · simp [neuronsOn, h, add_right_comm]
      · simp [neuronsOn, h]
    next hr =>
      unfold neuronsOn at ih ⊢
      simp only [Bool.decide_and] at ih ⊢
      by_cases h : r.provider = p' ∧ r.day = d' <;> simp [h, ih, add_assoc]

theorem callsInAll_bump : callsInAll (bump p m d t n rows) p' m' =
    callsInAll rows p' m' + if p = p' ∧ m = m' then 1 else 0 := by
  induction rows with
  | nil => by_cases h : p = p' ∧ m = m' <;> simp [callsInAll, bump, h]
  | cons r rows ih =>
    unfold bump
    split
    next hr =>
      obtain ⟨rfl, rfl, rfl⟩ := hr
      by_cases h : r.provider = p' ∧ r.model = m'
      · simp [callsInAll, h, add_right_comm]
      · simp [callsInAll, h]
    next hr =>
      unfold callsInAll at ih ⊢
      simp only [Bool.decide_and] at ih ⊢
      by_cases h : r.provider = p' ∧ r.model = m' <;> simp [h, ih, add_assoc]

theorem day_bump {r : UsageRow} (hr : r ∈ bump p m d t n rows) : r.day = d ∨ ∃ r' ∈ rows, r'.day = r.day := by
  induction rows with
  | nil => exact .inl (by simp_all [bump])
  | cons r' rows ih =>
    unfold bump at hr
    split at hr
    next hd =>
      rcases List.mem_cons.1 hr with rfl | hr
      · exact .inl hd.2.2
      · exact .inr ⟨r, List.mem_cons_of_mem _ hr, rfl⟩
    next =>
      rcases List.mem_cons.1 hr with rfl | hr
      · exact .inr ⟨r, List.mem_cons_self, rfl⟩
      · exact (ih hr).imp id fun ⟨x, hx, hd⟩ => ⟨x, List.mem_cons_of_mem _ hx, hd⟩

/-- Nothing is recorded on a day without rows. -/
theorem on_fresh (h : ∀ r ∈ rows, r.day ≠ d) : callsOn rows p m d = 0 ∧ neuronsOn rows p d = 0 := by
  constructor
  · unfold callsOn
    rw [List.find?_eq_none.2 fun r hr => by simp [h r hr]]
    rfl
  · unfold neuronsOn
    rw [List.filter_eq_nil_iff.2 fun r hr => by simp [h r hr]]
    rfl

end Bump

/-! ## One invocation -/

section Step
variable {json : Json} {w : World} {c : Call} {now : Nat}

/-- An invocation records nothing, or one call that the gate let through. -/
theorem callOne_usage (json : Json) (w : World) (c : Call) : ((callOne json w c).usage = w.usage ∧ (callOne json w c).callLog = w.callLog) ∨
    ∃ tokens neurons, w.exhausted c.entry.provider c.entry.model c.checkedAt = false ∧
      extract c.entry.provider (c.outcome json) = some (tokens, neurons) ∧
      (callOne json w c).usage = bump c.entry.provider c.entry.model (today c.recordedAt) tokens neurons w.usage ∧
      (callOne json w c).callLog = w.callLog ++ [⟨c.entry.provider, c.entry.model, tokens, neurons, c.episodeId, c.loggedAt⟩] := by
  have hmark : ∀ (b : Prop) [Decidable b] (w : World) (p m : String) (t : Nat),
      (if b then w.markExhausted p m t else w).usage = w.usage ∧ (if b then w.markExhausted p m t else w).callLog = w.callLog := by
    intro b _ w p m t
    split <;> exact ⟨rfl, rfl⟩
  unfold callOne
  split
  · exact .inl ⟨rfl, rfl⟩
  next hx =>
    simp only
    cases hext : extract c.entry.provider (c.outcome json) with
    | none => exact .inl (by simp [hmark])
    | some x =>
      simp only
      split
      · exact .inl (by simp [hmark])
      · refine .inr ⟨x.1, x.2, by simpa using hx, rfl, ?_⟩
        cases c.outcome json <;> simp [hmark, World.recordCall, World.clearExhausted]

/-- An accepted answer is a 200 response with that usage. -/
theorem outcome_result {h : Http} {provider : String} {usage : Usage} (hr : h.outcome json provider = .result usage) :
    ∃ text content odd, h = .response 200 text (some ⟨content, usage, odd⟩) := by
  unfold Http.outcome at hr
  split at hr
  · cases hr
  · cases hr
  next code text body =>
    split at hr
    · cases hr
    split at hr
    · cases hr
    next hcode =>
      obtain rfl : code = 200 := by simpa using hcode
      split at hr
      · cases hr
      next b =>
        obtain ⟨content, usage', odd⟩ := b
        refine ⟨text, content, odd, ?_⟩
        unfold Body.outcome at hr
        cases content with
        | text s =>
          simp only at hr
          split at hr
          · split at hr
            · cases hr
            · cases hr
              rfl
          · cases hr
        | _ => cases hr

/-- What is recorded is at most what the answer reports. -/
theorem extract_neurons {tokens : Nat} {neurons : ℚ} (hc : c.WithinReserve)
    (h : extract c.entry.provider (c.outcome json) = some (tokens, neurons)) : neurons ≤ CLOUDFLARE_NEURON_SAFETY_THRESHOLD := by
  have hzero : (0 : ℚ) ≤ CLOUDFLARE_NEURON_SAFETY_THRESHOLD := by norm_num [CLOUDFLARE_NEURON_SAFETY_THRESHOLD]
  cases ho : c.outcome json with
  | raised => rw [ho] at h; cases h
  | failure =>
    rw [ho] at h
    cases h
    exact hzero
  | result usage =>
    rw [ho] at h
    have hlast : ∃ r ∈ c.requests, r.outcome json c.entry.provider = .result usage := by
      unfold Call.outcome at ho
      split at ho
      · cases ho
      next r hr => exact ⟨r, List.mem_of_getLast? hr, ho⟩
    obtain ⟨r, hr, hres⟩ := hlast
    obtain ⟨text, content, odd, rfl⟩ := outcome_result hres
    have hle := hc _ hr
    cases usage with
    | missing => cases h; exact hzero
    | odd => cases h
    | reported t n =>
      cases h
      split
      · exact hle
      · exact hzero

theorem limit_pos {provider model : String} {limit : Nat} (h : KNOWN_DAILY_LIMITS.lookup (provider, model) = some limit) :
    1 ≤ limit := by
  have hall : ∀ x ∈ KNOWN_DAILY_LIMITS, 1 ≤ x.2 := by decide
  obtain ⟨l₁, l₂, hl, -⟩ := List.lookup_eq_some_iff.1 h
  exact hall ((provider, model), limit) (by simp [hl])

/-- The gate, where it lets a call through. -/
theorem not_exhausted {provider model : String} (h : w.exhausted provider model now = false) :
    (provider = "cloudflare" → neuronsOn w.usage provider (today now) + CLOUDFLARE_NEURON_SAFETY_THRESHOLD ≤ CLOUDFLARE_DAILY_NEURON_BUDGET) ∧
      ∀ limit, KNOWN_DAILY_LIMITS.lookup (provider, model) = some limit → callsOn w.usage provider model (today now) + 1 ≤ limit := by
  simp only [World.exhausted, Bool.or_eq_false_iff] at h
  obtain ⟨⟨-, hn⟩, hl⟩ := h
  refine ⟨fun hp => ?_, fun limit hlim => ?_⟩
  · have : ¬ CLOUDFLARE_DAILY_NEURON_BUDGET - neuronsOn w.usage provider (today now) < CLOUDFLARE_NEURON_SAFETY_THRESHOLD := by
      simpa [hp, World.getTodayNeuronUsage] using hn
    linarith
  · rw [hlim] at hl
    have : ¬ limit ≤ callsOn w.usage provider model (today now) := of_decide_eq_false hl
    omega

theorem World.Budget.step (h : w.Budget now) (hc : c.WithinReserve) (hnow : now ≤ c.checkedAt) (hrec : c.checkedAt ≤ c.recordedAt) :
    (callOne json w c).Budget c.recordedAt := by
  have hmono : today now ≤ today c.recordedAt := Nat.div_le_div_right (hnow.trans hrec)
  rcases callOne_usage json w c with ⟨hu, hl⟩ | ⟨tokens, neurons, hx, hext, hu, hl⟩
  · exact ⟨hu ▸ h.neurons, hu ▸ h.calls, hu ▸ hl ▸ h.counted, fun r hr => (h.restart r (hu ▸ hr)).trans hmono⟩
  have hcost := extract_neurons hc hext
  obtain ⟨hpool, hlimit⟩ := not_exhausted hx
  -- the day that the call is recorded on: the one it was checked on, or a new one
  have hday : today c.checkedAt = today c.recordedAt ∨ ∀ r ∈ w.usage, r.day ≠ today c.recordedAt := by
    have hle : today c.checkedAt ≤ today c.recordedAt := Nat.div_le_div_right hrec
    rcases Nat.eq_or_lt_of_le hle with he | hlt
    · exact .inl he
    · refine .inr fun r hr hd => ?_
      have h₁ := h.restart r hr
      have h₂ : today now ≤ today c.checkedAt := Nat.div_le_div_right hnow
      omega
  refine ⟨fun d => ?_, fun provider model limit d hlim => ?_, fun provider model => ?_, fun r hr => ?_⟩
  · rw [hu, neuronsOn_bump]
    split
    next heq =>
      obtain ⟨hp, rfl⟩ := heq
      rcases hday with he | hfresh
      · have := hpool hp
        rw [he, hp] at this
        linarith
      · rw [(on_fresh (p := "cloudflare") (m := "") hfresh).2]
        have : CLOUDFLARE_NEURON_SAFETY_THRESHOLD ≤ CLOUDFLARE_DAILY_NEURON_BUDGET := by
          norm_num [CLOUDFLARE_NEURON_SAFETY_THRESHOLD, CLOUDFLARE_DAILY_NEURON_BUDGET]
        linarith
    next => simpa using h.neurons d
  · rw [hu, callsOn_bump]
    split
    next heq =>
      obtain ⟨rfl, rfl, rfl⟩ := heq
      rcases hday with he | hfresh
      · exact he ▸ hlimit limit hlim
      · rw [(on_fresh hfresh).1]
        exact limit_pos hlim
    next => simpa using h.calls provider model limit d hlim
  · rw [hu, hl, callsInAll_bump, h.counted]
    unfold logged
    by_cases hk : c.entry.provider = provider ∧ c.entry.model = model <;> simp [hk]
  · rcases day_bump (hu ▸ hr) with hd | ⟨r', hr', hd⟩
    · exact hd.le
    · exact hd ▸ (h.restart r' hr').trans hmono

end Step

/-- The time of the last record. -/
def lastRecorded (t : Nat) (cs : List Call) : Nat := (cs.getLast?.map (·.recordedAt)).getD t

/-- Two calls of one day. -/
def twoCalls : List Call :=
  [⟨⟨"cloudflare", "gemma", .openaiCompat⟩, 10, 12, 12, false, .response 200 "" (some ⟨.text "", .reported (some 900) (some 300), false⟩), .timeout, false, none⟩,
    ⟨⟨"cloudflare", "kimi", .openaiCompat⟩, 20, 21, 21, false, .timeout, .timeout, false, none⟩]

end Wardence.Quota
