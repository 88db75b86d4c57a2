import Mathlib.Algebra.Group.Prod
import Wardence.Quota.Calls
/-!
# The books of the calls

What `provider_call_log` adds up to, against the requests that were sent: they agree
after every invocation exactly when no invocation retries, raises after its request or
rejects a response that reports a cost.
-/
namespace Wardence.Quota

/-- Calls, tokens and Neurons. -/
abbrev Total := ℕ × ℕ × ℚ

def LogRow.total (provider : String) (r : LogRow) : Total := if r.provider = provider then (1, r.tokens, r.neurons) else 0

def Sent.total (provider : String) (s : Sent) : Total := if s.provider = provider then (1, s.tokens, s.neurons) else 0

def World.recorded (w : World) (provider : String) : Total := (w.callLog.map (·.total provider)).sum

def World.spent (w : World) (provider : String) : Total := (w.sent.map (·.total provider)).sum

/-- For each provider, the books have all requests with all that their responses report. -/
def World.Exact (w : World) : Prop := ∀ provider, w.recorded provider = w.spent provider

/-! ## The condition -/

def Http.accepted (json : Json) : Http → Bool
  | .response 200 _ (some ⟨.text s, _, _⟩) => json s
  | _ => false

/-- Reading the response raises. -/
def Http.raises (json : Json) : Http → Bool
  | .response 200 _ none => true
  | .response 200 _ (some ⟨.odd, _, _⟩) => true
  | .response 200 _ (some ⟨.text s, usage, oddLogprobs⟩) => json s && (oddLogprobs || usage = .odd)
  | _ => false

/-- The response is booked as it reports: reading it does not raise; if it is rejected it reports no
cost, and Neurons are reported by Cloudflare alone. -/
def Http.booked (json : Json) (provider : String) (h : Http) : Prop :=
  h.raises json = false ∧ if h.accepted json then provider = "cloudflare" ∨ h.reported.2 = 0 else h.reported = (0, 0)

/-- Nothing is sent, or one request, whose answer is booked, with no failure of the database. -/
def Call.Meets (json : Json) (w : World) (c : Call) : Prop :=
  w.exhausted c.entry.provider c.entry.model c.checkedAt = true ∨ c.keyMissing = true ∨
    c.first.retried c.entry.format = false ∧ c.dbFails = false ∧ c.first.booked json c.entry.provider

/-! ## One invocation -/

section Step
variable {json : Json} {w : World} {c : Call}

/-- The row of an invocation that sends something. -/
def Call.rows (json : Json) (c : Call) : List LogRow :=
  match extract c.entry.provider (c.outcome json) with
  | none => []
  | some (tokens, neurons) =>
    if c.dbFails then [] else [⟨c.entry.provider, c.entry.model, tokens, neurons, c.episodeId, c.loggedAt⟩]

theorem callOne_books (json : Json) (h : w.exhausted c.entry.provider c.entry.model c.checkedAt = false) :
    (callOne json w c).callLog = w.callLog ++ c.rows json ∧
      (callOne json w c).sent = w.sent ++ c.requests.map (·.sent c.entry.provider) := by
  have hmark : ∀ (b : Prop) [Decidable b] (w : World) (p m : String) (t : Nat),
      (if b then w.markExhausted p m t else w).callLog = w.callLog ∧ (if b then w.markExhausted p m t else w).sent = w.sent := by
    intro b _ w p m t
    split <;> exact ⟨rfl, rfl⟩
  unfold callOne Call.rows
  rw [if_neg (by simp [h])]
  simp only
  cases extract c.entry.provider (c.outcome json) with
  | none => simp [hmark]
  | some x =>
    simp only
    split
    · simp [hmark]
    · cases c.outcome json <;> simp [hmark, World.recordCall, World.clearExhausted]

theorem extract_reported {h : Http} {provider : String} :
    extract provider (h.outcome json provider) = some h.reported ↔ h.booked json provider := by
  unfold Http.booked
  cases h with
  | timeout => simp [Http.outcome, extract, Http.reported, Http.raises, Http.accepted]
  | requestException => simp [Http.outcome, extract, Http.reported, Http.raises, Http.accepted]
  | response code text body =>
    by_cases hcode : code = 200
    · subst hcode
      cases body with
      | none => simp [Http.outcome, extract, Http.raises]
      | some b =>
        obtain ⟨content, usage, odd⟩ := b
        cases content with
        | missing | empty =>
          cases usage <;> simp [Http.outcome, Body.outcome, extract, Http.reported, Http.raises, Http.accepted, eq_comm]
        | odd => simp [Http.outcome, Body.outcome, extract, Http.raises]
        | text s =>
          cases hj : json s <;> cases odd <;> cases usage <;>
            simp [Http.outcome, Body.outcome, extract, Http.reported, Http.raises, Http.accepted, hj, eq_comm]
          exact or_iff_not_imp_left.symm
    · -- no other status is read
      have hr : Http.reported (.response code text body) = (0, 0) := by
        unfold Http.reported
        split
        next h => cases h; exact absurd rfl hcode
        next => rfl
      have hraises : Http.raises json (.response code text body) = false := by
        unfold Http.raises
        split
        next h => cases h; exact absurd rfl hcode
        next h => cases h; exact absurd rfl hcode
        next h => cases h; exact absurd rfl hcode
        next => rfl
      have haccepted : Http.accepted json (.response code text body) = false := by
        unfold Http.accepted
        split
        next h => cases h; exact absurd rfl hcode
        next => rfl
      have hextract : extract provider (Http.outcome json provider (.response code text body)) = some (0, 0) := by
        by_cases hl : code = 429 <;> simp [Http.outcome, extract, hl, hcode]
      simp [hr, hraises, haccepted, hextract]

/-- The totals of lists of rows. -/
theorem recorded_append (provider : String) (a b : List LogRow) :
    ((a ++ b).map (·.total provider)).sum = (a.map (·.total provider)).sum + (b.map (·.total provider)).sum := by simp

theorem spent_append (provider : String) (a b : List Sent) :
    ((a ++ b).map (·.total provider)).sum = (a.map (·.total provider)).sum + (b.map (·.total provider)).sum := by simp

/-- An invocation keeps exact books exact when it books what it sends. -/
theorem exact_step (hw : w.Exact) (h : w.exhausted c.entry.provider c.entry.model c.checkedAt = false) :
    (callOne json w c).Exact ↔ ∀ provider, ((c.rows json).map (·.total provider)).sum =
      ((c.requests.map (·.sent c.entry.provider)).map (·.total provider)).sum := by
  obtain ⟨hlog, hsent⟩ := callOne_books json h
  refine forall_congr' fun provider => ?_
  have := hw provider
  unfold World.recorded World.spent at this ⊢
  rw [hlog, hsent, recorded_append, spent_append, this, add_right_inj]

/-- The numbers of rows and of requests. -/
theorem rows_fst (provider : String) (rs : List LogRow) (hp : ∀ r ∈ rs, r.provider = provider) :
    ((rs.map (LogRow.total provider)).sum).1 = rs.length := by
  induction rs with
  | nil => rfl
  | cons r rs ih =>
    rw [List.map_cons, List.sum_cons, Prod.fst_add, ih fun r hr => hp r (List.mem_cons_of_mem _ hr), LogRow.total,
      if_pos (hp r List.mem_cons_self), List.length_cons, Nat.add_comm]

theorem requests_fst (provider : String) (hs : List Http) :
    (((hs.map (Http.sent provider)).map (Sent.total provider)).sum).1 = hs.length := by
  induction hs with
  | nil => rfl
  | cons h hs ih =>
    rw [List.map_cons, List.map_cons, List.sum_cons, Prod.fst_add, ih, Sent.total, Http.sent, if_pos rfl, List.length_cons, Nat.add_comm]

theorem rows_provider : ∀ r ∈ c.rows json, r.provider = c.entry.provider := by
  intro r hr
  unfold Call.rows at hr
  split at hr
  · cases hr
  · split at hr
    · cases hr
    · obtain rfl := List.mem_singleton.1 hr
      rfl

theorem rows_length (json : Json) (c : Call) : (c.rows json).length ≤ 1 := by
  unfold Call.rows
  split
  · exact Nat.zero_le _
  · split
    · exact Nat.zero_le _
    · exact le_rfl

/-- Exact books stay exact exactly when the invocation meets the condition. -/
theorem callOne_exact (hw : w.Exact) : (callOne json w c).Exact ↔ c.Meets json w := by
  cases hx : w.exhausted c.entry.provider c.entry.model c.checkedAt with
  | true => simp [callOne, Call.Meets, hx, hw]
  | false =>
    rw [exact_step hw hx]
    simp only [Call.Meets, hx, Bool.false_eq_true, false_or]
    cases hk : c.keyMissing with
    | true => simp [Call.rows, Call.outcome, Call.requests, hk, extract]
    | false =>
      simp only [Bool.false_eq_true, false_or]
      cases hr : c.first.retried c.entry.format with
      | true =>
        -- two requests, and at most one row
        simp only [Bool.true_eq_false, false_and, iff_false]
        intro h
        have hlen := congrArg Prod.fst (h c.entry.provider)
        rw [rows_fst _ _ rows_provider, requests_fst] at hlen
        have := rows_length json c
        simp only [Call.requests, hk, hr, Bool.false_eq_true, if_false, if_true, List.length_cons, List.length_nil] at hlen
        omega
      | false =>
        have hreq : c.requests = [c.first] := by simp [Call.requests, hk, hr]
        have hout : c.outcome json = c.first.outcome json c.entry.provider := by simp [Call.outcome, hreq]
        rw [← extract_reported, hreq]
        simp only [true_and, Call.rows, hout]
        -- without a row the request is missing in the books
        have hmissing : ¬ ∀ provider, (([] : List LogRow).map (LogRow.total provider)).sum =
            (([c.first].map (Http.sent c.entry.provider)).map (Sent.total provider)).sum := fun h =>
          absurd (congrArg Prod.fst (h c.entry.provider)) (by rw [requests_fst]; simp)
        cases extract c.entry.provider (c.first.outcome json c.entry.provider) with
        | none => simpa using hmissing
        | some x =>
          cases c.dbFails with
          | true => simpa using hmissing
          | false =>
            simp only [Bool.false_eq_true, if_false, true_and, Option.some.injEq, List.map_cons, List.map_nil, List.sum_cons,
              List.sum_nil, add_zero, LogRow.total, Sent.total, Http.sent]
            constructor
            · intro h
              have := h c.entry.provider
              rw [if_pos rfl, if_pos rfl] at this
              exact (Prod.mk.inj this).2
            · rintro rfl provider
              rfl

end Step

/-! ## Every sequence -/

/-- The books are exact after each invocation of a sequence exactly when each meets the condition. -/
theorem quota_books (json : Json) (cs : List Call) : (∀ n, (run json {} (cs.take n)).Exact) ↔
    ∀ (n : Nat) (c : Call), cs[n]? = some c → c.Meets json (run json {} (cs.take n)) := by
  have hall : ∀ w : World, w.Exact → ((∀ n, (run json w (cs.take n)).Exact) ↔
      ∀ (n : Nat) (c : Call), cs[n]? = some c → c.Meets json (run json w (cs.take n))) := by
    induction cs with
    | nil => exact fun w hw => ⟨fun _ n c hc => by simp at hc, fun _ n => by simpa [run] using hw⟩
    | cons c cs ih =>
      intro w hw
      constructor
      · intro h
        have hc : (callOne json w c).Exact := h 1
        rintro (_ | n) d hd
        · obtain rfl : c = d := Option.some.inj hd
          exact (callOne_exact hw).1 hc
        · exact (ih _ hc).1 (fun m => h (m + 1)) n d hd
      · intro h
        have hc : (callOne json w c).Exact := (callOne_exact hw).2 (h 0 c rfl)
        rintro (_ | n)
        · exact hw
        · exact (ih _ hc).2 (fun m d hd => h (m + 1) d hd) n
  exact hall {} fun _ => rfl

/-- The retry without logprobs: two requests, one row. -/
def retriedCall : Call where
  entry := ⟨"gemini", "gemini-3-flash-preview", .geminiNative⟩
  checkedAt := 0
  recordedAt := 1
  loggedAt := 1
  keyMissing := false
  first := .response 400 "Logprobs is not enabled for this model" none
  second := .response 200 "" (some ⟨.text "\x7b\x7d", .reported (some 12) none, false⟩)
  dbFails := false
  episodeId := none

theorem quota_books_retried : ¬ ∀ (json : Json) (cs : List Call), (run json {} cs).Exact := by
  intro h
  exact absurd (h (fun _ => true) [retriedCall] "gemini") (by decide +kernel)

end Wardence.Quota
