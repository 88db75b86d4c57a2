import Wardence.Proposer
/-!
# The tool-call boundary

What no reply of a model should do: make the validator, or the proposer that calls it,
raise. An array or an object where the name of the tool should be does.
-/
namespace Wardence

/-- `p` returns. -/
def Returns {α : Type} (p : Except PyErr α) : Prop := ∃ a, p = .ok a

/-- The reply has no array or object as the name of its tool. -/
def Reply.hashable : Reply → Bool
  | .call tool _ => tool.hashable
  | _ => true

/-- A call that is allowed, of the tool of the class. -/
def Reply.accepted (faultClass : String) : Reply → Bool
  | .call (.str t) params => t ∈ ALLOWED_ACTIONS && (validateParams t params).isNone &&
    (DETERMINISTIC_ACTION_MAP.lookup faultClass).all fun fix => t == fix.tool
  | _ => false

def Reply.isCall : Reply → Bool
  | .call .. => true
  | _ => false

/-- Whether the `k`-th reply is asked for: the first of the provider of the diagnosis, the second if the first is
a call that is not accepted, and the third, of the next provider, if none is accepted. -/
def asked (replies : Nat → Reply) (faultClass : String) (entry : ChainEntry) : Nat → Prop
  | 0 => True
  | 1 => (replies 0).isCall ∧ ¬ (replies 0).accepted faultClass
  | 2 => ¬ (replies 0).accepted faultClass ∧ ¬ ((replies 0).isCall ∧ (replies 1).accepted faultClass) ∧
    (PROVIDER_CHAIN[PROVIDER_CHAIN.idxOf entry + 1]?).isSome
  | _ => False

section Attempts
variable {entry : ChainEntry} {faultClass : String} {reply : Reply}

theorem validateToolCall_returns_iff (tool : Py.Val) (params : Params) : Returns (validateToolCall tool params) ↔ tool.hashable = true := by
  cases tool with
  | nested => simp [Returns, validateToolCall, Py.Val.hashable]
  | str t =>
    simp only [Returns, validateToolCall, Py.Val.hashable, not_true_eq_false, if_false, iff_true]
    split
    · exact ⟨_, rfl⟩
    · exact ⟨_, rfl⟩
  | _ => simp [Returns, validateToolCall, Py.Val.hashable]

variable (entry faultClass) in
/-- A validated reply is settled on its tool. -/
theorem settle_iff {t : String} {d : Py.Dict} :
    ((∃ t' d' e, settle entry faultClass t d = .validated t' d' e) ↔
      (DETERMINISTIC_ACTION_MAP.lookup faultClass).all (fun fix => t == fix.tool) = true) ∧
    ((∃ r, settle entry faultClass t d = .rejected r) ↔
      (DETERMINISTIC_ACTION_MAP.lookup faultClass).all (fun fix => t == fix.tool) = false) := by
  unfold settle
  split
  next fix hf =>
    by_cases ht : t = fix.tool <;> simp [hf, ht]
  next hf => simp [hf]

variable (entry faultClass) in
/-- What comes of a reply whose tool has a hash. -/
theorem proposeOnce_hashable (h : reply.hashable = true) : ∃ a, proposeOnce entry faultClass reply = .ok a ∧
    ((∃ t d e, a = .validated t d e) ↔ reply.accepted faultClass = true) ∧
    ((∃ r, a = .rejected r) ↔ reply.isCall = true ∧ ¬ reply.accepted faultClass = true) := by
  cases reply with
  | failure => exact ⟨_, rfl, by simp [Reply.accepted], by simp [Reply.isCall]⟩
  | noCall => exact ⟨_, rfl, by simp [Reply.accepted], by simp [Reply.isCall]⟩
  | call tool params =>
    obtain ⟨v, hv⟩ := (validateToolCall_returns_iff tool params).2 h
    cases v with
    | some r =>
      have ha : (Reply.call tool params).accepted faultClass = false := by
        cases tool with
        | str t =>
          simp only [validateToolCall, Py.Val.hashable, not_true_eq_false, if_false] at hv
          split at hv
          next ht => simp [Reply.accepted, Except.ok.inj hv]
          next ht => simp [Reply.accepted, ht]
        | _ => rfl
      exact ⟨.rejected r, by simp [proposeOnce, hv]; rfl, by simp [ha], by simp [ha, Reply.isCall]⟩
    | none =>
      obtain ⟨t, d, rfl, ht, rfl, hn⟩ := validateToolCall_ok hv
      obtain ⟨hval, hrej⟩ := settle_iff entry faultClass (t := t) (d := d)
      have ha : (Reply.call (.str t) (.dict d)).accepted faultClass =
          (DETERMINISTIC_ACTION_MAP.lookup faultClass).all fun fix => t == fix.tool := by simp [Reply.accepted, ht, hn]
      exact ⟨settle entry faultClass t d, by simp [proposeOnce, hv]; rfl, by rw [hval, ha], by rw [hrej, ha]; simp [Reply.isCall]⟩

theorem proposeOnce_unhashable (h : reply.hashable = false) : ¬ Returns (proposeOnce entry faultClass reply) := by
  cases reply with
  | call tool params =>
    cases tool with
    | nested text => simp [Returns, proposeOnce, validateToolCall, Py.Val.hashable, bind, Except.bind]
    | _ => cases h
  | _ => cases h

end Attempts

section Chain
variable {replies : Nat → Reply} {entry : ChainEntry} {faultClass : String}

/-- The first provider accepts one of the replies it is asked for. -/
abbrev acceptedFirst (replies : Nat → Reply) (faultClass : String) : Prop :=
  (replies 0).accepted faultClass = true ∨ ((replies 0).isCall = true ∧ (replies 1).accepted faultClass = true)

variable (entry) in
theorem askTwice_returns (h0 : (replies 0).hashable = true)
    (h1 : asked replies faultClass entry 1 → (replies 1).hashable = true) :
    ∃ o, askTwice replies entry faultClass = .ok o ∧ (o.isSome = true ↔ acceptedFirst replies faultClass) := by
  obtain ⟨a, ha, hval, hrej⟩ := proposeOnce_hashable entry faultClass h0
  cases a with
  | validated t d e =>
    exact ⟨_, by simp [askTwice, ha]; rfl, by simpa using .inl (hval.1 ⟨_, _, _, rfl⟩)⟩
  | rejected r =>
    have hask := hrej.1 ⟨r, rfl⟩
    obtain ⟨b, hb, hval', -⟩ := proposeOnce_hashable entry faultClass (h1 hask)
    have hn : ¬ (replies 0).accepted faultClass = true := hask.2
    cases b with
    | validated t d e =>
      exact ⟨_, by simp [askTwice, ha, hb]; rfl, by simpa using .inr ⟨hask.1, hval'.1 ⟨_, _, _, rfl⟩⟩⟩
    | _ =>
      have hn' : ¬ (replies 1).accepted faultClass = true := fun h => by simpa using hval'.2 h
      exact ⟨none, by simp [askTwice, ha, hb]; rfl, by simp [acceptedFirst, hn, hn']⟩
  | _ =>
    have hn : ¬ (replies 0).accepted faultClass = true := fun h => by simpa using hval.2 h
    have hc : ¬ (replies 0).isCall = true := fun h => by simpa using hrej.2 ⟨h, hn⟩
    exact ⟨none, by simp [askTwice, ha]; rfl, by simp [acceptedFirst, hn, hc]⟩

theorem bind_returns {α β : Type} {p : Except PyErr α} {f : α → Except PyErr β} (h : Returns (p >>= f)) : Returns p := by
  cases p with
  | error e =>
    obtain ⟨b, hb⟩ := h
    cases hb
  | ok a => exact ⟨a, rfl⟩

theorem askTwice_raises (h : ¬ ((replies 0).hashable = true ∧ (asked replies faultClass entry 1 → (replies 1).hashable = true))) :
    ¬ Returns (askTwice replies entry faultClass) := by
  intro hr
  cases h0 : (replies 0).hashable with
  | false => exact proposeOnce_unhashable h0 (bind_returns hr)
  | true =>
    simp only [h0, true_and, Classical.not_imp, Bool.not_eq_true] at h
    obtain ⟨a, ha, -, hrej⟩ := proposeOnce_hashable entry faultClass h0
    obtain ⟨r, rfl⟩ := hrej.2 h.1
    rw [askTwice, ha] at hr
    exact proposeOnce_unhashable h.2 (bind_returns hr)

variable (faultClass) in
theorem escalate_returns_iff : Returns (escalate replies entry faultClass) ↔
    ((PROVIDER_CHAIN[PROVIDER_CHAIN.idxOf entry + 1]?).isSome = true → (replies 2).hashable = true) := by
  unfold escalate
  split
  next hn => exact iff_of_true ⟨none, rfl⟩ (by simp [hn])
  next next hn =>
    simp only [hn, Option.isSome_some, forall_const]
    constructor
    · intro hr
      by_contra h2
      exact proposeOnce_unhashable (by simpa using h2) (bind_returns hr)
    · intro h2
      obtain ⟨a, ha, -⟩ := proposeOnce_hashable next faultClass h2
      rw [ha]
      cases a <;> exact ⟨_, rfl⟩

end Chain

end Wardence
