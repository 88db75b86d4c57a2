import Wardence.Recording
/-!
# What earns the LLM its action

`record_llm_trust` credits Dimension C without ever comparing the diagnosis a
proposal was made for with the truth. It does not have to: whatever
`propose_action` returns carries the one tool of the class it was asked about
(`proposeAction_tool`), no two classes share a tool (`tool_injective`), and only
the true class's tool is credited.
-/
namespace Wardence.Credit

open Keyed Txn Client Dispatch Episodes

/-! ## One tool to a class -/

theorem tool_injective {a b : String} {f g : Fix} (ha : DETERMINISTIC_ACTION_MAP.lookup a = some f)
    (hb : DETERMINISTIC_ACTION_MAP.lookup b = some g) (h : f.tool = g.tool) : a = b := by
  have hn : (DETERMINISTIC_ACTION_MAP.map fun r => r.2.tool).Nodup := by decide
  exact key_of_lookup hn ha hb h

/-! ## What a proposal proposes -/

/-- A proposal for class `c`: the tool of `c`'s own fix, or no tool where `c` has no fix. -/
def Fits (c : String) (p : Proposal) : Prop :=
  p.toolName = (DETERMINISTIC_ACTION_MAP.lookup c).map Fix.tool

/-- After validation, a tool that is not the class's own is sent back. -/
theorem settle_tool {entry entry' : ChainEntry} {c tool tool' : String} {fix : Fix} {d d' : Py.Dict}
    (hc : DETERMINISTIC_ACTION_MAP.lookup c = some fix) (h : settle entry c tool d = .validated tool' d' entry') :
    tool' = fix.tool := by
  unfold settle at h
  simp only [hc] at h
  split at h
  · cases h
  · rename_i heq
    cases h
    exact not_not.1 heq

theorem proposeOnce_tool {entry entry' : ChainEntry} {c tool : String} {fix : Fix} {d : Py.Dict} {reply : Reply}
    (hc : DETERMINISTIC_ACTION_MAP.lookup c = some fix) (h : proposeOnce entry c reply = .ok (.validated tool d entry')) :
    tool = fix.tool := by
  cases reply with
  | failure => cases h
  | noCall => cases h
  | call t params =>
    obtain ⟨verdict, -, h⟩ := Py.ok_of_bind h
    cases verdict with
    | some r => cases h
    | none =>
      simp only at h
      split at h
      · exact settle_tool hc (Except.ok.inj h)
      · cases h

theorem askTwice_tool {replies : Nat → Reply} {entry : ChainEntry} {c : String} {fix : Fix} {p : Proposal}
    (hc : DETERMINISTIC_ACTION_MAP.lookup c = some fix) (h : askTwice replies entry c = .ok (some p)) :
    p.toolName = some fix.tool := by
  unfold askTwice at h
  obtain ⟨first, h1, h⟩ := Py.ok_of_bind h
  cases first with
  | validated tool d e =>
    cases h
    exact congrArg some (proposeOnce_tool hc h1)
  | rejected r =>
    obtain ⟨second, h2, h⟩ := Py.ok_of_bind h
    cases second with
    | validated tool d e =>
      cases h
      exact congrArg some (proposeOnce_tool hc h2)
    | _ => cases h
  | _ => cases h

theorem escalate_tool {replies : Nat → Reply} {entry : ChainEntry} {c : String} {fix : Fix} {p : Proposal}
    (hc : DETERMINISTIC_ACTION_MAP.lookup c = some fix) (h : escalate replies entry c = .ok (some p)) :
    p.toolName = some fix.tool := by
  unfold escalate at h
  split at h
  · cases h
  · obtain ⟨last, h3, h⟩ := Py.ok_of_bind h
    cases last with
    | validated tool d e =>
      cases h
      exact congrArg some (proposeOnce_tool hc h3)
    | _ => cases h

/-- Whichever way `propose_action` returns, its tool is the one of the class it was asked about. -/
theorem proposeAction_tool {replies : Nat → Reply} {c t n : String} {provider model : Option String} {p : Proposal}
    (h : proposeAction replies c t n provider model = .ok p) : Fits c p := by
  unfold Fits
  unfold proposeAction at h
  cases hc : DETERMINISTIC_ACTION_MAP.lookup c with
  | none =>
    rw [hc] at h
    cases h
    rfl
  | some fix =>
    simp only [hc] at h
    split at h
    · cases h  -- the provider is not in the chain: the deterministic fix
      rfl
    · obtain ⟨q, hq, h⟩ := Py.ok_of_bind h
      cases q with
      | some q =>
        cases h
        exact askTwice_tool hc hq
      | none =>
        obtain ⟨q, hq, h⟩ := Py.ok_of_bind h
        cases q with
        | some q =>
          cases h
          exact escalate_tool hc hq
        | none =>
          cases h
          rfl

/-! ## What is credited -/

/-- The statement credits Dimension C of class `a`. -/
def Credits (a : String) : Stmt → Prop
  | .upsertActionTrust _ c r => c = a ∧ r.streak ≠ 0
  | .insertActionTrustHistory h => h.faultClass = a ∧ h.correct = true
  | _ => False

/-- `record_action_outcome(conn, c, True)` credits `c`, in its row and in the history. -/
theorem credits_of_right (c : String) (e : Option String) : (recordActionOutcome c true e).All (Credits c) := by
  intro x
  exact ⟨⟨rfl, Nat.succ_ne_zero _⟩, ⟨rfl, rfl⟩, trivial⟩

theorem no_credit_of_wrong (a c : String) (e : Option String) :
    (recordActionOutcome c false e).All fun s => ¬ Credits a s := by
  intro x
  refine ⟨?_, ?_, trivial⟩
  · intro h
    exact h.2 rfl
  · intro h
    cases h.2

theorem credits_class {c a : String} {e : Option String} {s : Stmt} (hs : s.OfActionOutcome c e) (h : Credits a s) :
    a = c := by
  cases s with
  | upsertActionTrust behalf c' r => exact h.1.symm.trans hs.2
  | insertActionTrustHistory row => exact h.1.symm.trans hs.2
  | _ => exact hs.elim

theorem recordDimensionB_no_credit (a e actual : String) (llm : LlmResult) :
    (recordDimensionB e actual llm).All fun s => ¬ Credits a s := by
  unfold recordDimensionB
  split
  · refine .bind ((recordDiagnoserOutcome_all _ _ _).mono ?_) fun _ => trivial
    intro s hs h
    cases s <;> first | exact h | exact hs
  · trivial

/-- The proposal is the true class's own, of a provider whose results count, and right for the true class. -/
def EarnsCredit (x : Run) (ep : EpisodeRow) (r : Result) (p : Proposal) : Prop :=
  eligibleActionForStreak p.tier = true ∧ ∃ tool fix, p.toolName = some tool ∧
    DETERMINISTIC_ACTION_MAP.lookup ep.faultClass = some fix ∧
    actionIsCorrect x.liveCpu ep.faultClass tool (p.params.getD ∅) fix.tool r.diag.toolOutput = .ok true

theorem recordDimensionC_credits (x : Run) (e : String) (ep : EpisodeRow) (r : Result) (a : String) :
    (recordDimensionC x e ep r).All fun s => Credits a s →
      a = ep.faultClass ∧ ∃ p, r.act.llmActionProposal = some p ∧ EarnsCredit x ep r p := by
  unfold recordDimensionC
  cases hp : r.act.llmActionProposal with
  | none => trivial
  | some p =>
    simp only
    split
    · rename_i tool fix htool hfix
      refine .bind ⟨fun h => h.elim, trivial⟩ fun _ => ?_  -- the log of proposals is no credit
      cases hok : actionIsCorrect x.liveCpu ep.faultClass tool (p.params.getD ∅) fix.tool r.diag.toolOutput with
      | error err => trivial
      | ok correct =>
        simp only
        split
        · rename_i htier
          refine .bind ?_ fun _ => trivial
          cases correct with
          | false => exact (no_credit_of_wrong a _ _).mono fun s hs h => absurd h hs
          | true =>
            apply (recordActionOutcome_all _ _ _).mono
            intro s hs h
            exact ⟨credits_class hs h, p, rfl, htier, tool, fix, htool, hfix, hok⟩
        · trivial
    · trivial

theorem recordLlmTrust_credits (x : Run) (e : String) (ep : EpisodeRow) (r : Result) (a : String) :
    (recordLlmTrust x e ep r).All fun s => Credits a s →
      a = ep.faultClass ∧ ∃ p, r.act.llmActionProposal = some p ∧ EarnsCredit x ep r p := by
  refine .bind trivial fun _ => .bind ⟨fun h => h.elim, trivial⟩ fun _ => .bind trivial fun _ => .bind ?_ fun _ => ?_
  · exact (recordDimensionB_no_credit a _ _ _).mono fun s hs h => absurd h hs
  · exact recordDimensionC_credits x e ep r a

/-- A right proposal has the tool it is compared with. -/
theorem tool_of_correct {liveCpu : String → String → Option ℚ} {c tool truth : String} {params : Py.Dict}
    {toolOutput : Option Py.Dict} (h : actionIsCorrect liveCpu c tool params truth toolOutput = .ok true) :
    tool = truth := by
  by_contra hne
  rw [actionIsCorrect, if_pos hne] at h
  cases h

/-- Whatever is credited to Dimension C of a class on the strength of a proposal
made for diagnosis `d`: the class is the true one and `d` is right, the tool is
the class's own, and the parameters are right for it. -/
theorem credit_means_right {replies : Nat → Reply} {d t n : String} {provider model : Option String} {p : Proposal}
    (hp : proposeAction replies d t n provider model = .ok p) (x : Run) (e : String) (ep : EpisodeRow) (r : Result)
    (hr : r.act.llmActionProposal = some p) (a : String) :
    (recordLlmTrust x e ep r).All fun s => Credits a s → a = ep.faultClass ∧ d = a ∧
      ∃ fix, DETERMINISTIC_ACTION_MAP.lookup a = some fix ∧ p.toolName = some fix.tool ∧
        actionIsCorrect x.liveCpu a fix.tool (p.params.getD ∅) fix.tool r.diag.toolOutput = .ok true := by
  apply (recordLlmTrust_credits x e ep r a).mono
  intro s h hs
  obtain ⟨rfl, q, hq, -, tool, fix, htool, hfix, hok⟩ := h hs
  obtain rfl : p = q := Option.some.inj (hr.symm.trans hq)
  obtain rfl := tool_of_correct hok
  have hfits : some fix.tool = (DETERMINISTIC_ACTION_MAP.lookup d).map Fix.tool := htool.symm.trans (proposeAction_tool hp)
  obtain ⟨own, hown, htools⟩ := Option.map_eq_some_iff.1 hfits.symm
  exact ⟨rfl, tool_injective hown hfix htools, fix, hfix, htool, hok⟩

/-- The LLM's restart of `carts`. -/
def restart : Reply := .call (.str "restart_deployment") (.dict (Py.Dict.set ∅ "name" (.str "carts")))

/-- Stub and LLM both say crash-loop, and the LLM proposes to restart `carts`. -/
def bothRight : Except PyErr Result :=
  handle (replying restart) ⟨"crash-loop", none, none⟩
    ⟨.diagnosed, some "crash-loop", none, none, some "gemini", some "gemini-3-flash-preview", some .primary⟩ none
    (acting "crash-loop") "ep-1" crashLoop

/-- A right diagnosis and a right restart earn a credit, and every credit is for the true class. -/
theorem credit_means_right_restart : ∃ p r,
    proposeAction (fun _ => restart) "crash-loop" "carts" "sock-shop" (some "gemini") (some "gemini-3-flash-preview") = .ok p ∧
    bothRight = .ok r ∧ r.act.llmActionProposal = some p ∧
    ((after (recordLlmTrust (scoring fun _ _ _ => bothRight) "ep-1" crashLoop r) {}).action "crash-loop").streak = 1 ∧
    (recordLlmTrust (scoring fun _ _ _ => bothRight) "ep-1" crashLoop r).All fun s => Credits "crash-loop" s →
      p.toolName = some "restart_deployment" := by
  refine ⟨_, _, rfl, rfl, rfl, rfl, ?_⟩
  have hp : proposeAction (fun _ => restart) "crash-loop" "carts" "sock-shop" (some "gemini")
    (some "gemini-3-flash-preview") = .ok _ := rfl
  apply (credit_means_right hp (scoring fun _ _ _ => bothRight) "ep-1" crashLoop _ rfl "crash-loop").mono
  intro s h hs
  exact rfl

end Wardence.Credit
