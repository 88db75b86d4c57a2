import Wardence.Scorer
/-!
# What `/act` may dispatch

`act_cases` is every way `/act` can call an action function: the fix of the
ground truth from the safety net, the fix of the predicted class, the LLM's own
proposal for it, and the fix of the true class in its place. The authority, the
address and the trust behind a dispatch are read off the four cases.
-/
namespace Wardence.Dispatch

open Keyed

/-- Class `c` may act now. -/
def Authorised (db : Db) (c : String) : Prop := (db.trust c).state = .canAct ∧ (db.hold c).active = false

/-- The call is the fix `ACTION_MAP` has for class `c`. -/
def Fixes (req : ActRequest) (c : String) (call : Call) : Prop :=
  ∃ m, ACTION_MAP.lookup c = some m ∧ call = ⟨m.tool, m.kwargs req.target req.ns⟩

/-- `/act` gets as far as to let the LLM's own tool and parameters through. -/
def Chooses (w : World) (db : Db) (req : ActRequest) (p : Proposal) (tool : String) (params : Py.Dict) : Prop :=
  ∃ m, ACTION_MAP.lookup req.predicted = some m ∧ Authorised db req.predicted ∧
    backgroundProposal w db req = .ok (some p) ∧ llmChoice w db req m (some p) = .ok (some (tool, params, p.source))

/-- The gate, asked about a call, lets it pass. -/
def Passes (w : World) (req : ActRequest) (tool : String) (params : Py.Dict) : Prop :=
  ∀ actual, req.actualClass = some actual →
    gateCheck w.liveCpu req.predicted actual tool params req.target req.ns req.toolOutput = .ok .pass

theorem mapping_class {c : String} {m : Mapping} (h : ACTION_MAP.lookup c = some m) : m.faultClass = c := by
  have hall : ∀ r ∈ ACTION_MAP, r.2.faultClass = r.1 := by simp [ACTION_MAP, mapping]
  exact hall (c, m) (mem_of_lookup h)

theorem ok_bind {α β : Type} (a : α) (f : α → Except PyErr β) : (Except.ok a >>= f) = f a := rfl

/-! ## The four dispatches -/

/-- What `_dispatch_with_gate` does with a call: it goes through, or the true class's fix takes its place. -/
theorem dispatch_cases {w : World} {req : ActRequest} {resp : ActResponse} {tool : String} {params : Py.Dict}
    {source : Source} {a : Acted} (h : dispatchWithGate w req resp tool params source = .ok a) :
    (a = perform w resp tool params source ∧ Passes w req tool params) ∨
      ∃ actual call, req.actualClass = some actual ∧ actual ≠ req.predicted ∧ a.call = some call ∧
        Fixes req actual call ∧ a.response.actionSource = some .gateSubstituted := by
  unfold dispatchWithGate at h
  cases hact : req.actualClass with
  | none =>
    rw [hact] at h
    exact .inl ⟨(Except.ok.inj h).symm, fun _ hn => by rw [hact] at hn; cases hn⟩
  | some actual =>
    rw [hact] at h
    obtain ⟨g, hg, h⟩ := Py.ok_of_bind h
    cases g with
    | pass =>
      refine .inl ⟨(Except.ok.inj h).symm, fun c hc => ?_⟩
      obtain rfl := Option.some.inj (hact.symm.trans hc)
      exact hg
    -- The gate substitutes only the true class's own fix, in two branches.
    | substitute tool' params' reason =>
      refine .inr ⟨actual, ⟨tool', params'⟩, rfl, ?_⟩
      obtain rfl := Except.ok.inj h
      unfold gateCheck at hg
      split at hg
      · cases hg
      · rename_i hne
        split at hg
        · cases hg
        · rename_i m hm
          refine ⟨Ne.symm hne, rfl, ⟨m, hm, ?_⟩, rfl⟩
          split at hg
          · obtain ⟨rfl, rfl, -⟩ := GateResult.substitute.inj (Except.ok.inj hg); rfl
          · obtain ⟨s, -, hg⟩ := Py.ok_of_bind hg
            split at hg
            · cases hg
            · obtain ⟨rfl, rfl, -⟩ := GateResult.substitute.inj (Except.ok.inj hg); rfl

/-- The ways `/act` calls an action function. -/
inductive Route (w : World) (db : Db) (req : ActRequest) (a : Acted) (call : Call) : Prop
  | safetyNet (actual : String) : req.actualClass = some actual → Authorised db actual → Fixes req actual call →
      a.response.actionSource = some .groundTruthSafetyNet → Route w db req a call
  | own : Authorised db req.predicted → Fixes req req.predicted call →
      a.response.actionSource = some .deterministicProduction → Route w db req a call
  | llm (p : Proposal) (tool : String) (params : Py.Dict) : Chooses w db req p tool params → Passes w req tool params →
      call = ⟨tool, params⟩ → a.response.actionSource = some p.source → Route w db req a call
  | substituted (actual : String) : req.actualClass = some actual → actual ≠ req.predicted →
      Authorised db req.predicted → Fixes req actual call →
      a.response.actionSource = some .gateSubstituted → Route w db req a call

/-- The safety net calls the true class's fix, where that class may act. -/
theorem safetyNet_fix {w : World} {db : Db} {req : ActRequest} {resp : ActResponse} {call : Call}
    (hc : (safetyNet w db req resp).call = some call) :
    ∃ actual, req.actualClass = some actual ∧ Authorised db actual ∧ Fixes req actual call ∧
      (safetyNet w db req resp).response.actionSource = some .groundTruthSafetyNet := by
  unfold safetyNet at hc ⊢
  split at hc
  · cases hc
  · rename_i actual hact
    split at hc
    · cases hc
    · rename_i m hm
      split at hc
      · rename_i hauth
        obtain rfl := Option.some.inj hc
        rw [mapping_class hm] at hauth
        refine ⟨actual, (Option.filter_eq_some_iff.1 hact).1, hauth, ⟨m, hm, rfl⟩, ?_⟩
        simp only [mapping_class hm, hauth, and_self, if_true]
        rfl
      · cases hc

theorem safetyNet_route {w : World} {db : Db} {req : ActRequest} {resp : ActResponse} {call : Call}
    (hc : (safetyNet w db req resp).call = some call) : Route w db req (safetyNet w db req resp) call := by
  obtain ⟨actual, hact, hauth, hfix, hsrc⟩ := safetyNet_fix hc
  exact .safetyNet actual hact hauth hfix hsrc

theorem llmChoice_source {w : World} {db : Db} {req : ActRequest} {m : Mapping} {proposal : Option Proposal}
    {tool : String} {params : Py.Dict} {source : Source}
    (h : llmChoice w db req m proposal = .ok (some (tool, params, source))) :
    ∃ p, proposal = some p ∧ source = p.source := by
  unfold llmChoice at h
  split at h
  · split at h
    · obtain ⟨s, -, h⟩ := Py.ok_of_bind h
      split at h
      · cases h; exact ⟨_, rfl, rfl⟩
      · cases h
    · cases h
  · cases h

/-- Every dispatch takes one of the four routes. -/
theorem act_cases {w : World} {db : Db} {req : ActRequest} {a : Acted} {call : Call} (h : act w db req = .ok a)
    (hc : a.call = some call) : Route w db req a call := by
  unfold act at h
  obtain ⟨proposal, hp, h⟩ := Py.ok_of_bind h
  simp only at h
  split at h
  -- No fix for the predicted class: the safety net.
  · obtain rfl := Except.ok.inj h
    exact safetyNet_route hc
  · rename_i m hm
    have hclass := mapping_class hm
    split at h
    · obtain rfl := Except.ok.inj h; cases hc
    · rename_i hok
      have hauth : Authorised db req.predicted := by
        rw [hclass] at hok
        exact ⟨by tauto, by cases hh : (db.hold req.predicted).active <;> simp_all⟩
      obtain ⟨choice, hch, h⟩ := Py.ok_of_bind h
      -- The predicted class is authorised: its own fix, or the LLM's choice.
      cases choice with
      | none =>
        rcases dispatch_cases h with ⟨rfl, -⟩ | ⟨actual, call', ha, hne, hcall, hfix, hsrc⟩
        · obtain rfl := Option.some.inj hc
          exact .own hauth ⟨m, hm, rfl⟩ rfl
        · obtain rfl := Option.some.inj (hcall.symm.trans hc)
          exact .substituted actual ha hne hauth hfix hsrc
      | some c =>
        obtain ⟨tool, params, source⟩ := c
        obtain ⟨p, rfl, rfl⟩ := llmChoice_source hch
        rcases dispatch_cases h with ⟨rfl, hpass⟩ | ⟨actual, call', ha, hne, hcall, hfix, hsrc⟩
        · obtain rfl := Option.some.inj hc
          exact .llm p tool params ⟨m, hm, hauth, hp, hch⟩ hpass rfl rfl
        · obtain rfl := Option.some.inj (hcall.symm.trans hc)
          exact .substituted actual ha hne hauth hfix hsrc

/-- What gets through is dispatched. -/
theorem act_of_choice {w : World} {db : Db} {req : ActRequest} {p : Proposal} {tool : String} {params : Py.Dict}
    (h : Chooses w db req p tool params) (hpass : Passes w req tool params) :
    act w db req = .ok (perform w { llmActionProposal := some p } tool params p.source) := by
  obtain ⟨m, hm, ⟨hcan, hhold⟩, hp, hch⟩ := h
  have hclass := mapping_class hm
  have hd : dispatchWithGate w req { llmActionProposal := some p } tool params p.source =
      .ok (perform w { llmActionProposal := some p } tool params p.source) := by
    unfold dispatchWithGate
    cases hact : req.actualClass with
    | none => rfl
    | some actual => simp only [hpass actual hact]; rfl
  simp only [act, hp, ok_bind, hm, hclass, hcan, hhold, hch, ne_eq, not_true_eq_false, Bool.false_eq_true, or_self,
    if_false, hd]

/-! ## Where a proposal comes from -/

/-- The sources `propose_action` gives its proposals. -/
def Proposed (s : Source) : Prop :=
  s = .llmPrimaryRetry ∨ s = .llmEscalated ∨ s = .deterministicFallback ∨ s = .notAutoFixClass

theorem askTwice_source {replies : Nat → Reply} {entry : ChainEntry} {c : String} {p : Proposal}
    (h : askTwice replies entry c = .ok (some p)) : p.source = .llmPrimaryRetry := by
  unfold askTwice at h
  obtain ⟨a, -, h⟩ := Py.ok_of_bind h
  split at h
  · cases h; rfl
  · obtain ⟨b, -, h⟩ := Py.ok_of_bind h
    split at h <;> cases h
    rfl
  · cases h

theorem escalate_source {replies : Nat → Reply} {entry : ChainEntry} {c : String} {p : Proposal}
    (h : escalate replies entry c = .ok (some p)) : p.source = .llmEscalated := by
  unfold escalate at h
  split at h
  · cases h
  · obtain ⟨a, -, h⟩ := Py.ok_of_bind h
    split at h <;> cases h
    rfl

theorem proposeAction_source {replies : Nat → Reply} {c t n : String} {provider model : Option String} {p : Proposal}
    (h : proposeAction replies c t n provider model = .ok p) : Proposed p.source := by
  unfold proposeAction at h
  split at h
  · cases h; exact .inr (.inr (.inr rfl))
  · simp only at h
    split at h
    · cases h; exact .inr (.inr (.inl rfl))
    · obtain ⟨q, hq, h⟩ := Py.ok_of_bind h
      cases q with
      | some q => cases h; exact .inl (askTwice_source hq)
      | none =>
        obtain ⟨q, hq, h⟩ := Py.ok_of_bind h
        cases q with
        | some q => cases h; exact .inr (.inl (escalate_source hq))
        | none => cases h; exact .inr (.inr (.inl rfl))

theorem chooses_source {w : World} {db : Db} {req : ActRequest} {p : Proposal} {tool : String} {params : Py.Dict}
    (h : Chooses w db req p tool params) : Proposed p.source := by
  obtain ⟨m, -, -, hp, -⟩ := h
  unfold backgroundProposal at hp
  split at hp
  · cases hp
  · split at hp
    · cases hq : proposeAction w.replies _ req.target req.ns req.llmProvider req.llmModel with
      | error e => rw [hq] at hp; cases hp
      | ok q => rw [hq] at hp; cases hp; exact proposeAction_source hq
    · cases hp

/-- The LLM's own call is of the tool its diagnosis needs, in LLM mode and with its action trusted. -/
theorem llmChoice_ok {w : World} {db : Db} {req : ActRequest} {m : Mapping} {p : Proposal} {tool : String}
    {params : Py.Dict} {source : Source} (h : llmChoice w db req m (some p) = .ok (some (tool, params, source))) :
    req.diagnoserModeUsed = .llm ∧ (db.action m.faultClass).state = .llmCanAct ∧ tool = m.tool ∧
      p.toolName = some tool ∧ p.params = some params := by
  unfold llmChoice at h
  split at h
  · rename_i he
    obtain rfl := Option.some.inj he
    split at h
    · rename_i hcond
      obtain ⟨s, -, h⟩ := Py.ok_of_bind h
      split at h
      · cases h; exact ⟨hcond.1, hcond.2.1, hcond.2.2, rfl, rfl⟩
      · cases h
    · cases h
  · cases h

/-! ## Authority -/

/-- The class whose fix was dispatched: the predicted one, or, where the gate or
the safety net chose the fix, the true one. -/
def fixedClass (req : ActRequest) (a : Acted) : Option String :=
  match a.response.actionSource with
  | none => none
  | some .gateSubstituted => req.actualClass
  | some .groundTruthSafetyNet => req.actualClass
  | some _ => some req.predicted

theorem fixedClass_proposed {req : ActRequest} {a : Acted} {s : Source} (h : a.response.actionSource = some s)
    (hs : Proposed s) : fixedClass req a = some req.predicted := by
  unfold fixedClass
  rcases hs with rfl | rfl | rfl | rfl <;> rw [h]

/-- An action is always the fix of one class. That class may act and is not
held, unless the gate put it in place of another's: then the predicted class,
whose action the gate stopped, may act and is not held. -/
theorem dispatch_authority (w : World) (db : Db) (req : ActRequest) {a : Acted} {call : Call}
    (h : act w db req = .ok a) (hc : a.call = some call) :
    (∃ c m, fixedClass req a = some c ∧ ACTION_MAP.lookup c = some m ∧ call.tool = m.tool ∧
      (a.response.actionSource ≠ some .gateSubstituted → Authorised db c)) ∧
    (a.response.actionSource = some .gateSubstituted → Authorised db req.predicted) := by
  cases act_cases h hc with
  | safetyNet actual ha hauth hfix hsrc =>
    obtain ⟨m, hm, rfl⟩ := hfix
    refine ⟨⟨actual, m, by rw [fixedClass, hsrc]; exact ha, hm, rfl, fun _ => hauth⟩, fun hs => ?_⟩
    rw [hsrc] at hs; cases hs
  | own hauth hfix hsrc =>
    obtain ⟨m, hm, rfl⟩ := hfix
    exact ⟨⟨req.predicted, m, by rw [fixedClass, hsrc], hm, rfl, fun _ => hauth⟩, fun _ => hauth⟩
  | llm p tool params hch hpass hcall hsrc =>
    have hfixed : fixedClass req a = some req.predicted := fixedClass_proposed hsrc (chooses_source hch)
    obtain ⟨m, hm, hauth, -, hchoice⟩ := hch
    exact ⟨⟨req.predicted, m, hfixed, hm, by rw [hcall]; exact (llmChoice_ok hchoice).2.2.1, fun _ => hauth⟩,
      fun _ => hauth⟩
  | substituted actual ha hne hauth hfix hsrc =>
    obtain ⟨m, hm, rfl⟩ := hfix
    exact ⟨⟨actual, m, by rw [fixedClass, hsrc]; exact ha, hm, rfl, fun hs => absurd hsrc hs⟩, fun _ => hauth⟩

/-- A world in which the model's one reply is `r` and every action applies. -/
def replying (r : Reply) : World := ⟨fun _ => r, fun _ _ => none, fun _ _ => ⟨true⟩⟩

/-- A database in which `c` may act. -/
def acting (c : String) : Db := { trustState := (∅ : Table String (Rung TrustLevel)).insert c ⟨.canAct, 5⟩ }

/-- The stub says crash-loop where the fault is another. -/
def misdiagnosed (actual : String) : ActRequest :=
  ⟨"catalogue", "sock-shop", "crash-loop", .stub, none, none, none, none, none, some actual⟩

theorem dispatch_authority_oom :
    ∃ a call, act (replying .failure) (acting "crash-loop") (misdiagnosed "oom") = .ok a ∧ a.call = some call ∧
      Authorised (acting "crash-loop") "crash-loop" :=
  ⟨_, _, rfl, rfl, (dispatch_authority (replying .failure) (acting "crash-loop") (misdiagnosed "oom") rfl rfl).2 rfl⟩

/-- The gate dispatches the fix of a class that is still on report only. -/
theorem untrusted_fix :
    ∃ a call, act (replying .failure) (acting "crash-loop") (misdiagnosed "oom") = .ok a ∧ a.call = some call ∧
      fixedClass (misdiagnosed "oom") a = some "oom" ∧ call.tool = "patch_memory_limit" ∧
      ¬ Authorised (acting "crash-loop") "oom" :=
  ⟨_, _, rfl, rfl, rfl, rfl, fun h => absurd h.1 (by decide)⟩

/-! ## Address -/

/-- Keyword arguments for the request's own workload and namespace. -/
def Addressed (req : ActRequest) (call : Call) : Prop :=
  call.params.lookup "name" = some (.str req.target) ∧ call.ns = .str req.ns

theorem fixParams_keys (c k : String) (hk : k = "name" ∨ k = "namespace") :
    ∀ kv ∈ (FIX_PARAMS.lookup c).getD [], kv.1 ≠ k := by
  have hall : ∀ r ∈ FIX_PARAMS, ∀ kv ∈ r.2, kv.1 ≠ "name" ∧ kv.1 ≠ "namespace" := by
    simp only [FIX_PARAMS, List.forall_mem_cons]
    decide
  cases hl : FIX_PARAMS.lookup c with
  | none => simp
  | some extra =>
    intro kv hkv
    obtain ⟨h1, h2⟩ := hall (c, extra) (mem_of_lookup hl) kv hkv
    rcases hk with rfl | rfl
    · exact h1
    · exact h2

/-- Every fix of `ACTION_MAP` is addressed to the request's workload. -/
theorem kwargs_addressed {c : String} {m : Mapping} (h : ACTION_MAP.lookup c = some m) (req : ActRequest) :
    Addressed req ⟨m.tool, m.kwargs req.target req.ns⟩ := by
  have hall : ∀ r ∈ ACTION_MAP, r.2.kwargs =
      fun t n => withParams (addressed t n) ((FIX_PARAMS.lookup r.1).getD []) := by
    simp [ACTION_MAP, mapping]
  have hk : m.kwargs = _ := hall (c, m) (mem_of_lookup h)
  unfold Addressed Call.ns
  simp only [hk, lookup_withParams (fixParams_keys c "name" (.inl rfl)),
    lookup_withParams (fixParams_keys c "namespace" (.inr rfl)), addressed_name, addressed_namespace, Option.getD_some,
    and_self]

/-- Every call `/act` makes is for the request's own workload exactly when every
proposal of the LLM that it lets through is. -/
theorem confined_iff (w : World) (db : Db) (req : ActRequest) :
    (∀ a call, act w db req = .ok a → a.call = some call → Addressed req call) ↔
    ∀ p tool params, Chooses w db req p tool params → Passes w req tool params → Addressed req ⟨tool, params⟩ := by
  refine ⟨fun h p tool params hch hpass => h _ _ (act_of_choice hch hpass) rfl, fun h a call ha hc => ?_⟩
  cases act_cases ha hc with
  | safetyNet actual _ _ hfix _ => obtain ⟨m, hm, rfl⟩ := hfix; exact kwargs_addressed hm req
  | own _ hfix _ => obtain ⟨m, hm, rfl⟩ := hfix; exact kwargs_addressed hm req
  | llm p tool params hch hpass hcall _ => rw [hcall]; exact h p tool params hch hpass
  | substituted actual _ _ _ hfix _ => obtain ⟨m, hm, rfl⟩ := hfix; exact kwargs_addressed hm req

/-- A database in which `c` may act and everything about it is trusted to the LLM. -/
def trusted (c : String) : Db :=
  { acting c with
    diagnoserMode := (∅ : Table String (Rung DiagMode)).insert c ⟨.llm, 5⟩
    actionTrust := (∅ : Table String (Rung ActionTrust)).insert c ⟨.llmCanAct, 5⟩ }

/-- The LLM diagnoses a crash-loop on `carts`. -/
def crashLooping : ActRequest :=
  ⟨"carts", "sock-shop", "crash-loop", .llm, some "gemini", some "gemini-3-flash-preview", some "crash-loop", none, none,
    some "crash-loop"⟩

/-- A validated restart of another workload is dispatched. -/
theorem restarts_payment :
    ∃ a call, act (replying (.call (.str "restart_deployment") (.dict (Py.Dict.set ∅ "name" (.str "payment")))))
        (trusted "crash-loop") crashLooping = .ok a ∧
      a.call = some call ∧ call.tool = "restart_deployment" ∧ call.params.lookup "name" = some (.str "payment") ∧
      ¬ Addressed crashLooping call :=
  ⟨_, _, rfl, rfl, rfl, rfl, fun h => absurd h.1 (by decide)⟩

/-! ## Three keys -/

/-- `/diagnose` and then `/act`, on a database that does not change in between:
the LLM's own action needs all three of its class's keys, and the LLM's
diagnosis drives production only where Dimension B trusts it for its class. -/
def ThreeKeys (w : World) (db : Db) (target ns : String) (toolOutput : Option Py.Dict) (stub : StubResult)
    (llm : LlmResult) (e actual : String) : Prop :=
  let d := diagnose db target ns toolOutput stub llm
  (∀ c a call s, d.diagnosis = some c → act w db (actRequest d c e actual) = .ok a → a.call = some call →
    a.response.actionSource = some s → Proposed s →
    (db.trust c).state = .canAct ∧ (db.diag c).state = .llm ∧ (db.action c).state = .llmCanAct) ∧
  (d.diagnoserModeUsed = .llm → ∀ c, d.diagnosis = some c → (db.diag c).state = .llm)

/-- The LLM drives a diagnosis where the stub's class is in LLM mode, and then it is its own. -/
theorem diagnose_llm {db : Db} {target ns : String} {toolOutput : Option Py.Dict} {stub : StubResult} {llm : LlmResult}
    (h : (diagnose db target ns toolOutput stub llm).diagnoserModeUsed = .llm) :
    readMode db stub = .llm ∧ llm.status = .diagnosed ∧
      (diagnose db target ns toolOutput stub llm).diagnosis = llm.llmDiagnosis := by
  by_cases hc : readMode db stub = .llm ∧ llm.status = .diagnosed
  · exact ⟨hc.1, hc.2, by simp [diagnose, hc]⟩
  · simp [diagnose, hc] at h

/-- A dispatched proposal is trusted in Dimensions A and C, and was made in LLM mode. -/
theorem proposed_dispatch {w : World} {db : Db} {req : ActRequest} {a : Acted} {call : Call} {s : Source}
    (h : act w db req = .ok a) (hc : a.call = some call) (hsrc : a.response.actionSource = some s) (hs : Proposed s) :
    (db.trust req.predicted).state = .canAct ∧ (db.action req.predicted).state = .llmCanAct ∧
      req.diagnoserModeUsed = .llm := by
  have other {s' : Source} (hs' : a.response.actionSource = some s') : Proposed s' := by
    rwa [← Option.some.inj (hsrc.symm.trans hs')]
  cases act_cases h hc with
  | llm p tool params hch _ _ _ =>
    obtain ⟨m, hm, hauth, -, hchoice⟩ := hch
    obtain ⟨hmode, haction, -⟩ := llmChoice_ok hchoice
    rw [mapping_class hm] at haction
    exact ⟨hauth.1, haction, hmode⟩
  | safetyNet _ _ _ _ h' => exact absurd (other h') (by simp [Proposed])
  | own _ _ h' => exact absurd (other h') (by simp [Proposed])
  | substituted _ _ _ _ _ h' => exact absurd (other h') (by simp [Proposed])

/-- The keys are all there exactly when, wherever the mode of the stub's class
lets the LLM drive, the LLM's own class is in LLM mode too. -/
theorem three_keys_iff (w : World) (db : Db) (target ns : String) (toolOutput : Option Py.Dict) (stub : StubResult)
    (llm : LlmResult) (e actual : String) :
    ThreeKeys w db target ns toolOutput stub llm e actual ↔
    (readMode db stub = .llm → llm.status = .diagnosed → ∀ c, llm.llmDiagnosis = some c → (db.diag c).state = .llm) := by
  have mode {c : String} (h : readMode db stub = .llm → llm.status = .diagnosed → ∀ c, llm.llmDiagnosis = some c →
      (db.diag c).state = .llm) (hu : (diagnose db target ns toolOutput stub llm).diagnoserModeUsed = .llm)
      (hc : (diagnose db target ns toolOutput stub llm).diagnosis = some c) : (db.diag c).state = .llm := by
    obtain ⟨hread, hstatus, hd⟩ := diagnose_llm hu
    exact h hread hstatus c (hd.symm.trans hc)
  constructor
  · rintro ⟨-, h⟩ hread hstatus c hc
    exact h (by simp [diagnose, hread, hstatus]) c (by simp [diagnose, hread, hstatus, hc])
  · refine fun h => ⟨fun c a call s hc ha hcall hsrc hs => ?_, fun hu c hc => mode h hu hc⟩
    obtain ⟨hA, hC, hu⟩ := proposed_dispatch ha hcall hsrc hs
    exact ⟨hA, mode h hu hc, hC⟩

/-- A database in which the LLM may diagnose crash-loops and act on bad rollouts. -/
def mixed : Db :=
  { acting "bad-rollout" with
    diagnoserMode := (∅ : Table String (Rung DiagMode)).insert "crash-loop" ⟨.llm, 5⟩
    actionTrust := (∅ : Table String (Rung ActionTrust)).insert "bad-rollout" ⟨.llmCanAct, 5⟩ }

/-- The LLM's rollback is dispatched where only the stub's class is trusted to the LLM's diagnoses. -/
theorem borrowed_key :
    ¬ ThreeKeys (replying (.call (.str "rollback_deployment") (.dict (Py.Dict.set ∅ "name" (.str "front-end"))))) mixed
      "front-end" "sock-shop" none ⟨"crash-loop", none, none⟩
      ⟨.diagnosed, some "bad-rollout", none, none, some "gemini", some "gemini-3-flash-preview", some .primary⟩
      "ep-1" "bad-rollout" := by
  intro h
  exact absurd (h.1 "bad-rollout" _ _ _ rfl rfl rfl rfl (.inl rfl)).2.1 (by decide)

end Wardence.Dispatch
