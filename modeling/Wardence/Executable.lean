import Wardence.Boundary
import Wardence.Language
import Wardence.Lib.Traces
/-!
# A proposal can be carried out

The parameters of a tool are written three times: in the validator, in the proposer and in the
signatures of `actions.py`. Here are the signatures and how Python binds a call to them, and
`propose_action` call by call: what it proposes is bound without an error, and every argument is of
the type the signature gives, but for a namespace that is null.
-/
namespace Wardence.Executable

open Keyed Threads Code Wardence.Language

/-! ## Signatures -/

inductive Annotation where
  | str
  | int
  deriving DecidableEq

def Annotation.Admits : Annotation → Py.Val → Prop
  | .str, v => ∃ s, v = .str s
  | .int, v => ∃ n, v = .int n

structure Param where
  name : String
  annotation : Annotation
  default : Option Py.Val := none
  deriving DecidableEq

/-- `namespace: str = DEFAULT_NAMESPACE`. -/
def namespaceParam : Param := ⟨"namespace", .str, some (.str DEFAULT_NAMESPACE)⟩

/-- The signatures of `ALLOWED_ACTIONS`. -/
def SIGNATURES : List (String × List Param) :=
  [("restart_deployment", [{ name := "name", annotation := .str }, namespaceParam]),
    ("patch_memory_limit", [{ name := "name", annotation := .str }, { name := "container", annotation := .str },
      { name := "limit", annotation := .str }, namespaceParam]),
    ("patch_cpu_limit", [{ name := "name", annotation := .str }, { name := "container", annotation := .str },
      { name := "limit", annotation := .str }, namespaceParam]),
    ("scale_deployment", [{ name := "name", annotation := .str }, { name := "replicas", annotation := .int }, namespaceParam]),
    ("rollback_deployment", [{ name := "name", annotation := .str }, namespaceParam]),
    ("restore_from_disk_full", [{ name := "name", annotation := .str }, namespaceParam,
      { name := "replicas", annotation := .int, default := some (.int 1) }])]

/-- The argument of a parameter in the call `f(**d)`. -/
def Param.argument (p : Param) (d : Py.Dict) : Option Py.Val := (d.lookup p.name).or p.default

/-- The arguments of the parameters, in their order. -/
def arguments (d : Py.Dict) : List Param → Except PyErr (List Py.Val)
  | [] => .ok []
  | p :: ps =>
    match p.argument d with
    | some v => (v :: ·) <$> arguments d ps
    | none => .error (.typeError s!"missing a required argument: '{p.name}'")

/-- Binds `f(**d)`. -/
def bindArguments (sig : List Param) (d : Py.Dict) : Except PyErr (List Py.Val) :=
  match d.keys.find? fun k => k ∉ sig.map (·.name) with
  | some k => .error (.typeError s!"got an unexpected keyword argument '{k}'")
  | none => arguments d sig

/-- `ALLOWED_ACTIONS[tool](**d)` is a call of an action, with an argument for every parameter and no
other, each of its type. -/
def Callable (tool : String) (d : Py.Dict) : Prop :=
  ∃ sig args, SIGNATURES.lookup tool = some sig ∧ bindArguments sig d = .ok args ∧
    List.Forall₂ (fun p v => p.annotation.Admits v) sig args

theorem signatures_cover : SIGNATURES.map (·.1) = ALLOWED_ACTIONS := rfl

theorem arguments_iff (d : Py.Dict) (sig : List Param) :
    (∃ args, arguments d sig = .ok args ∧ List.Forall₂ (fun p v => p.annotation.Admits v) sig args) ↔
      ∀ p ∈ sig, ∃ v, p.argument d = some v ∧ p.annotation.Admits v := by
  induction sig with
  | nil => exact iff_of_true ⟨[], rfl, .nil⟩ (by simp)
  | cons p ps ih =>
    rw [List.forall_mem_cons, ← ih, arguments]
    cases hp : p.argument d with
    | none => simp
    | some v =>
      cases hps : arguments d ps with
      | error e => simp
      | ok args => simp

/-- What a call needs: no key but the parameters' names, and an argument of its type for each of them. -/
theorem callable_iff {tool : String} {sig : List Param} (h : SIGNATURES.lookup tool = some sig) (d : Py.Dict) :
    Callable tool d ↔ (∀ k, (d.lookup k).isSome = true → k ∈ sig.map (·.name)) ∧
      ∀ p ∈ sig, ∃ v, p.argument d = some v ∧ p.annotation.Admits v := by
  have hfind : (d.keys.find? fun k => k ∉ sig.map (·.name)) = none ↔
      ∀ k, (d.lookup k).isSome = true → k ∈ sig.map (·.name) := by
    simp [List.find?_eq_none, AList.lookup_isSome, AList.mem_keys]
  rw [← arguments_iff, ← hfind]
  constructor
  · rintro ⟨sig', args, hs, hb, ht⟩
    obtain rfl : sig = sig' := Option.some.inj (h.symm.trans hs)
    unfold bindArguments at hb
    split at hb
    next => cases hb
    next hn => exact ⟨hn, args, hb, ht⟩
  · rintro ⟨hn, args, ha, ht⟩
    exact ⟨sig, args, h, by rw [bindArguments, hn]; exact ha, ht⟩

/-! ## The three descriptions agree -/

def annotationOf : Kind → Annotation
  | .text | .quantity _ => .str
  | .replicas => .int

/-- A parameter of a signature is the namespace, the validator's parameter of that name, or the replicas of a
restore, which the proposer sets. -/
def Described (tool : String) (ps : List (String × Kind)) (p : Param) : Prop :=
  p = namespaceParam ∨ (∃ q ∈ ps, q.1 = p.name ∧ annotationOf q.2 = p.annotation) ∨
    (tool = "restore_from_disk_full" ∧ p.name = "replicas" ∧ p.annotation = .int)

instance (tool : String) (ps : List (String × Kind)) (p : Param) : Decidable (Described tool ps p) := instDecidableOr

def signature (tool : String) : List Param := (SIGNATURES.lookup tool).getD []

theorem signature_eq {tool : String} (h : tool ∈ ALLOWED_ACTIONS) : SIGNATURES.lookup tool = some (signature tool) := by
  simp only [ALLOWED_ACTIONS, List.mem_cons, List.not_mem_nil, or_false] at h
  rcases h with rfl | rfl | rfl | rfl | rfl | rfl <;> rfl

theorem described : ∀ r ∈ PARAMETERS, (∀ p ∈ signature r.1, Described r.1 r.2 p) ∧
    ∀ k ∈ "namespace" :: r.2.map (·.1), k ∈ (signature r.1).map (·.name) := by decide

theorem replicas_of_restore : "replicas" ∈ (signature "restore_from_disk_full").map (·.name) := by decide

/-- What meets a kind is of its type. -/
theorem admits_of_meets {k : Kind} {v : Py.Val} (h : k.Meets Loose v) : (annotationOf k).Admits v := by
  cases k with
  | text =>
    obtain ⟨s, rfl, -⟩ := h
    exact ⟨s, rfl⟩
  | replicas =>
    obtain ⟨n, rfl, -⟩ := h
    exact ⟨n, rfl⟩
  | quantity r =>
    obtain ⟨s, ws, fs, u, final, f, rfl, -⟩ := h
    exact ⟨s, rfl⟩

theorem lookup_forced (tool : String) (d : Py.Dict) (k : String) : (forced tool d).lookup k =
    if tool = "restore_from_disk_full" ∧ k = "replicas" then some (.int 1) else d.lookup k := by
  unfold forced
  by_cases ht : tool = "restore_from_disk_full"
  · rw [if_pos ht]
    show (d.set "replicas" (.int 1)).lookup k = _
    rw [Py.Dict.lookup_set]
    simp [ht]
  · simp [ht]

/-- Parameters the validator accepts make a call, unless they give a null namespace. -/
theorem callable_forced_iff {tool : String} (ht : tool ∈ ALLOWED_ACTIONS) {d : Py.Dict}
    (h : validateParams tool (.dict d) = none) :
    Callable tool (forced tool d) ↔ d.lookup "namespace" ≠ some .none := by
  obtain ⟨ps, hps⟩ := allowed_iff.1 ht
  obtain ⟨hns, hall, hkeys⟩ := (validateParams_iff hps).1 h
  obtain ⟨hdesc, hnames⟩ := described _ (mem_of_lookup hps)
  have hlook := lookup_forced tool d
  rw [callable_iff (signature_eq ht)]
  constructor
  · rintro ⟨-, hp⟩ hnull
    have hmem : namespaceParam ∈ signature tool := by
      simp only [ALLOWED_ACTIONS, List.mem_cons, List.not_mem_nil, or_false] at ht
      rcases ht with rfl | rfl | rfl | rfl | rfl | rfl <;> decide
    obtain ⟨v, hv, s, rfl⟩ := hp namespaceParam hmem
    rw [Param.argument, hlook, if_neg fun hk => absurd hk.2 (by decide), show namespaceParam.name = "namespace" from rfl, hnull] at hv
    cases hv
  · intro hnull
    refine ⟨fun k hk => ?_, fun p hp => ?_⟩
    · rw [hlook] at hk
      split at hk
      next hr =>
        obtain ⟨rfl, rfl⟩ := hr
        exact replicas_of_restore
      next =>
        rcases hkeys k hk with rfl | hk
        · exact hnames _ (by simp)
        · exact hnames k (by simp [hk])
    · rw [Param.argument, hlook]
      rcases hdesc p hp with rfl | ⟨q, hq, hname, hann⟩ | ⟨rfl, hname, hann⟩
      · rw [if_neg fun hk => absurd hk.2 (by decide)]
        rcases hns with (hn | hn) | hn
        · exact ⟨_, by rw [show namespaceParam.name = "namespace" from rfl, hn]; rfl, _, rfl⟩
        · exact ⟨_, by rw [show namespaceParam.name = "namespace" from rfl, hn]; rfl, _, rfl⟩
        · exact absurd hn hnull
      · split
        next hr =>
          obtain ⟨rfl, hr⟩ := hr
          obtain rfl : [("name", Kind.text)] = ps := Option.some.inj hps
          rw [List.mem_singleton.1 hq, hr] at hname
          exact absurd hname (by decide)
        next =>
          obtain ⟨v, hv, hm⟩ := hall q hq
          exact ⟨v, by rw [← hname, hv]; rfl, hann ▸ admits_of_meets hm⟩
      · rw [if_pos ⟨rfl, hname⟩, hann]
        exact ⟨_, rfl, 1, rfl⟩

/-! ## The deterministic fixes -/

theorem keys_withParams {extra : List (String × Py.Val)} {d : Py.Dict} {k : String}
    (h : ((withParams d extra).lookup k).isSome = true) : k ∈ extra.map (·.1) ∨ (d.lookup k).isSome = true := by
  induction extra generalizing d with
  | nil => exact .inr h
  | cons kv extra ih =>
    rcases ih (d := d.set kv.1 kv.2) h with h | h
    · exact .inl (List.mem_cons_of_mem _ h)
    · rw [Py.Dict.lookup_set] at h
      split at h
      next hk => exact .inl (hk ▸ List.mem_cons_self)
      next => exact .inr h

theorem keys_addressed {target ns k : String} (h : ((addressed target ns).lookup k).isSome = true) : k ∈ ["name", "namespace"] := by
  by_contra hn
  simp only [List.mem_cons, List.not_mem_nil, or_false, not_or] at hn
  rw [addressed, Py.Dict.lookup_set, if_neg hn.2, Py.Dict.lookup_set, if_neg hn.1] at h
  cases h

/-- A deterministic fix makes a call on every target and namespace. -/
theorem callable_fix {c : String} {fix : Fix} (h : DETERMINISTIC_ACTION_MAP.lookup c = some fix) (target ns : String) :
    fix.tool ∈ ALLOWED_ACTIONS ∧ Callable fix.tool (fix.kwargs target ns) := by
  have hcall : ∀ {tool : String} (extra : List (String × Py.Val)), tool ∈ ALLOWED_ACTIONS →
      (∀ k ∈ extra.map (·.1) ++ ["name", "namespace"], k ∈ (signature tool).map (·.name)) →
      (∀ p ∈ signature tool, ∃ v, p.argument (withParams (addressed target ns) extra) = some v ∧ p.annotation.Admits v) →
      tool ∈ ALLOWED_ACTIONS ∧ Callable tool (withParams (addressed target ns) extra) := by
    intro tool extra ht hk hp
    refine ⟨ht, (callable_iff (signature_eq ht) _).2 ⟨fun k hs => hk k ?_, hp⟩⟩
    exact List.mem_append.2 ((keys_withParams hs).imp id keys_addressed)
  have hm := mem_of_lookup h
  simp only [DETERMINISTIC_ACTION_MAP, List.mem_cons, List.not_mem_nil, or_false, Prod.mk.injEq] at hm
  rcases hm with ⟨rfl, rfl⟩ | ⟨rfl, rfl⟩ | ⟨rfl, rfl⟩ | ⟨rfl, rfl⟩ | ⟨rfl, rfl⟩ | ⟨rfl, rfl⟩
  case inl | inr.inr.inr.inr.inr =>
    refine hcall [] (by decide) (by decide) ?_
    simp [signature, SIGNATURES, namespaceParam, Param.argument, Annotation.Admits, withParams, addressed, List.lookup_cons]
  all_goals
    refine hcall _ (by decide) (by decide) ?_
    simp [signature, SIGNATURES, namespaceParam, Param.argument, Annotation.Admits, withParams, fixParams,
      DETERMINISTIC_FIX_PARAMS, addressed, List.lookup_cons]

/-! ## The proposer, call by call -/

/-- One request, and what is made of its reply. -/
def askOnce (entry : ChainEntry) (c : String) : Code Reply ChainEntry Attempt := do
  let reply ← stmt entry
  match proposeOnce entry c reply with
  | .ok a => pure a
  | .error _ => raise

/-- The first provider, and its retry. -/
def askFirst (entry : ChainEntry) (c : String) : Code Reply ChainEntry (Option Proposal) := do
  match ← askOnce entry c with
  | .validated tool d e => pure (some (accepted .llmPrimaryRetry c tool d e))
  | .rejected _ =>
    match ← askOnce entry c with
    | .validated tool d e => pure (some (accepted .llmPrimaryRetry c tool d e))
    | _ => pure none
  | _ => pure none

def askNext (entry : ChainEntry) (c : String) : Code Reply ChainEntry (Option Proposal) :=
  match PROVIDER_CHAIN[PROVIDER_CHAIN.idxOf entry + 1]? with
  | none => pure none
  | some next => do
    match ← askOnce next c with
    | .validated tool d e => pure (some (accepted .llmEscalated c tool d e))
    | _ => pure none

/-- `propose_action`, whose statements are its calls of a model. -/
def propose (c target ns : String) (provider model : Option String) : Code Reply ChainEntry Proposal :=
  match DETERMINISTIC_ACTION_MAP.lookup c with
  | none => pure ⟨.notAutoFixClass, c, none, none, none, none, none⟩
  | some fix =>
    let fallback : Proposal := ⟨.deterministicFallback, c, some fix.tool, some (fix.kwargs target ns), none, none,
      some .deterministicFallback⟩
    match findChainEntry provider model with
    | none => pure fallback
    | some entry => do
      match ← askFirst entry c with
      | some p => pure p
      | none => return (← askNext entry c).getD fallback

/-- The reply gives a null namespace. -/
def nullNamespace : Reply → Bool
  | .call _ (.dict d) => d.lookup "namespace" = some .none
  | _ => false

section Replies
variable {c : String} {fix : Fix}

/-- An accepted reply is a call of the tool of the class, with parameters that the validator lets through. -/
theorem accepted_call (h : DETERMINISTIC_ACTION_MAP.lookup c = some fix) {reply : Reply} (ha : reply.accepted c = true) :
    ∃ d, reply = .call (.str fix.tool) (.dict d) ∧ fix.tool ∈ ALLOWED_ACTIONS ∧ validateParams fix.tool (.dict d) = none := by
  cases reply with
  | failure => cases ha
  | noCall => cases ha
  | call tool params =>
    cases tool with
    | str t =>
      simp only [Reply.accepted, h, Option.all_some, Bool.and_eq_true, decide_eq_true_eq, beq_iff_eq] at ha
      obtain ⟨⟨ht, hv⟩, rfl⟩ := ha
      cases params with
      | dict d => exact ⟨d, rfl, ht, Option.isNone_iff_eq_none.1 hv⟩
      | other v => cases hv
    | _ => cases ha

/-- An attempt is validated just where the reply is accepted. -/
theorem proposeOnce_cases (h : DETERMINISTIC_ACTION_MAP.lookup c = some fix) (entry : ChainEntry) (reply : Reply) :
    (reply.accepted c = false ∧ ∀ t d e, proposeOnce entry c reply ≠ .ok (.validated t d e)) ∨
    (reply.accepted c = true ∧ ∃ d, reply = .call (.str fix.tool) (.dict d) ∧ fix.tool ∈ ALLOWED_ACTIONS ∧
      validateParams fix.tool (.dict d) = none ∧
      proposeOnce entry c reply = .ok (.validated fix.tool (forced fix.tool d) entry)) := by
  cases ha : reply.accepted c with
  | false =>
    refine .inl ⟨rfl, fun t d e hp => ?_⟩
    cases hh : reply.hashable with
    | false => exact proposeOnce_unhashable hh ⟨_, hp⟩
    | true =>
      obtain ⟨a, hok, hval, -⟩ := proposeOnce_hashable entry c hh
      obtain rfl : a = .validated t d e := Except.ok.inj (hok.symm.trans hp)
      rw [hval.1 ⟨_, _, _, rfl⟩] at ha
      cases ha
  | true =>
    obtain ⟨d, rfl, ht, hv⟩ := accepted_call h ha
    refine .inr ⟨rfl, d, rfl, ht, hv, ?_⟩
    simp [proposeOnce, validateToolCall, Py.Val.hashable, ht, hv, settle, h, bind, Except.bind]
    rfl

/-- No reply of the run is accepted. -/
def NoneAccepted (c : String) (tr : List (Did Reply ChainEntry)) : Prop :=
  ∀ entry reply, Did.ran entry reply ∈ tr → reply.accepted c = false

/-- The run comes to nothing, or ends with the reply that is accepted, which is the proposal. -/
def Settled (c : String) (fix : Fix) (tr : List (Did Reply ChainEntry)) (o : Option Proposal) : Prop :=
  (o = none ∧ NoneAccepted c tr) ∨
  ∃ l entry d p, tr = l ++ [.ran entry (.call (.str fix.tool) (.dict d))] ∧ NoneAccepted c l ∧
    (Reply.call (.str fix.tool) (.dict d)).accepted c = true ∧ fix.tool ∈ ALLOWED_ACTIONS ∧
    validateParams fix.tool (.dict d) = none ∧ o = some p ∧ p.toolName = some fix.tool ∧ p.params = some (forced fix.tool d)

theorem NoneAccepted.nil : NoneAccepted c [] := fun _ _ hm => by cases hm

theorem NoneAccepted.append {l l' : List (Did Reply ChainEntry)} (h : NoneAccepted c l) (h' : NoneAccepted c l') :
    NoneAccepted c (l ++ l') := fun e r hm => (List.mem_append.1 hm).elim (h e r) (h' e r)

theorem Settled.after {l tr : List (Did Reply ChainEntry)} {o : Option Proposal} (hl : NoneAccepted c l)
    (h : Settled c fix tr o) : Settled c fix (l ++ tr) o := by
  rcases h with ⟨rfl, hn⟩ | ⟨l', entry, d, p, rfl, hn, hrest⟩
  · exact .inl ⟨rfl, hl.append hn⟩
  · exact .inr ⟨l ++ l', entry, d, p, by rw [List.append_assoc], hl.append hn, hrest⟩

/-- The reply that is accepted, after none, is the proposal. -/
theorem settled_accepted {l : List (Did Reply ChainEntry)} {d : Py.Dict} (source : Source) (entry : ChainEntry)
    (hl : NoneAccepted c l) (ha : (Reply.call (.str fix.tool) (.dict d)).accepted c = true) (ht : fix.tool ∈ ALLOWED_ACTIONS)
    (hv : validateParams fix.tool (.dict d) = none) :
    Settled c fix (l ++ [.ran entry (.call (.str fix.tool) (.dict d))])
      (some (accepted source c fix.tool (forced fix.tool d) entry)) :=
  .inr ⟨l, entry, d, _, rfl, hl, ha, ht, hv, rfl, rfl, rfl⟩

/-- One request: its reply is accepted and validated, or neither. -/
theorem askOnce_runs (h : DETERMINISTIC_ACTION_MAP.lookup c = some fix) {entry : ChainEntry}
    {tr : List (Did Reply ChainEntry)} {r : Option Attempt} (hr : (askOnce entry c).Runs tr r) :
    tr.length = 1 ∧ ((NoneAccepted c tr ∧ ∀ t d e, r ≠ some (.validated t d e)) ∨
      ∃ d, tr = [.ran entry (.call (.str fix.tool) (.dict d))] ∧
        (Reply.call (.str fix.tool) (.dict d)).accepted c = true ∧ fix.tool ∈ ALLOWED_ACTIONS ∧
        validateParams fix.tool (.dict d) = none ∧ r = some (.validated fix.tool (forced fix.tool d) entry)) := by
  rcases hr.bind with ⟨reply, l, l', rfl, hs, hk⟩ | ⟨hs, rfl⟩
  · rcases hs.stmt with ⟨w, rfl, hw⟩ | ⟨-, hw⟩
    · obtain rfl := Option.some.inj hw
      have hl' : l' = [] ∧ r = (proposeOnce entry c reply).toOption := by
        cases ho : proposeOnce entry c reply with
        | ok a =>
          simp only [ho] at hk
          cases hk
          exact ⟨rfl, rfl⟩
        | error e =>
          simp only [ho] at hk
          cases hk
          exact ⟨rfl, rfl⟩
      obtain ⟨rfl, rfl⟩ := hl'
      refine ⟨rfl, ?_⟩
      rcases proposeOnce_cases h entry reply with ⟨ha, hn⟩ | ⟨ha, d, rfl, ht, hv, hp⟩
      · refine .inl ⟨fun e w hm => ?_, fun t d e hv => ?_⟩
        · cases List.mem_singleton.1 hm
          exact ha
        · cases ho : proposeOnce entry c reply with
          | ok a =>
            rw [ho] at hv
            exact hn t d e (by rw [ho]; exact congrArg _ (Option.some.inj hv))
          | error e => rw [ho] at hv; cases hv
      · exact .inr ⟨d, rfl, ha, ht, hv, by rw [hp]; rfl⟩
    · cases hw
  · rcases hs.stmt with ⟨w, -, hw⟩ | ⟨rfl, -⟩
    · cases hw
    · exact ⟨rfl, .inl ⟨fun e w hm => (by cases List.mem_singleton.1 hm), fun _ _ _ hv => (by cases hv)⟩⟩

/-- An exception accepts nothing. -/
theorem askOnce_raises (h : DETERMINISTIC_ACTION_MAP.lookup c = some fix) {entry : ChainEntry} {tr : List (Did Reply ChainEntry)}
    (hr : (askOnce entry c).Runs tr none) : tr.length = 1 ∧ NoneAccepted c tr := by
  obtain ⟨hlen, ⟨hn, -⟩ | ⟨d, -, -, -, -, he⟩⟩ := askOnce_runs h hr
  · exact ⟨hlen, hn⟩
  · cases he

/-- A request whose validated reply is the proposal settles what its other answers settle. -/
theorem askOnce_settles (h : DETERMINISTIC_ACTION_MAP.lookup c = some fix) {entry : ChainEntry} {source : Source} {n : Nat}
    {k : Attempt → Code Reply ChainEntry (Option Proposal)}
    (hyes : ∀ d, k (.validated fix.tool (forced fix.tool d) entry) = pure (some (accepted source c fix.tool (forced fix.tool d) entry)))
    (hno : ∀ a l r, (∀ t d e, a ≠ .validated t d e) → (k a).Runs l r → l.length ≤ n ∧ Settled c fix l r.join)
    {tr : List (Did Reply ChainEntry)} {r : Option (Option Proposal)} (hr : (askOnce entry c >>= k).Runs tr r) :
    tr.length ≤ n + 1 ∧ Settled c fix tr r.join := by
  rcases hr.bind with ⟨a, l, l', rfl, h1, hk⟩ | ⟨h1, rfl⟩
  · obtain ⟨hlen, ⟨hn, hother⟩ | ⟨d, rfl, ha, ht, hv, he⟩⟩ := askOnce_runs h h1
    · obtain ⟨hle, hs⟩ := hno a l' r (fun t d e ha => hother t d e (congrArg some ha)) hk
      refine ⟨?_, hs.after hn⟩
      rw [List.length_append]
      omega
    · cases he
      rw [hyes] at hk
      cases hk
      exact ⟨by simp, settled_accepted source entry .nil ha ht hv⟩
  · obtain ⟨hlen, hn⟩ := askOnce_raises h h1
    exact ⟨by omega, .inl ⟨rfl, hn⟩⟩

theorem askFirst_runs (h : DETERMINISTIC_ACTION_MAP.lookup c = some fix) {entry : ChainEntry}
    {tr : List (Did Reply ChainEntry)} {r : Option (Option Proposal)} (hr : (askFirst entry c).Runs tr r) :
    tr.length ≤ 2 ∧ Settled c fix tr r.join := by
  refine askOnce_settles h (fun _ => rfl) (fun a l r hother hk => ?_) hr
  cases a with
  | validated t d e => exact absurd rfl (hother t d e)
  | rejected reason =>
    -- the retry
    refine askOnce_settles h (fun _ => rfl) (fun a l r hother hk => ?_) hk
    cases a with
    | validated t d e => exact absurd rfl (hother t d e)
    | _ =>
      cases hk
      exact ⟨by simp, .inl ⟨rfl, .nil⟩⟩
  | _ =>
    cases hk
    exact ⟨by simp, .inl ⟨rfl, .nil⟩⟩

theorem askNext_runs (h : DETERMINISTIC_ACTION_MAP.lookup c = some fix) {entry : ChainEntry}
    {tr : List (Did Reply ChainEntry)} {r : Option (Option Proposal)} (hr : (askNext entry c).Runs tr r) :
    tr.length ≤ 1 ∧ Settled c fix tr r.join := by
  unfold askNext at hr
  split at hr
  next =>
    cases hr
    exact ⟨by simp, .inl ⟨rfl, .nil⟩⟩
  next next _ =>
    refine askOnce_settles h (fun _ => rfl) (fun a l r hother hk => ?_) hr
    cases a with
    | validated t d e => exact absurd rfl (hother t d e)
    | _ =>
      cases hk
      exact ⟨by simp, .inl ⟨rfl, .nil⟩⟩

/-- What a run of the proposer comes to: the deterministic fix, an exception, or the accepted reply. -/
theorem propose_runs (h : DETERMINISTIC_ACTION_MAP.lookup c = some fix) {target ns : String} {provider model : Option String}
    {tr : List (Did Reply ChainEntry)} {r : Option Proposal} (hr : (propose c target ns provider model).Runs tr r) :
    tr.length ≤ 3 ∧ (Settled c fix tr r ∨ (NoneAccepted c tr ∧ ∃ p, r = some p ∧ p.toolName = some fix.tool ∧
      p.params = some (fix.kwargs target ns))) := by
  simp only [propose, h] at hr
  cases he : findChainEntry provider model with
  | none =>
    simp only [he] at hr
    cases hr
    exact ⟨by simp, .inr ⟨.nil, _, rfl, rfl, rfl⟩⟩
  | some entry =>
    simp only [he] at hr
    rcases hr.bind with ⟨o, l, l', rfl, h1, hk⟩ | ⟨h1, rfl⟩
    · obtain ⟨hlen, hs⟩ := askFirst_runs h h1
      cases o with
      | some p =>
        cases hk
        exact ⟨by simp; omega, .inl (by simpa using hs)⟩
      | none =>
        have hn : NoneAccepted c l := by
          rcases hs with ⟨-, hn⟩ | ⟨_, _, _, _, _, _, _, _, _, ho, _⟩
          · exact hn
          · cases ho
        rcases hk.bind with ⟨o', m, m', rfl, h2, hk'⟩ | ⟨h2, rfl⟩
        · obtain ⟨hlen', hs'⟩ := askNext_runs h h2
          cases hk'
          refine ⟨by simp; omega, ?_⟩
          cases o' with
          | some p => exact .inl (by simpa using hs'.after hn)
          | none =>
            rcases hs' with ⟨-, hn'⟩ | ⟨_, _, _, _, _, _, _, _, _, ho, _⟩
            · exact .inr ⟨by simpa using hn.append hn', _, rfl, rfl, rfl⟩
            · cases ho
        · obtain ⟨hlen', hs'⟩ := askNext_runs h h2
          exact ⟨by simp; omega, .inl (hs'.after hn)⟩
    · obtain ⟨hlen, hs⟩ := askFirst_runs h h1
      exact ⟨by omega, .inl hs⟩

/-! ## The replies of a run -/

theorem askOnce_reply {entry : ChainEntry} {tr : List (Did Reply ChainEntry)} {a : Attempt}
    (hr : (askOnce entry c).Runs tr (some a)) : ∃ reply, proposeOnce entry c reply = .ok a := by
  obtain ⟨reply, l, l', rfl, -, hk⟩ := hr.bind_some
  cases ho : proposeOnce entry c reply with
  | ok a' =>
    rw [ho] at hk
    cases hk
    exact ⟨reply, ho⟩
  | error e =>
    rw [ho] at hk
    cases hk

theorem askFirst_replies {entry : ChainEntry} {tr : List (Did Reply ChainEntry)} {o : Option Proposal}
    (hr : (askFirst entry c).Runs tr (some o)) :
    ∃ w₀ w₁, ∀ replies : Nat → Reply, replies 0 = w₀ → replies 1 = w₁ → askTwice replies entry c = .ok o := by
  obtain ⟨a, l, l', rfl, h1, hk⟩ := hr.bind_some
  obtain ⟨w₀, hw₀⟩ := askOnce_reply h1
  cases a with
  | rejected reason =>
    obtain ⟨b, m, m', rfl, h2, hk'⟩ := hk.bind_some
    obtain ⟨w₁, hw₁⟩ := askOnce_reply h2
    refine ⟨w₀, w₁, fun replies h0 h1 => ?_⟩
    cases b <;> cases hk' <;> simp only [askTwice, h0, h1, hw₀, hw₁, bind, Except.bind, pure, Except.pure]
  | _ =>
    cases hk
    exact ⟨w₀, .failure, fun replies h0 _ => by simp only [askTwice, h0, hw₀, bind, Except.bind, pure, Except.pure]⟩

theorem askNext_reply {entry : ChainEntry} {tr : List (Did Reply ChainEntry)} {o : Option Proposal}
    (hr : (askNext entry c).Runs tr (some o)) :
    ∃ w₂, ∀ replies : Nat → Reply, replies 2 = w₂ → escalate replies entry c = .ok o := by
  unfold askNext at hr
  split at hr
  next hnone =>
    cases hr
    exact ⟨.failure, fun replies _ => by simp only [escalate, hnone]⟩
  next next hnext =>
    obtain ⟨a, l, l', rfl, h1, hk⟩ := hr.bind_some
    obtain ⟨w₂, hw₂⟩ := askOnce_reply h1
    refine ⟨w₂, fun replies h2 => ?_⟩
    cases a <;> cases hk <;> simp only [escalate, hnext, h2, hw₂, bind, Except.bind, pure, Except.pure]

/-- A stream of replies, by its first three. -/
def answered (w₀ w₁ w₂ : Reply) : Nat → Reply
  | 0 => w₀
  | 1 => w₁
  | _ => w₂

/-- A run that returns is `proposeAction` on the replies it was given. -/
theorem propose_eq {target ns : String} {provider model : Option String} {tr : List (Did Reply ChainEntry)} {p : Proposal}
    (hr : (propose c target ns provider model).Runs tr (some p)) :
    ∃ replies, proposeAction replies c target ns provider model = .ok p := by
  unfold propose at hr
  split at hr
  next hnone =>
    cases hr
    exact ⟨fun _ => .failure, by simp only [proposeAction, hnone]⟩
  next fix hfix =>
    split at hr
    next hentry =>
      cases hr
      exact ⟨fun _ => .failure, by simp only [proposeAction, hfix, hentry, pure, Except.pure]⟩
    next entry hentry =>
      obtain ⟨o, l, l', rfl, h1, hk⟩ := hr.bind_some
      obtain ⟨w₀, w₁, hfirst⟩ := askFirst_replies h1
      cases o with
      | some q =>
        cases hk
        refine ⟨answered w₀ w₁ .failure, ?_⟩
        simp only [proposeAction, hfix, hentry]
        rw [hfirst (answered w₀ w₁ .failure) rfl rfl]
        rfl
      | none =>
        obtain ⟨o', m, m', rfl, h2, hk'⟩ := hk.bind_some
        obtain ⟨w₂, hnext⟩ := askNext_reply h2
        cases hk'
        refine ⟨answered w₀ w₁ w₂, ?_⟩
        simp only [proposeAction, hfix, hentry]
        rw [hfirst (answered w₀ w₁ w₂) rfl rfl]
        simp only [bind, Except.bind]
        rw [hnext (answered w₀ w₁ w₂) rfl]
        rfl

/-! ## Proposals are calls -/

/-- A finished run asked at most three times, and a tool it proposes is that of the class, with parameters that
make a call of it. -/
structure Sound (fix : Fix) (tr : List (Did Reply ChainEntry)) (r : Option Proposal) : Prop where
  calls : tr.length ≤ 3
  callable : ∀ p tool, r = some p → p.toolName = some tool →
    tool = fix.tool ∧ tool ∈ ALLOWED_ACTIONS ∧ ∃ d, p.params = some d ∧ Callable tool d

/-- A run is sound just where the reply that is accepted, if there is one, does not give a null namespace. -/
theorem sound_iff (h : DETERMINISTIC_ACTION_MAP.lookup c = some fix) {target ns : String} {provider model : Option String}
    {tr : List (Did Reply ChainEntry)} {r : Option Proposal} (hr : (propose c target ns provider model).Runs tr r) :
    Sound fix tr r ↔ ∀ entry reply, .ran entry reply ∈ tr → reply.accepted c = true → nullNamespace reply = false := by
  obtain ⟨hlen, hcase⟩ := propose_runs h hr
  rcases hcase with (⟨rfl, hn⟩ | ⟨l, entry, d, p, rfl, hn, ha, ht, hv, rfl, htool, hparams⟩) | ⟨hn, p, rfl, htool, hparams⟩
  · exact iff_of_true ⟨hlen, fun _ _ hp => (by cases hp)⟩ fun e w hm hacc => absurd hacc (by rw [hn e w hm]; decide)
  · have hnull : nullNamespace (.call (.str fix.tool) (.dict d)) = false ↔ d.lookup "namespace" ≠ some .none := by simp [nullNamespace]
    constructor
    · intro hs e w hm hacc
      rcases List.mem_append.1 hm with hm | hm
      · rw [hn e w hm] at hacc
        cases hacc
      · cases List.mem_singleton.1 hm
        obtain ⟨-, -, d', hd', hcall⟩ := hs.callable p fix.tool rfl htool
        obtain rfl := Option.some.inj (hparams.symm.trans hd')
        exact hnull.2 ((callable_forced_iff ht hv).1 hcall)
    · intro hall
      have hcall := (callable_forced_iff ht hv).2 (hnull.1 (hall entry _ (by simp) ha))
      refine ⟨hlen, fun p' tool hp ht' => ?_⟩
      obtain rfl := Option.some.inj hp
      obtain rfl := Option.some.inj (htool.symm.trans ht')
      exact ⟨rfl, ht, _, hparams, hcall⟩
  · refine iff_of_true ⟨hlen, fun p' tool hp ht' => ?_⟩ fun e w hm hacc => absurd hacc (by rw [hn e w hm]; decide)
    obtain rfl := Option.some.inj hp
    obtain rfl := Option.some.inj (htool.symm.trans ht')
    obtain ⟨ht, hcall⟩ := callable_fix h target ns
    exact ⟨rfl, ht, _, hparams, hcall⟩

end Replies

/-- `{"name": "carts", "namespace": ns}`. -/
def restartParams (ns : Py.Val) : Py.Dict := (Py.Dict.set ∅ "name" (.str "carts")).set "namespace" ns

def gemini : ChainEntry := ⟨"gemini", "gemini-3-flash-preview", .primary⟩

/-- The run of a crash loop whose first reply is a restart with these parameters. -/
abbrev Restarts (ns : Py.Val) : Prop :=
  (propose "crash-loop" "carts" "sock-shop" (some gemini.provider) (some gemini.model)).Runs
    [.ran gemini (.call (.str "restart_deployment") (.dict (restartParams ns)))]
    (some (accepted .llmPrimaryRetry "crash-loop" "restart_deployment" (restartParams ns) gemini))

theorem restarts : Restarts (.str "sock-shop") ∧ Restarts .none :=
  ⟨Code.runs_play 2 [some (.call (.str "restart_deployment") (.dict (restartParams (.str "sock-shop"))))] rfl,
    Code.runs_play 2 [some (.call (.str "restart_deployment") (.dict (restartParams .none)))] rfl⟩

theorem restart_sound : ∃ tr r, (propose "crash-loop" "carts" "sock-shop" (some gemini.provider) (some gemini.model)).Runs tr r ∧
    tr ≠ [] ∧ Sound ⟨"restart_deployment", addressed⟩ tr r := by
  refine ⟨_, _, restarts.1, by simp, (sound_iff rfl restarts.1).2 fun e w hm _ => ?_⟩
  cases List.mem_singleton.1 hm
  decide

/-- A null namespace is let through, and is no argument for `namespace: str`. -/
theorem null_namespace_unsound : ¬ ∀ (c : String) (fix : Fix), DETERMINISTIC_ACTION_MAP.lookup c = some fix →
    ∀ (target ns : String) (provider model : Option String) (tr : List (Did Reply ChainEntry)) (r : Option Proposal),
      (propose c target ns provider model).Runs tr r → Sound fix tr r := by
  intro h
  have hs := h "crash-loop" _ rfl "carts" "sock-shop" _ _ _ _ restarts.2
  obtain ⟨-, ht, d, hd, hcall⟩ := hs.callable _ _ rfl rfl
  obtain rfl : restartParams .none = d := Option.some.inj hd
  have hv : validateParams "restart_deployment" (.dict (restartParams .none)) = none := by decide
  exact (callable_forced_iff ht hv).1 hcall (by decide)

end Wardence.Executable
