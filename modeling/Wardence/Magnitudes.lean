import Wardence.Dispatch
import Wardence.Lib.Quantity
/-!
# The magnitudes the LLM may dispatch

`act` dispatches the LLM's parameters only past `check_safe`, so what it
computes for their magnitude is in bounds. The computation is in floating
point, which is close to what Kubernetes reads, and exact on whole numbers.
-/
namespace Wardence.Magnitudes

open Keyed Kubernetes Dispatch

/-! ## What a quantity denotes -/

/-- `v` is computed for the quantity `q`, which is `x`. -/
structure Reads (q : Quantity) (x v : ℚ) (cap : Nat) : Prop where
  near : |v - x| ≤ x / 2 ^ 51 + 2 ^ (-1000 : Int)
  whole : q.frac = [] → x ≤ cap → v = x

/-- Every memory unit is a power of two of mebibytes. -/
theorem factor_cases {u : String} {f : ℚ} (h : MI_FACTORS.lookup u = some f) :
    BYTES.lookup u = some (f * 2 ^ 20) ∧ ∃ k : Int, f = 2 ^ k ∧ -20 ≤ k ∧ k ≤ 20 := by
  have hm := mem_of_lookup h
  simp only [MI_FACTORS, List.mem_cons, Prod.mk.injEq, List.not_mem_nil, or_false] at hm
  rcases hm with ⟨rfl, rfl⟩ | ⟨rfl, rfl⟩ | ⟨rfl, rfl⟩ | ⟨rfl, rfl⟩ | ⟨rfl, rfl⟩
  · exact ⟨by decide +kernel, -20, by norm_num, by omega, by omega⟩
  · exact ⟨by decide +kernel, -10, by norm_num, by omega, by omega⟩
  · exact ⟨by decide +kernel, 0, by norm_num, by omega, by omega⟩
  · exact ⟨by decide +kernel, 10, by norm_num, by omega, by omega⟩
  · exact ⟨by decide +kernel, 20, by norm_num, by omega, by omega⟩

/-- `_to_mi` on a line of ASCII. No double is misjudged to be below the quantity. -/
theorem toMi_reads {s : String} {v : ℚ} (hs : Ascii s) (h : toMi (.str s) = some v) :
    ∃ q x, q.text = s ∧ q.amount BYTES = some (x * 2 ^ 20) ∧ Reads q x v MAX_MEMORY_LIMIT_MI ∧
      ∀ f, Py.toDouble f = f → 1 ≤ f → f < v → f < x := by
  obtain ⟨⟨d, u⟩, hq, h⟩ := Option.bind_eq_some_iff.1 h
  obtain ⟨f, hf, h⟩ := Option.bind_eq_some_iff.1 h
  obtain rfl := Option.some.inj h
  obtain ⟨q, htext, rfl, -, rfl⟩ := matchQuantity_ascii hs hq
  obtain ⟨hbytes, k, rfl, hlow, hhigh⟩ := factor_cases hf
  have hk : (2 : ℚ) ^ k ≤ 2 ^ 20 := by exact_mod_cast zpow_le_zpow_right₀ (one_le_two : (1 : ℚ) ≤ 2) hhigh
  refine ⟨q, q.number * 2 ^ k, htext, ?_, ⟨Py.mulDouble_error q.number_nonneg (by positivity) hk, fun hfrac hcap => ?_⟩,
    fun f hd h1 hlt => Py.lt_of_lt_mulDouble hd h1 (by omega) hlt⟩
  · rw [Quantity.amount, hbytes, Option.map_some, mul_assoc]
  · obtain ⟨n, hn⟩ := q.number_whole hfrac
    rw [hn] at hcap ⊢
    refine Py.mulDouble_exact ?_ (by omega)
    have hunit : (2 : ℚ) ^ (-20 : Int) ≤ 2 ^ k := zpow_le_zpow_right₀ one_le_two hlow
    have hle : (n : ℚ) * 2 ^ (-20 : Int) ≤ 2048 :=
      (mul_le_mul_of_nonneg_left hunit (Nat.cast_nonneg n)).trans (by simpa [MAX_MEMORY_LIMIT_MI] using hcap)
    have hn' : (n : ℚ) ≤ 2048 * 1048576 := by norm_num at hle; linarith
    have : n ≤ 2048 * 1048576 := by exact_mod_cast hn'
    omega

/-- `_to_millicores` on a line of ASCII. -/
theorem toMillicores_reads {s : String} {v : ℚ} (hs : Ascii s) (h : toMillicores (.str s) = some v) :
    ∃ q x, q.text = s ∧ q.amount CORES = some (x / 1000) ∧ Reads q x v MAX_CPU_LIMIT_M := by
  obtain ⟨⟨d, u⟩, hq, h⟩ := Option.bind_eq_some_iff.1 h
  obtain rfl := Option.some.inj h
  obtain ⟨q, htext, rfl, hu, rfl⟩ := matchQuantity_ascii hs hq
  have whole (f : Nat) (hf : 1 ≤ f) (hf' : f ≤ 1000) (hfrac : q.frac = []) (hcap : q.number * f ≤ MAX_CPU_LIMIT_M) :
      Py.mulDouble (Py.toDouble q.number) f = q.number * f := by
    obtain ⟨n, hn⟩ := q.number_whole hfrac
    rw [hn] at hcap ⊢
    have hle : n * f ≤ 2000 := by exact_mod_cast hcap
    have hn' : n ≤ 2000 := (Nat.le_mul_of_pos_right n hf).trans hle
    rw [Py.mulDouble, Py.toDouble_nat (by omega), ← Nat.cast_mul, Py.toDouble_nat (by omega)]
  rcases List.mem_cons.1 hu with he | he
  · refine ⟨q, q.number * (1000 : Nat), htext, by rw [Quantity.amount, he]; norm_num [CORES], ?_⟩
    rw [if_neg (by rw [he]; decide)]
    exact ⟨by simpa using Py.mulDouble_error q.number_nonneg (f := 1000) (by norm_num) (by norm_num),
      by simpa using whole 1000 (by omega) (by omega)⟩
  · have he := List.mem_singleton.1 he
    have hunit : CORES.lookup "m" = some (1 / 1000) := by decide +kernel
    refine ⟨q, q.number * (1 : Nat), htext, ?_, ?_⟩
    · rw [Quantity.amount, he, hunit, Option.map_some, Nat.cast_one, mul_one, mul_one_div]
    rw [if_pos he]
    exact ⟨by simpa using Py.mulDouble_error q.number_nonneg (f := 1) (by norm_num) (by norm_num),
      by simpa using whole 1 (by omega) (by omega)⟩

/-! ## What is safe -/

theorem str_of_toMi {v : Py.Val} {q : ℚ} (h : toMi v = some q) : ∃ s, v = .str s := by
  cases v with
  | str s => exact ⟨s, rfl⟩
  | _ => cases h

theorem str_of_toMillicores {v : Py.Val} {q : ℚ} (h : toMillicores v = some q) : ∃ s, v = .str s := by
  cases v with
  | str s => exact ⟨s, rfl⟩
  | _ => cases h

theorem inBounds_ok {proposed floor cap : ℚ} (h : (inBounds proposed floor cap).ok = true) :
    floor < proposed ∧ proposed ≤ cap := by
  unfold inBounds at h
  split at h
  · assumption
  · cases h

theorem maxNum_ok {v : Py.Val} {n q : ℚ} (h : maxNum v (some n) = .ok q) : ∃ p, v.asNum = some p ∧ q = max p n := by
  unfold maxNum at h
  cases hv : v.asNum with
  | none => rw [hv] at h; cases h
  | some p => rw [hv] at h; exact ⟨p, rfl, (Except.ok.inj h).symm⟩

theorem baseline_eq : toMi (.str OOM_BASELINE_MEMORY_LIMIT) = some 200 := by decide +kernel

theorem checkMemory_ok {limit peak : Py.Val} {s : Safety} (h : checkMemory limit peak = .ok s) (hs : s.ok = true) :
    ∃ text p v, limit = .str text ∧ peak.asNum = some p ∧ toMi (.str text) = some v ∧ max p 200 < v ∧ v ≤ MAX_MEMORY_LIMIT_MI := by
  unfold checkMemory at h
  split at h
  · cases h; cases hs
  · cases hv : toMi limit with
    | none => rw [hv] at h; cases h; cases hs
    | some v =>
      rw [hv, baseline_eq] at h
      obtain ⟨text, rfl⟩ := str_of_toMi hv
      obtain ⟨floor, hfloor, h⟩ := Py.ok_of_bind h
      obtain ⟨p, hp, rfl⟩ := maxNum_ok hfloor
      obtain rfl := Except.ok.inj h
      exact ⟨text, p, v, rfl, hp, hv, inBounds_ok hs⟩

theorem checkCpu_within {liveCpu : String → String → Option ℚ} {limit : Py.Val} {c : String}
    (h : (checkCpu liveCpu limit c).ok = true) :
    ∃ text at' current v, limit = .str text ∧ FAULT_CONFIG.lookup c = some at' ∧ liveCpu at'.1 at'.2 = some current ∧
      toMillicores (.str text) = some v ∧ current < v ∧ v ≤ MAX_CPU_LIMIT_M := by
  unfold checkCpu at h
  split at h
  · cases h
  · rename_i target ns hc
    split at h
    · cases h
    · rename_i current hlive
      split at h
      · cases h
      · rename_i v hv
        obtain ⟨text, rfl⟩ := str_of_toMillicores hv
        exact ⟨text, (target, ns), current, v, rfl, hc, hlive, hv, inBounds_ok h⟩

theorem checkReplicas_ok {replicas current : Py.Val} {c : String} {s : Safety} (h : checkReplicas replicas current c = .ok s)
    (hs : s.ok = true) :
    ∃ (n : Int) (p : ℚ), replicas = .int n ∧ current.asNum = some p ∧ max p 2 < n ∧ n ≤ MAX_REPLICAS := by
  unfold checkReplicas at h
  split at h
  · cases h; cases hs
  · split at h
    · cases h; cases hs
    · cases replicas with
      | int n =>
        obtain ⟨floor, hfloor, h⟩ := Py.ok_of_bind h
        obtain ⟨p, hp, rfl⟩ := maxNum_ok hfloor
        cases h
        obtain ⟨hlow, hhigh⟩ := inBounds_ok hs
        exact ⟨n, p, rfl, hp, by simpa [UNDER_PROVISIONED_VALIDATED_SAFE_REPLICAS] using hlow, by exact_mod_cast hhigh⟩
      | _ => cases h; cases hs

/-! ## Which parameters a proposal has -/

/-- A call has the parameters of its tool's schema, a namespace, and the replicas of a restore, which are one. -/
def OwnKeys (tool : String) (d : Py.Dict) : Prop := ∀ k, (d.lookup k).isSome = true →
  k ∈ ((TOOL_SCHEMAS.lookup tool).getD []).map (·.1) ∨ k = "namespace" ∨
    tool = "restore_from_disk_full" ∧ k = "replicas" ∧ d.get "replicas" = .int 1

theorem validated_keys {tool : String} {d : Py.Dict} (h : validateParams tool (.dict d) = none) {k : String}
    (hk : (d.lookup k).isSome = true) : k ∈ ((TOOL_SCHEMAS.lookup tool).getD []).map (·.1) ∨ k = "namespace" := by
  simp only [validateParams] at h
  split at h
  · cases h
  · split at h
    · cases h
    · split at h
      · rename_i hnil
        have hmem : k ∈ d.keys := by simpa [AList.mem_keys] using AList.lookup_isSome.1 hk
        have := List.filter_eq_nil_iff.1 hnil k hmem
        simpa [or_iff_not_imp_left] using this
      · cases h

theorem forced_keys {tool : String} {d : Py.Dict} (h : validateParams tool (.dict d) = none) :
    OwnKeys tool (forced tool d) := by
  intro k hk
  unfold forced at hk ⊢
  split at hk
  · rename_i htool
    rw [if_pos htool]
    have hset : withParams d (fixParams "disk-full") = d.set "replicas" (.int 1) := rfl
    rw [hset, Py.Dict.lookup_set] at hk
    by_cases hr : k = "replicas"
    · refine .inr (.inr ⟨htool, hr, ?_⟩)
      rw [hset, Py.Dict.get, Py.Dict.lookup_set, if_pos rfl]; rfl
    · rw [if_neg hr] at hk
      exact (validated_keys h hk).imp id .inl
  · exact (validated_keys h hk).imp id .inl

theorem withParams_keys {extra : List (String × Py.Val)} {d : Py.Dict} {k : String}
    (h : ((withParams d extra).lookup k).isSome = true) : k ∈ extra.map (·.1) ∨ (d.lookup k).isSome = true := by
  by_cases hk : k ∈ extra.map (·.1)
  · exact .inl hk
  · rw [lookup_withParams fun kv hkv he => hk (List.mem_map.2 ⟨kv, hkv, he⟩)] at h
    exact .inr h

theorem addressed_keys {t n k : String} (h : ((addressed t n).lookup k).isSome = true) : k = "namespace" ∨ k = "name" := by
  rw [addressed, Py.Dict.lookup_set, Py.Dict.lookup_set] at h
  split at h
  · exact .inl ‹_›
  · split at h
    · exact .inr ‹_›
    · cases h

theorem fix_keys {c : String} {fix : Fix} (h : DETERMINISTIC_ACTION_MAP.lookup c = some fix) (t n : String) :
    OwnKeys fix.tool (fix.kwargs t n) := by
  intro k hk
  have own {extra : List (String × Py.Val)} (hk : ((withParams (addressed t n) extra).lookup k).isSome = true) :
      k = "namespace" ∨ k ∈ "name" :: extra.map (·.1) := by
    rcases withParams_keys hk with hk | hk
    · exact .inr (List.mem_cons_of_mem _ hk)
    · exact (addressed_keys hk).imp id fun he => List.mem_cons.2 (.inl he)
  have schema {tool : String} {d : Py.Dict} {ks : List String} (hk : k = "namespace" ∨ k ∈ ks)
      (hall : ∀ j ∈ ks, j ∈ ((TOOL_SCHEMAS.lookup tool).getD []).map (·.1)) :
      k ∈ ((TOOL_SCHEMAS.lookup tool).getD []).map (·.1) ∨ k = "namespace" ∨
        tool = "restore_from_disk_full" ∧ k = "replicas" ∧ d.get "replicas" = .int 1 :=
    hk.elim (fun he => .inr (.inl he)) fun hk => .inl (hall k hk)
  have hm := mem_of_lookup h
  simp only [DETERMINISTIC_ACTION_MAP, List.mem_cons, Prod.mk.injEq, List.not_mem_nil, or_false] at hm
  rcases hm with ⟨-, rfl⟩ | ⟨-, rfl⟩ | ⟨-, rfl⟩ | ⟨-, rfl⟩ | ⟨-, rfl⟩ | ⟨-, rfl⟩
  · exact schema (@own [] hk) (by decide)
  · exact schema (own hk) (by decide)
  · rcases own hk with hk | hk
    · exact .inr (.inl hk)
    · rcases List.mem_cons.1 hk with rfl | hk
      · exact .inl (by decide)
      · exact .inr (.inr ⟨rfl, List.mem_singleton.1 hk, rfl⟩)
  · exact schema (own hk) (by decide)
  · exact schema (own hk) (by decide)
  · exact schema (@own [] hk) (by decide)

/-- The parameters of a proposal are its tool's own. -/
def Proper (p : Proposal) : Prop := ∀ tool d, p.toolName = some tool → p.params = some d → OwnKeys tool d

theorem accepted_proper {source : Source} {c tool : String} {d : Py.Dict} {entry : ChainEntry} (h : OwnKeys tool d) :
    Proper (accepted source c tool d entry) := by
  rintro _ _ ⟨⟩ ⟨⟩
  exact h

theorem settle_keys {entry entry' : ChainEntry} {c t tool : String} {d d' : Py.Dict}
    (hv : validateParams t (.dict d) = none) (h : settle entry c t d = .validated tool d' entry') : OwnKeys tool d' := by
  unfold settle at h
  split at h
  · split at h
    · cases h
    · cases h; exact forced_keys hv
  · cases h; exact forced_keys hv

theorem proposeOnce_keys {entry entry' : ChainEntry} {c tool : String} {d : Py.Dict} {reply : Reply}
    (h : proposeOnce entry c reply = .ok (.validated tool d entry')) : OwnKeys tool d := by
  cases reply with
  | failure => cases h
  | noCall => cases h
  | call t params =>
    obtain ⟨verdict, hverdict, h⟩ := Py.ok_of_bind h
    cases verdict with
    | some r => cases h
    | none =>
      obtain ⟨t', d', rfl, -, rfl, hv⟩ := validateToolCall_ok hverdict
      exact settle_keys hv (Except.ok.inj h)

theorem askTwice_proper {replies : Nat → Reply} {entry : ChainEntry} {c : String} {p : Proposal}
    (h : askTwice replies entry c = .ok (some p)) : Proper p := by
  unfold askTwice at h
  obtain ⟨first, h1, h⟩ := Py.ok_of_bind h
  cases first with
  | validated tool d e => cases h; exact accepted_proper (proposeOnce_keys h1)
  | rejected r =>
    obtain ⟨second, h2, h⟩ := Py.ok_of_bind h
    cases second with
    | validated tool d e => cases h; exact accepted_proper (proposeOnce_keys h2)
    | _ => cases h
  | _ => cases h

theorem escalate_proper {replies : Nat → Reply} {entry : ChainEntry} {c : String} {p : Proposal}
    (h : escalate replies entry c = .ok (some p)) : Proper p := by
  unfold escalate at h
  split at h
  · cases h
  · obtain ⟨last, h3, h⟩ := Py.ok_of_bind h
    cases last with
    | validated tool d e => cases h; exact accepted_proper (proposeOnce_keys h3)
    | _ => cases h

theorem proposeAction_proper {replies : Nat → Reply} {c t n : String} {provider model : Option String} {p : Proposal}
    (h : proposeAction replies c t n provider model = .ok p) : Proper p := by
  unfold proposeAction at h
  cases hc : DETERMINISTIC_ACTION_MAP.lookup c with
  | none => rw [hc] at h; cases h; rintro _ _ ⟨⟩
  | some fix =>
    simp only [hc] at h
    have fallback : Proper ⟨.deterministicFallback, c, some fix.tool, some (fix.kwargs t n), none, none,
        some .deterministicFallback⟩ := by
      rintro _ _ ⟨⟩ ⟨⟩
      exact fix_keys hc t n
    split at h
    · cases h; exact fallback
    · obtain ⟨q, hq, h⟩ := Py.ok_of_bind h
      cases q with
      | some q => cases h; exact askTwice_proper hq
      | none =>
        obtain ⟨q, hq, h⟩ := Py.ok_of_bind h
        cases q with
        | some q => cases h; exact escalate_proper hq
        | none => cases h; exact fallback

theorem backgroundProposal_proper {w : World} {db : Db} {req : ActRequest} {p : Proposal}
    (h : backgroundProposal w db req = .ok (some p)) : Proper p := by
  unfold backgroundProposal at h
  split at h
  · cases h
  · split at h
    · cases hq : proposeAction w.replies _ req.target req.ns req.llmProvider req.llmModel with
      | error e => rw [hq] at h; cases h
      | ok q => rw [hq] at h; cases h; exact proposeAction_proper hq
    · cases h

/-! ## What is dispatched -/

/-- The magnitudes of a call, as computed, are within what was measured and the caps. -/
structure Bounded (w : World) (req : ActRequest) (call : Call) : Prop where
  memory : call.tool = "patch_memory_limit" → ∃ limit peak v, call.params.get "limit" = .str limit ∧
    (measured req.toolOutput "peak_memory_mib").asNum = some peak ∧ toMi (.str limit) = some v ∧
    max peak 200 < v ∧ v ≤ MAX_MEMORY_LIMIT_MI
  cpu : call.tool = "patch_cpu_limit" → ∃ limit at' current v, call.params.get "limit" = .str limit ∧
    FAULT_CONFIG.lookup req.predicted = some at' ∧ w.liveCpu at'.1 at'.2 = some current ∧
    toMillicores (.str limit) = some v ∧ current < v ∧ v ≤ MAX_CPU_LIMIT_M
  replicas : call.tool = "scale_deployment" → ∃ (n : Int) (current : ℚ), call.params.get "replicas" = .int n ∧
    (measured req.toolOutput "current_replicas").asNum = some current ∧ max current 2 < n ∧ n ≤ MAX_REPLICAS
  limits : (call.params.lookup "limit").isSome = true → call.tool = "patch_memory_limit" ∨ call.tool = "patch_cpu_limit"
  counts : (call.params.lookup "replicas").isSome = true → call.tool = "scale_deployment" ∨
    call.tool = "restore_from_disk_full" ∧ call.params.get "replicas" = .int 1

theorem llmChoice_safe {w : World} {db : Db} {req : ActRequest} {m : Mapping} {proposal : Option Proposal} {tool : String}
    {params : Py.Dict} {source : Source} (h : llmChoice w db req m proposal = .ok (some (tool, params, source))) :
    ∃ s, checkSafe w.liveCpu tool params req.predicted req.toolOutput = .ok s ∧ s.ok = true := by
  unfold llmChoice at h
  split at h
  · split at h
    · obtain ⟨s, hs, h⟩ := Py.ok_of_bind h
      split at h
      · rename_i hok
        cases h
        exact ⟨s, hs, hok⟩
      · cases h
    · cases h
  · cases h

/-- Only two schemas ask for a limit, and one for replicas. -/
theorem schema_magnitudes {tool k : String} (h : k ∈ ((TOOL_SCHEMAS.lookup tool).getD []).map (·.1)) :
    (k = "limit" → tool = "patch_memory_limit" ∨ tool = "patch_cpu_limit") ∧ (k = "replicas" → tool = "scale_deployment") := by
  cases hl : TOOL_SCHEMAS.lookup tool with
  | none => rw [hl] at h; cases h
  | some schema =>
    rw [hl, Option.getD_some] at h
    have hall : ∀ r ∈ TOOL_SCHEMAS, ∀ k ∈ r.2.map (·.1), (k = "limit" → r.1 = "patch_memory_limit" ∨ r.1 = "patch_cpu_limit") ∧
        (k = "replicas" → r.1 = "scale_deployment") := by
      simp only [TOOL_SCHEMAS, List.forall_mem_cons]
      decide
    exact hall (tool, schema) (mem_of_lookup hl) k h

theorem bounded_of_safe {w : World} {req : ActRequest} {tool : String} {params : Py.Dict} {s : Safety}
    (hk : OwnKeys tool params) (h : checkSafe w.liveCpu tool params req.predicted req.toolOutput = .ok s) (hs : s.ok = true) :
    Bounded w req ⟨tool, params⟩ where
  memory htool := by
    obtain rfl : tool = "patch_memory_limit" := htool
    rw [checkSafe, if_pos rfl] at h
    exact checkMemory_ok h hs
  cpu htool := by
    obtain rfl : tool = "patch_cpu_limit" := htool
    rw [checkSafe, if_neg (by decide), if_pos rfl] at h
    obtain rfl := Except.ok.inj h
    exact checkCpu_within hs
  replicas htool := by
    obtain rfl : tool = "scale_deployment" := htool
    rw [checkSafe, if_neg (by decide), if_neg (by decide), if_pos rfl] at h
    exact checkReplicas_ok h hs
  limits hl := by
    rcases hk "limit" hl with h | h | ⟨-, h, -⟩
    · exact (schema_magnitudes h).1 rfl
    · exact absurd h (by decide)
    · exact absurd h (by decide)
  counts hl := by
    rcases hk "replicas" hl with h | h | ⟨ht, -, hone⟩
    · exact .inl ((schema_magnitudes h).2 rfl)
    · exact absurd h (by decide)
    · exact .inr ⟨ht, hone⟩

/-- Whatever the model proposes and the diagnosis measured, what `act` dispatches of it is bounded; and what it is
bounded by is computed to within rounding, and exactly for whole numbers. -/
theorem magnitudes_bounded :
    (∀ w db req a call source, act w db req = .ok a → a.call = some call → a.response.actionSource = some source →
      Proposed source → Bounded w req call) ∧
    (∀ s v, Ascii s → toMi (.str s) = some v → ∃ q x, q.text = s ∧ q.amount BYTES = some (x * 2 ^ 20) ∧
      Reads q x v MAX_MEMORY_LIMIT_MI ∧ ∀ f, Py.toDouble f = f → 1 ≤ f → f < v → f < x) ∧
    (∀ s v, Ascii s → toMillicores (.str s) = some v → ∃ q x, q.text = s ∧ q.amount CORES = some (x / 1000) ∧
      Reads q x v MAX_CPU_LIMIT_M) := by
  refine ⟨fun w db req a call source ha hc hsource hp => ?_, fun s v => toMi_reads, fun s v => toMillicores_reads⟩
  have other {source' : Source} (h : a.response.actionSource = some source') : Proposed source' := by
    rwa [← Option.some.inj (hsource.symm.trans h)]
  cases act_cases ha hc with
  | llm p tool params hch _ hcall _ =>
    obtain ⟨m, -, -, hproposal, hchoice⟩ := hch
    obtain ⟨-, -, -, htool, hparams⟩ := llmChoice_ok hchoice
    obtain ⟨s, hs, hok⟩ := llmChoice_safe hchoice
    rw [hcall]
    exact bounded_of_safe (backgroundProposal_proper hproposal _ _ htool hparams) hs hok
  | safetyNet _ _ _ _ h => exact absurd (other h) (by simp [Proposed])
  | own _ _ h => exact absurd (other h) (by simp [Proposed])
  | substituted _ _ _ _ _ h => exact absurd (other h) (by simp [Proposed])

/-- The LLM diagnoses that `catalogue` ran out of memory at 180 MiB. -/
def outOfMemory : ActRequest :=
  ⟨"catalogue", "sock-shop", "oom", .llm, some "gemini", some "gemini-3-flash-preview", some "oom",
    some (Py.Dict.set ∅ "peak_memory_mib" (.int 180)), none, some "oom"⟩

/-- Its proposal of a limit. -/
def raisedTo (limit : String) : World := replying (.call (.str "patch_memory_limit")
  (.dict (((Py.Dict.set ∅ "name" (.str "catalogue")).set "container" (.str "catalogue")).set "limit" (.str limit))))

theorem magnitudes_bounded_oom :
    ∃ a call, act (raisedTo "512Mi") (trusted "oom") outOfMemory = .ok a ∧ a.call = some call ∧
      call.params.get "limit" = .str "512Mi" ∧ Bounded (raisedTo "512Mi") outOfMemory call := by
  have hrun : (act (raisedTo "512Mi") (trusted "oom") outOfMemory).toOption.map (fun a =>
      (a.call.map fun c => c.params.get "limit", a.response.actionSource)) =
      some (some (.str "512Mi"), some .llmPrimaryRetry) := by decide +kernel
  cases h : act (raisedTo "512Mi") (trusted "oom") outOfMemory with
  | error e => rw [h] at hrun; cases hrun
  | ok a =>
    rw [h] at hrun
    obtain ⟨hcall, hsource⟩ := Prod.mk.inj (Option.some.inj hrun)
    obtain ⟨call, hc, hlimit⟩ := Option.map_eq_some_iff.1 hcall
    exact ⟨a, call, rfl, hc, hlimit, magnitudes_bounded.1 _ _ _ _ _ _ h hc hsource (.inl rfl)⟩

/-- One core and a thousandth. -/
def millicore : Quantity := ⟨[1], [0, 0, 1], "", by decide⟩

/-- A hair more than two gibibytes. -/
def overTwoGi : Quantity := ⟨[2, 0, 4, 8], [0, 0, 0, 0, 0, 0, 0, 0, 0, 0, 0, 0, 0, 1], "Mi", by decide⟩

/-- 512 Mi in Arabic digits. -/
def arabic : String := "٥١٢Mi"

theorem head_text (q : Quantity) : ∃ d, q.text.toList.head? = some (digitChar d) := by
  obtain ⟨whole, frac, unit, hne⟩ := q
  obtain ⟨d, rest, rfl⟩ := List.exists_cons_of_ne_nil hne
  exact ⟨d, by simp [Quantity.text]⟩

/-- `1.001` cores are judged to be less than 1001 millicores, more than 2048 Mi of memory to be safe, and digits
that Kubernetes does not read are accepted. -/
theorem misjudged :
    ¬ (∀ (q : Quantity) x v, q.amount CORES = some (x / 1000) → toMillicores (.str q.text) = some v → v = x) ∧
    ¬ (∀ (q : Quantity) x s, q.amount BYTES = some (x * 2 ^ 20) → checkMemory (.str q.text) (.int 180) = .ok s →
      s.ok = true → x ≤ 2048) ∧
    ¬ (∀ s, isValidMemoryQuantity (.str s) = true → ∃ q : Quantity, q.text = s) := by
  refine ⟨fun h => ?_, fun h => ?_, fun h => ?_⟩
  · have hv : (toMillicores (.str millicore.text)).map (decide <| · = 1001) = some false := by decide +kernel
    obtain ⟨v, hv, hne⟩ := Option.map_eq_some_iff.1 hv
    exact of_decide_eq_false hne (h millicore 1001 v (by decide +kernel) hv)
  · have hle := h overTwoGi (2048 + 1 / 10 ^ 14) (.inRange 2048 200 2048) (by decide +kernel) (by decide +kernel) rfl
    norm_num at hle
  · obtain ⟨q, hq⟩ := h arabic (by decide +kernel)
    obtain ⟨d, hd⟩ := head_text q
    rw [hq] at hd
    revert d
    decide +kernel

end Wardence.Magnitudes
