import Wardence.ToolCall
import Wardence.Lib.Quantity
/-!
# The language of tool calls

What the validator is to accept, as a grammar, and what it accepts. The two differ in a
null namespace, in what `\d` and `$` match besides ASCII digits and the end of the line,
and where the rounding of a quantity to a double carries it over a bound.
-/
namespace Wardence.Language

open Kubernetes Keyed

/-! ## The grammar -/

inductive Resource where
  | memory
  | cpu
  deriving DecidableEq

/-- Mebibytes, or millicores, in one of each unit. -/
def Resource.factors : Resource → List (String × ℚ)
  | .memory => [("", 1 / (1024 * 1024)), ("Ki", 1 / 1024), ("Mi", 1), ("Gi", 1024), ("Ti", 1024 * 1024)]
  | .cpu => [("", 1000), ("m", 1)]

def Resource.suffixes : Resource → List String
  | .memory => ["Ki", "Mi", "Gi", "Ti"]
  | .cpu => ["m"]

def Resource.cap : Resource → ℚ
  | .memory => 2048
  | .cpu => 2000

/-- What a parameter may be. -/
inductive Kind where
  | text
  | replicas
  | quantity (r : Resource)
  deriving DecidableEq

/-- The parameters of each tool, all of them required. -/
def PARAMETERS : List (String × List (String × Kind)) :=
  [("restart_deployment", [("name", .text)]),
    ("patch_memory_limit", [("name", .text), ("container", .text), ("limit", .quantity .memory)]),
    ("patch_cpu_limit", [("name", .text), ("container", .text), ("limit", .quantity .cpu)]),
    ("scale_deployment", [("name", .text), ("replicas", .replicas)]),
    ("rollback_deployment", [("name", .text)]),
    ("restore_from_disk_full", [("name", .text)])]

/-- A value of the kind; `Q` says which values are quantities. -/
def Kind.Meets (Q : Resource → Py.Val → Prop) (v : Py.Val) : Kind → Prop
  | .text => ∃ s, v = .str s ∧ 0 < (Py.strip s).length
  | .replicas => ∃ n : Int, v = .int n ∧ 0 ≤ n ∧ n ≤ 20
  | .quantity r => Q r v

/-- An allow-listed tool with its parameters and no others, and a namespace as `ns` has it. -/
def Shape (ns : Option Py.Val → Prop) (Q : Resource → Py.Val → Prop) (tool : String) (d : Py.Dict) : Prop :=
  ns (d.lookup "namespace") ∧ ∃ ps, PARAMETERS.lookup tool = some ps ∧
    (∀ p ∈ ps, ∃ v, d.lookup p.1 = some v ∧ p.2.Meets Q v) ∧
    ∀ k, (d.lookup k).isSome = true → k = "namespace" ∨ k ∈ ps.map (·.1)

/-- Absent, or the lab's. -/
def Given (o : Option Py.Val) : Prop := o = none ∨ o = some (.str "sock-shop")

/-- The text of a quantity above 0 and at most the cap. -/
def Exact (r : Resource) (v : Py.Val) : Prop := ∃ q : Quantity, ∃ f, v = .str q.text ∧ r.factors.lookup q.unit = some f ∧
  0 < q.number * f ∧ q.number * f ≤ r.cap

/-- What the validator is to accept. -/
abbrev Accepts (tool : String) (d : Py.Dict) : Prop := Shape Given Exact tool d

/-! ## What the code accepts -/

/-- Absent, null, or the lab's. -/
def GivenOrNull (o : Option Py.Val) : Prop := Given o ∨ o = some .none

/-- The double that a number of a unit is computed as. -/
def rounded (n f : ℚ) : ℚ := Py.mulDouble (Py.toDouble n) f

/-- Digits of any script, and a final newline if there is one, with a double above 0 and at most the cap. -/
def Loose (r : Resource) (v : Py.Val) : Prop := ∃ s ws fs u final f, v = .str s ∧ Written r.suffixes s ws fs u final ∧
  r.factors.lookup u = some f ∧ 0 < rounded (valueOf ws fs) f ∧ rounded (valueOf ws fs) f ≤ r.cap

/-! ## Where they differ -/

/-- The text of a quantity that is carried over 0 or over the cap, either way, by rounding. -/
def Crosses (r : Resource) (v : Py.Val) : Prop := ∃ q : Quantity, ∃ f, v = .str q.text ∧ r.factors.lookup q.unit = some f ∧
  ¬ (0 < q.number * f ∧ q.number * f ≤ r.cap ↔ 0 < rounded q.number f ∧ rounded q.number f ≤ r.cap)

section Kinds
variable (tool : String) (d : Py.Dict)

/-- All is well but for a namespace that is null. -/
def NullNamespace : Prop := Shape GivenOrNull Loose tool d ∧ d.lookup "namespace" = some .none

/-- All is well but for a limit with a digit that is not ASCII, or a final newline. -/
def NotAscii : Prop := Shape GivenOrNull Loose tool d ∧ ∃ s, d.lookup "limit" = some (.str s) ∧ ¬ Ascii s

/-- All is well but for a limit that rounding carries over a bound. -/
def Misrounded : Prop := Shape Given Crosses tool d ∧ (d.lookup "limit").isSome = true

end Kinds

/-! ## The code, part by part -/

def Kind.validator : Kind → Py.Val → Bool
  | .text => isNonemptyStr
  | .replicas => isValidReplicas
  | .quantity .memory => isValidMemoryQuantity
  | .quantity .cpu => isValidCpuQuantity

theorem letters (r : Resource) : Letters r.suffixes := by
  have hall : ∀ u ∈ "" :: r.suffixes,
      (u.toList.all fun c => Py.digit? c = none ∧ c ≠ '.' ∧ c ≠ '\n' ∧ c.toNat < 128) = true := by
    cases r <;> decide +kernel
  intro u hu c hc
  simpa using List.all_eq_true.1 (hall u hu) c hc

theorem lookup_unit {r : Resource} {u : String} : (∃ f, r.factors.lookup u = some f) ↔ u ∈ "" :: r.suffixes := by
  constructor
  · rintro ⟨f, hf⟩
    have hm : u ∈ r.factors.map (·.1) := List.mem_map_of_mem (mem_of_lookup hf)
    cases r <;> simpa [Resource.factors, Resource.suffixes] using hm
  · intro hu
    cases r <;> simp only [Resource.suffixes, List.mem_cons, List.not_mem_nil, or_false] at hu
    · rcases hu with rfl | rfl | rfl | rfl | rfl <;> exact ⟨_, rfl⟩
    · rcases hu with rfl | rfl <;> exact ⟨_, rfl⟩

theorem isNonemptyStr_iff {v : Py.Val} {Q : Resource → Py.Val → Prop} : isNonemptyStr v = true ↔ Kind.text.Meets Q v := by
  cases v <;> simp [isNonemptyStr, Kind.Meets]

theorem isValidReplicas_iff {v : Py.Val} {Q : Resource → Py.Val → Prop} : isValidReplicas v = true ↔ Kind.replicas.Meets Q v := by
  cases v with
  | int n =>
    simp only [isValidReplicas, Bool.and_eq_true, decide_eq_true_eq]
    simp [Kind.Meets, MAX_REPLICAS]
  | _ => simp [isValidReplicas, Kind.Meets]

/-- What the pattern matches, in the units of the resource. -/
theorem loose_iff {r : Resource} {v : Py.Val} : Loose r v ↔ ∃ s n u f, v = .str s ∧ Py.matchQuantity r.suffixes s = some (n, u) ∧
    r.factors.lookup u = some f ∧ 0 < Py.mulDouble n f ∧ Py.mulDouble n f ≤ r.cap := by
  constructor
  · rintro ⟨s, ws, fs, u, final, f, rfl, hw, hf, hb⟩
    exact ⟨s, _, u, f, rfl, hw.matchQuantity (letters r), hf, hb⟩
  · rintro ⟨s, n, u, f, rfl, hm, hf, hb⟩
    obtain ⟨ws, fs, final, hw, rfl⟩ := written_of_matchQuantity hm
    exact ⟨s, ws, fs, u, final, f, rfl, hw, hf, hb⟩

theorem isValidMemoryQuantity_iff {v : Py.Val} : isValidMemoryQuantity v = true ↔ Loose .memory v := by
  rw [loose_iff]
  cases v with
  | str s =>
    cases hm : Py.matchQuantity ["Ki", "Mi", "Gi", "Ti"] s with
    | none => simp [isValidMemoryQuantity, toMi, Py.Val.asStr, Resource.suffixes, hm]
    | some nu =>
      obtain ⟨ws, fs, final, hw, -⟩ := written_of_matchQuantity hm
      obtain ⟨n, u⟩ := nu
      obtain ⟨f, hf⟩ := (lookup_unit (r := .memory)).2 hw.unit
      have hmi : toMi (.str s) = some (Py.mulDouble n f) := by
        simp [toMi, Py.Val.asStr, hm, show MI_FACTORS.lookup u = some f from hf]
      simp only [isValidMemoryQuantity, hmi, Bool.and_eq_true, decide_eq_true_eq]
      simp [Resource.suffixes, hm, hf, MAX_MEMORY_LIMIT_MI, Resource.cap]
  | _ => simp [isValidMemoryQuantity, toMi, Py.Val.asStr]

theorem isValidCpuQuantity_iff {v : Py.Val} : isValidCpuQuantity v = true ↔ Loose .cpu v := by
  rw [loose_iff]
  cases v with
  | str s =>
    cases hm : Py.matchQuantity ["m"] s with
    | none => simp [isValidCpuQuantity, toMillicores, Py.Val.asStr, Resource.suffixes, hm]
    | some nu =>
      obtain ⟨ws, fs, final, hw, -⟩ := written_of_matchQuantity hm
      obtain ⟨n, u⟩ := nu
      have hf : Resource.cpu.factors.lookup u = some (if u = "m" then 1 else 1000) := by
        rcases (show u = "" ∨ u = "m" by simpa using hw.unit) with rfl | rfl <;> rfl
      have hm' : toMillicores (.str s) = some (Py.mulDouble n (if u = "m" then 1 else 1000)) := by
        simp [toMillicores, Py.Val.asStr, hm]
      simp only [isValidCpuQuantity, hm', Bool.and_eq_true, decide_eq_true_eq]
      simp [Resource.suffixes, hm, hf, MAX_CPU_LIMIT_M, Resource.cap]
  | _ => simp [isValidCpuQuantity, toMillicores, Py.Val.asStr]

theorem validator_iff {k : Kind} {v : Py.Val} : k.validator v = true ↔ k.Meets Loose v := by
  cases k with
  | text => exact isNonemptyStr_iff
  | replicas => exact isValidReplicas_iff
  | quantity r =>
    cases r with
    | memory => exact isValidMemoryQuantity_iff
    | cpu => exact isValidCpuQuantity_iff

theorem checkSchema_iff (tool : String) {d : Py.Dict} {schema : List (String × (Py.Val → Bool))} :
    checkSchema tool d schema = none ↔ ∀ p ∈ schema, ∃ v, d.lookup p.1 = some v ∧ p.2 v = true := by
  refine ⟨fun h p hp => checkSchema_none h hp, fun h => ?_⟩
  induction schema with
  | nil => rfl
  | cons p rest ih =>
    obtain ⟨v, hv, hok⟩ := h p (by simp)
    simp only [checkSchema, hv, hok, if_true]
    exact ih fun q hq => h q (by simp [hq])

theorem schema_eq {tool : String} {ps : List (String × Kind)} (h : PARAMETERS.lookup tool = some ps) :
    TOOL_SCHEMAS.lookup tool = some (ps.map fun p => (p.1, p.2.validator)) := by
  have hm := mem_of_lookup h
  simp only [PARAMETERS, List.mem_cons, List.not_mem_nil, or_false, Prod.mk.injEq] at hm
  rcases hm with ⟨rfl, rfl⟩ | ⟨rfl, rfl⟩ | ⟨rfl, rfl⟩ | ⟨rfl, rfl⟩ | ⟨rfl, rfl⟩ | ⟨rfl, rfl⟩ <;> rfl

theorem allowed_iff {tool : String} : tool ∈ ALLOWED_ACTIONS ↔ ∃ ps, PARAMETERS.lookup tool = some ps := by
  constructor
  · intro ht
    simp only [ALLOWED_ACTIONS, List.mem_cons, List.not_mem_nil, or_false] at ht
    rcases ht with rfl | rfl | rfl | rfl | rfl | rfl <;> exact ⟨_, rfl⟩
  · rintro ⟨ps, h⟩
    exact List.mem_map_of_mem (f := Prod.fst) (mem_of_lookup h)

theorem namespace_iff {d : Py.Dict} :
    ¬ (d.get "namespace" ≠ .none ∧ d.get "namespace" ≠ .str DEFAULT_NAMESPACE) ↔ GivenOrNull (d.lookup "namespace") := by
  unfold Py.Dict.get GivenOrNull Given
  cases d.lookup "namespace" with
  | none => simp
  | some v => simp [DEFAULT_NAMESPACE, or_comm, imp_iff_not_or]

theorem validateParams_iff {tool : String} {d : Py.Dict} {ps : List (String × Kind)} (h : PARAMETERS.lookup tool = some ps) :
    validateParams tool (.dict d) = none ↔ GivenOrNull (d.lookup "namespace") ∧
      (∀ p ∈ ps, ∃ v, d.lookup p.1 = some v ∧ p.2.Meets Loose v) ∧
      ∀ k, (d.lookup k).isSome = true → k = "namespace" ∨ k ∈ ps.map (·.1) := by
  have hkeys : (∀ p ∈ (ps.map fun p => (p.1, p.2.validator) : List (String × (Py.Val → Bool))),
      ∃ v, d.lookup p.1 = some v ∧ p.2 v = true) ↔ ∀ p ∈ ps, ∃ v, d.lookup p.1 = some v ∧ p.2.Meets Loose v := by
    rw [List.forall_mem_map]
    simp only [validator_iff]
  have hfilter : (d.keys.filter fun k => k ∉ (ps.map fun p => (p.1, p.2.validator)).map (·.1) ∧ k ≠ "namespace") = [] ↔
      ∀ k, (d.lookup k).isSome = true → k = "namespace" ∨ k ∈ ps.map (·.1) := by
    rw [List.filter_eq_nil_iff]
    simp only [decide_eq_true_eq, AList.lookup_isSome, ← AList.mem_keys, List.map_map]
    exact forall₂_congr fun k _ => by
      rw [not_and_or, not_not, not_not, or_comm]
      rfl
  rw [← namespace_iff, ← hkeys, ← checkSchema_iff tool, ← hfilter]
  simp only [validateParams, schema_eq h, Option.getD_some]
  split
  next hn => exact iff_of_false (by simp) fun hc => hc.1 hn
  next hn =>
    split
    next r hr => exact iff_of_false (by simp) fun hc => by rw [hc.2.1] at hr; cases hr
    next hr =>
      split
      next hk => exact iff_of_true rfl ⟨hn, hr, hk⟩
      next hk => exact iff_of_false (by simp) fun hc => hk hc.2.2

/-- The language of the code. -/
theorem accepts_iff (tool : String) (d : Py.Dict) :
    validateToolCall (.str tool) (.dict d) = .ok none ↔ Shape GivenOrNull Loose tool d := by
  have hval : validateToolCall (.str tool) (.dict d) = .ok none ↔ tool ∈ ALLOWED_ACTIONS ∧ validateParams tool (.dict d) = none := by
    simp only [validateToolCall, Py.Val.hashable, not_true_eq_false, if_false]
    split
    next ht => simp [ht]
    next ht => simp [ht]
  rw [hval, allowed_iff]
  constructor
  · rintro ⟨⟨ps, hps⟩, hv⟩
    obtain ⟨hns, hrest⟩ := (validateParams_iff hps).1 hv
    exact ⟨hns, ps, hps, hrest⟩
  · rintro ⟨hns, ps, hps, hrest⟩
    exact ⟨⟨ps, hps⟩, (validateParams_iff hps).2 ⟨hns, hrest⟩⟩

/-! ## Where the languages differ -/

section Differ
variable {ns ns' : Option Py.Val → Prop} {Q Q' : Resource → Py.Val → Prop} {tool : String} {d : Py.Dict} {r r' : Resource}

/-- The tool has a limit of the resource. -/
def Limits (tool : String) (r : Resource) : Prop := ∃ ps, PARAMETERS.lookup tool = some ps ∧ ("limit", Kind.quantity r) ∈ ps

theorem Limits.unique (h : Limits tool r) (h' : Limits tool r') : r = r' := by
  obtain ⟨ps, hl, hm⟩ := h
  obtain ⟨ps', hl', hm'⟩ := h'
  obtain rfl : ps = ps' := Option.some.inj (hl.symm.trans hl')
  have hall : ∀ t ∈ PARAMETERS, ∀ r r', ("limit", Kind.quantity r) ∈ t.2 → ("limit", Kind.quantity r') ∈ t.2 → r = r' := by
    have hone : ∀ t ∈ PARAMETERS, ("limit", Kind.quantity .memory) ∉ t.2 ∨ ("limit", Kind.quantity .cpu) ∉ t.2 := by decide
    intro t ht r r' h h'
    have := hone t ht
    cases r <;> cases r' <;> first | rfl | tauto
  exact hall _ (mem_of_lookup hl) r r' hm hm'

/-- Every quantity is a limit, and every limit a quantity. -/
theorem quantity_iff {ps : List (String × Kind)} (hl : PARAMETERS.lookup tool = some ps) {p : String} {k : Kind} (hp : (p, k) ∈ ps) :
    p = "limit" ↔ ∃ r, k = .quantity r := by
  have hall : ∀ t ∈ PARAMETERS, ∀ p ∈ t.2, p.1 = "limit" ↔ p.2 = .quantity .memory ∨ p.2 = .quantity .cpu := by decide
  rw [hall _ (mem_of_lookup hl) (p, k) hp]
  constructor
  · rintro (h | h)
    · exact ⟨_, h⟩
    · exact ⟨_, h⟩
  · rintro ⟨r, rfl⟩
    cases r
    · exact .inl rfl
    · exact .inr rfl

/-- Another namespace, and another reading of the limit. -/
theorem Shape.swap (h : Shape ns Q tool d) (hns : ns' (d.lookup "namespace"))
    (hq : ∀ r v, Limits tool r → d.lookup "limit" = some v → Q r v → Q' r v) : Shape ns' Q' tool d := by
  obtain ⟨-, ps, hps, hall, hkeys⟩ := h
  refine ⟨hns, ps, hps, fun p hp => ?_, hkeys⟩
  obtain ⟨v, hv, hm⟩ := hall p hp
  refine ⟨v, hv, ?_⟩
  obtain ⟨p, k⟩ := p
  cases k with
  | text => exact hm
  | replicas => exact hm
  | quantity r =>
    obtain rfl := (quantity_iff hps hp).2 ⟨r, rfl⟩
    exact hq r v ⟨ps, hps, hp⟩ hv hm

/-- The limit of a call that has one. -/
theorem Shape.limit (h : Shape ns Q tool d) {v : Py.Val} (hv : d.lookup "limit" = some v) : ∃ r, Limits tool r ∧ Q r v := by
  obtain ⟨-, ps, hps, hall, hkeys⟩ := h
  rcases hkeys "limit" (by simp [hv]) with hk | hk
  · exact absurd hk (by decide)
  · obtain ⟨⟨p, k⟩, hp, rfl⟩ := List.mem_map.1 hk
    obtain ⟨r, rfl⟩ := (quantity_iff hps hp).1 rfl
    obtain ⟨w, hw, hm⟩ := hall _ hp
    obtain rfl : v = w := Option.some.inj (hv.symm.trans hw)
    exact ⟨r, ⟨ps, hps, hp⟩, hm⟩

section Text
variable {q : Quantity} {f : ℚ}

theorem exact_text (hf : r.factors.lookup q.unit = some f) :
    Exact r (.str q.text) ↔ 0 < q.number * f ∧ q.number * f ≤ r.cap := by
  refine ⟨?_, fun h => ⟨q, f, rfl, hf, h⟩⟩
  rintro ⟨q', f', ht, hf', h⟩
  have hw := Quantity.written (lookup_unit.1 ⟨f', hf'⟩)
  rw [← Py.Val.str.inj ht] at hw
  obtain ⟨hws, hfs, hu⟩ := Written.unique (letters r) (Quantity.written (lookup_unit.1 ⟨f, hf⟩)) hw
  rw [← hu, hf] at hf'
  obtain rfl := Option.some.inj hf'
  rwa [← Quantity.valueOf, hws, hfs, Quantity.valueOf]

theorem loose_text (hf : r.factors.lookup q.unit = some f) :
    Loose r (.str q.text) ↔ 0 < rounded q.number f ∧ rounded q.number f ≤ r.cap := by
  have hq := Quantity.written (lookup_unit.1 ⟨f, hf⟩)
  constructor
  · rintro ⟨s, ws, fs, u, final, f', ht, hw, hf', h⟩
    obtain rfl := Py.Val.str.inj ht
    obtain ⟨rfl, rfl, rfl⟩ := Written.unique (letters r) hq hw
    rw [hf] at hf'
    obtain rfl := Option.some.inj hf'
    rwa [Quantity.valueOf] at h
  · intro h
    exact ⟨_, _, _, _, _, f, rfl, hq, hf, by rwa [Quantity.valueOf]⟩

end Text

theorem crosses_iff {v : Py.Val} : Crosses r v ↔
    (∃ q : Quantity, v = .str q.text ∧ q.unit ∈ "" :: r.suffixes) ∧ ¬ (Exact r v ↔ Loose r v) := by
  constructor
  · rintro ⟨q, f, rfl, hf, hc⟩
    exact ⟨⟨q, rfl, lookup_unit.1 ⟨f, hf⟩⟩, by rwa [exact_text hf, loose_text hf]⟩
  · rintro ⟨⟨q, rfl, hu⟩, hc⟩
    obtain ⟨f, hf⟩ := lookup_unit.2 hu
    rw [exact_text hf, loose_text hf] at hc
    exact ⟨q, f, rfl, hf, hc⟩

/-- A line of ASCII that the code takes for a quantity is the text of one. -/
theorem Loose.text {s : String} (h : Loose r (.str s)) (hs : Ascii s) :
    ∃ q : Quantity, (.str s : Py.Val) = .str q.text ∧ q.unit ∈ "" :: r.suffixes := by
  obtain ⟨_, ws, fs, u, final, f, ht, hw, -⟩ := h
  obtain rfl := Py.Val.str.inj ht
  obtain ⟨q, hq, hu, -⟩ := hw.quantity (letters r) hs
  exact ⟨q, by rw [hq], hu ▸ hw.unit⟩

end Differ

/-- The validator accepts a call if and only if it is in the language, but for calls of three kinds. -/
theorem accepts_language_iff (tool : String) (d : Py.Dict) :
    (validateToolCall (.str tool) (.dict d) = .ok none ↔ Accepts tool d) ↔
      ¬ NullNamespace tool d ∧ ¬ NotAscii tool d ∧ ¬ Misrounded tool d := by
  rw [accepts_iff]
  constructor
  · intro h
    refine ⟨fun ⟨hs, hn⟩ => ?_, fun ⟨hs, s, hlim, ha⟩ => ?_, fun ⟨hs, hlim⟩ => ?_⟩
    · have := (h.1 hs).1
      rw [hn] at this
      rcases this with h | h <;> cases h
    · obtain ⟨r, -, q, f, ht, hf, -⟩ := (h.1 hs).limit hlim
      rw [Py.Val.str.inj ht] at ha
      exact ha (Quantity.ascii (letters r) (lookup_unit.1 ⟨f, hf⟩))
    · obtain ⟨v, hv⟩ := Option.isSome_iff_exists.1 hlim
      obtain ⟨r, hr, hc⟩ := hs.limit hv
      -- the limit is of one resource, so that either reading of it makes a call
      have hread : ∀ {ns Q}, ns (d.lookup "namespace") → Q r v → Shape ns Q tool d := fun hns hq =>
        hs.swap hns fun r' v' hr' hv' _ => by
          obtain rfl := hr.unique hr'
          obtain rfl := Option.some.inj (hv.symm.trans hv')
          exact hq
      refine (crosses_iff.1 hc).2 ⟨fun he => ?_, fun hl => ?_⟩
      · obtain ⟨r', hr', hl⟩ := (h.2 (hread hs.1 he)).limit hv
        exact hr.unique hr' ▸ hl
      · obtain ⟨r', hr', he⟩ := (h.1 (hread (.inl hs.1) hl)).limit hv
        exact hr.unique hr' ▸ he
  · rintro ⟨hnull, hascii, hmis⟩
    -- a limit that is read in one way only is misrounded
    have hboth : ∀ {ns Q r v}, Shape ns Q tool d → Given (d.lookup "namespace") → Limits tool r → d.lookup "limit" = some v →
        (∃ q : Quantity, v = .str q.text ∧ q.unit ∈ "" :: r.suffixes) → (Exact r v ↔ Loose r v) := by
      intro ns Q r v hs hg hr hv ht
      by_contra hc
      refine hmis ⟨hs.swap hg fun r' v' hr' hv' _ => ?_, by simp [hv]⟩
      obtain rfl := hr.unique hr'
      obtain rfl := Option.some.inj (hv.symm.trans hv')
      exact crosses_iff.2 ⟨ht, hc⟩
    constructor
    · intro hs
      have hg : Given (d.lookup "namespace") := hs.1.resolve_right fun hn => hnull ⟨hs, hn⟩
      refine hs.swap hg fun r v hr hv hl => ?_
      obtain ⟨s, rfl⟩ : ∃ s, v = .str s := ⟨hl.choose, hl.choose_spec.choose_spec.choose_spec.choose_spec.choose_spec.choose_spec.1⟩
      have ha : Ascii s := by
        by_contra ha
        exact hascii ⟨hs, s, hv, ha⟩
      exact (hboth hs hg hr hv (hl.text ha)).2 hl
    · intro hs
      refine hs.swap (.inl hs.1) fun r v hr hv he => ?_
      have ht : ∃ q : Quantity, v = .str q.text ∧ q.unit ∈ "" :: r.suffixes := by
        obtain ⟨q, f, ht, hf, -⟩ := he
        exact ⟨q, ht, lookup_unit.1 ⟨f, hf⟩⟩
      exact (hboth hs hs.1 hr hv ht).1 he

/-- A limit that ends in a newline. -/
def twoLines : Py.Dict :=
  ((Py.Dict.set ∅ "name" (.str "catalogue")).set "container" (.str "catalogue")).set "limit" (.str "400Mi\n")

theorem accepts_newline : ¬ ∀ (tool : String) (d : Py.Dict),
    validateToolCall (.str tool) (.dict d) = .ok none ↔ Accepts tool d := by
  intro h
  have hok : validateToolCall (.str "patch_memory_limit") (.dict twoLines) = .ok none := by decide +kernel
  obtain ⟨r, -, q, f, ht, hf, -⟩ := ((h _ _).1 hok).limit (v := .str "400Mi\n") (by decide +kernel)
  have ha := Quantity.ascii (letters r) (lookup_unit.1 ⟨f, hf⟩)
  rw [← Py.Val.str.inj ht] at ha
  exact (ha '\n' (by decide)).2 rfl

end Wardence.Language
