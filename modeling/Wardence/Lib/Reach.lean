import Mathlib.Data.Rat.Floor
import Mathlib.Data.List.MinMax
import Mathlib.Data.List.Dedup
import Wardence.Lib.Promql
/-!
# How far a query looks back

Queries over ranges and subqueries, and the reach of a query: evaluated at an instant, it reads the
samples of its reach up to that instant. What was recorded before or after, also under the labels of
series that were not there yet, does not change its value.
-/
namespace Promql

/-- A selector, with tests of labels that are none of its matchers. -/
structure Filter extends Selector where
  tests : List (String × (String → Bool)) := []

/-- Whether a series of that name and those labels is selected. -/
def Selector.takes (s : Selector) (name : String) (labels : List (String × String)) : Bool :=
  name = s.name && s.matchers.all (·.holds labels)

def Filter.takes (f : Filter) (name : String) (labels : List (String × String)) : Bool :=
  f.toSelector.takes name labels && f.tests.all fun t => t.2 (label labels t.1)

inductive Query where
  | instant (e : Expr)
  /-- `max_over_time(f[range])` and `min_over_time(f[range])`. -/
  | maxOver (f : Filter) (range : ℚ)
  | minOver (f : Filter) (range : ℚ)
  /-- `increase(f[range])` and `rate(f[range])`. -/
  | increase (f : Filter) (range : ℚ)
  | rate (f : Filter) (range : ℚ)
  | sum (q : Query)
  /-- `min_over_time(q[range:step])`. -/
  | minSteps (q : Query) (range step : ℚ)
  | add (q r : Query)
  | or (q r : Query)
  | eqTo (q : Query) (c : ℚ)
  | greater (q : Query) (c : ℚ)
  | less (q : Query) (c : ℚ)
  /-- `q and on(ks) r`. -/
  | andOn (ks : List String) (q r : Query)

/-- A value for each series that is selected, if the samples after `a` up to `b` have one. -/
def overRange (db : List Series) (takes : String → List (String × String) → Bool) (a b : ℚ) (value : List Sample → Option ℚ) :
    List Element :=
  (db.filter fun s => takes s.name s.labels).filterMap fun s => (value (s.within a b)).map fun v => ⟨s.labels, v⟩

/-- The points of samples; stale markers are left out. -/
def pointsOf (samples : List Sample) : List (ℚ × ℚ) := samples.filterMap fun x => x.value.map (x.time, ·)

/-- The multiples of `step` after `a`, up to `b`. -/
def steps (a b step : ℚ) : List ℚ :=
  (List.range (⌊b / step⌋ - ⌊a / step⌋).toNat).map fun (i : Nat) => step * ((⌊a / step⌋ + 1 + i : ℤ) : ℚ)

/-- The least value under each set of labels. -/
def leasts (xs : List Element) : List Element :=
  (xs.map (·.labels)).dedup.filterMap fun l => (((xs.filter (·.labels = l)).map (·.value)).min?).map (⟨l, ·⟩)

def Query.eval (db : List Series) (t : ℚ) : Query → List Element
  | .instant e => Promql.eval db t e
  | .maxOver f range => overRange db f.takes (t - range) t fun x => ((pointsOf x).map (·.2)).max?
  | .minOver f range => overRange db f.takes (t - range) t fun x => ((pointsOf x).map (·.2)).min?
  | .increase f range => overRange db f.takes (t - range) t fun x => Promql.increase (t - range) t (pointsOf x)
  | .rate f range => overRange db f.takes (t - range) t fun x => (Promql.increase (t - range) t (pointsOf x)).map (· / range)
  | .sum q =>
    let xs := q.eval db t
    if xs.isEmpty then [] else [⟨[], (xs.map (·.value)).sum⟩]
  | .minSteps q range step => leasts ((steps (t - range) t step).flatMap fun u => q.eval db u)
  | .add q r =>
    (q.eval db t).flatMap fun x =>
      ((r.eval db t).filter fun y => sameLabels x.labels y.labels).map fun y => ⟨x.labels, x.value + y.value⟩
  | .or q r =>
    q.eval db t ++ (r.eval db t).filter fun y => !(q.eval db t).any fun x => sameLabels x.labels y.labels
  | .eqTo q c => (q.eval db t).filter (·.value = c)
  | .greater q c => (q.eval db t).filter fun x => c < x.value
  | .less q c => (q.eval db t).filter fun x => x.value < c
  | .andOn ks q r => (q.eval db t).filter fun x => (r.eval db t).any fun y => ks.all fun k => label x.labels k = label y.labels k

/-! ## The reach -/

def Expr.reach : Expr → ℚ
  | .select _ => LOOKBACK
  | .increase _ range => range
  | .eqTo e _ | .greater e _ | .age e => e.reach
  | .lessThan e f | .andOn _ e f => max e.reach f.reach

def Query.reach : Query → ℚ
  | .instant e => e.reach
  | .maxOver _ range | .minOver _ range | .increase _ range | .rate _ range => range
  | .sum q | .eqTo q _ | .greater q _ | .less q _ => q.reach
  | .minSteps q range _ => range + q.reach
  | .add q r | .or q r | .andOn _ q r => max q.reach r.reach

/-- What is recorded after `a` up to `b`: the series that have samples then, with these. -/
def seen (a b : ℚ) (db : List Series) : List (String × List (String × String) × List Sample) :=
  (db.map fun s => (s.name, s.labels, s.within a b)).filter (·.2.2 ≠ [])

theorem within_within (s : Series) {a b c d : ℚ} (hac : a ≤ c) (hdb : d ≤ b) :
    s.within c d = (s.within a b).filter fun x => c < x.time && x.time ≤ d := by
  rw [Series.within, Series.within, List.filter_filter]
  refine List.filter_congr fun x _ => ?_
  rw [Bool.eq_iff_iff]
  simp only [Bool.and_eq_true, decide_eq_true_eq]
  constructor
  · rintro ⟨h1, h2⟩
    exact ⟨⟨h1, h2⟩, hac.trans_lt h1, h2.trans hdb⟩
  · rintro ⟨h, -⟩
    exact h

/-- What a range gives is a matter of what is recorded in it. -/
theorem overRange_seen {takes : String → List (String × String) → Bool} {value : List Sample → Option ℚ} (hv : value [] = none)
    {a b c d : ℚ} (hac : a ≤ c) (hdb : d ≤ b) (db : List Series) : overRange db takes c d value =
      (seen a b db).filterMap fun x =>
        if takes x.1 x.2.1 then (value (x.2.2.filter fun x => c < x.time && x.time ≤ d)).map fun v => ⟨x.2.1, v⟩ else none := by
  induction db with
  | nil => rfl
  | cons s db ih =>
    have hw := within_within s hac hdb
    unfold overRange seen at ih ⊢
    rw [List.filter_cons, List.map_cons, List.filter_cons]
    cases htakes : takes s.name s.labels with
    | false =>
      simp only [Bool.false_eq_true, if_false, ih]
      split
      · rw [List.filterMap_cons_none (by simp [htakes])]
      · rfl
    | true =>
      simp only [if_true, List.filterMap_cons, ih, hw]
      by_cases hne : s.within a b = []
      · simp [hne, hv]
      · rw [if_pos (by simpa using hne), List.filterMap_cons]
        simp only [htakes, if_true]

theorem overRange_congr {takes : String → List (String × String) → Bool} {value : List Sample → Option ℚ} (hv : value [] = none)
    {a b c d : ℚ} (hac : a ≤ c) (hdb : d ≤ b) {db db' : List Series} (h : seen a b db = seen a b db') :
    overRange db takes c d value = overRange db' takes c d value := by
  rw [overRange_seen hv hac hdb, overRange_seen hv hac hdb, h]

section
variable {a b t : ℚ} {db db' : List Series}

/-- An expression reads nothing out of its reach. -/
theorem eval_congr (h : seen a b db = seen a b db') (ht : t ≤ b) {e : Expr} (ha : a ≤ t - e.reach) : eval db t e = eval db' t e := by
  induction e with
  | select s =>
    have hover : ∀ db, eval db t (.select s) = overRange db s.takes (t - LOOKBACK) t fun x => x.getLast?.bind (·.value) := fun _ => rfl
    rw [hover, hover]
    exact overRange_congr rfl ha ht h
  | increase s range =>
    have hover : ∀ db, eval db t (.increase s range) =
        overRange db s.takes (t - range) t fun x => Promql.increase (t - range) t (pointsOf x) := fun _ => rfl
    rw [hover, hover]
    exact overRange_congr rfl ha ht h
  | eqTo e q ih => rw [eval, eval, ih ha]
  | greater e q ih => rw [eval, eval, ih ha]
  | age e ih => rw [eval, eval, ih ha]
  | lessThan e f ihe ihf =>
    rw [Expr.reach] at ha
    rw [eval, eval, ihe (by linarith [le_max_left e.reach f.reach]), ihf (by linarith [le_max_right e.reach f.reach])]
  | andOn ks e f ihe ihf =>
    rw [Expr.reach] at ha
    rw [eval, eval, ihe (by linarith [le_max_left e.reach f.reach]), ihf (by linarith [le_max_right e.reach f.reach])]

theorem mem_steps {a b step u : ℚ} (hs : 0 < step) (h : u ∈ steps a b step) : a < u ∧ u ≤ b := by
  obtain ⟨i, hi, rfl⟩ := List.mem_map.1 h
  rw [List.mem_range, Int.lt_toNat] at hi
  constructor
  · have h1 : a / step < ⌊a / step⌋ + 1 := Int.lt_floor_add_one _
    rw [div_lt_iff₀ hs] at h1
    have h2 : (0 : ℚ) ≤ step * i := mul_nonneg hs.le (Nat.cast_nonneg i)
    push_cast
    linarith
  · have h1 : ((⌊a / step⌋ + 1 + (i : ℤ) : ℤ) : ℚ) ≤ b / step := by
      refine (Int.cast_le.2 ?_).trans (Int.floor_le (b / step))
      omega
    rw [le_div_iff₀ hs, mul_comm] at h1
    exact h1

/-- The steps of the subqueries of a query are positive. -/
def Query.Steps : Query → Prop
  | .instant _ | .maxOver _ _ | .minOver _ _ | .increase _ _ | .rate _ _ => True
  | .sum q | .eqTo q _ | .greater q _ | .less q _ => q.Steps
  | .minSteps q _ step => 0 < step ∧ q.Steps
  | .add q r | .or q r | .andOn _ q r => q.Steps ∧ r.Steps

/-- A query reads nothing out of its reach. -/
theorem Query.eval_congr (h : seen a b db = seen a b db') {q : Query} (hq : q.Steps) (ht : t ≤ b) (ha : a ≤ t - q.reach) :
    q.eval db t = q.eval db' t := by
  induction q generalizing t with
  | instant e => exact Promql.eval_congr h ht ha
  | maxOver f range => exact overRange_congr rfl ha ht h
  | minOver f range => exact overRange_congr rfl ha ht h
  | increase f range => exact overRange_congr rfl ha ht h
  | rate f range => exact overRange_congr rfl ha ht h
  | sum q ih => rw [eval, eval, ih hq ht ha]
  | minSteps q range step ih =>
    rw [reach] at ha
    have : ∀ u ∈ steps (t - range) t step, q.eval db u = q.eval db' u := by
      intro u hu
      obtain ⟨hlo, hhi⟩ := mem_steps hq.1 hu
      exact ih hq.2 (hhi.trans ht) (by linarith)
    rw [eval, eval, List.flatMap_congr this]
  | add q r ihq ihr =>
    rw [reach] at ha
    rw [eval, eval, ihq hq.1 ht (by linarith [le_max_left q.reach r.reach]), ihr hq.2 ht (by linarith [le_max_right q.reach r.reach])]
  | or q r ihq ihr =>
    rw [reach] at ha
    rw [eval, eval, ihq hq.1 ht (by linarith [le_max_left q.reach r.reach]), ihr hq.2 ht (by linarith [le_max_right q.reach r.reach])]
  | eqTo q c ih => rw [eval, eval, ih hq ht ha]
  | greater q c ih => rw [eval, eval, ih hq ht ha]
  | less q c ih => rw [eval, eval, ih hq ht ha]
  | andOn ks q r ihq ihr =>
    rw [reach] at ha
    rw [eval, eval, ihq hq.1 ht (by linarith [le_max_left q.reach r.reach]), ihr hq.2 ht (by linarith [le_max_right q.reach r.reach])]

end

end Promql
