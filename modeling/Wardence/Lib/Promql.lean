import Mathlib.Algebra.Order.Field.Rat
import Mathlib.Tactic.Linarith
import Mathlib.Tactic.Positivity
/-!
# A fragment of PromQL

Series of samples, selectors with label matchers, `increase` with its extrapolation, comparisons
with a scalar and between vectors, and `and on(..)`, evaluated at an instant. Regular expressions
are sequences of single characters and repeated ones; a matcher's is anchored at both ends.
-/
namespace Promql

/-! ## Patterns -/

/-- One character of a kind, or one or more. -/
inductive Item where
  | one (p : Char → Bool)
  | many (p : Char → Bool)

/-- A full match. -/
def matchAll : List Item → List Char → Bool
  | [], cs => cs.isEmpty
  | _ :: _, [] => false
  | .one p :: rest, c :: cs => p c && matchAll rest cs
  | .many p :: rest, c :: cs => p c && (matchAll rest cs || matchAll (.many p :: rest) cs)

def literal (d : Char) : Item := .one (· = d)

theorem matchAll_nil {cs : List Char} : matchAll [] cs = true ↔ cs = [] := by
  cases cs <;> simp [matchAll]

theorem matchAll_one {p : Char → Bool} {rest : List Item} {cs : List Char} :
    matchAll (.one p :: rest) cs = true ↔ ∃ c ds, cs = c :: ds ∧ p c = true ∧ matchAll rest ds = true := by
  cases cs with
  | nil => simp [matchAll]
  | cons c cs => simp [matchAll]

theorem matchAll_many {p : Char → Bool} {rest : List Item} {cs : List Char} :
    matchAll (.many p :: rest) cs = true ↔ ∃ xs ds, cs = xs ++ ds ∧ xs ≠ [] ∧ (∀ x ∈ xs, p x = true) ∧ matchAll rest ds = true := by
  induction cs with
  | nil =>
    simp only [matchAll, reduceCtorEq, false_iff]
    rintro ⟨xs, ds, h, hne, -⟩
    exact hne (List.append_eq_nil_iff.1 h.symm).1
  | cons c cs ih =>
    rw [matchAll, Bool.and_eq_true, Bool.or_eq_true, ih]
    constructor
    · rintro ⟨hc, hm | ⟨xs, ds, rfl, -, hx, hm⟩⟩
      · exact ⟨[c], cs, rfl, by simp, by simpa using hc, hm⟩
      · exact ⟨c :: xs, ds, rfl, by simp, by simpa using ⟨hc, hx⟩, hm⟩
    · rintro ⟨_ | ⟨x, xs⟩, ds, h, hne, hx, hm⟩
      · exact absurd rfl hne
      · cases h
        refine ⟨hx _ (.head _), ?_⟩
        cases xs with
        | nil => exact .inl hm
        | cons y ys => exact .inr ⟨y :: ys, ds, rfl, by simp, fun z hz => hx z (.tail _ hz), hm⟩

/-- A row of single characters at the front. -/
theorem matchAll_ones {ps : List (Char → Bool)} {rest : List Item} {cs : List Char} :
    matchAll (ps.map .one ++ rest) cs = true ↔
      ∃ xs ds, cs = xs ++ ds ∧ List.Forall₂ (fun p x => p x = true) ps xs ∧ matchAll rest ds = true := by
  induction ps generalizing cs with
  | nil => simp
  | cons p ps ih =>
    rw [List.map_cons, List.cons_append, matchAll_one]
    simp only [ih, List.forall₂_cons_left_iff]
    constructor
    · rintro ⟨c, _, rfl, hc, xs, ds, rfl, hx, hm⟩
      exact ⟨c :: xs, ds, rfl, ⟨c, xs, hc, hx, rfl⟩, hm⟩
    · rintro ⟨_, ds, rfl, ⟨c, xs, hc, hx, rfl⟩, hm⟩
      exact ⟨c, xs ++ ds, rfl, hc, xs, ds, rfl, hx, hm⟩

/-! ## Series -/

/-- A sample; the value is `none` where the series goes stale. -/
structure Sample where
  time : ℚ
  value : Option ℚ
  deriving DecidableEq

/-- A series: its labels, and its samples by time. -/
structure Series where
  name : String
  labels : List (String × String)
  samples : List Sample
  sorted : samples.Pairwise fun a b => a.time < b.time

/-- The label; a missing one is empty. -/
def label (labels : List (String × String)) (k : String) : String := (labels.lookup k).getD ""

def Series.label (s : Series) (k : String) : String := Promql.label s.labels k

/-- The samples after `a`, up to `b`. -/
def Series.within (s : Series) (a b : ℚ) : List Sample := s.samples.filter fun x => a < x.time && x.time ≤ b

def LOOKBACK : ℚ := 300

/-- The value at an instant: the latest of the last five minutes, unless it marks the series as stale. -/
def Series.at (s : Series) (t : ℚ) : Option ℚ := (s.within (t - LOOKBACK) t).getLast?.bind (·.value)

/-- The values of a window; stale markers are left out. -/
def Series.points (s : Series) (a b : ℚ) : List (ℚ × ℚ) := (s.within a b).filterMap fun x => x.value.map (x.time, ·)

/-! ## `increase` -/

/-- From one point to the next; after a reset the counter has started from 0. -/
def stepUp (v w : ℚ) : ℚ := if w < v then w else w - v

def stepsUp : List (ℚ × ℚ) → ℚ
  | a :: b :: rest => stepUp a.2 b.2 + stepsUp (b :: rest)
  | _ => 0

/-- How far the samples are taken to reach beyond the first and the last one. -/
def beyond (gap average : ℚ) : ℚ := if gap ≥ average * (11 / 10) then average / 2 else gap

/-- `increase(..)` over the points of a window from `a` to `b`, extrapolated to the whole window. -/
def increase (a b : ℚ) (points : List (ℚ × ℚ)) : Option ℚ :=
  match points with
  | first :: second :: rest =>
    let last := (second :: rest).getLast (List.cons_ne_nil _ _)
    let raw := stepsUp points
    let sampled := last.1 - first.1
    let average := sampled / (rest.length + 1)
    let toStart := beyond (first.1 - a) average
    let toZero := sampled * (first.2 / raw)
    let toStart := if 0 < raw ∧ 0 ≤ first.2 ∧ toZero < toStart then toZero else toStart
    some (raw * ((sampled + toStart + beyond (b - last.1) average) / sampled))
  | _ => none

theorem stepUp_pos {v w : ℚ} : 0 < stepUp v w ↔ v < w ∨ w < v ∧ 0 < w := by
  unfold stepUp
  split
  next h => exact ⟨fun hw => .inr ⟨h, hw⟩, fun hw => hw.elim (fun hlt => absurd hlt (not_lt_of_gt h)) And.right⟩
  next h => exact ⟨fun hw => .inl (by linarith), fun hw => hw.elim (fun hlt => by linarith) fun hw => absurd hw.1 h⟩

theorem stepUp_nonneg {v w : ℚ} (hw : 0 ≤ w) : 0 ≤ stepUp v w := by
  unfold stepUp
  split
  next => exact hw
  next h => linarith

theorem stepsUp_nonneg {points : List (ℚ × ℚ)} (h : ∀ x ∈ points, 0 ≤ x.2) : 0 ≤ stepsUp points := by
  fun_induction stepsUp points with
  | case1 a b rest ih =>
    exact add_nonneg (stepUp_nonneg (h b (by simp))) (ih fun x hx => h x (.tail _ hx))
  | case2 => exact le_refl 0

/-- A counter has gone up if it has between two points next to each other. -/
theorem stepsUp_pos {points : List (ℚ × ℚ)} (h : ∀ x ∈ points, 0 ≤ x.2) :
    0 < stepsUp points ↔ ∃ l v w r, points = l ++ v :: w :: r ∧ 0 < stepUp v.2 w.2 := by
  fun_induction stepsUp points with
  | case1 a b rest ih =>
    have hrest : ∀ x ∈ b :: rest, 0 ≤ x.2 := fun x hx => h x (.tail _ hx)
    have hstep := stepUp_nonneg (v := a.2) (hrest b (.head _))
    have hsum := stepsUp_nonneg hrest
    have split : 0 < stepUp a.2 b.2 + stepsUp (b :: rest) ↔ 0 < stepUp a.2 b.2 ∨ 0 < stepsUp (b :: rest) := by
      constructor
      · intro hp
        by_contra hn
        rw [not_or, not_lt, not_lt] at hn
        linarith
      · rintro (hp | hp) <;> linarith
    rw [split, ih hrest]
    constructor
    · rintro (hp | ⟨l, v, w, r, hl, hp⟩)
      · exact ⟨[], a, b, rest, rfl, hp⟩
      · exact ⟨a :: l, v, w, r, by rw [hl]; rfl, hp⟩
    · rintro ⟨_ | ⟨x, l⟩, v, w, r, hl, hp⟩
      · cases hl
        exact .inl hp
      · rw [List.cons_append, List.cons.injEq] at hl
        exact .inr ⟨l, v, w, r, hl.2, hp⟩
  | case2 points hne =>
    refine iff_of_false (lt_irrefl 0) ?_
    rintro ⟨_ | ⟨x, l⟩, v, w, r, rfl, -⟩
    · exact hne _ _ _ rfl
    · cases l <;> exact hne _ _ _ rfl

theorem beyond_nonneg {gap average : ℚ} (hg : 0 ≤ gap) (ha : 0 ≤ average) : 0 ≤ beyond gap average := by
  unfold beyond
  split
  next => linarith
  next => exact hg

/-- The extrapolation scales up, so it is positive just where the counter has gone up. -/
theorem increase_pos {a b : ℚ} {points : List (ℚ × ℚ)} (hs : points.Pairwise fun x y => x.1 < y.1) (hw : ∀ x ∈ points, a ≤ x.1 ∧ x.1 ≤ b) :
    (∃ x, increase a b points = some x ∧ 0 < x) ↔ 0 < stepsUp points := by
  match points with
  | [] => simp [increase, stepsUp]
  | [x] => simp [increase, stepsUp]
  | first :: second :: rest =>
    have hmem : (second :: rest).getLast (List.cons_ne_nil _ _) ∈ second :: rest := List.getLast_mem _
    have hsampled : 0 < ((second :: rest).getLast (List.cons_ne_nil _ _)).1 - first.1 := by
      have := (List.pairwise_cons.1 hs).1 _ hmem
      linarith
    have hstart := (hw first (.head _)).1
    have hend := (hw _ (.tail _ hmem)).2
    simp only [increase, Option.some.injEq, exists_eq_left']
    generalize (second :: rest).getLast (List.cons_ne_nil _ _) = last at *
    generalize stepsUp (first :: second :: rest) = raw
    have haverage : 0 ≤ (last.1 - first.1) / (rest.length + 1) := by positivity
    generalize (last.1 - first.1) / (rest.length + 1) = average at *
    have htail : 0 ≤ beyond (b - last.1) average := beyond_nonneg (by linarith) haverage
    have hhead : 0 ≤ (if 0 < raw ∧ 0 ≤ first.2 ∧ (last.1 - first.1) * (first.2 / raw) < beyond (first.1 - a) average
        then (last.1 - first.1) * (first.2 / raw) else beyond (first.1 - a) average) := by
      split
      next h => exact mul_nonneg hsampled.le (div_nonneg h.2.1 h.1.le)
      next => exact beyond_nonneg (by linarith) haverage
    exact mul_pos_iff_of_pos_right (div_pos (by linarith) hsampled)

/-! ## Expressions -/

inductive Matcher where
  | equal (k v : String)
  | regex (k : String) (p : List Item)

def Matcher.holds (labels : List (String × String)) : Matcher → Bool
  | equal k v => label labels k = v
  | regex k p => matchAll p (label labels k).toList

structure Selector where
  name : String
  matchers : List Matcher

def Selector.picks (s : Selector) (x : Series) : Bool := x.name = s.name && s.matchers.all (·.holds x.labels)

inductive Expr where
  | select (s : Selector)
  | increase (s : Selector) (range : ℚ)
  /-- `e == q` and `e > q`. -/
  | eqTo (e : Expr) (q : ℚ)
  | greater (e : Expr) (q : ℚ)
  /-- `time() - e`. -/
  | age (e : Expr)
  /-- `e < f`, matched on all labels. -/
  | lessThan (e f : Expr)
  /-- `e and on(ks) f`. -/
  | andOn (ks : List String) (e f : Expr)

structure Element where
  labels : List (String × String)
  value : ℚ
  deriving DecidableEq

/-- The same labels. -/
def sameLabels (a b : List (String × String)) : Bool := (a.map (·.1) ++ b.map (·.1)).all fun k => label a k = label b k

theorem label_of_not_mem {labels : List (String × String)} {k : String} (h : k ∉ labels.map (·.1)) : label labels k = "" := by
  have : labels.lookup k = none := List.lookup_eq_none_iff.2 fun p hp => by
    refine bne_iff_ne.2 ?_
    rintro rfl
    exact h (List.mem_map.2 ⟨p, hp, rfl⟩)
  rw [label, this]
  rfl

theorem sameLabels_iff {a b : List (String × String)} : sameLabels a b = true ↔ ∀ k, label a k = label b k := by
  simp only [sameLabels, List.all_eq_true, List.mem_append, decide_eq_true_eq]
  refine ⟨fun h k => ?_, fun h k _ => h k⟩
  by_cases hk : k ∈ a.map (·.1) ∨ k ∈ b.map (·.1)
  · exact h k hk
  · rw [not_or] at hk
    rw [label_of_not_mem hk.1, label_of_not_mem hk.2]

def eval (db : List Series) (t : ℚ) : Expr → List Element
  | .select s => (db.filter s.picks).filterMap fun x => (x.at t).map fun v => ⟨x.labels, v⟩
  | .increase s range => (db.filter s.picks).filterMap fun x => (Promql.increase (t - range) t (x.points (t - range) t)).map fun v => ⟨x.labels, v⟩
  | .eqTo e q => (eval db t e).filter (·.value = q)
  | .greater e q => (eval db t e).filter fun x => q < x.value
  | .age e => (eval db t e).map fun x => ⟨x.labels, t - x.value⟩
  | .lessThan e f => (eval db t e).filter fun x => (eval db t f).any fun y => sameLabels x.labels y.labels && decide (x.value < y.value)
  | .andOn ks e f => (eval db t e).filter fun x => (eval db t f).any fun y => ks.all fun k => label x.labels k = label y.labels k

section Eval
attribute [local simp] eval
variable {db : List Series} {t q range : ℚ} {s : Selector} {e f : Expr} {x : Element} {ks : List String}

theorem mem_select : x ∈ eval db t (.select s) ↔ ∃ y ∈ db, s.picks y = true ∧ ∃ v, y.at t = some v ∧ x = ⟨y.labels, v⟩ := by
  simp only [eval, List.mem_filterMap, List.mem_filter, Option.map_eq_some_iff, and_assoc, eq_comm (a := x)]

theorem mem_increase : x ∈ eval db t (.increase s range) ↔ ∃ y ∈ db, s.picks y = true ∧
    ∃ v, increase (t - range) t (y.points (t - range) t) = some v ∧ x = ⟨y.labels, v⟩ := by
  simp only [eval, List.mem_filterMap, List.mem_filter, Option.map_eq_some_iff, and_assoc, eq_comm (a := x)]

theorem mem_eqTo : x ∈ eval db t (.eqTo e q) ↔ x ∈ eval db t e ∧ x.value = q := by
  simp [eval]

theorem mem_greater : x ∈ eval db t (.greater e q) ↔ x ∈ eval db t e ∧ q < x.value := by
  simp [eval]

theorem mem_age : x ∈ eval db t (.age e) ↔ ∃ y ∈ eval db t e, x = ⟨y.labels, t - y.value⟩ := by
  simp only [eval, List.mem_map, eq_comm (a := x)]

theorem mem_lessThan : x ∈ eval db t (.lessThan e f) ↔
    x ∈ eval db t e ∧ ∃ y ∈ eval db t f, (∀ k, label x.labels k = label y.labels k) ∧ x.value < y.value := by
  simp [eval, sameLabels_iff]

theorem mem_andOn : x ∈ eval db t (.andOn ks e f) ↔
    x ∈ eval db t e ∧ ∃ y ∈ eval db t f, ∀ k ∈ ks, label x.labels k = label y.labels k := by
  simp [eval]

end Eval

/-! ## Points -/

theorem Series.mem_points {s : Series} {a b : ℚ} {x : ℚ × ℚ} (h : x ∈ s.points a b) :
    (a < x.1 ∧ x.1 ≤ b) ∧ ∃ y ∈ s.samples, y.value = some x.2 := by
  obtain ⟨y, hy, hx⟩ := List.mem_filterMap.1 h
  obtain ⟨v, hv, rfl⟩ := Option.map_eq_some_iff.1 hx
  obtain ⟨hm, hw⟩ := List.mem_filter.1 hy
  exact ⟨by simpa using hw, y, hm, hv⟩

theorem Series.points_sorted (s : Series) (a b : ℚ) : (s.points a b).Pairwise fun x y => x.1 < y.1 := by
  refine List.Pairwise.filterMap _ ?_ (s.sorted.filter _)
  intro x y hxy v hv w hw
  obtain ⟨_, -, rfl⟩ := Option.map_eq_some_iff.1 hv
  obtain ⟨_, -, rfl⟩ := Option.map_eq_some_iff.1 hw
  exact hxy

/-- A counter has increased over a range where it has gone up between two scrapes next to each other, or has started over
and is up from 0. -/
theorem Series.increase_iff {s : Series} {a b : ℚ} (hn : ∀ x ∈ s.samples, ∀ v, x.value = some v → 0 ≤ v) :
    (∃ x, increase a b (s.points a b) = some x ∧ 0 < x) ↔
      ∃ l v w r, s.points a b = l ++ v :: w :: r ∧ (v.2 < w.2 ∨ w.2 < v.2 ∧ 0 < w.2) := by
  rw [increase_pos (s.points_sorted a b) fun x hx => ⟨(Series.mem_points hx).1.1.le, (Series.mem_points hx).1.2⟩, stepsUp_pos]
  · simp only [stepUp_pos]
  · intro x hx
    obtain ⟨-, y, hy, hv⟩ := Series.mem_points hx
    exact hn y hy x.2 hv

end Promql
