import Mathlib.Tactic.FieldSimp
import Mathlib.Tactic.Positivity
import Wardence.Correctness
import Wardence.Lib.Double
import Wardence.Lib.Tally
/-!
# The model scorecard

`build_model_scorecard` of `publish_to_r2.py` counts diagnoses in tables of its own for each question,
and the page (`modelScorecard.js`) works out the accuracy on a class from the confusion matrix. Sums and
quotients are exact here before they are rounded.
-/
namespace Wardence.Scorecard

open Tally Correctness

/-! ## The rows -/

/-- A row of `llm_diagnosis_log`. -/
structure DiagnosisLog where
  actualClass : String
  provider : Option String
  model : Option String
  llmDiagnosis : Option String
  responseTimeMs : Option ℚ

/-- A row of `comparison_sampling_log`, which is not told the actual class. -/
structure ComparisonLog where
  episodeId : Option String
  provider : Option String
  model : Option String
  diagnosis : Option String
  responseTimeMs : Option ℚ

structure Db where
  llmDiagnosisLog : List DiagnosisLog
  comparisonSamplingLog : List ComparisonLog
  /-- `episodes`: the class of each. -/
  episodes : Keyed.Table String String

structure ModelRow where
  actualClass : String
  provider : String
  model : String
  predicted : String
  responseTimeMs : Option ℚ

def modelRows (db : Db) : List ModelRow :=
  (db.llmDiagnosisLog.filterMap fun l => do
    some ⟨l.actualClass, ← l.provider, ← l.model, ← l.llmDiagnosis, l.responseTimeMs⟩) ++
  db.comparisonSamplingLog.filterMap fun c => do
    some ⟨← c.episodeId.bind fun e => AList.lookup e db.episodes, ← c.provider, ← c.model, ← c.diagnosis, c.responseTimeMs⟩

/-- `f"{provider}:{model}"` -/
def ModelRow.key (r : ModelRow) : String := r.provider ++ ":" ++ r.model

/-- What `_is_correct` says of a row. -/
def ModelRow.correct (r : ModelRow) : Bool := isCorrect (some r.predicted) r.actualClass

/-- Python's `round`. -/
def roundTo (digits : Nat) (x : ℚ) : ℚ := Py.roundHalfEven (x * 10 ^ digits) / 10 ^ digits

/-! ## Accuracy -/

/-- Model, actual class, predicted class. -/
abbrev Matrix := List (String × List (String × List (String × Nat)))

def buildConfusionMatrix (rows : List ModelRow) : Matrix :=
  tally ModelRow.key [] (fun r m => bump [] r.actualClass (bump 0 r.predicted (· + 1)) m) rows

structure Overall where
  totalEpisodes : Nat
  correct : Nat
  accuracy : Option ℚ

/-- The two nested loops over the part of the matrix that a model has. -/
def overallOf (byActual : List (String × List (String × Nat))) : Overall :=
  let n := total (fun _ byPredicted => total (fun _ count => count) byPredicted) byActual
  let c := total (fun actual byPredicted => total (fun predicted count => if isCorrect (some predicted) actual then count else 0)
    byPredicted) byActual
  ⟨n, c, if n = 0 then none else some (roundTo 4 (c / n))⟩

def buildOverallAccuracy (matrix : Matrix) : List (String × Overall) := matrix.map fun e => (e.1, overallOf e.2)

structure ClassAccuracy where
  correct : Nat
  total : Nat
  accuracy : Option ℚ

/-- `classAccuracy` of the page. -/
def classAccuracy (matrix : Matrix) (modelKey actualClass : String) : ClassAccuracy :=
  match (matrix.lookup modelKey).bind (·.lookup actualClass) with
  | none => ⟨0, 0, none⟩
  | some row =>
    let n := Tally.total (fun _ count => count) row
    let c := (row.lookup actualClass).getD 0
    ⟨c, n, if n = 0 then none else some (c / n)⟩

/-- The classes that the matrix has for a model. -/
def classesOf (matrix : Matrix) (modelKey : String) : List String := keys (entry [] matrix modelKey)

section Matrix
variable (rows : List ModelRow) (k : String)

/-- The rows of a model fill its part of the matrix. -/
theorem entry_matrix : entry [] (buildConfusionMatrix rows) k =
    tally (·.actualClass) [] (fun r => bump 0 r.predicted (· + 1)) (rows.filter fun r => r.key = k) :=
  entry_tally ModelRow.key [] (fun r m => bump [] r.actualClass (bump 0 r.predicted (· + 1)) m) rows k

theorem entry_matrix_class (c : String) : entry [] (entry [] (buildConfusionMatrix rows) k) c =
    tally (·.predicted) 0 (fun _ n => n + 1) ((rows.filter fun r => r.key = k).filter fun r => r.actualClass = c) := by
  rw [entry_matrix]
  exact entry_tally (·.actualClass) [] (fun r : ModelRow => bump 0 r.predicted (· + 1)) _ c

theorem classAccuracy_eq (c : String) : (classAccuracy (buildConfusionMatrix rows) k c).total =
      total (fun _ count => count) (entry [] (entry [] (buildConfusionMatrix rows) k) c) ∧
    (classAccuracy (buildConfusionMatrix rows) k c).correct = entry 0 (entry [] (entry [] (buildConfusionMatrix rows) k) c) c := by
  rw [classAccuracy]
  cases hk : (buildConfusionMatrix rows).lookup k with
  | none => simp [entry, hk, total]
  | some byActual =>
    cases hc : byActual.lookup c with
    | none => simp [entry, hk, hc, total]
    | some row => simp [entry, hk, hc]

theorem sum_classes (value : String → List (String × Nat) → Nat) :
    ((classesOf (buildConfusionMatrix rows) k).map fun c => value c (entry [] (entry [] (buildConfusionMatrix rows) k) c)).sum =
      total value (entry [] (buildConfusionMatrix rows) k) := by
  rw [classesOf, total_eq_sum_keys [] _ value]
  rw [entry_matrix]
  exact nodup_keys_tally _ _ _ _

/-- What each row adds to a measure of the matrix, added up over the rows of a model. -/
theorem total_matrix {value : String → List (String × Nat) → Nat} {g : ModelRow → Nat} (hinit : ∀ c, value c [] = 0)
    (hadd : ∀ (r : ModelRow) row, value r.actualClass (bump 0 r.predicted (· + 1) row) = value r.actualClass row + g r) :
    total value (entry [] (buildConfusionMatrix rows) k) = ((rows.filter fun r => r.key = k).map g).sum := by
  rw [entry_matrix]
  exact total_tally (·.actualClass) [] (fun r : ModelRow => bump 0 r.predicted (· + 1)) _ hinit hadd

theorem sum_indicator (p : ModelRow → Bool) : ((rows.filter fun r => r.key = k).map fun r => if p r then 1 else 0).sum =
    rows.countP fun r => r.key = k && p r := by
  induction rows with
  | nil => rfl
  | cons r rows ih =>
    by_cases hk : r.key = k
    · by_cases hp : p r = true
      · simp [hk, hp, ih, Nat.add_comm]
      · simp [hk, hp, ih]
    · simp [hk, ih]

/-- Every row of a model is counted once. -/
theorem matrix_total : total (fun _ row => total (fun _ count => count) row) (entry [] (buildConfusionMatrix rows) k) =
    rows.countP fun r => r.key = k := by
  rw [total_matrix rows k (g := fun _ => 1) (fun _ => rfl) fun r row => total_bump _ _ _ _ rfl fun _ => rfl]
  simpa using sum_indicator rows k fun _ => true

theorem matrix_correct : total (fun c row => total (fun p count => if isCorrect (some p) c then count else 0) row)
    (entry [] (buildConfusionMatrix rows) k) = rows.countP fun r => r.key = k && r.correct := by
  rw [← sum_indicator]
  refine total_matrix rows k (fun _ => rfl) fun r row => total_bump _ _ _ _ (by simp) fun count => ?_
  by_cases hr : isCorrect (some r.predicted) r.actualClass = true <;> simp [ModelRow.correct, hr]

/-- What the page counts as correct on the diagonal. -/
theorem matrix_diagonal : total (fun c row => entry 0 row c) (entry [] (buildConfusionMatrix rows) k) =
    rows.countP fun r => r.key = k && decide (r.predicted = r.actualClass) := by
  rw [← sum_indicator]
  refine total_matrix rows k (fun _ => rfl) fun r row => ?_
  rw [entry_bump]
  by_cases hr : r.actualClass = r.predicted
  · simp [hr]
  · have hne : ¬ r.predicted = r.actualClass := fun h => hr h.symm
    simp [hr, hne]

theorem cell_eq (c p : String) : entry 0 (entry [] (entry [] (buildConfusionMatrix rows) k) c) p =
    rows.countP fun r => r.key = k && decide (r.actualClass = c) && decide (r.predicted = p) := by
  rw [entry_matrix_class, entry_count, List.countP_filter, List.countP_filter]
  refine List.countP_congr fun r _ => ?_
  simp only [Bool.and_eq_true]
  tauto

theorem lookup_overall : (buildOverallAccuracy (buildConfusionMatrix rows)).lookup k =
    if (rows.countP fun r => r.key = k) = 0 then none else
      some ⟨rows.countP fun r => r.key = k, rows.countP fun r => r.key = k && r.correct,
        some (roundTo 4 ((rows.countP fun r => r.key = k && r.correct) / (rows.countP fun r => r.key = k)))⟩ := by
  rw [buildOverallAccuracy, lookup_map fun _ byActual => overallOf byActual]
  by_cases hk : k ∈ keys (buildConfusionMatrix rows)
  · have hne : ¬ (rows.countP fun r => r.key = k) = 0 := by
      obtain ⟨r, hr, hrk⟩ := (mem_keys_tally _ _ _ _ _).1 hk
      intro hzero
      exact List.countP_eq_zero.1 hzero r hr (by simpa using hrk)
    rw [lookup_of_key [] hk, Option.map_some, overallOf, matrix_total, matrix_correct, if_neg hne, if_neg hne]
  · have hzero : (rows.countP fun r => r.key = k) = 0 := by
      refine List.countP_eq_zero.2 fun r hr hrk => hk ?_
      exact (mem_keys_tally _ _ _ _ _).2 ⟨r, hr, by simpa using hrk⟩
    rw [lookup_of_not_key hk, if_pos hzero]
    rfl

end Matrix

/-- The overall accuracy of a model and what the page works out for each class rest on the same rows. The classes' totals add up to
the model's; their correct ones to the model's less the diagnoses that are right in the other spelling of `none`; and on a class that
has no other spelling the page counts as correct what the publisher does. -/
theorem overall_of_classes (db : Db) (k : String) :
    let rows := modelRows db
    let matrix := buildConfusionMatrix rows
    let classes := (classesOf matrix k).map (classAccuracy matrix k)
    let n := (classes.map (·.total)).sum
    let respelled := rows.countP fun r => r.key = k && (r.correct && decide (r.predicted ≠ r.actualClass))
    let c := (classes.map (·.correct)).sum + respelled
    n = (rows.countP fun r => r.key = k) ∧
      (buildOverallAccuracy matrix).lookup k = (if n = 0 then none else some ⟨n, c, some (roundTo 4 (c / n))⟩) ∧
      ∀ cls, cls ∉ ["none", "no anomaly detected"] → (classAccuracy matrix k cls).correct =
        rows.countP fun r => r.key = k && decide (r.actualClass = cls) && r.correct := by
  intro rows matrix classes n respelled c
  have hn : n = rows.countP fun r => r.key = k := by
    simp only [n, classes, List.map_map]
    rw [← matrix_total, ← sum_classes]
    exact congrArg List.sum (List.map_congr_left fun cls _ => (classAccuracy_eq rows k cls).1)
  have hdiagonal : (classes.map (·.correct)).sum = rows.countP fun r => r.key = k && decide (r.predicted = r.actualClass) := by
    simp only [classes, List.map_map]
    rw [← matrix_diagonal, ← sum_classes]
    exact congrArg List.sum (List.map_congr_left fun cls _ => (classAccuracy_eq rows k cls).2)
  have hself : ∀ s, isCorrect (some s) s = true := by simp [isCorrect]
  have hc : c = rows.countP fun r => r.key = k && r.correct := by
    simp only [c, respelled, hdiagonal]
    generalize rows = rows
    induction rows with
    | nil => rfl
    | cons r rows ih =>
      simp only [List.countP_cons, ← ih]
      by_cases hk : r.key = k
      · by_cases hp : r.predicted = r.actualClass
        · simp [hk, hp, ModelRow.correct, hself]
          omega
        · cases hr : r.correct with
          | true => simp [hk, hp]; omega
          | false => simp [hk, hp]
      · simp [hk]
  refine ⟨hn, ?_, fun cls hcls => ?_⟩
  · rw [hn, hc]
    exact lookup_overall rows k
  · rw [(classAccuracy_eq rows k cls).2, cell_eq]
    refine List.countP_congr fun r _ => ?_
    by_cases ha : r.actualClass = cls
    · subst ha
      have hnot : r.actualClass ∉ ["none", "no anomaly detected"] := hcls
      simp only [List.mem_cons, List.not_mem_nil, or_false] at hnot
      simp [ModelRow.correct, isCorrect, hnot]
    · simp [ha]

/-! ## Response times -/

/-- The diagnoses whose time is known. -/
def timed (rows : List ModelRow) : List (ModelRow × ℚ) := rows.filterMap fun r => r.responseTimeMs.map fun t => (r, t)

structure AvgTime where
  n : Nat
  avg : ℚ

def average (values : List ℚ) : AvgTime := ⟨values.length, roundTo 1 (values.sum / values.length)⟩

def buildAvgResponseTime (rows : List ModelRow) : List (String × AvgTime) :=
  (tally (·.1.key) [] (fun x values => values ++ [x.2]) (timed rows)).map fun e => (e.1, average e.2)

def timesByClass (rows : List ModelRow) : List (String × List (String × List ℚ)) :=
  tally (·.1.key) [] (fun x m => bump [] x.1.actualClass (· ++ [x.2]) m) (timed rows)

def buildAvgResponseTimeByClass (rows : List ModelRow) : List (String × List (String × AvgTime)) :=
  (timesByClass rows).map fun e => (e.1, e.2.map fun c => (c.1, average c.2))

/-- For one of `REAL_FAULT_CLASSES`, over all models. -/
def buildResponseTimeByClass (rows : List ModelRow) (faultClass : String) : Option ℚ :=
  let times := tally (·.1.actualClass) [] (fun x values => values ++ [x.2]) (timed rows)
  match times.lookup faultClass with
  | some values => some (average values).avg
  | none => none

theorem roundTo_error (digits : Nat) (x : ℚ) : |roundTo digits x - x| ≤ 1 / (2 * 10 ^ digits) := by
  have hpos : (0 : ℚ) < 10 ^ digits := by positivity
  have heq : roundTo digits x - x = (Py.roundHalfEven (x * 10 ^ digits) - x * 10 ^ digits) / 10 ^ digits := by
    rw [roundTo]
    field_simp
  rw [heq, abs_div, abs_of_pos hpos, div_le_div_iff₀ hpos (by positivity)]
  have := Py.roundHalfEven_error (x * 10 ^ digits)
  nlinarith

/-- The rounded mean of several groups together is within a tenth of the mean of their rounded means. -/
theorem average_groups {values : List ℚ} {groups : List (List ℚ)} (hgroups : ∀ g ∈ groups, g ≠ []) (hne : values ≠ [])
    (hlen : values.length = (groups.map List.length).sum) (hsum : values.sum = (groups.map List.sum).sum) :
    |(average values).avg - (groups.map fun g => (average g).n * (average g).avg).sum / (average values).n| ≤ 1 / 10 := by
  have hsums : |(groups.map fun g => (average g).n * (average g).avg).sum - (groups.map List.sum).sum| ≤
      ((groups.map List.length).sum : Nat) / 20 := by
    clear hne hlen hsum
    induction groups with
    | nil => simp
    | cons g groups ih =>
      have hg : (0 : ℚ) < g.length := by
        exact_mod_cast List.length_pos_iff.2 (hgroups g (.head _))
      have hround := roundTo_error 1 (g.sum / g.length)
      have hone : |(g.length : ℚ) * (average g).avg - g.sum| ≤ g.length / 20 := by
        have heq : (g.length : ℚ) * (average g).avg - g.sum = g.length * (roundTo 1 (g.sum / g.length) - g.sum / g.length) := by
          rw [average]
          field_simp
        rw [heq, abs_mul, abs_of_pos hg]
        calc (g.length : ℚ) * |roundTo 1 (g.sum / g.length) - g.sum / g.length| ≤ g.length * (1 / (2 * 10 ^ 1)) :=
              mul_le_mul_of_nonneg_left hround hg.le
          _ = g.length / 20 := by ring
      have hrest := ih fun g' hg' => hgroups g' (.tail _ hg')
      rw [List.map_cons, List.sum_cons, List.map_cons, List.sum_cons, List.map_cons, List.sum_cons, Nat.cast_add]
      rw [abs_le] at hone hrest ⊢
      simp only [average] at hone hrest ⊢
      exact ⟨by linarith, by linarith⟩
  have hpos : (0 : ℚ) < values.length := by
    exact_mod_cast List.length_pos_iff.2 hne
  have hround : |roundTo 1 (values.sum / values.length) - values.sum / values.length| ≤ 1 / 20 := by
    have := roundTo_error 1 (values.sum / values.length)
    rwa [show (1 : ℚ) / (2 * 10 ^ 1) = 1 / 20 by norm_num] at this
  have hmean : |values.sum / values.length - (groups.map fun g => (average g).n * (average g).avg).sum / values.length| ≤ 1 / 20 := by
    rw [← sub_div, abs_div, abs_of_pos hpos, div_le_iff₀ hpos, abs_sub_comm, hsum]
    rw [← hlen] at hsums
    linarith
  rw [abs_le] at hround hmean ⊢
  simp only [average] at hround hmean ⊢
  exact ⟨by linarith, by linarith⟩

section Times
variable (rows : List ModelRow) (k cls : String)

theorem entry_timesByClass : entry [] (timesByClass rows) k =
    tally (·.1.actualClass) [] (fun x l => l ++ [x.2]) ((timed rows).filter fun x => x.1.key = k) :=
  entry_tally (·.1.key) [] (fun x m => bump [] x.1.actualClass (· ++ [x.2]) m) (timed rows) k

theorem nodup_timesByClass : (keys (timesByClass rows)).Nodup := nodup_keys_tally _ _ _ _

theorem class_times_ne {k cls : String} {l : List ℚ} (h : (cls, l) ∈ entry [] (timesByClass rows) k) : l ≠ [] := by
  rw [entry_timesByClass] at h
  have hkey : cls ∈ keys (tally (·.1.actualClass) [] (fun x l => l ++ [x.2]) ((timed rows).filter fun x => x.1.key = k)) :=
    List.mem_map.2 ⟨_, h, rfl⟩
  obtain ⟨x, hx, hcls⟩ := (mem_keys_tally _ _ _ _ _).1 hkey
  have hl := entry_of_mem [] (nodup_keys_tally _ _ _ _) h
  rw [entry_list (fun x : ModelRow × ℚ => x.1.actualClass) _ fun x => x.2] at hl
  rw [← hl]
  simp only [ne_eq, List.map_eq_nil_iff, List.filter_eq_nil_iff, decide_eq_true_eq, not_forall, not_not]
  exact ⟨x, hx, hcls⟩

/-- A measure of lists that each value adds to, over the classes of a model. -/
theorem sum_classes_of_model {M : Type*} [AddCommMonoid M] {f : List ℚ → M} {g : ℚ → M} (hnil : f [] = 0)
    (hf : ∀ l x, f (l ++ [x]) = f l + g x) : ((entry [] (timesByClass rows) k).map fun e => f e.2).sum =
      (((timed rows).filter fun x => x.1.key = k).map fun x => g x.2).sum := by
  rw [entry_timesByClass]
  change total (fun _ l => f l) _ = _
  exact total_tally (fun x : ModelRow × ℚ => x.1.actualClass) [] (fun x l => l ++ [x.2]) _ (fun _ => hnil) fun x l => hf l x.2

/-- The same, over the models that have a class. -/
theorem sum_models_of_class {M : Type*} [AddCommMonoid M] {f : List ℚ → M} {g : ℚ → M} (hnil : f [] = 0)
    (hf : ∀ l x, f (l ++ [x]) = f l + g x) : (((timesByClass rows).filterMap fun e => e.2.lookup cls).map f).sum =
      (((timed rows).filter fun x => x.1.actualClass = cls).map fun x => g x.2).sum := by
  have hcells : ∀ d : List (String × List (String × List ℚ)), ((d.filterMap fun e => e.2.lookup cls).map f).sum =
      total (fun _ m => f (entry [] m cls)) d := by
    intro d
    induction d with
    | nil => rfl
    | cons e d ih =>
      have htotal : total (fun _ m => f (entry [] m cls)) (e :: d) = f (entry [] e.2 cls) + total (fun _ m => f (entry [] m cls)) d := rfl
      rw [htotal, ← ih]
      cases he : e.2.lookup cls with
      | none => simp [he, entry, hnil]
      | some l => simp [he, entry]
  have hrows : (((timed rows).filter fun x => x.1.actualClass = cls).map fun x => g x.2).sum =
      ((timed rows).map fun x => if x.1.actualClass = cls then g x.2 else 0).sum := by
    induction timed rows with
    | nil => rfl
    | cons x xs ih =>
      by_cases hx : x.1.actualClass = cls
      · simp [hx, ih]
      · simp [hx, ih]
  rw [hcells, hrows]
  refine total_tally (fun x : ModelRow × ℚ => x.1.key) [] (fun x m => bump [] x.1.actualClass (· ++ [x.2]) m) (timed rows)
    (fun _ => hnil) fun x m => ?_
  rw [entry_bump]
  by_cases hx : x.1.actualClass = cls
  · subst hx
    rw [if_pos rfl, if_pos rfl, hf]
  · rw [if_neg fun h => hx h.symm, if_neg hx, add_zero]

end Times

/-- The three published tables of response times agree. The classes of a model add up to the model, and its average is within a tenth
of the mean of theirs, each weighted with its number of diagnoses; and so the models of a class to what the dossier says of the
class. -/
theorem response_times_agree (db : Db) :
    let rows := modelRows db
    (∀ k, match (buildAvgResponseTime rows).lookup k with
      | none => (buildAvgResponseTimeByClass rows).lookup k = none
      | some a => ∃ byClass, (buildAvgResponseTimeByClass rows).lookup k = some byClass ∧ a.n = (byClass.map (·.2.n)).sum ∧
        |a.avg - (byClass.map fun c => (c.2.n : ℚ) * c.2.avg).sum / a.n| ≤ 1 / 10) ∧
    ∀ cls, let cells := (buildAvgResponseTimeByClass rows).filterMap fun e => e.2.lookup cls
      match buildResponseTimeByClass rows cls with
      | none => cells = []
      | some avg => |avg - (cells.map fun c => (c.n : ℚ) * c.avg).sum / ((cells.map (·.n)).sum : Nat)| ≤ 1 / 10 := by
  intro rows
  have hlength : ∀ (l : List ℚ) (x : ℚ), (l ++ [x]).length = l.length + 1 := fun l x => by simp
  have hsum : ∀ (l : List ℚ) (x : ℚ), (l ++ [x]).sum = l.sum + x := fun l x => by simp
  refine ⟨fun k => ?_, fun cls => ?_⟩
  · have hkeys : k ∈ keys (timesByClass rows) ↔ k ∈ keys (tally (·.1.key) [] (fun x values => values ++ [x.2]) (timed rows)) := by
      rw [timesByClass, mem_keys_tally, mem_keys_tally]
    rw [buildAvgResponseTime, buildAvgResponseTimeByClass, lookup_map fun _ => average,
      lookup_map fun _ (e : List (String × List ℚ)) => e.map fun c => (c.1, average c.2)]
    by_cases hk : k ∈ keys (timesByClass rows)
    · rw [lookup_of_key [] hk, lookup_of_key [] (hkeys.1 hk), entry_list (fun x : ModelRow × ℚ => x.1.key) _ fun x => x.2]
      have hlen := sum_classes_of_model rows k rfl hlength
      have htotal := sum_classes_of_model rows k rfl hsum
      have hne : ((timed rows).filter fun x => x.1.key = k).map (·.2) ≠ [] := by
        obtain ⟨x, hx, hxk⟩ := (mem_keys_tally _ _ _ _ _).1 hk
        simp only [ne_eq, List.map_eq_nil_iff, List.filter_eq_nil_iff, decide_eq_true_eq, not_forall, not_not]
        exact ⟨x, hx, hxk⟩
      have hgroups : ∀ g ∈ (entry [] (timesByClass rows) k).map (·.2), g ≠ [] := by
        intro g hg
        obtain ⟨e, he, rfl⟩ := List.mem_map.1 hg
        exact class_times_ne rows he
      refine ⟨_, rfl, ?_, ?_⟩
      · simpa [average, Function.comp_def] using hlen.symm
      · have := average_groups hgroups hne (by simpa [Function.comp_def] using hlen.symm) (by simpa [Function.comp_def] using htotal.symm)
        simpa [Function.comp_def] using this
    · rw [lookup_of_not_key hk, lookup_of_not_key fun h => hk (hkeys.2 h)]
      rfl
  · have hcells : (buildAvgResponseTimeByClass rows).filterMap (fun e => e.2.lookup cls) =
        ((timesByClass rows).filterMap fun e => e.2.lookup cls).map average := by
      rw [buildAvgResponseTimeByClass, List.filterMap_map, List.map_filterMap]
      exact List.filterMap_congr fun e _ => lookup_map (fun _ => average) e.2 cls
    have hlen := sum_models_of_class rows cls rfl hlength
    have htotal := sum_models_of_class rows cls rfl hsum
    have hgroups : ∀ g ∈ (timesByClass rows).filterMap (fun e => e.2.lookup cls), g ≠ [] := by
      intro g hg
      obtain ⟨e, he, hl⟩ := List.mem_filterMap.1 hg
      have hin : cls ∈ keys e.2 := by
        by_contra hnot
        rw [lookup_of_not_key hnot] at hl
        cases hl
      have hmem := mem_of_key [] hin
      rw [lookup_of_key [] hin, Option.some.injEq] at hl
      rw [hl, ← entry_of_mem [] (nodup_timesByClass rows) he] at hmem
      exact class_times_ne rows hmem
    rw [hcells, buildResponseTimeByClass]
    by_cases hc : cls ∈ keys (tally (·.1.actualClass) [] (fun x values => values ++ [x.2]) (timed rows))
    · rw [lookup_of_key [] hc, entry_list (fun x : ModelRow × ℚ => x.1.actualClass) _ fun x => x.2]
      have hne : ((timed rows).filter fun x => x.1.actualClass = cls).map (·.2) ≠ [] := by
        obtain ⟨x, hx, hxc⟩ := (mem_keys_tally _ _ _ _ _).1 hc
        simp only [ne_eq, List.map_eq_nil_iff, List.filter_eq_nil_iff, decide_eq_true_eq, not_forall, not_not]
        exact ⟨x, hx, hxc⟩
      have := average_groups hgroups hne (by simpa using hlen.symm) (by simpa using htotal.symm)
      have hn : ((((timesByClass rows).filterMap fun e => e.2.lookup cls).map average).map (·.n)).sum =
          (average (((timed rows).filter fun x => x.1.actualClass = cls).map (·.2))).n := by
        simpa [average, Function.comp_def] using hlen
      rw [← hn] at this
      simpa only [List.map_map, Function.comp_def] using this
    · rw [lookup_of_not_key hc]
      change List.map average _ = []
      rw [List.map_eq_nil_iff]
      have hnil : ((timed rows).filter fun x => x.1.actualClass = cls) = [] := by
        refine List.filter_eq_nil_iff.2 fun x hx hxc => hc ?_
        exact (mem_keys_tally _ _ _ _ _).2 ⟨x, hx, by simpa using hxc⟩
      rw [hnil] at hlen
      refine List.eq_nil_iff_forall_not_mem.2 fun g hg => hgroups g hg ?_
      have hzero : g.length ≤ 0 := by
        refine (List.single_le_sum (fun _ _ => Nat.zero_le _) _ (List.mem_map_of_mem hg)).trans ?_
        rw [hlen]
        rfl
      exact List.length_eq_zero_iff.1 (Nat.le_zero.1 hzero)

end Wardence.Scorecard
