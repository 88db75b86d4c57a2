import Mathlib.Algebra.Order.Field.Rat
import Mathlib.Data.List.Infix
import Wardence.LogPipeline
/-!
# The live detector

`detector_service.py`: a request's window of log lines is mined by the service's miner and
scored. The miner is drain3's, loaded from the snapshot with the snapshot's file as its
persistence handler. What the trained models compute is a parameter.
-/
namespace Wardence.Detector

open LogPipeline (Line Miner)

/-- drain3 with a file: when a message creates a cluster or changes a template, the new state is saved. The
clusters are what mining depends on, the sizes of the clusters not among it. -/
structure Drain (μ φ κ : Type) extends Miner μ where
  load : φ → μ
  dump : μ → φ
  clusters : μ → κ
  changes : κ → String → Bool
  mined : κ → String → ℕ × String
  next : κ → String → κ
  /-- The number of clusters and of wildcards in their templates. -/
  extent : κ → ℕ
  addLogMessage_mined : ∀ m l, (addLogMessage m l).2 = mined (clusters m) l
  addLogMessage_clusters : ∀ m l, clusters (addLogMessage m l).1 = next (clusters m) l
  next_same : ∀ k l, changes k l = false → next k l = k
  extent_next : ∀ k l, changes k l = true → extent k < extent (next k l)
  load_dump : ∀ m, clusters (load (dump m)) = clusters m

structure DeepLog where
  idToIndex : ℕ → Option ℕ
  threshold : ℚ
  /-- `deeplog_predict_hits`, of contexts and what came next. -/
  predictHits : List (List ℕ) → List ℕ → List Bool

structure Hmm where
  idToIndex : ℕ → Option ℕ
  threshold : ℚ
  /-- `continuous_per_step_log_probs`. -/
  logProbs : List ℕ → List ℚ

structure Baseline where
  upper : ℚ
  lower : ℚ
  deriving DecidableEq, Repr

/-- What is loaded at the start and never set again. -/
structure Models where
  deeplog : String → DeepLog
  hmm : String → Hmm
  spc : String → List (String × Baseline)

/-- The snapshots on disk, and the miners in memory. -/
structure Server (μ φ : Type) where
  snapshots : String → Option φ
  miners : String → Option μ

/-- A request for a service, and the lines that Loki has for its window. -/
structure Request where
  service : String
  lines : List Line
  deriving DecidableEq, Repr

/-- A line's time, and the cluster and the template that it was mined to. -/
structure Event where
  ts : Int
  templateId : ℕ
  template : String
  deriving DecidableEq, Repr

structure Channel where
  value : ℚ
  baseline : Baseline
  flagged : Bool
  deriving DecidableEq, Repr

/-- An answer; no score of the HMM: `-inf`. -/
inductive Detection where
  | unsupported
  | insufficientData (pulled required : ℕ)
  | deeplog (anomalyScore threshold : ℚ) (isAnomalous : Bool) (eventsUsed : ℕ) (sawUnseen : Bool)
  | hmm (anomalyScore : Option ℚ) (threshold : ℚ) (isAnomalous : Bool) (eventsUsed : ℕ)
  | spc (isAnomalous : Bool) (eventsUsed : ℕ) (channels : List (String × Channel))
  deriving DecidableEq, Repr

def DEEPLOG_SERVICES : List String := ["front-end", "orders", "user"]
def HMM_SERVICES : List String := ["queue-master"]
def SPC_SERVICES : List String := ["catalogue"]
def SUPPORTED_SERVICES : List String := DEEPLOG_SERVICES ++ HMM_SERVICES ++ SPC_SERVICES
def DEEPLOG_CONTEXT_WINDOW : ℕ := 10
def DEEPLOG_SCORING_WINDOW : ℕ := 20
def HMM_WINDOW_SIZE : ℕ := 20
def SERVICE_NOISE_MARKERS : List (String × List String) :=
  [("queue-master", ["RetryExec", "AFUNIXSocketException"]), ("catalogue", [])]

/-! ## Scoring -/

def isNoiseTemplate (service template : String) : Bool :=
  ((SERVICE_NOISE_MARKERS.lookup service).getD []).any fun marker => decide (marker.toList <:+: template.toList)

/-- `xs[-n:]`. -/
def lastOf {α : Type} (n : ℕ) (xs : List α) : List α := xs.drop (xs.length - n)

def mean (xs : List ℚ) : ℚ := xs.sum / xs.length

/-- The contexts, what came next, and whether one of them is unseen. -/
def transitions (d : DeepLog) (ids : List ℕ) : List (List ℕ × ℕ × Bool) :=
  (List.range (ids.length - DEEPLOG_CONTEXT_WINDOW)).map fun i =>
    let window := (ids.drop i).take DEEPLOG_CONTEXT_WINDOW
    match window.mapM d.idToIndex, ids[i + DEEPLOG_CONTEXT_WINDOW]?.bind d.idToIndex with
    | some context, some next => (context, next, false)
    | _, _ => (List.replicate DEEPLOG_CONTEXT_WINDOW 0, 0, true)

def scoreDeeplog (d : DeepLog) (events : List Event) : Detection :=
  let needed := DEEPLOG_CONTEXT_WINDOW + DEEPLOG_SCORING_WINDOW
  if events.length < needed then .insufficientData events.length needed
  else
    let ts := transitions d ((lastOf needed events).map (·.templateId))
    let hits := (d.predictHits (ts.map (·.1)) (ts.map (·.2.1))).zipWith (fun hit t => if t.2.2 then false else hit) ts
    let missRate := 1 - mean (hits.map fun hit => if hit then 1 else 0)
    .deeplog missRate d.threshold (d.threshold ≤ missRate) needed (ts.any (·.2.2))

def scoreHmm (h : Hmm) (service : String) (events : List Event) : Detection :=
  let filtered := events.filter fun e => !isNoiseTemplate service e.template
  if filtered.length < HMM_WINDOW_SIZE then .insufficientData filtered.length HMM_WINDOW_SIZE
  else
    match ((lastOf HMM_WINDOW_SIZE filtered).map (·.templateId)).mapM h.idToIndex with
    | none => .hmm none h.threshold true HMM_WINDOW_SIZE
    | some symbols =>
      let score := (h.logProbs symbols).min?.getD 0
      .hmm (some score) h.threshold (score ≤ h.threshold) HMM_WINDOW_SIZE

/-- The value of a channel in a window; `none`: the channel is skipped. -/
def channelValue (events : List Event) (name : String) : Option ℚ :=
  if name = "total_events" then some events.length
  else if name = "mean_gap_s" then
    if events.length < 2 then none
    else some (mean (events.zipWith (fun a b => ((b.ts - a.ts : Int) : ℚ) / 1000000000) events.tail))
  else if "count[".toList.isPrefixOf name.toList then
    some (events.countP fun e => toString e.templateId = String.ofList (name.toList.drop 6).dropLast)
  else none

def scoreSpc (baselines : List (String × Baseline)) (service : String) (events : List Event) : Detection :=
  let filtered := events.filter fun e => !isNoiseTemplate service e.template
  if filtered = [] then .insufficientData 0 1
  else
    let channels := baselines.filterMap fun b => (channelValue filtered b.1).map fun value =>
      (b.1, Channel.mk value b.2 (b.2.upper < value ∨ value < b.2.lower))
    .spc (channels.any (·.2.flagged)) filtered.length channels

def score (models : Models) (service : String) (events : List Event) : Detection :=
  if service ∈ DEEPLOG_SERVICES then scoreDeeplog (models.deeplog service) events
  else if service ∈ HMM_SERVICES then scoreHmm (models.hmm service) service events
  else scoreSpc (models.spc service) service events

/-! ## Requests -/

section Requests
variable {μ φ κ : Type} (D : Drain μ φ κ) (models : Models)

/-- The lines of a window, one by one; the file is the snapshot. -/
def mine : μ × φ → List Line → (μ × φ) × List Event
  | s, [] => (s, [])
  | (m, file), l :: ls =>
    let (m', cluster, template) := D.addLogMessage m l.text
    let file' := if D.changes (D.clusters m) l.text then D.dump m' else file
    let (s, events) := mine (m', file') ls
    (s, ⟨l.ts, cluster, template⟩ :: events)

/-- `load_all_models`, of the miners; `none`: a snapshot is missing. -/
def loadAll (snapshots : String → Option φ) : Option (Server μ φ) :=
  if SUPPORTED_SERVICES.all fun s => (snapshots s).isSome then
    some ⟨snapshots, fun s => if s ∈ SUPPORTED_SERVICES then (snapshots s).map D.load else none⟩
  else none

def detect (x : Server μ φ) (r : Request) : Server μ φ × Detection :=
  if r.service ∉ SUPPORTED_SERVICES then (x, .unsupported)
  else
    match x.miners r.service, x.snapshots r.service with
    | some m, some file =>
      let (s, events) := mine D (m, file) r.lines
      ({ snapshots := Function.update x.snapshots r.service (some s.2)
         miners := Function.update x.miners r.service (some s.1) }, score models r.service events)
    | _, _ => (x, .unsupported)

def serve (x : Server μ φ) (rs : List Request) : Server μ φ := rs.foldl (fun x r => (detect D models x r).1) x

/-- What the requests leave as it was: the snapshots, and the answers to requests. -/
structure Untouched (x : Server μ φ) (rs : List Request) : Prop where
  snapshots : (serve D models x rs).snapshots = x.snapshots
  answers : ∀ r, (detect D models (serve D models x rs) r).2 = (detect D models x r).2

/-- No line makes a cluster or changes a template of the snapshot. -/
def Known (snapshots : String → Option φ) (rs : List Request) : Prop :=
  ∀ r ∈ rs, r.service ∈ SUPPORTED_SERVICES → ∀ file, snapshots r.service = some file →
    ∀ l ∈ r.lines, D.changes (D.clusters (D.load file)) l.text = false

end Requests

/-! ## Mining -/

section Mining
variable {μ φ κ : Type} {D : Drain μ φ κ} {m m' : μ} {file file' : φ} {ls ls' : List Line}

theorem mine_cons (l : Line) :
    mine D (m, file) (l :: ls) =
      let s := mine D ((D.addLogMessage m l.text).1,
        if D.changes (D.clusters m) l.text then D.dump (D.addLogMessage m l.text).1 else file) ls
      (s.1, ⟨l.ts, (D.mined (D.clusters m) l.text).1, (D.mined (D.clusters m) l.text).2⟩ :: s.2) := by
  rw [← D.addLogMessage_mined]
  rfl

theorem mine_append : (mine D (m, file) (ls ++ ls')).1 = (mine D (mine D (m, file) ls).1 ls').1 := by
  induction ls generalizing m file with
  | nil => rfl
  | cons l ls ih =>
    rw [List.cons_append, mine_cons, mine_cons]
    exact ih

/-- The events depend on the clusters only. -/
theorem mine_events (h : D.clusters m = D.clusters m') : (mine D (m, file) ls).2 = (mine D (m', file') ls).2 := by
  induction ls generalizing m m' file file' with
  | nil => rfl
  | cons l ls ih =>
    rw [mine_cons, mine_cons]
    simp only [h]
    refine congrArg _ (ih ?_)
    rw [D.addLogMessage_clusters, D.addLogMessage_clusters, h]

variable (file) in
theorem mine_known (h : ∀ l ∈ ls, D.changes (D.clusters m) l.text = false) :
    (mine D (m, file) ls).1.2 = file ∧ D.clusters (mine D (m, file) ls).1.1 = D.clusters m := by
  induction ls generalizing m file with
  | nil => exact ⟨rfl, rfl⟩
  | cons l ls ih =>
    have hl := h l List.mem_cons_self
    have hk : D.clusters (D.addLogMessage m l.text).1 = D.clusters m := by rw [D.addLogMessage_clusters, D.next_same _ _ hl]
    obtain ⟨hfile, hclusters⟩ := ih (m := (D.addLogMessage m l.text).1) file fun l' hl' => by
      rw [hk]
      exact h l' (List.mem_cons_of_mem _ hl')
    rw [mine_cons]
    simp only [hl, Bool.false_eq_true, if_false]
    exact ⟨hfile, hclusters.trans hk⟩

/-- A snapshot that has grown is not what it was again. -/
theorem mine_grown {n : ℕ} (hm : n < D.extent (D.clusters m)) (hfile : n < D.extent (D.clusters (D.load file))) :
    n < D.extent (D.clusters (D.load (mine D (m, file) ls).1.2)) := by
  induction ls generalizing m file with
  | nil => exact hfile
  | cons l ls ih =>
    rw [mine_cons]
    cases hc : D.changes (D.clusters m) l.text with
    | false =>
      refine ih ?_ hfile
      rwa [D.addLogMessage_clusters, D.next_same _ _ hc]
    | true =>
      have hn : n < D.extent (D.clusters (D.addLogMessage m l.text).1) := by
        rw [D.addLogMessage_clusters]
        exact hm.trans (D.extent_next _ _ hc)
      refine ih hn ?_
      rwa [if_pos rfl, D.load_dump]

variable (file) in
theorem mine_unknown (h : ∃ l ∈ ls, D.changes (D.clusters m) l.text = true) :
    D.extent (D.clusters m) < D.extent (D.clusters (D.load (mine D (m, file) ls).1.2)) := by
  induction ls generalizing m file with
  | nil => simp at h
  | cons l ls ih =>
    rw [mine_cons]
    cases hc : D.changes (D.clusters m) l.text with
    | false =>
      have hk : D.clusters (D.addLogMessage m l.text).1 = D.clusters m := by rw [D.addLogMessage_clusters, D.next_same _ _ hc]
      rw [← hk]
      refine ih _ ?_
      obtain ⟨l', hl', hc'⟩ := h
      rcases List.mem_cons.1 hl' with rfl | hl'
      · rw [hc] at hc'
        cases hc'
      · exact ⟨l', hl', hk ▸ hc'⟩
    | true =>
      have hn : D.extent (D.clusters m) < D.extent (D.clusters (D.addLogMessage m l.text).1) := by
        rw [D.addLogMessage_clusters]
        exact D.extent_next _ _ hc
      refine mine_grown hn ?_
      rwa [if_pos rfl, D.load_dump]

end Mining

/-! ## Serving -/

section Serving
variable {μ φ κ : Type} {D : Drain μ φ κ} {models : Models} {x : Server μ φ} {r : Request} {rs : List Request} {s : String}
  {m : μ} {file : φ}

/-- The lines that the requests show a service's miner. -/
def linesOf (s : String) (rs : List Request) : List Line := rs.flatMap fun r => if r.service = s then r.lines else []

/-- A service's miner and file. -/
def Server.Has (x : Server μ φ) (s : String) (y : μ × φ) : Prop := x.miners s = some y.1 ∧ x.snapshots s = some y.2

theorem detect_known (hs : r.service ∈ SUPPORTED_SERVICES) (h : x.Has r.service (m, file)) :
    detect D models x r =
      ({ snapshots := Function.update x.snapshots r.service (some (mine D (m, file) r.lines).1.2)
         miners := Function.update x.miners r.service (some (mine D (m, file) r.lines).1.1) },
        score models r.service (mine D (m, file) r.lines).2) := by
  rw [detect, if_neg (not_not_intro hs), h.1, h.2]

theorem detect_has (hs : s ∈ SUPPORTED_SERVICES) (h : x.Has s (m, file)) :
    (detect D models x r).1.Has s (mine D (m, file) (linesOf s [r])).1 := by
  by_cases hr : r.service = s
  · subst hr
    rw [detect_known hs h]
    simp [Server.Has, linesOf]
  · have hl : linesOf s [r] = [] := by simp [linesOf, hr]
    rw [hl]
    unfold detect
    split
    · exact h
    · split
      · exact ⟨(Function.update_of_ne (Ne.symm hr) ..).trans h.1, (Function.update_of_ne (Ne.symm hr) ..).trans h.2⟩
      · exact h

variable (D models rs) in
theorem serve_has (hs : s ∈ SUPPORTED_SERVICES) (h : x.Has s (m, file)) :
    (serve D models x rs).Has s (mine D (m, file) (linesOf s rs)).1 := by
  induction rs generalizing x m file with
  | nil => exact h
  | cons r rs ih =>
    have hl : linesOf s (r :: rs) = linesOf s [r] ++ linesOf s rs := by simp [linesOf]
    rw [hl, mine_append]
    exact ih (detect_has hs h)

/-- A service without a detector is not touched. -/
theorem serve_unsupported (hs : s ∉ SUPPORTED_SERVICES) : (serve D models x rs).snapshots s = x.snapshots s := by
  induction rs generalizing x with
  | nil => rfl
  | cons r rs ih =>
    have hr : (detect D models x r).1.snapshots s = x.snapshots s := by
      unfold detect
      split
      · rfl
      next hr =>
        have hne : s ≠ r.service := fun h => hs (h ▸ not_not.1 hr)
        split
        · exact Function.update_of_ne hne ..
        · rfl
    exact ih.trans hr

theorem loadAll_has {snapshots : String → Option φ} (h : loadAll D snapshots = some x) (hs : s ∈ SUPPORTED_SERVICES) :
    ∃ file, snapshots s = some file ∧ x.Has s (D.load file, file) := by
  unfold loadAll at h
  split at h
  next hall =>
    obtain rfl := Option.some.inj h
    obtain ⟨file, hf⟩ := Option.isSome_iff_exists.1 (List.all_eq_true.1 hall s hs)
    exact ⟨file, hf, by simp [hs, hf], hf⟩
  next => cases h

theorem mem_linesOf {l : Line} (hr : r ∈ rs) (hl : l ∈ r.lines) : l ∈ linesOf r.service rs :=
  List.mem_flatMap.2 ⟨r, hr, by simpa using hl⟩

theorem linesOf_known {snapshots : String → Option φ} (h : Known D snapshots rs) (hs : s ∈ SUPPORTED_SERVICES)
    (hf : snapshots s = some file) : ∀ l ∈ linesOf s rs, D.changes (D.clusters (D.load file)) l.text = false := by
  intro l hl
  obtain ⟨r, hr, hl'⟩ := List.mem_flatMap.1 hl
  by_cases he : r.service = s
  · subst he
    exact h r hr hs file hf l (by simpa using hl')
  · simp [he] at hl'

/-- Serving leaves snapshots and answers alone exactly when every line is one that the snapshot knows. -/
theorem untouched_iff {snapshots : String → Option φ} (h : loadAll D snapshots = some x) (rs : List Request) :
    Untouched D models x rs ↔ Known D snapshots rs := by
  constructor
  · intro hu r hr hs file hf l hl
    rw [Bool.eq_false_iff]
    intro hc
    obtain ⟨file', hf', hx⟩ := loadAll_has h hs
    obtain rfl := Option.some.inj (hf.symm.trans hf')
    have hgrown := mine_unknown file ⟨l, mem_linesOf hr hl, hc⟩
    have hsame := (serve_has D models rs hs hx).2
    rw [hu.snapshots, hx.2] at hsame
    rw [← Option.some.inj hsame] at hgrown
    exact hgrown.false
  · intro hk
    have hkept : ∀ s ∈ SUPPORTED_SERVICES, ∃ file m, snapshots s = some file ∧ x.Has s (D.load file, file) ∧
        (serve D models x rs).Has s (m, file) ∧ D.clusters m = D.clusters (D.load file) := by
      intro s hs
      obtain ⟨file, hf, hx⟩ := loadAll_has h hs
      obtain ⟨hfile, hclusters⟩ := mine_known file (linesOf_known hk hs hf)
      have hserve := serve_has D models rs hs hx
      exact ⟨file, _, hf, hx, ⟨hserve.1, hserve.2.trans (congrArg some hfile)⟩, hclusters⟩
    constructor
    · funext s
      by_cases hs : s ∈ SUPPORTED_SERVICES
      · obtain ⟨file, m, -, hx, hy, -⟩ := hkept s hs
        exact hy.2.trans hx.2.symm
      · exact serve_unsupported hs
    · intro r
      by_cases hs : r.service ∈ SUPPORTED_SERVICES
      · obtain ⟨file, m, -, hx, hy, hc⟩ := hkept r.service hs
        rw [detect_known hs hx, detect_known hs hy]
        exact congrArg (score models r.service) (mine_events hc)
      · rw [detect, detect, if_pos hs, if_pos hs]

end Serving

/-! ## Two windows -/

/-- A miner whose templates are whole lines. -/
def lineByLine : Drain (List String) (List String) (List String) where
  fresh := []
  addLogMessage m l := (if l ∈ m then m else m ++ [l], m.idxOf l + 1, l)
  load := id
  dump := id
  clusters := id
  changes m l := l ∉ m
  mined m l := (m.idxOf l + 1, l)
  next m l := if l ∈ m then m else m ++ [l]
  extent := List.length
  addLogMessage_mined _ _ := rfl
  addLogMessage_clusters _ _ := rfl
  next_same m l h := if_pos (by simpa using h)
  extent_next m l h := by
    rw [if_neg (by simpa using h), List.length_append]
    exact Nat.lt_succ_self _
  load_dump _ := rfl

def models : Models where
  deeplog _ := ⟨fun n => some n, 1 / 2, fun _ ns => ns.map fun _ => true⟩
  hmm _ := ⟨fun n => some n, 0, fun ns => ns.map fun n => (n : ℚ)⟩
  spc _ := [("total_events", ⟨10, 0⟩)]

def trained (_ : String) : Option (List String) := some ["GET /catalogue 200"]

def server : Server (List String) (List String) :=
  ⟨trained, fun s => if s ∈ SUPPORTED_SERVICES then some ["GET /catalogue 200"] else none⟩

theorem untouched_known : Untouched lineByLine models server [⟨"catalogue", [⟨5, "GET /catalogue 200"⟩]⟩] := by
  have hload : loadAll lineByLine trained = some server := rfl
  refine (untouched_iff hload _).2 fun r hr _ file hfile l hl => ?_
  obtain rfl := List.mem_singleton.1 hr
  obtain rfl := List.mem_singleton.1 hl
  obtain rfl := Option.some.inj hfile
  decide

/-- A line that is not known goes into the snapshot. -/
theorem snapshot_grows : ¬ Untouched lineByLine models server [⟨"catalogue", [⟨5, "panic: no such table"⟩]⟩] := by
  intro h
  have hs := congrFun h.snapshots "catalogue"
  exact absurd hs (by decide +kernel)

end Wardence.Detector
