import Mathlib.Data.Rat.Defs
import Mathlib.Algebra.Order.Field.Rat
/-!
# Signals

What `query_prometheus` reports, the rules of `stub_diagnose` on it (`agent.py`), and the two
tests of the ReAct loop that tell the model its evidence is conclusive (`react_agent.py`). The
tests know ten of the rules. The latency band, the passive latency and the throughput are left
to the model, as the comments on `_NUMERIC_THRESHOLD_FIELDS` have it.
-/
namespace Wardence.React

/-! ## Values -/

/-- A number; nothing compares with a `nan`. An infinity is a number past all thresholds. -/
inductive Num where
  | num (q : ℚ)
  | nan
  deriving DecidableEq

namespace Num

def ge : Num → ℚ → Bool
  | num q, c => c ≤ q
  | nan, _ => false

def lt : Num → ℚ → Bool
  | num q, c => q < c
  | nan, _ => false

def le : Num → ℚ → Bool
  | num q, c => q ≤ c
  | nan, _ => false

end Num

/-- What an observation holds under a key. -/
inductive Field where
  | null
  | flag (b : Bool)
  | number (n : Num)
  | pods (names : List (Option String))
  | text (s : String)
  deriving DecidableEq

def Field.truthy : Field → Bool
  | null => false
  | flag b => b
  | number n => n ≠ .num 0
  | pods names => !names.isEmpty
  | text s => s ≠ ""

/-- The value, if it is an `int` or a `float`; a `bool` is an `int`. -/
def Field.number? : Field → Option Num
  | number n => some n
  | flag b => some (.num (if b then 1 else 0))
  | _ => none

/-- What a tool returns: a dictionary, or another value. -/
inductive Observation where
  | dict (fields : List (String × Field))
  | value (f : Field)
  deriving DecidableEq

/-- `observation.get(field)`. -/
def get (fields : List (String × Field)) (field : String) : Field := (fields.lookup field).getD .null

/-! ## The rules -/

/-- The fields of `query_prometheus`. -/
structure ToolOutput where
  oomPods : List (Option String) := []
  evictedPods : List (Option String) := []
  crashloopingPods : List (Option String) := []
  connectFailures : Option Num := none
  maxHttpMs : Option Num := none
  p95LatencyMs : Option Num := none
  combinedThroughputBps : Option Num := none
  paymentStuckNotReady : Bool := false
  sessionDbReplicasHitZero : Bool := false
  peakMemoryMib : Option Num := none
  peakThreadsConnected : Option Num := none
  cpuThrottlePeriodsIncrease : Option Num := none
  frontEndImagePullFailing : Bool := false
  currentReplicas : Option Num := none
  heapRiseKb : Option Num := none
  deriving DecidableEq

/-- A number that may be missing. -/
def optional : Option Num → Field
  | some n => .number n
  | none => .null

def ToolOutput.fields (t : ToolOutput) : List (String × Field) :=
  [("oom_pods", .pods t.oomPods), ("evicted_pods", .pods t.evictedPods), ("crashlooping_pods", .pods t.crashloopingPods),
    ("connect_failures", optional t.connectFailures), ("max_http_ms", optional t.maxHttpMs),
    ("p95_latency_ms", optional t.p95LatencyMs), ("combined_throughput_bps", optional t.combinedThroughputBps),
    ("payment_stuck_not_ready", .flag t.paymentStuckNotReady),
    ("session_db_replicas_hit_zero", .flag t.sessionDbReplicasHitZero), ("peak_memory_mib", optional t.peakMemoryMib),
    ("peak_threads_connected", optional t.peakThreadsConnected),
    ("cpu_throttle_periods_increase", optional t.cpuThrottlePeriodsIncrease),
    ("front_end_image_pull_failing", .flag t.frontEndImagePullFailing), ("current_replicas", optional t.currentReplicas),
    ("heap_rise_kb", optional t.heapRiseKb)]

/-- The thresholds that the environment sets. -/
structure Config where
  networkPartitionMaxThroughputBps : Int := 200
  underProvisionedProbeThresholdMs : Int := 130

def HIGH_LATENCY_THRESHOLD_MS : ℚ := 300
def MEMORY_LEAK_RISE_THRESHOLD_KB : ℚ := 20000
def CONNECTION_POOL_THRESHOLD : ℚ := 100
def NETWORK_PROBE_MIN_CONNECT_FAILURES : ℚ := 4
def NETWORK_PROBE_LATENCY_CEILING_MS : ℚ := 10000
def CPU_THROTTLE_INCREASE_THRESHOLD : ℚ := 100

/-- A rule of `stub_diagnose`, in the order they are tried. -/
inductive Signal where
  | oomPods
  | evictedPods
  | frontEndImagePullFailing
  | crashloopingPods
  | paymentStuckNotReady
  | sessionDbReplicasHitZero
  | connectFailures
  | maxHttpMs
  | p95LatencyMs
  | combinedThroughputBps
  | heapRiseKb
  | peakThreadsConnected
  | cpuThrottlePeriodsIncrease
  deriving DecidableEq

namespace Signal

def ORDER : List Signal :=
  [oomPods, evictedPods, frontEndImagePullFailing, crashloopingPods, paymentStuckNotReady, sessionDbReplicasHitZero,
    connectFailures, maxHttpMs, p95LatencyMs, combinedThroughputBps, heapRiseKb, peakThreadsConnected,
    cpuThrottlePeriodsIncrease]

def diagnosis : Signal → String
  | oomPods => "oom"
  | evictedPods => "disk-full"
  | frontEndImagePullFailing => "bad-rollout"
  | crashloopingPods => "crash-loop"
  | paymentStuckNotReady => "init-failure"
  | sessionDbReplicasHitZero => "session-cart-failure"
  | connectFailures => "network-partition"
  | maxHttpMs => "network-latency"
  | p95LatencyMs => "network-latency"
  | combinedThroughputBps => "network-partition"
  | heapRiseKb => "memory-leak"
  | peakThreadsConnected => "connection-pool-exhaustion"
  | cpuThrottlePeriodsIncrease => "cpu-throttling"

/-- The condition of the rule. -/
def holds (cfg : Config) (t : ToolOutput) : Signal → Bool
  | oomPods => !t.oomPods.isEmpty
  | evictedPods => !t.evictedPods.isEmpty
  | frontEndImagePullFailing => t.frontEndImagePullFailing
  | crashloopingPods => !t.crashloopingPods.isEmpty
  | paymentStuckNotReady => t.paymentStuckNotReady
  | sessionDbReplicasHitZero => t.sessionDbReplicasHitZero
  | connectFailures => t.connectFailures.any (·.ge NETWORK_PROBE_MIN_CONNECT_FAILURES)
  | maxHttpMs =>
    (t.maxHttpMs.any fun n => n.ge HIGH_LATENCY_THRESHOLD_MS && n.lt NETWORK_PROBE_LATENCY_CEILING_MS) &&
      t.connectFailures.all (·.le 1)
  | p95LatencyMs => t.p95LatencyMs.any (·.ge HIGH_LATENCY_THRESHOLD_MS)
  | combinedThroughputBps => t.combinedThroughputBps.any (·.lt cfg.networkPartitionMaxThroughputBps)
  | heapRiseKb => t.heapRiseKb.any (·.ge MEMORY_LEAK_RISE_THRESHOLD_KB)
  | peakThreadsConnected => t.peakThreadsConnected.any (·.ge CONNECTION_POOL_THRESHOLD)
  | cpuThrottlePeriodsIncrease => t.cpuThrottlePeriodsIncrease.any (·.ge CPU_THROTTLE_INCREASE_THRESHOLD)

end Signal

/-- The first rule that holds. -/
def firedBy (cfg : Config) (t : ToolOutput) : Option Signal := Signal.ORDER.find? (Signal.holds cfg t)

def NO_ANOMALY : String := "no anomaly detected"

/-- `stub_diagnose`, but for its confidence and its text. -/
def stubDiagnose (cfg : Config) (t : ToolOutput) : String := ((firedBy cfg t).map Signal.diagnosis).getD NO_ANOMALY

def DL_DETECTOR_SERVICES : List String := ["front-end", "orders", "user", "catalogue", "queue-master"]

/-- A report of the log detector, the details of its tracks apart. -/
structure DetectorResult where
  track : String
  isAnomalous : Bool
  eventsUsed : Nat

def DetectorResult.fields (r : DetectorResult) : List (String × Field) :=
  [("track", .text r.track), ("is_anomalous", .flag r.isAnomalous), ("events_used", .number (.num r.eventsUsed))]

/-- What the tools of an episode report: Prometheus, the capacity probe and the detector. -/
structure Evidence where
  target : String
  prometheus : ToolOutput
  probe : Option Num := none
  detector : Option DetectorResult := none

/-- `/diagnose`: the rules, then the probe, then the detector. -/
def ruleDiagnose (cfg : Config) (e : Evidence) : String :=
  let stub := stubDiagnose cfg e.prometheus
  let probed := if stub = NO_ANOMALY ∧ e.target = "catalogue" ∧ e.probe.any (·.ge cfg.underProvisionedProbeThresholdMs) then
    "under-provisioned-replicas" else stub
  if probed = NO_ANOMALY ∧ e.target ∈ DL_DETECTOR_SERVICES ∧ e.detector.any (·.isAnomalous) then "log-anomaly detected (unclassified)" else probed

/-! ## The tests of the loop -/

def STRONG_SIGNAL_FIELDS : List String :=
  ["oom_pods", "evicted_pods", "crashlooping_pods", "payment_stuck_not_ready", "session_db_replicas_hit_zero",
    "front_end_image_pull_failing"]

/-- Field, threshold and diagnosis. -/
def NUMERIC_THRESHOLD_FIELDS : List (String × ℚ × String) :=
  [("cpu_throttle_periods_increase", 100, "cpu-throttling"), ("catalogue_probe_p95_ms", 130, "under-provisioned-replicas"),
    ("heap_rise_kb", 20000, "memory-leak"), ("peak_threads_connected", 100, "connection-pool-exhaustion"),
    ("connect_failures", 4, "network-partition")]

def hasStrongSignal (toolName : String) : Observation → Bool
  | .dict fields => toolName = "query_prometheus" && STRONG_SIGNAL_FIELDS.any fun field => (get fields field).truthy
  | .value _ => false

structure NumericHit where
  field : String
  value : Num
  threshold : ℚ
  diagnosis : String
  deriving DecidableEq

def numericThresholdHit (_toolName : String) : Observation → Option NumericHit
  | .dict fields => NUMERIC_THRESHOLD_FIELDS.findSome? fun (field, threshold, diagnosis) =>
    match (get fields field).number? with
    | some n => if n.ge threshold then some ⟨field, n, threshold, diagnosis⟩ else none
    | none => none
  | .value _ => none

/-- One of the two tests tells the model to diagnose now. -/
def fires (toolName : String) (o : Observation) : Bool := hasStrongSignal toolName o || (numericThresholdHit toolName o).isSome

/-- What the model can observe through the tools it has for the target. -/
def Evidence.observations (e : Evidence) : List (String × Observation) :=
  ("query_prometheus", .dict e.prometheus.fields) ::
    (if e.target ∈ DL_DETECTOR_SERVICES then
      [("call_dl_detector", (e.detector.map fun r => .dict r.fields).getD (.value .null))] else []) ++
    (if e.target = "catalogue" then [("probe_catalogue_capacity", .value (optional e.probe))] else [])

/-! ## The tests against the rules -/

/-- The rules that neither test knows. -/
def LEFT_TO_MODEL : List Signal := [.maxHttpMs, .p95LatencyMs, .combinedThroughputBps]

@[simp] theorem optional_number? (n : Option Num) : (optional n).number? = n := by
  cases n <;> rfl

theorem mem_order (s : Signal) : s ∈ Signal.ORDER := by
  cases s <;> decide

/-- Nothing is diagnosed just where no rule holds. -/
theorem stubDiagnose_eq_iff (cfg : Config) (t : ToolOutput) : stubDiagnose cfg t = NO_ANOMALY ↔ ∀ s : Signal, s.holds cfg t = false := by
  have hnone : stubDiagnose cfg t = NO_ANOMALY ↔ firedBy cfg t = none := by
    unfold stubDiagnose
    cases firedBy cfg t with
    | none => simp
    | some s => cases s <;> decide
  rw [hnone, firedBy, List.find?_eq_none]
  exact ⟨fun h s => by simpa using h s (mem_order s), fun h s _ => by simp [h s]⟩

theorem firedBy_holds {cfg : Config} {t : ToolOutput} {s : Signal} (h : firedBy cfg t = some s) : s.holds cfg t = true :=
  List.find?_some h

/-- The rules of `STRONG_SIGNAL_FIELDS`. -/
def STRONG_SIGNALS : List Signal :=
  [.oomPods, .evictedPods, .crashloopingPods, .paymentStuckNotReady, .sessionDbReplicasHitZero, .frontEndImagePullFailing]

theorem hasStrongSignal_iff (cfg : Config) (t : ToolOutput) : hasStrongSignal "query_prometheus" (.dict t.fields) = true ↔
    ∃ s ∈ STRONG_SIGNALS, s.holds cfg t = true := by
  simp [STRONG_SIGNALS, hasStrongSignal, STRONG_SIGNAL_FIELDS, get, ToolOutput.fields, List.lookup_cons, Field.truthy, Signal.holds]

/-- The hit of one entry. -/
def hitOf (fields : List (String × Field)) (entry : String × ℚ × String) : Option NumericHit :=
  match (get fields entry.1).number? with
  | some n => if n.ge entry.2.1 then some ⟨entry.1, n, entry.2.1, entry.2.2⟩ else none
  | none => none

theorem numericThresholdHit_eq (toolName : String) (fields : List (String × Field)) :
    numericThresholdHit toolName (.dict fields) = NUMERIC_THRESHOLD_FIELDS.findSome? (hitOf fields) := rfl

theorem hitOf_eq_some {fields : List (String × Field)} {field diagnosis : String} {threshold : ℚ} {n : Option Num}
    (h : get fields field = optional n) {hit : NumericHit} :
    hitOf fields (field, threshold, diagnosis) = some hit ↔
      ∃ v, n = some v ∧ v.ge threshold = true ∧ hit = ⟨field, v, threshold, diagnosis⟩ := by
  simp only [hitOf, h, optional_number?]
  cases n with
  | none => simp
  | some v =>
    simp only [Option.some.injEq, exists_eq_left']
    split
    next hv => exact ⟨fun he => ⟨hv, (Option.some.inj he).symm⟩, fun he => congrArg some he.2.symm⟩
    next hv => exact ⟨fun he => (by cases he), fun he => absurd he.1 hv⟩

/-- The numbers that are compared, of what `query_prometheus` reports. -/
def NUMERIC_SIGNALS : List Signal := [.cpuThrottlePeriodsIncrease, .heapRiseKb, .peakThreadsConnected, .connectFailures]

/-- A hit names a rule that holds, with the diagnosis of the rule. -/
theorem hit_holds (cfg : Config) {t : ToolOutput} {toolName : String} {hit : NumericHit}
    (h : numericThresholdHit toolName (.dict t.fields) = some hit) :
    ∃ s ∈ NUMERIC_SIGNALS, s.holds cfg t = true ∧ s.diagnosis = hit.diagnosis := by
  rw [numericThresholdHit_eq] at h
  obtain ⟨entry, hmem, hf⟩ := List.exists_of_findSome?_eq_some h
  simp only [NUMERIC_THRESHOLD_FIELDS, List.mem_cons, List.not_mem_nil, or_false] at hmem
  rcases hmem with rfl | rfl | rfl | rfl | rfl
  · obtain ⟨v, hn, hv, rfl⟩ := (hitOf_eq_some (n := t.cpuThrottlePeriodsIncrease) rfl).1 hf
    exact ⟨.cpuThrottlePeriodsIncrease, by decide, by rw [Signal.holds, hn]; exact hv, rfl⟩
  · obtain ⟨v, hn, -⟩ := (hitOf_eq_some (n := none) rfl).1 hf
    cases hn
  · obtain ⟨v, hn, hv, rfl⟩ := (hitOf_eq_some (n := t.heapRiseKb) rfl).1 hf
    exact ⟨.heapRiseKb, by decide, by rw [Signal.holds, hn]; exact hv, rfl⟩
  · obtain ⟨v, hn, hv, rfl⟩ := (hitOf_eq_some (n := t.peakThreadsConnected) rfl).1 hf
    exact ⟨.peakThreadsConnected, by decide, by rw [Signal.holds, hn]; exact hv, rfl⟩
  · obtain ⟨v, hn, hv, rfl⟩ := (hitOf_eq_some (n := t.connectFailures) rfl).1 hf
    exact ⟨.connectFailures, by decide, by rw [Signal.holds, hn]; exact hv, rfl⟩

theorem any_ge {n : Option Num} {c : ℚ} (h : n.any (·.ge c) = true) : ∃ v, n = some v ∧ v.ge c = true := by
  cases n with
  | none => cases h
  | some v => exact ⟨v, rfl, h⟩

/-- Where one of the numbers is past its threshold, there is a hit. -/
theorem hit_of_holds {cfg : Config} {t : ToolOutput} {s : Signal} (hs : s ∈ NUMERIC_SIGNALS) (h : s.holds cfg t = true)
    (toolName : String) : (numericThresholdHit toolName (.dict t.fields)).isSome = true := by
  have hfound : ∀ {field diagnosis : String} {threshold : ℚ} {n : Option Num}, (field, threshold, diagnosis) ∈ NUMERIC_THRESHOLD_FIELDS →
      get t.fields field = optional n → n.any (·.ge threshold) = true →
      (numericThresholdHit toolName (.dict t.fields)).isSome = true := by
    intro field diagnosis threshold n hmem hget hany
    obtain ⟨v, hn, hv⟩ := any_ge hany
    rw [numericThresholdHit_eq, List.findSome?_isSome_iff]
    exact ⟨_, hmem, by rw [(hitOf_eq_some hget).2 ⟨v, hn, hv, rfl⟩]; rfl⟩
  simp only [NUMERIC_SIGNALS, List.mem_cons, List.not_mem_nil, or_false] at hs
  rcases hs with rfl | rfl | rfl | rfl
  · exact hfound (n := t.cpuThrottlePeriodsIncrease) (.head _) rfl h
  · exact hfound (n := t.heapRiseKb) (.tail _ (.tail _ (.head _))) rfl h
  · exact hfound (n := t.peakThreadsConnected) (.tail _ (.tail _ (.tail _ (.head _)))) rfl h
  · exact hfound (n := t.connectFailures) (.tail _ (.tail _ (.tail _ (.tail _ (.head _))))) rfl h

/-- The tests fire just where a rule holds that is not left to the model. -/
theorem fires_iff (cfg : Config) (t : ToolOutput) :
    fires "query_prometheus" (.dict t.fields) = true ↔ ∃ s ∉ LEFT_TO_MODEL, s.holds cfg t = true := by
  have hstrong : ∀ s ∈ STRONG_SIGNALS, s ∉ LEFT_TO_MODEL := by decide
  have hnumeric : ∀ s ∈ NUMERIC_SIGNALS, s ∉ LEFT_TO_MODEL := by decide
  rw [fires, Bool.or_eq_true, hasStrongSignal_iff cfg]
  constructor
  · rintro (⟨s, hs, hh⟩ | h)
    · exact ⟨s, hstrong s hs, hh⟩
    · obtain ⟨hit, h⟩ := Option.isSome_iff_exists.1 h
      obtain ⟨s, hs, hh, -⟩ := hit_holds cfg h
      exact ⟨s, hnumeric s hs, hh⟩
  · rintro ⟨s, hs, hh⟩
    by_cases hn : s ∈ NUMERIC_SIGNALS
    · exact .inr (hit_of_holds hn hh _)
    · exact .inl ⟨s, by cases s <;> first | decide | exact absurd (by decide) hs | exact absurd (by decide) hn, hh⟩

/-- The capacity probe returns a bare number, which neither test reads. -/
theorem value_silent (toolName : String) (f : Field) : fires toolName (.value f) = false := rfl

/-- The tests and the rules, on one report of Prometheus. -/
structure Agree (cfg : Config) (t : ToolOutput) : Prop where
  /-- A test fires just where a rule of its fields holds. -/
  fires_iff : fires "query_prometheus" (.dict t.fields) = true ↔ ∃ s ∉ LEFT_TO_MODEL, s.holds cfg t = true
  /-- What it fires on is diagnosed. -/
  diagnosed : fires "query_prometheus" (.dict t.fields) = true → stubDiagnose cfg t ≠ NO_ANOMALY
  /-- It is silent on a diagnosis only if that is by a rule left to the model. -/
  silent : fires "query_prometheus" (.dict t.fields) = false → ∀ s, firedBy cfg t = some s → s ∈ LEFT_TO_MODEL
  /-- The diagnosis that a number is said to mean is that of a rule that holds. -/
  named : ∀ hit, numericThresholdHit "query_prometheus" (.dict t.fields) = some hit →
    ∃ s : Signal, s.holds cfg t = true ∧ s.diagnosis = hit.diagnosis

theorem nudges_agree (cfg : Config) (t : ToolOutput) : Agree cfg t where
  fires_iff := fires_iff cfg t
  diagnosed h hd := by
    obtain ⟨s, -, hs⟩ := (fires_iff cfg t).1 h
    rw [(stubDiagnose_eq_iff cfg t).1 hd s] at hs
    cases hs
  silent h s hs := by
    by_contra hn
    rw [(fires_iff cfg t).2 ⟨s, hn, firedBy_holds hs⟩] at h
    cases h
  named hit h := by
    obtain ⟨s, -, hs⟩ := hit_holds cfg h
    exact ⟨s, hs⟩

/-- A high passive latency is left to the model. -/
theorem latency_not_nudged : ¬ ∀ (cfg : Config) (e : Evidence),
    (∃ o ∈ e.observations, fires o.1 o.2 = true) ↔ ruleDiagnose cfg e ≠ NO_ANOMALY := by
  intro h
  have h' := h {} { target := "orders", prometheus := { p95LatencyMs := some (.num 500) } }
  exact absurd h' (by decide +kernel)

end Wardence.React
