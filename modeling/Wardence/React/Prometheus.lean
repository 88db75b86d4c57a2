import Wardence.Constraints
import Wardence.Lib.Reach
import Wardence.React.OomEvidence
/-!
# The evidence of the rule agent

`query_prometheus` and `/diagnose` of `agent.py`: every query, the fields that are made of the answers,
and what the endpoint says. The instant of all queries is the snapshot of the request, if it has one.
-/
namespace Wardence.React

open Promql

/-! ## The queries -/

def evictedQuery (target ns : String) : Query :=
  .instant (.eqTo (.select (podsOf "kube_pod_status_reason" target ns [.equal "reason" "Evicted"])) 1)

def recentRunningPodQuery (target ns : String) : Query :=
  .andOn ["namespace", "pod"] (.instant (.eqTo (.select (podsOf "kube_pod_status_phase" target ns [.equal "phase" "Running"])) 1))
    (.less (.instant (.age (.select (podsOf "kube_pod_created" target ns [])))) 180)

def WAITING_REASON : String := "kube_pod_container_status_waiting_reason"

def crashQuery (target ns : String) : Query :=
  .or (.instant (.eqTo (.select (podsOf WAITING_REASON target ns [.equal "reason" "CrashLoopBackOff"])) 1))
    (.greater (.increase ⟨podsOf RESTARTS_TOTAL target ns [], []⟩ 180) 0)

/-- `url=~".*target.*"` -/
def latencyQuery (target : String) : Query :=
  .maxOver ⟨⟨"k6_http_req_duration_p95", []⟩, [("url", fun url => target.toList <:+: url.toList)]⟩ 120

def lowestRate (name target ns : String) : Query := .minSteps (.sum (.rate ⟨podsOf name target ns [], []⟩ 30)) 120 30

def throughputQuery (target ns : String) : Query :=
  .add (lowestRate "container_network_transmit_bytes_total" target ns) (lowestRate "container_network_receive_bytes_total" target ns)

def readyFalseQuery (target ns : String) : Query :=
  .eqTo (.maxOver ⟨podsOf "kube_pod_status_ready" target ns [.equal "condition" "false"], []⟩ 120) 1

def imagePullFailingQuery (target ns : String) : Query :=
  .eqTo (.maxOver ⟨podsOf WAITING_REASON target ns [],
    [("reason", fun reason => reason = "ImagePullBackOff" || reason = "ErrImagePull")]⟩ 120) 1

def ofDeployment (name target ns : String) : Selector := ⟨name, [.equal "namespace" ns, .equal "deployment" target]⟩

def minReplicasQuery (target ns : String) : Query :=
  .minOver ⟨ofDeployment "kube_deployment_status_replicas_available" target ns, []⟩ 120

def memoryQuery (target ns : String) : Query :=
  .maxOver ⟨podsOf "container_memory_working_set_bytes" target ns [.equal "container" target], []⟩ 360

def heapQuery (target ns : String) : Query := .maxOver ⟨podsOf "heap_used" target ns [], []⟩ 300

def threadsQuery (target ns : String) : Query := .maxOver ⟨podsOf "mysql_global_status_threads_connected" target ns [], []⟩ 180

def throttleQuery (target ns : String) : Query :=
  .increase ⟨podsOf "container_cpu_cfs_throttled_periods_total" target ns [.equal "container" target], []⟩ 360

def replicasQuery (target ns : String) : Query := .instant (.select (ofDeployment "kube_deployment_spec_replicas" target ns))

/-- All that `query_prometheus` may ask. -/
def queries (target ns : String) : List Query :=
  [.instant (oomQuery target ns), .instant (oomStickyQuery target ns), evictedQuery target ns, recentRunningPodQuery target ns,
    crashQuery target ns, latencyQuery target, throughputQuery target ns, readyFalseQuery target ns, imagePullFailingQuery target ns,
    minReplicasQuery target ns, memoryQuery target ns, heapQuery target ns, threadsQuery target ns, throttleQuery target ns,
    replicasQuery target ns]

/-! ## The fields -/

/-- `entry["metric"].get("pod")` -/
def podsIn (result : List Element) : List (Option String) := result.map fun e => e.labels.lookup "pod"

/-- `max(f(value) for e in result, default=None)` -/
def peak (f : ℚ → ℚ) (result : List Element) : Option Num := (result.map fun e => f e.value).max?.map .num

/-- The probe that the injector froze, as the episode has it. -/
structure NetworkProbe where
  connectFailures : Option Num
  maxHttpMs : Option Num
  deriving DecidableEq

structure DiagnoseRequest where
  target : String
  ns : String
  snapshotAt : Option ℚ := none
  baselineHeapKb : Option ℚ := none
  networkProbe : Option NetworkProbe := none
  deriving DecidableEq

/-- `int(float(..))` -/
def truncated (q : ℚ) : ℚ := (q.num.tdiv q.den : ℤ)

/-- `query_prometheus`; `prom` answers an instant query. -/
def queryPrometheus (prom : Query → List Element) (r : DiagnoseRequest) : ToolOutput :=
  let oomPods := podsIn (prom (.instant (oomQuery r.target r.ns)))
  let evictedPods := podsIn (prom (evictedQuery r.target r.ns))
  let hasRecentReplacementPod := !(prom (recentRunningPodQuery r.target r.ns)).isEmpty
  { oomPods := if oomPods.isEmpty then podsIn (prom (.instant (oomStickyQuery r.target r.ns))) else oomPods
    evictedPods := if hasRecentReplacementPod then evictedPods else []
    crashloopingPods := podsIn (prom (crashQuery r.target r.ns))
    connectFailures := r.networkProbe.bind (·.connectFailures)
    maxHttpMs := r.networkProbe.bind (·.maxHttpMs)
    p95LatencyMs :=
      if r.target = "orders" then
        peak (· * 1000) ((prom (latencyQuery r.target)).filter fun e => e.labels.lookup "status" ≠ some "0")
      else none
    combinedThroughputBps := if r.target = "orders" then (prom (throughputQuery r.target r.ns)).head?.map fun e => .num e.value else none
    paymentStuckNotReady := r.target = "payment" && !(prom (readyFalseQuery r.target r.ns)).isEmpty
    sessionDbReplicasHitZero := r.target = "session-db" && (prom (minReplicasQuery r.target r.ns)).head?.any (·.value = 0)
    peakMemoryMib := if r.target = "catalogue" then peak (· / (1024 * 1024)) (prom (memoryQuery r.target r.ns)) else none
    peakThreadsConnected := if r.target = "catalogue-db" then peak id (prom (threadsQuery r.target r.ns)) else none
    cpuThrottlePeriodsIncrease := if r.target = "user" then peak id (prom (throttleQuery r.target r.ns)) else none
    frontEndImagePullFailing := r.target = "front-end" && !(prom (imagePullFailingQuery r.target r.ns)).isEmpty
    currentReplicas := (prom (replicasQuery r.target r.ns)).head?.map fun e => .num (truncated e.value)
    heapRiseKb :=
      if r.target = "shipping" then
        r.baselineHeapKb.bind fun baseline => peak (· - baseline) (prom (heapQuery r.target r.ns))
      else none }

/-- What Prometheus has recorded when it answers a query, and its clock then. -/
structure Occasion where
  recorded : Query → List Series
  clock : Query → ℚ

/-- `_prom_instant_query` -/
def promInstantQuery (o : Occasion) (snapshotAt : Option ℚ) (q : Query) : List Element :=
  q.eval (o.recorded q) (snapshotAt.getD (o.clock q))

/-- `/diagnose`: the tool's output and the diagnosis; `probe` and `detector` are asked where nothing cheaper explains the target. -/
def diagnose (cfg : Config) (o : Occasion) (r : DiagnoseRequest) (probe : Option Num) (detector : Option DetectorResult) :
    ToolOutput × String :=
  let toolOutput := queryPrometheus (promInstantQuery o r.snapshotAt) r
  (toolOutput, ruleDiagnose cfg ⟨r.target, toolOutput, probe, detector⟩)

/-! ## What the evidence rests on -/

theorem queryPrometheus_congr {prom prom' : Query → List Element} {r : DiagnoseRequest}
    (h : ∀ q ∈ queries r.target r.ns, prom q = prom' q) : queryPrometheus prom r = queryPrometheus prom' r := by
  rw [queries] at h
  simp only [List.forall_mem_cons] at h
  obtain ⟨h1, h2, h3, h4, h5, h6, h7, h8, h9, h10, h11, h12, h13, h14, h15, -⟩ := h
  rw [queryPrometheus, queryPrometheus, h1, h2, h3, h4, h5, h6, h7, h8, h9, h10, h11, h12, h13, h14, h15]

/-- A query of pods at the instant looks back as far as any series counts as present. -/
theorem lookback_le : LOOKBACK ≤ 360 := by norm_num [LOOKBACK]

/-- No query looks back further than six minutes. -/
theorem queries_reach (target ns : String) : ∀ q ∈ queries target ns, q.Steps ∧ q.reach ≤ 360 := by
  have hrange : ∀ x : ℚ, x = 120 ∨ x = 180 ∨ x = 300 ∨ x = 360 → x ≤ 360 := by
    rintro x (rfl | rfl | rfl | rfl) <;> norm_num
  have hsteps : (0 : ℚ) < 30 := by norm_num
  have hrate : (120 + 30 : ℚ) ≤ 360 := by norm_num
  intro q hq
  simp only [queries, List.mem_cons, List.not_mem_nil, or_false] at hq
  rcases hq with rfl | rfl | rfl | rfl | rfl | rfl | rfl | rfl | rfl | rfl | rfl | rfl | rfl | rfl | rfl
  · exact ⟨trivial, max_le lookback_le (hrange 360 (by simp))⟩
  · exact ⟨trivial, max_le lookback_le (max_le lookback_le lookback_le)⟩
  · exact ⟨trivial, lookback_le⟩
  · exact ⟨⟨trivial, trivial⟩, max_le lookback_le lookback_le⟩
  · exact ⟨⟨trivial, trivial⟩, max_le lookback_le (hrange 180 (by simp))⟩
  · exact ⟨trivial, hrange 120 (by simp)⟩
  · exact ⟨⟨⟨hsteps, trivial⟩, hsteps, trivial⟩, max_le hrate hrate⟩
  · exact ⟨trivial, hrange 120 (by simp)⟩
  · exact ⟨trivial, hrange 120 (by simp)⟩
  · exact ⟨trivial, hrange 120 (by simp)⟩
  · exact ⟨trivial, hrange 360 (by simp)⟩
  · exact ⟨trivial, hrange 300 (by simp)⟩
  · exact ⟨trivial, hrange 180 (by simp)⟩
  · exact ⟨trivial, hrange 360 (by simp)⟩
  · exact ⟨trivial, lookback_le⟩

/-- Past the rules a probe or the detector is heard only where no rule holds. -/
theorem ruleDiagnose_of_rule {cfg : Config} {e : Evidence} (h : stubDiagnose cfg e.prometheus ≠ NO_ANOMALY) :
    ruleDiagnose cfg e = stubDiagnose cfg e.prometheus := by
  simp [ruleDiagnose, h]

/-- The same evidence, where a rule holds on it. -/
theorem diagnose_of_rule {cfg : Config} {o o' : Occasion} {r : DiagnoseRequest} {t : ToolOutput}
    (h : queryPrometheus (promInstantQuery o r.snapshotAt) r = t) (h' : queryPrometheus (promInstantQuery o' r.snapshotAt) r = t)
    (ht : stubDiagnose cfg t ≠ NO_ANOMALY) (probe probe' : Option Num) (detector detector' : Option DetectorResult) :
    diagnose cfg o r probe detector = diagnose cfg o' r probe' detector' := by
  rw [diagnose, diagnose, h, h']
  have hrule : ∀ p d, ruleDiagnose cfg ⟨r.target, t, p, d⟩ = stubDiagnose cfg t := fun p d => ruleDiagnose_of_rule ht
  rw [hrule, hrule]

/-- The evidence of a request with a snapshot is what was recorded in the six minutes up to it. When it is asked for, what was
recorded before, and what has been since, make no difference; nor, if a rule holds on it, do the live probe and the detector. -/
theorem diagnose_frozen (cfg : Config) {r : DiagnoseRequest} {t : ℚ} (hr : r.snapshotAt = some t) {o o' : Occasion}
    (h : ∀ q, seen (t - 360) t (o.recorded q) = seen (t - 360) t (o'.recorded q)) (probe probe' : Option Num)
    (detector detector' : Option DetectorResult) :
    (diagnose cfg o r probe detector).1 = (diagnose cfg o' r probe' detector').1 ∧
      (stubDiagnose cfg (diagnose cfg o r probe detector).1 ≠ NO_ANOMALY →
        diagnose cfg o r probe detector = diagnose cfg o' r probe' detector') := by
  have hq : queryPrometheus (promInstantQuery o r.snapshotAt) r = queryPrometheus (promInstantQuery o' r.snapshotAt) r := by
    refine queryPrometheus_congr fun q hq => ?_
    obtain ⟨hsteps, hreach⟩ := queries_reach r.target r.ns q hq
    rw [promInstantQuery, promInstantQuery, hr]
    exact Query.eval_congr (h q) hsteps le_rfl (sub_le_sub_left hreach t)
  exact ⟨hq, fun hrule => diagnose_of_rule rfl hq.symm hrule _ _ _ _⟩

/-- A pod of `carts` that is crash-looping at 990, and is not any more at 1100. -/
def crashLooping (samples : List Sample) (h : samples.Pairwise fun a b => a.time < b.time) : List Series :=
  [⟨WAITING_REASON, [("namespace", "sock-shop"), ("pod", "carts-7d9f-x2b4"), ("reason", "CrashLoopBackOff")], samples, h⟩]

def once : List Series := crashLooping [⟨990, some 1⟩] (by simp)

def since : List Series := crashLooping [⟨990, some 1⟩, ⟨1100, some 0⟩] (by norm_num)

theorem seen_since : seen (1000 - 360) 1000 once = seen (1000 - 360) 1000 since := by decide +kernel

theorem diagnose_frozen_later : diagnose {} ⟨fun _ => once, fun _ => 1000⟩ ⟨"carts", "sock-shop", some 1000, none, none⟩ none none =
    diagnose {} ⟨fun _ => since, fun _ => 1500⟩ ⟨"carts", "sock-shop", some 1000, none, none⟩ (some (.num 500)) none :=
  (diagnose_frozen {} rfl (fun _ => seen_since) none (some (.num 500)) none none).2 (by decide +kernel)

/-! ## Which target a class is named for -/

/-- The classes that may happen to any target. -/
def GENERIC : List String := ["oom", "disk-full", "crash-loop"]

def NETWORK : List String := ["network-latency", "network-partition"]

/-- A class named for a target is one that may happen to any, is that target's own, or rests on a probe that came with the request. -/
def MayName (r : DiagnoseRequest) (d : String) : Prop :=
  d ∈ GENERIC ∨ (d ∈ NETWORK ∧ r.networkProbe.isSome) ∨ (FAULT_CONFIG.lookup d).map (·.1) = some r.target

theorem mayName_of_holds {cfg : Config} {prom : Query → List Element} {r : DiagnoseRequest} {s : Signal}
    (h : s.holds cfg (queryPrometheus prom r) = true) : MayName r s.diagnosis := by
  have hprobe : ∀ {f : NetworkProbe → Option Num} {p : Num → Bool}, (r.networkProbe.bind f).any p = true →
      r.networkProbe.isSome := by
    intro f p hp
    cases hn : r.networkProbe with
    | none => simp [hn] at hp
    | some _ => rfl
  have hown : ∀ {target : String} {x : Option Num} {p : Num → Bool}, (if r.target = target then x else none).any p = true →
      r.target = target := by
    intro target x p hp
    by_contra hne
    simp [hne] at hp
  cases s with
  | oomPods => exact .inl (by decide)
  | evictedPods => exact .inl (by decide)
  | crashloopingPods => exact .inl (by decide)
  | connectFailures => exact .inr (.inl ⟨by decide, hprobe h⟩)
  | maxHttpMs => exact .inr (.inl ⟨by decide, hprobe ((Bool.and_eq_true _ _).mp h).1⟩)
  | p95LatencyMs => exact .inr (.inr (hown h ▸ rfl))
  | combinedThroughputBps => exact .inr (.inr (hown h ▸ rfl))
  | heapRiseKb => exact .inr (.inr (hown h ▸ rfl))
  | peakThreadsConnected => exact .inr (.inr (hown h ▸ rfl))
  | cpuThrottlePeriodsIncrease => exact .inr (.inr (hown h ▸ rfl))
  | frontEndImagePullFailing =>
    have htarget : r.target = "front-end" := of_decide_eq_true ((Bool.and_eq_true _ _).mp h).1
    exact .inr (.inr (htarget ▸ rfl))
  | paymentStuckNotReady =>
    have htarget : r.target = "payment" := of_decide_eq_true ((Bool.and_eq_true _ _).mp h).1
    exact .inr (.inr (htarget ▸ rfl))
  | sessionDbReplicasHitZero =>
    have htarget : r.target = "session-db" := of_decide_eq_true ((Bool.and_eq_true _ _).mp h).1
    exact .inr (.inr (htarget ▸ rfl))

/-- Whatever Prometheus, the probe and the detector say, the endpoint names no class for a target whose numbers its threshold was not
made for. -/
theorem diagnose_mayName (cfg : Config) (o : Occasion) (r : DiagnoseRequest) (probe : Option Num) (detector : Option DetectorResult) :
    (diagnose cfg o r probe detector).2 = NO_ANOMALY ∨
      ((diagnose cfg o r probe detector).2 = "log-anomaly detected (unclassified)" ∧ r.target ∈ DL_DETECTOR_SERVICES) ∨
      MayName r (diagnose cfg o r probe detector).2 := by
  rw [diagnose]
  generalize ht : queryPrometheus (promInstantQuery o r.snapshotAt) r = t
  by_cases hstub : stubDiagnose cfg t = NO_ANOMALY
  · by_cases hprobe : r.target = "catalogue" ∧ probe.any (·.ge cfg.underProvisionedProbeThresholdMs)
    · have hprobed : ruleDiagnose cfg ⟨r.target, t, probe, detector⟩ = "under-provisioned-replicas" := by
        simp [ruleDiagnose, hstub, hprobe, NO_ANOMALY]
      refine .inr (.inr (.inr (.inr ?_)))
      rw [hprobed, hprobe.1]
      rfl
    · by_cases hdet : r.target ∈ DL_DETECTOR_SERVICES ∧ detector.any (·.isAnomalous)
      · refine .inr (.inl ⟨?_, hdet.1⟩)
        simp [ruleDiagnose, hstub, hprobe, hdet]
      · refine .inl ?_
        simp [ruleDiagnose, hstub, hprobe, hdet]
  · refine .inr (.inr ?_)
    have hrule := ruleDiagnose_of_rule (e := ⟨r.target, t, probe, detector⟩) hstub
    simp only [hrule]
    rw [stubDiagnose] at hstub ⊢
    cases hf : firedBy cfg t with
    | none => exact absurd (by rw [hf]; rfl) hstub
    | some s =>
      have := firedBy_holds hf
      rw [← ht] at this
      exact mayName_of_holds this

end Wardence.React
