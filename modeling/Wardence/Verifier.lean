import Mathlib.Tactic.NormNum
import Wardence.Schema
/-!
# The durability window

`verifier.py`: a fix is confirmed when its fault class's checks stay clean for the whole
window. What the cluster answers is given poll by poll. `Reading` is what a poll's answers
show; a check has no word for answers without data.
-/
namespace Wardence.Verifier

/-! ## The cluster -/

/-- A pod, as far as the checks read it. -/
structure Pod where
  name : String
  /-- `deletionTimestamp` is set. -/
  terminating : Bool
  creationTimestamp : String
  /-- Each container's reason to wait. -/
  waiting : List (Option String)
  deriving DecidableEq, Repr

/-- The items of `kubectl get pods`; `none`: its output is no such JSON. -/
abbrev Listing := Option (List Pod)

/-- The values of a Prometheus query, counters or `none` where one is no number; `none`: the request fails. -/
abbrev Query := Option (List (Option ℕ))

inductive TimeUnit where
  | us
  | ms
  | s
  deriving DecidableEq, Repr

/-- A run of k6, and the p95 of its summary. -/
inductive Probe where
  | timedOut
  | exited (returncode : Int) (p95 : Option (ℚ × TimeUnit))
  deriving DecidableEq, Repr

/-- What the cluster answers at one time. -/
structure Cluster where
  runningPods : String → String → Listing
  frontEndPods : String → Listing
  restarts : String → String → Query
  crashLoopBackoff : String → String → Query
  throttledPeriods : String → String → String → Query
  /-- `availableReplicas`, `none` where it is no number; `none`: there is no output. -/
  availableReplicas : String → Option (Option Int)
  probe : String → Probe

inductive Exc where
  | valueError (msg : String)
  | runtimeError (msg : String)
  | requestException
  deriving DecidableEq, Repr

inductive FaultClass where
  | crashLoop
  | oom
  | diskFull
  | cpuThrottling
  | underProvisioned
  | badRollout
  deriving DecidableEq, Repr

def faultClasses : List (String × FaultClass) :=
  [("crash-loop", .crashLoop), ("oom", .oom), ("disk-full", .diskFull), ("cpu-throttling", .cpuThrottling),
    ("under-provisioned-replicas", .underProvisioned), ("bad-rollout", .badRollout)]

/-- The settings, and what the cluster answers: to each try for the pod's name, to the query of the baseline,
while the replicas are waited for (`waitedS` seconds), and at each poll. -/
structure Env where
  durabilityWindows : FaultClass → Int
  probeThresholdMs : Int
  tries : ℕ → Cluster
  baseline : Cluster
  waits : ℕ → Cluster
  waitedS : Int
  polls : ℕ → Cluster

def CPU_THROTTLE_DURABILITY_MIN_INCREASE : Int := 50
def UNDER_PROVISIONED_PROBE_DURATION_S : Int := 20
def UNDER_PROVISIONED_PROBE_COUNT : ℕ := 3
def UNDER_PROVISIONED_INTER_PROBE_SLEEP_S : Int := 15
def UNDER_PROVISIONED_TARGET_REPLICAS : Int := 3
def UNDER_PROVISIONED_REPLICA_WAIT_TIMEOUT_S : ℕ := 220
def POLL_INTERVAL_S : Int := 15
def BASELINE_CAPTURE_RETRY_S : ℕ := 30
def BASELINE_CAPTURE_POLL_S : ℕ := 5

/-! ## The probes -/

/-- The newest of the pods that are not being deleted. -/
def currentPodNameLive (c : Cluster) (target ns : String) : Option String :=
  match (c.runningPods target ns).map (·.filter (!·.terminating)) with
  | some (p :: ps) => some (ps.foldl (fun m q => if m.creationTimestamp < q.creationTimestamp then q else m) p).name
  | _ => none

/-- The retries that are left, and the number of this try. -/
def podNameRetry (env : Env) (target ns : String) : ℕ → ℕ → Except Exc String
  | left, i =>
    match currentPodNameLive (env.tries i) target ns, left with
    | some name, _ => .ok name
    | none, 0 => .error (.runtimeError s!"no Running pod found matching '{target}' in {ns}")
    | none, left + 1 => podNameRetry env target ns left (i + 1)

def currentPodNameLiveWithRetry (env : Env) (target ns : String) : Except Exc String :=
  podNameRetry env target ns (BASELINE_CAPTURE_RETRY_S / BASELINE_CAPTURE_POLL_S) 0

/-- `int(float(v))`. -/
def intOf {α : Type} : Option α → Except Exc α
  | some n => .ok n
  | none => .error (.valueError "could not convert string to float")

/-- `sum` of a query's values. -/
def total : Query → Except Exc ℕ
  | none => .error .requestException
  | some vs => do pure (← vs.mapM intOf).sum

def restartCount (c : Cluster) (pod ns : String) : Except Exc ℕ := total (c.restarts pod ns)

def crashLoopBackoffNow (c : Cluster) (pod ns : String) : Except Exc Bool :=
  match c.crashLoopBackoff pod ns with
  | none => .error .requestException
  | some vs => .ok (0 < vs.length)

def cfsThrottledPeriodsExact (c : Cluster) (pod ns container : String) : Except Exc ℕ := total (c.throttledPeriods pod ns container)

def Pod.imagePullFails (p : Pod) : Bool := p.waiting.any fun r => r = some "ImagePullBackOff" ∨ r = some "ErrImagePull"

def frontEndImagePullFailingLive (c : Cluster) (ns : String) : Bool := ((c.frontEndPods ns).getD []).any Pod.imagePullFails

def parseK6P95Ms : Option (ℚ × TimeUnit) → Option ℚ
  | none => none
  | some (x, .s) => some (x * 1000)
  | some (x, .us) => some (x / 1000)
  | some (x, .ms) => some x

def catalogueProbeP95Ms (c : Cluster) (ns : String) : Option ℚ :=
  match c.probe ns with
  | .timedOut => none
  | .exited code p95 => if code ≠ 0 then none else parseK6P95Ms p95

def catalogueAvailableReplicasLive (c : Cluster) (ns : String) : Except Exc Int :=
  match c.availableReplicas ns with
  | none => .ok 0
  | some v => intOf v

/-! ## The checks -/

/-- A check, and what it was made with. -/
inductive Check where
  | crashLoop (pod : String) (baselineRestarts : ℕ)
  | oom (pod : String) (baselineRestarts : ℕ)
  | diskFull (baselinePod : String)
  | cpuThrottle (pod container : String) (baselinePeriods : ℕ)
  | badRollout
  deriving DecidableEq, Repr

/-- Still faulty? -/
def Check.run (k : Check) (c : Cluster) (target ns : String) : Except Exc Bool :=
  match k with
  | .crashLoop pod baseline => do
    if ← crashLoopBackoffNow c pod ns then pure true else pure (baseline < (← restartCount c pod ns))
  | .oom pod baseline => do pure (baseline < (← restartCount c pod ns))
  | .diskFull baseline =>
    match currentPodNameLive c target ns with
    | none => .ok true
    | some name => .ok (name ≠ baseline)
  | .cpuThrottle pod container baseline => do
    pure (CPU_THROTTLE_DURABILITY_MIN_INCREASE ≤ ((← cfsThrottledPeriodsExact c pod ns container : ℕ) : Int) - baseline)
  | .badRollout => .ok (frontEndImagePullFailingLive c ns)

/-- `check_fn` of a class. The wait for a rollback to finish only prints a warning. -/
def makeCheck (env : Env) (cls : FaultClass) (target ns : String) : Except Exc Check :=
  match cls with
  | .crashLoop => do
    let pod ← currentPodNameLiveWithRetry env target ns
    pure (.crashLoop pod (← restartCount env.baseline pod ns))
  | .oom => do
    let pod ← currentPodNameLiveWithRetry env target ns
    pure (.oom pod (← restartCount env.baseline pod ns))
  | .diskFull => do pure (.diskFull (← currentPodNameLiveWithRetry env target ns))
  | .cpuThrottling => do
    let pod ← currentPodNameLiveWithRetry env target ns
    pure (.cpuThrottle pod target (← cfsThrottledPeriodsExact env.baseline pod ns target))
  | .badRollout | .underProvisioned => pure .badRollout

structure Result where
  verdict : Durability
  elapsedS : Int
  faultClass : String
  target : String
  deriving DecidableEq, Repr

/-- The polls from the `i`-th on; `fuel` is at least their number. -/
def pollLoop (check : ℕ → Except Exc Bool) (window : Int) : ℕ → Int → ℕ → Except Exc (Durability × Int)
  | 0, elapsed, _ => .ok (.confirmed, elapsed)
  | fuel + 1, elapsed, i =>
    if elapsed < window then
      match check i with
      | .error e => .error e
      | .ok true => .ok (.flapped, elapsed + POLL_INTERVAL_S)
      | .ok false => pollLoop check window fuel (elapsed + POLL_INTERVAL_S) (i + 1)
    else .ok (.confirmed, elapsed)

/-- The reads of the replica count that are left, and the number of this one. -/
def waitForReplicas (env : Env) (ns : String) (count : Int) : ℕ → ℕ → Except Exc Bool
  | 0, _ => .ok false
  | left + 1, i => do
    if count ≤ (← catalogueAvailableReplicasLive (env.waits i) ns) then pure true else waitForReplicas env ns count left (i + 1)

def waitForCatalogueReplicasReady (env : Env) (ns : String) (count : Int) : Except Exc Bool :=
  waitForReplicas env ns count (UNDER_PROVISIONED_REPLICA_WAIT_TIMEOUT_S / 10 + 1) 0

def degraded (env : Env) (ns : String) (i : ℕ) : Bool :=
  (catalogueProbeP95Ms (env.polls i) ns).any fun p95 => decide ((env.probeThresholdMs : ℚ) ≤ p95)

/-- The probes that are left, and the number of this one. -/
def probes (env : Env) (ns : String) : ℕ → Int → ℕ → Durability × Int
  | 0, elapsed, _ => (.confirmed, elapsed)
  | left + 1, elapsed, i =>
    let elapsed := elapsed + (if 0 < i then UNDER_PROVISIONED_INTER_PROBE_SLEEP_S else 0) + UNDER_PROVISIONED_PROBE_DURATION_S
    if degraded env ns i then (.flapped, elapsed) else probes env ns left elapsed (i + 1)

def verifyUnderProvisionedDurability (env : Env) (ns : String) (targetReplicas : Int) : Except Exc (Durability × Int) := do
  if ← waitForCatalogueReplicasReady env ns targetReplicas then
    pure (probes env ns UNDER_PROVISIONED_PROBE_COUNT env.waitedS 0)
  else pure (.flapped, env.waitedS)

/-- `replicas` of the action's result. -/
def targetReplicas (replicas : Option Int) : Int :=
  match replicas with
  | none | some 0 => UNDER_PROVISIONED_TARGET_REPLICAS
  | some n => n

def verifyDurability (env : Env) (faultClass target ns : String) (replicas : Option Int) : Except Exc Result := do
  match faultClasses.lookup faultClass with
  | none => .error (.valueError s!"no durability window defined for fault class '{faultClass}'")
  | some cls =>
    let (verdict, elapsedS) ← match cls with
      | .underProvisioned => verifyUnderProvisionedDurability env ns (targetReplicas replicas)
      | cls => do
        let k ← makeCheck env cls target ns
        let window := env.durabilityWindows cls
        pollLoop (fun i => k.run (env.polls i) target ns) window window.toNat 0 0
    pure ⟨verdict, elapsedS, faultClass, target⟩

/-! ## What a poll shows -/

/-- `missing`: nothing was answered that health or the fault could be read off. -/
inductive Reading where
  | healthy
  | faulty
  | missing
  | raised
  deriving DecidableEq, Repr

/-- The reading of a counter. -/
def Query.reading (q : Query) (bad : ℕ → Bool) : Reading :=
  match q with
  | some [] => .missing
  | q =>
    match total q with
    | .ok n => if bad n then .faulty else .healthy
    | .error _ => .raised

def Check.reading (k : Check) (c : Cluster) (target ns : String) : Reading :=
  match k with
  | .crashLoop pod baseline =>
    match c.crashLoopBackoff pod ns with
    | none => .raised
    | some (_ :: _) => .faulty
    | some [] => Query.reading (c.restarts pod ns) fun n => baseline < n
  | .oom pod baseline => Query.reading (c.restarts pod ns) fun n => baseline < n
  | .diskFull baseline =>
    match currentPodNameLive c target ns with
    | none => .missing
    | some name => if name = baseline then .healthy else .faulty
  | .cpuThrottle pod container baseline =>
    Query.reading (c.throttledPeriods pod ns container) fun n => CPU_THROTTLE_DURABILITY_MIN_INCREASE ≤ (n : Int) - baseline
  | .badRollout =>
    match c.frontEndPods ns with
    | none | some [] => .missing
    | some pods => if pods.any Pod.imagePullFails then .faulty else .healthy

def probeReading (env : Env) (ns : String) (i : ℕ) : Reading :=
  match catalogueProbeP95Ms (env.polls i) ns with
  | none => .missing
  | some p95 => if (env.probeThresholdMs : ℚ) ≤ p95 then .faulty else .healthy

/-- The number of polls of a window. -/
def pollCount (window : Int) : ℕ := ((window + 14) / 15).toNat

def scheduled (env : Env) (faultClass : String) : ℕ :=
  match faultClasses.lookup faultClass with
  | none => 0
  | some .underProvisioned => UNDER_PROVISIONED_PROBE_COUNT
  | some cls => pollCount (env.durabilityWindows cls)

/-- What the `i`-th scheduled poll shows. -/
def reading (env : Env) (faultClass target ns : String) (i : ℕ) : Reading :=
  match faultClasses.lookup faultClass with
  | none => .raised
  | some .underProvisioned => probeReading env ns i
  | some cls =>
    match makeCheck env cls target ns with
    | .ok k => k.reading (env.polls i) target ns
    | .error _ => .raised

/-- Confirmed on evidence only, and flapped where a poll shows the fault. -/
def Evident (env : Env) (faultClass target ns : String) (replicas : Option Int) : Prop :=
  ∀ r, verifyDurability env faultClass target ns replicas = .ok r →
    (r.verdict = .confirmed → ∀ i < scheduled env faultClass, reading env faultClass target ns i = .healthy) ∧
    ((∃ i < scheduled env faultClass, reading env faultClass target ns i = .faulty) → r.verdict = .flapped)

/-- The replicas of the fix are there in time. -/
def Ready (env : Env) (faultClass ns : String) (replicas : Option Int) : Prop :=
  faultClasses.lookup faultClass = some .underProvisioned →
    waitForCatalogueReplicasReady env ns (targetReplicas replicas) = .ok true

/-- Where no poll shows the fault or raises, none is without data. -/
def Answered (env : Env) (faultClass target ns : String) (replicas : Option Int) : Prop :=
  Ready env faultClass ns replicas →
    (∀ i < scheduled env faultClass, reading env faultClass target ns i ≠ .faulty ∧ reading env faultClass target ns i ≠ .raised) →
      ∀ i < scheduled env faultClass, reading env faultClass target ns i ≠ .missing

/-! ## The checks and the readings -/

/-- What a check answers to a reading; `missed` is its answer to none. -/
def Reading.answer (missed : Bool) : Reading → Option Bool
  | .healthy => some false
  | .faulty => some true
  | .missing => some missed
  | .raised => none

section Checks
variable {c : Cluster} {target ns : String}

/-- A query without data counts as 0. -/
theorem total_reading (q : Query) (bad : ℕ → Bool) (h : bad 0 = false) :
    ((total q).map bad).toOption = (Query.reading q bad).answer false := by
  unfold Query.reading
  split
  next => exact congrArg some h
  next =>
    cases total q with
    | error => rfl
    | ok n => cases hb : bad n <;> simp [Except.map, Except.toOption, Reading.answer, hb]

def Check.missed : Check → Bool
  | .diskFull _ => true
  | _ => false

theorem check_reading (k : Check) : (k.run c target ns).toOption = (k.reading c target ns).answer k.missed := by
  cases k with
  | crashLoop pod baseline =>
    simp only [Check.run, Check.reading, crashLoopBackoffNow]
    cases c.crashLoopBackoff pod ns with
    | none => rfl
    | some vs =>
      cases vs with
      | nil => exact total_reading (c.restarts pod ns) (fun n => baseline < n) (by simp)
      | cons => rfl
  | oom pod baseline => exact total_reading (c.restarts pod ns) _ (by simp)
  | diskFull baseline =>
    simp only [Check.run, Check.reading]
    cases currentPodNameLive c target ns with
    | none => rfl
    | some name => by_cases h : name = baseline <;> simp [h, Except.toOption, Reading.answer]
  | cpuThrottle pod container baseline =>
    refine total_reading (c.throttledPeriods pod ns container) _ (decide_eq_false ?_)
    rw [CPU_THROTTLE_DURABILITY_MIN_INCREASE]
    omega
  | badRollout =>
    simp only [Check.run, Check.reading, frontEndImagePullFailingLive]
    cases c.frontEndPods ns with
    | none => rfl
    | some pods =>
      cases pods with
      | nil => rfl
      | cons p ps => cases h : (p :: ps).any Pod.imagePullFails <;> simp [h, Except.toOption, Reading.answer]

theorem degraded_reading {env : Env} (i : ℕ) : some (degraded env ns i) = (probeReading env ns i).answer false := by
  unfold degraded probeReading
  cases catalogueProbeP95Ms (env.polls i) ns with
  | none => rfl
  | some p95 => by_cases h : (env.probeThresholdMs : ℚ) ≤ p95 <;> simp [h, Reading.answer]

end Checks

/-! ## The loops -/

section Loops
variable {env : Env} {ns : String} {check : ℕ → Except Exc Bool} {window : Int}

theorem pollCount_succ {elapsed : Int} (h : elapsed < window) :
    pollCount (window - elapsed) = pollCount (window - (elapsed + POLL_INTERVAL_S)) + 1 := by
  simp only [pollCount, POLL_INTERVAL_S]
  omega

theorem pollCount_zero {elapsed : Int} (h : ¬ elapsed < window) : pollCount (window - elapsed) = 0 := by
  simp only [pollCount]
  omega

variable (check window) in
/-- The window is confirmed exactly when no poll of it raises or is faulty. -/
theorem pollLoop_confirmed (fuel : ℕ) (elapsed : Int) {i : ℕ} (hf : (window - elapsed).toNat ≤ fuel) :
    (∃ s, pollLoop check window fuel elapsed i = .ok (.confirmed, s)) ↔
      ∀ j < pollCount (window - elapsed), (check (i + j)).toOption = some false := by
  induction fuel generalizing elapsed i with
  | zero =>
    rw [pollCount_zero (by omega)]
    exact ⟨fun _ j hj => absurd hj j.not_lt_zero, fun _ => ⟨elapsed, rfl⟩⟩
  | succ fuel ih =>
    unfold pollLoop
    split
    next hlt =>
      rw [pollCount_succ hlt]
      have hrest := ih (elapsed + POLL_INTERVAL_S) (i := i + 1) (by simp only [POLL_INTERVAL_S]; omega)
      cases hc : check i with
      | error e => exact ⟨fun ⟨s, hs⟩ => (by cases hs), fun h => by simpa [hc, Except.toOption] using h 0 (Nat.succ_pos _)⟩
      | ok b =>
        cases b with
        | true => exact ⟨fun ⟨s, hs⟩ => (by cases hs), fun h => by simpa [hc, Except.toOption] using h 0 (Nat.succ_pos _)⟩
        | false =>
          refine hrest.trans ⟨fun h j hj => ?_, fun h j hj => ?_⟩
          · cases j with
            | zero => simp [hc, Except.toOption]
            | succ j => simpa [Nat.add_assoc, Nat.add_comm 1] using h j (Nat.lt_of_succ_lt_succ hj)
          · simpa [Nat.add_assoc, Nat.add_comm 1] using h (j + 1) (Nat.succ_lt_succ hj)
    next hlt =>
      rw [pollCount_zero hlt]
      exact ⟨fun _ j hj => absurd hj j.not_lt_zero, fun _ => ⟨elapsed, rfl⟩⟩

theorem probes_confirmed {left : ℕ} {elapsed : Int} {i : ℕ} :
    (probes env ns left elapsed i).1 = .confirmed ↔ ∀ j < left, degraded env ns (i + j) = false := by
  induction left generalizing elapsed i with
  | zero => exact ⟨fun _ j hj => absurd hj j.not_lt_zero, fun _ => rfl⟩
  | succ left ih =>
    unfold probes
    cases hd : degraded env ns i with
    | true => exact ⟨fun h => (by cases h), fun h => by simpa [hd] using h 0 (Nat.succ_pos _)⟩
    | false =>
      refine ih.trans ⟨fun h j hj => ?_, fun h j hj => ?_⟩
      · cases j with
        | zero => exact hd
        | succ j => simpa [Nat.add_assoc, Nat.add_comm 1] using h j (Nat.lt_of_succ_lt_succ hj)
      · simpa [Nat.add_assoc, Nat.add_comm 1] using h (j + 1) (Nat.succ_lt_succ hj)

end Loops

/-! ## The verdict -/

section Verdicts
variable {env : Env} {faultClass target ns : String} {replicas : Option Int} {cls : FaultClass} {r : Result}

/-- Only the check of `disk-full` is faulty without data. -/
def FaultClass.missed : FaultClass → Bool
  | .diskFull => true
  | _ => false

theorem makeCheck_missed {k : Check} (h : makeCheck env cls target ns = .ok k) : k.missed = cls.missed := by
  cases cls with
  | crashLoop | oom | cpuThrottling =>
    obtain ⟨pod, -, h⟩ := Py.ok_of_bind h
    obtain ⟨n, -, h⟩ := Py.ok_of_bind h
    obtain rfl := Except.ok.inj h
    rfl
  | diskFull =>
    obtain ⟨pod, -, h⟩ := Py.ok_of_bind h
    obtain rfl := Except.ok.inj h
    rfl
  | underProvisioned | badRollout =>
    obtain rfl := Except.ok.inj h
    rfl

/-- The five classes whose checks are polled. -/
theorem verify_polled (h : faultClasses.lookup faultClass = some cls) (hc : cls ≠ .underProvisioned) :
    verifyDurability env faultClass target ns replicas = (do
      let k ← makeCheck env cls target ns
      let (verdict, elapsedS) ← pollLoop (fun i => k.run (env.polls i) target ns) (env.durabilityWindows cls)
        (env.durabilityWindows cls).toNat 0 0
      pure ⟨verdict, elapsedS, faultClass, target⟩) := by
  unfold verifyDurability
  rw [h]
  cases cls with
  | underProvisioned => exact absurd rfl hc
  | _ => rfl

theorem scheduled_polled (h : faultClasses.lookup faultClass = some cls) (hc : cls ≠ .underProvisioned) :
    scheduled env faultClass = pollCount (env.durabilityWindows cls) := by
  unfold scheduled
  rw [h]
  cases cls with
  | underProvisioned => exact absurd rfl hc
  | _ => rfl

theorem reading_polled {k : Check} (h : faultClasses.lookup faultClass = some cls) (hc : cls ≠ .underProvisioned)
    (hk : makeCheck env cls target ns = .ok k) (i : ℕ) :
    reading env faultClass target ns i = k.reading (env.polls i) target ns := by
  unfold reading
  rw [h]
  cases cls with
  | underProvisioned => exact absurd rfl hc
  | _ => simp only [hk]

theorem polls_confirmed {k : Check} (h : faultClasses.lookup faultClass = some cls) (hc : cls ≠ .underProvisioned)
    (hk : makeCheck env cls target ns = .ok k) :
    (∃ s, pollLoop (fun i => k.run (env.polls i) target ns) (env.durabilityWindows cls) (env.durabilityWindows cls).toNat 0 0 =
      .ok (.confirmed, s)) ↔
      ∀ i < scheduled env faultClass, (reading env faultClass target ns i).answer cls.missed = some false := by
  have hloop := pollLoop_confirmed (fun i => k.run (env.polls i) target ns) (env.durabilityWindows cls)
    (env.durabilityWindows cls).toNat 0 (i := 0) (by simp)
  rw [hloop, sub_zero, scheduled_polled h hc]
  simp only [zero_add, check_reading, reading_polled h hc hk, makeCheck_missed hk]

theorem probes_evident (h : faultClasses.lookup faultClass = some .underProvisioned) :
    (probes env ns UNDER_PROVISIONED_PROBE_COUNT env.waitedS 0).1 = .confirmed ↔
      ∀ i < scheduled env faultClass, (reading env faultClass target ns i).answer false = some false := by
  have hs : scheduled env faultClass = UNDER_PROVISIONED_PROBE_COUNT := by
    unfold scheduled
    rw [h]
  have hr : ∀ i, reading env faultClass target ns i = probeReading env ns i := by
    intro i
    unfold reading
    rw [h]
  rw [probes_confirmed, hs]
  simp only [zero_add, hr, ← degraded_reading, Option.some.injEq]

theorem of_confirmed (h : verifyDurability env faultClass target ns replicas = .ok r) (hv : r.verdict = .confirmed) :
    ∃ cls, faultClasses.lookup faultClass = some cls ∧ Ready env faultClass ns replicas ∧
      ∀ i < scheduled env faultClass, (reading env faultClass target ns i).answer cls.missed = some false := by
  cases hl : faultClasses.lookup faultClass with
  | none =>
    rw [verifyDurability, hl] at h
    cases h
  | some cls =>
    by_cases hc : cls = .underProvisioned
    · subst hc
      rw [verifyDurability, hl] at h
      obtain ⟨x, hx, h⟩ := Py.ok_of_bind h
      obtain ⟨b, hb, hx⟩ := Py.ok_of_bind hx
      obtain rfl := Except.ok.inj h
      cases b with
      | true =>
        obtain rfl := Except.ok.inj hx
        exact ⟨_, rfl, fun _ => hb, (probes_evident hl).1 hv⟩
      | false =>
        obtain rfl := Except.ok.inj hx
        cases hv
    · rw [verify_polled hl hc] at h
      obtain ⟨k, hk, h⟩ := Py.ok_of_bind h
      obtain ⟨x, hx, h⟩ := Py.ok_of_bind h
      obtain rfl := Except.ok.inj h
      refine ⟨cls, rfl, fun hu => absurd (Option.some.inj (hl.symm.trans hu)) hc, ?_⟩
      exact (polls_confirmed hl hc hk).1 ⟨x.2, hx.trans (congrArg (fun v => Except.ok (v, x.2)) hv)⟩

theorem confirmed_of (hl : faultClasses.lookup faultClass = some cls) (hready : Ready env faultClass ns replicas)
    (hpos : 0 < scheduled env faultClass)
    (h : ∀ i < scheduled env faultClass, (reading env faultClass target ns i).answer cls.missed = some false) :
    ∃ r, verifyDurability env faultClass target ns replicas = .ok r ∧ r.verdict = .confirmed := by
  by_cases hc : cls = .underProvisioned
  · subst hc
    have hp := (probes_evident hl).2 h
    have hrun : verifyDurability env faultClass target ns replicas =
        .ok ⟨(probes env ns UNDER_PROVISIONED_PROBE_COUNT env.waitedS 0).1,
          (probes env ns UNDER_PROVISIONED_PROBE_COUNT env.waitedS 0).2, faultClass, target⟩ := by
      unfold verifyDurability verifyUnderProvisionedDurability
      rw [hl]
      simp only [hready hl]
      rfl
    exact ⟨_, hrun, hp⟩
  · cases hk : makeCheck env cls target ns with
    | error e =>
      have hr : reading env faultClass target ns 0 = .raised := by
        unfold reading
        rw [hl]
        cases cls with
        | underProvisioned => exact absurd rfl hc
        | _ => simp only [hk]
      have h0 := h 0 hpos
      rw [hr] at h0
      cases h0
    | ok k =>
      obtain ⟨s, hs⟩ := (polls_confirmed hl hc hk).2 h
      refine ⟨⟨.confirmed, s, faultClass, target⟩, ?_, rfl⟩
      rw [verify_polled hl hc, hk]
      show (pollLoop _ _ _ _ _ >>= _) = _
      rw [hs]
      rfl

theorem lookup_diskFull (h : faultClasses.lookup faultClass = some .diskFull) : faultClass = "disk-full" := by
  have hall : ∀ x ∈ faultClasses, x.2 = .diskFull → x.1 = "disk-full" := by simp [faultClasses]
  obtain ⟨l, l', hm, -⟩ := List.lookup_eq_some_iff.1 h
  exact hall (faultClass, .diskFull) (hm ▸ by simp) rfl

/-- A confirmed fix rests on evidence exactly when no reading is missing where the rest looks well; the
check of `disk-full` is safe without data. -/
theorem evident_iff :
    Evident env faultClass target ns replicas ↔ faultClass = "disk-full" ∨ Answered env faultClass target ns replicas := by
  constructor
  · intro hev
    rw [or_iff_not_imp_left]
    intro hd hready hclean i hi hmiss
    cases hl : faultClasses.lookup faultClass with
    | none =>
      rw [scheduled, hl] at hi
      exact absurd hi i.not_lt_zero
    | some cls =>
      have hmissed : cls.missed = false := by
        cases cls with
        | diskFull => exact absurd (lookup_diskFull hl) hd
        | _ => rfl
      have hanswers : ∀ j < scheduled env faultClass, (reading env faultClass target ns j).answer cls.missed = some false := by
        intro j hj
        obtain ⟨hf, hr⟩ := hclean j hj
        rw [hmissed]
        cases hrd : reading env faultClass target ns j with
        | faulty => exact absurd hrd hf
        | raised => exact absurd hrd hr
        | healthy | missing => rfl
      obtain ⟨r, hrun, hv⟩ := confirmed_of hl hready (Nat.zero_lt_of_lt hi) hanswers
      cases hmiss.symm.trans ((hev r hrun).1 hv i hi)
  · intro hcond r hrun
    -- a confirmed run read no fault, and nothing raised
    have hgood : r.verdict = .confirmed → ∀ i < scheduled env faultClass, reading env faultClass target ns i = .healthy := by
      intro hv
      obtain ⟨cls, hl, hready, hanswers⟩ := of_confirmed hrun hv
      intro i hi
      have hi' := hanswers i hi
      cases hrd : reading env faultClass target ns i with
      | healthy => rfl
      | faulty | raised =>
        rw [hrd] at hi'
        cases hi'
      | missing =>
        rw [hrd] at hi'
        obtain rfl | hans := hcond
        · obtain rfl : FaultClass.diskFull = cls := Option.some.inj hl
          cases hi'
        · refine absurd hrd (hans hready (fun j hj => ?_) i hi)
          have hj' := hanswers j hj
          constructor <;> intro hx <;> rw [hx] at hj' <;> cases hj'
    refine ⟨hgood, fun ⟨i, hi, hf⟩ => ?_⟩
    cases hv : r.verdict with
    | flapped => rfl
    | confirmed => cases hf.symm.trans (hgood hv i hi)

end Verdicts

/-! ## A query without data -/

/-- A pod whose counters Prometheus does not know. -/
def unscraped : Cluster where
  runningPods target _ := some [⟨target ++ "-1", false, "2026-08-01T00:00:00Z", []⟩]
  frontEndPods _ := some []
  restarts _ _ := some []
  crashLoopBackoff _ _ := some []
  throttledPeriods _ _ _ := some []
  availableReplicas _ := some (some 3)
  probe _ := .exited 1 none

def unscrapedEnv : Env where
  durabilityWindows _ := 120
  probeThresholdMs := 140
  tries _ := unscraped
  baseline := unscraped
  waits _ := unscraped
  waitedS := 0
  polls _ := unscraped

/-- Eight polls without data confirm the fix of a crash loop. -/
theorem confirmed_blind : ¬ ∀ env faultClass target ns replicas, Evident env faultClass target ns replicas := by
  intro h
  have hrun : verifyDurability unscrapedEnv "crash-loop" "carts" "sock-shop" none =
      .ok ⟨.confirmed, 120, "crash-loop", "carts"⟩ := by decide +kernel
  exact absurd ((h unscrapedEnv "crash-loop" "carts" "sock-shop" none _ hrun).1 rfl 0 (by decide +kernel)) (by decide +kernel)

end Wardence.Verifier
