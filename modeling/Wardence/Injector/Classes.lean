import Wardence.Injector.Programs
/-!
# The injection of each class

The functions `_inject_and_verify_*` of `injector.py`, and its `main`. A loop over
attempts or over the ticks of a hold takes what is left of it as a number.
-/
namespace Wardence.Injector

open Threads Code

def CRASH_LOOP_KILL_INTERVAL_S : Nat := 10
def DISK_FULL_FIRE_INTERVAL_S : Nat := 15
def NETWORK_LATENCY_MIN_INCREASE_MS : Int := 200
def NETWORK_PARTITION_PROPAGATION_WAIT_S : Nat := 15
def NETWORK_PARTITION_MIN_FAILURES : Nat := 4
def MEMORY_LEAK_SETTLE_SECONDS : Nat := 35
def MEMORY_LEAK_TARGET_MB : Int := 300
def MEMORY_LEAK_SATURATION_MAX_S : Nat := 120
def CPU_THROTTLE_MIN_PERIODS_INCREASE : Int := 50
def UNDER_PROVISIONED_MIN_P95_MS : Int := 130

/-! ## Disk, crash loop, rollout, replicas -/

def podEvictedSince (site : Site) : Routine Bool := check site .podEvictedSince

def verifyDiskFullEffect (a : Args) (baselinePodName : String) : Routine Bool :=
  verifyEffect .clean do
    let evicted ← podEvictedSince .clean
    if evicted then pure true
    else do
      let pod ← currentPodName .clean a.target
      pure (pod.isSome ∧ pod ≠ some baselinePodName)

/-- `run_disk_full_injection` with the baseline pod and the start that its caller gives. -/
def runDiskFullInjection (a : Args) (baselinePodName : String) : Routine Unit := do
  let start ← ask .clean .time
  untilSome do
    let now ← ask .clean .time
    if (now.now : Int) < start.now + a.durationS then do
      let pod ← currentPodName .clean a.target
      if pod ≠ some baselinePodName then pure (some ())
      else do
        let evicted ← podEvictedSince .clean
        if evicted then pure (some ())
        else do
          command .clean .writeLargeFile
          sleep .clean DISK_FULL_FIRE_INTERVAL_S
          pure none
    else pure (some ())

def cleanupDiskFullFiles (a : Args) : Routine Unit := do
  let pod ← currentPodName .clean a.target
  onlyIf pod.isSome (command .clean .removeFillFiles)

def diskFullAttempts (a : Args) : Nat → Routine Bool
  | 0 => pure false
  | n + 1 => do
    let pod ← currentPodName .clean a.target
    match pod with
    | none => pure false
    | some baselinePodName => do
      let _ ← ask .clean .time
      runDiskFullInjection a baselinePodName
      let verified ← (verifyDiskFullEffect a baselinePodName).andFinally (cleanupDiskFullFiles a)
      if verified then do
        writeEvidenceFileOnce .clean a
        pure true
      else diskFullAttempts a n

def restartCount (site : Site) (base : Option Int) : Routine Int := do
  let x ← ask site (.restartCount base)
  pure (x.value.getD 0)

def runCrashLoopInjection (a : Args) : Routine Bool := do
  let start ← ask .clean .time
  untilSome do
    let now ← ask .clean .time
    if (now.now : Int) < start.now + a.durationS then do
      let stop ← stopRequested .clean a
      if stop then pure (some true)
      else do
        let pod ← currentPodName .clean a.target
        if pod.isSome then do
          command .clean .killMainProcess
          sleep .clean CRASH_LOOP_KILL_INTERVAL_S
        else sleep .clean 2
        pure none
    else pure (some false)

def crashLoopAttempts (a : Args) : Nat → Routine Bool
  | 0 => pure false
  | n + 1 => do
    let baseline ← restartCount .clean none
    let interrupted ← runCrashLoopInjection a
    let verified ← verifyEffect .clean do
      let now ← restartCount .clean (some baseline)
      if baseline < now then pure true else check .clean .crashLoopBackoff
    if verified then pure true
    else if interrupted then pure false
    else crashLoopAttempts a n

def badRolloutAttempts (a : Args) : Nat → Routine Bool
  | 0 => pure false
  | n + 1 => do
    command .clean (.patchImage true)
    let verified ← verifyEffect .clean (check .clean .imagePullFailing)
    if verified then do
      writeEvidenceFileOnce .clean a
      pure true
    else do
      command .clean (.patchImage false)
      badRolloutAttempts a n

def burstAttempts : Nat → Routine (Option String)
  | 0 => pure none
  | n + 1 => do
    let p95 ← ask .clean .burstP95
    if p95.value.any (UNDER_PROVISIONED_MIN_P95_MS ≤ ·) then pure (some "k6-burst") else burstAttempts n

/-- The sampler has seen the degradation, and the hold was interrupted. -/
def underProvisionedHold (a : Args) : Nat → Bool → Routine (Bool × Bool)
  | 0, evidenceWritten => do
    if evidenceWritten then pure (true, false)
    else do
      let seen ← check .clean .samplerLogs
      pure (seen, false)
  | n + 1, evidenceWritten => do
    let stop ← stopRequested .clean a
    if stop then pure (evidenceWritten, true)
    else do
      let seen ← (if evidenceWritten then pure true else check .clean .samplerLogs : Routine Bool)
      onlyIf (seen ∧ ¬ evidenceWritten) (writeEvidenceFileOnce .clean a)
      sleep .clean 5
      underProvisionedHold a n seen

/-- The `finally` of the hold; `interrupted` is still false if the hold raised. -/
def reapCatalogueBurst (interrupted : Bool) : Routine Unit := do
  command .clean .killPodNow
  if interrupted then do
    command .clean .killPodNow
    (command .clean .killLoad).graft pure (pure ())
  else (command .clean .waitLoad).graft pure (command .clean .killLoad)

def injectUnderProvisioned (a : Args) : Routine (Option String) := do
  ensureCatalogueReplicaBaseline
  ensureOomBaseline
  if a.stopFile.isNone ∧ a.evidenceFile.isNone then burstAttempts MAX_INJECT_ATTEMPTS
  else do
    command .clean .launchCatalogueBurst
    command .clean .launchSampler
    (underProvisionedHold a (ticks a.durationS 5) false).graft
      (fun held => do
        reapCatalogueBurst held.2
        pure (if held.1 then some "k6-burst-sustained" else none))
      (do
        reapCatalogueBurst false
        raise)

/-! ## Network -/

def persistNetworkProbe (site : Site) (probe : Option Probe) : Routine Unit :=
  match probe with
  | none => pure ()
  | some p => do let _ ← call site (.upsertProbe p)

/-- Whether the fault is verified, and the hold was interrupted. -/
def latencyHold (a : Args) (baseline : Int) : Nat → Bool → Routine (Bool × Bool)
  | 0, verified => pure (verified, false)
  | n + 1, verified => do
    let stop ← stopRequested .tried a
    if stop then pure (verified, true)
    else do
      sleep .tried 10
      let during ← ask .tried .ordersLatency
      if during.value.any (baseline + NETWORK_LATENCY_MIN_INCREASE_MS ≤ ·) then do
        onlyIf (¬ verified) do
          let probe ← ask .tried .frontendConnectivity
          writeEvidenceFileOnce .tried a
          persistNetworkProbe .tried probe.probe
        latencyHold a baseline n true
      else latencyHold a baseline n verified

def networkLatencyAttempts (a : Args) : Nat → Routine (Option String)
  | 0 => pure none
  | n + 1 => do
    let baseline ← ask .clean .ordersLatency
    let chaosName ← chaosNameFrom .clean "wardence-latency"
    applyManifest .clean chaosName
    let held ← (latencyHold a (baseline.value.getD 0) (ticks a.durationS 10) false).andFinally
      (deleteChaosResource .bare chaosName)
    if held.1 then pure (some chaosName)
    else if held.2 then pure none
    else networkLatencyAttempts a n

def partitionHold (a : Args) (start : Nat) : Routine Bool := do
  sleep .tried NETWORK_PARTITION_PROPAGATION_WAIT_S
  let probe ← ask .tried .frontendConnectivity
  let verified := NETWORK_PARTITION_MIN_FAILURES ≤ (probe.probe.map (·.connectFailures)).getD 0
  onlyIf verified do
    writeEvidenceFileOnce .tried a
    persistNetworkProbe .tried probe.probe
  let now ← ask .tried .time
  interruptibleSleep .tried a (a.durationS - (now.now - start))
  pure verified

def networkPartitionAttempts (a : Args) : Nat → Routine (Option String)
  | 0 => pure none
  | n + 1 => do
    let chaosName ← chaosNameFrom .clean "wardence-partition"
    applyManifest .clean chaosName
    -- The clock is read between the manifest and the `try`.
    let start ← ask .bare .time
    let verified ← (partitionHold a start.now).andFinally (deleteChaosResource .bare chaosName)
    if verified then pure (some chaosName) else networkPartitionAttempts a n

/-! ## Memory leak -/

/-- Where the calls between `GRAPH` and the `try` stand; a no-leak run has nothing to undo. -/
def Args.leakSite (a : Args) : Site := if a.noLeak then .clean else .bare

def captureMemoryLeakBaseline (a : Args) : Routine (Option Int) := do
  let pod ← currentPodName .clean a.target
  let fromAgent ← (if pod.isSome then do
      let x ← ask .clean (.leakStatus .baseline)
      pure (x.status.bind fun s => if 0 ≤ s.postGc then some (s.postGc * 1024) else none)
    else pure none : Routine (Option Int))
  match fromAgent with
  | some kb => do
    let _ ← call .clean (.upsertBaseline kb)
    pure (some kb)
  | none => do
    let x ← ask .clean .heapUsed
    -- A failed request, and an empty result, leave the column as it is.
    match if x.ok then x.value else none with
    | none => pure none
    | some kb => do
      let _ ← call .clean (.upsertBaseline kb)
      pure (some kb)

def Status.ramping (s : Status) : Bool :=
  s.state ∈ [some "ALLOCATING", some "GOVERNED_HOLD", some "ALLOCATED"] ∨ 0 < s.graphSlots.toInt

/-- Up to `n` readings, one a second, until one shows that the ramp has begun. -/
def confirmRamp : Nat → Routine Bool
  | 0 => pure false
  | n + 1 => do
    sleep .bare 1
    let x ← ask .bare (.leakStatus (.ramp n))
    if x.status.any (·.ramping) then pure true else confirmRamp n

/-- Up to `n` readings until nine tenths of the target are allocated. -/
def waitForSaturation : Nat → Routine Unit
  | 0 => pure ()
  | n + 1 => do
    let x ← ask .bare (.leakStatus .saturation)
    if x.status.any fun s => MEMORY_LEAK_TARGET_MB * 9 / 10 ≤ s.allocatedMb.toInt then pure ()
    else do
      sleep .bare 1
      waitForSaturation n

/-- Whether the target has restarted. -/
def leakHold (a : Args) (baseline : Int) : Nat → Nat → Routine Bool
  | 0, _ => pure false
  | n + 1, remaining => do
    let stop ← stopRequested .tried a
    if stop then pure false
    else do
      sleep .tried (min 5 remaining)
      let now ← restartCount .tried (some baseline)
      if baseline < now then pure true else leakHold a baseline n (remaining - 5)

/-- The `finally`: reaps the load, and then releases the agent. -/
def releaseLeak (a : Args) : Routine Unit := do
  (do
    command .tried .terminateLoad
    command .tried .waitLoad : Routine Unit).graft pure ((command .tried .killLoad).graft pure (pure ()))
  (ask .tried .kubectlLogs).graft (fun _ => pure ()) (pure ())
  command a.leakSite (.deletePod "load")
  revert a.leakSite .leak

/-- From the load burst on. -/
def leakLoaded (a : Args) : Routine (Option String) := do
  let burst ← call a.leakSite (.command .launchCheckoutLoadBurst)
  if burst.ok then do
    writeEvidenceFileOnce a.leakSite a
    let baseline ← restartCount a.leakSite none
    let restarted ← (leakHold a baseline (ticks a.durationS 5) a.durationS.toNat).andFinally (releaseLeak a)
    pure (if restarted then none else some "leak-agent")
  else do
    revert a.leakSite .leak
    pure none

def injectMemoryLeak (a : Args) : Routine (Option String) := do
  sleep .clean MEMORY_LEAK_SETTLE_SECONDS
  let baseline ← captureMemoryLeakBaseline a
  if baseline.isNone then pure none
  else do
    let pod ← currentPodName .clean a.target
    if pod.isNone then pure none
    else if a.noLeak then leakLoaded a
    else do
      let sent ← call .clean (.inject .leak)
      if sent.ok then do
        let confirmed ← confirmRamp 10
        if confirmed then do
          waitForSaturation MEMORY_LEAK_SATURATION_MAX_S
          leakLoaded a
        -- The agent is not released.
        else pure none
      else pure none

/-! ## Connection pool -/

def ensureFloodUser (a : Args) : Routine Unit := do
  let pod ← currentPodName .clean a.target
  onlyIf pod.isSome (command .clean .createFloodUser)

/-- The flood's size follows what `Threads_connected` reads. -/
def computeFloodTarget (a : Args) : Routine Unit := do
  let pod ← currentPodName .clean a.target
  onlyIf pod.isSome do
    let _ ← ask .clean .threadsConnected

def floodConnections (a : Args) : Routine Bool := do
  let pod ← currentPodName .clean a.target
  if pod.isSome then do
    ensureFloodUser a
    computeFloodTarget a
    let x ← call .clean (.inject .flood)
    pure x.ok
  else pure false

def testConnectionFails (a : Args) : Routine Bool := do
  let pod ← currentPodName .tried a.target
  if pod.isSome then check .tried .testConnectionFails else pure false

def cleanupConnectionFlood : Routine Unit := do
  let pod ← ask .bare .floodPod
  onlyIf pod.text.isSome (revert .bare .flood)

def restartCatalogueDbPod (a : Args) : Routine Unit := do
  let old ← currentPodName .clean a.target
  onlyIf old.isSome (command .clean (.deletePod (old.getD "")))
  let start ← ask .clean .time
  let deadline := start.now + 90
  let back ← untilSome do
    let now ← ask .clean .time
    if now.now < deadline then do
      sleep .clean 5
      let pod ← currentPodName .clean a.target
      pure (if pod.isSome ∧ pod ≠ old then some true else none)
    else pure (some false)
  onlyIf back do
    untilSome do
      let now ← ask .clean .time
      if now.now < deadline then do
        let ready ← check .clean .mysqlReady
        if ready then pure (some ())
        else do
          sleep .clean 3
          pure none
      else pure (some ())

def connectionPoolHold (a : Args) : Routine Bool := do
  sleep .tried 5
  let verified ← testConnectionFails a
  onlyIf verified (writeEvidenceFileOnce .tried a)
  interruptibleSleep .tried a (a.durationS - 5)
  pure verified

def connectionPoolAttempts (a : Args) : Nat → Routine (Option String)
  | 0 => pure none
  | n + 1 => do
    let flooded ← floodConnections a
    if flooded then do
      let verified ← (connectionPoolHold a).andFinally cleanupConnectionFlood
      if verified then pure (some "manual-exec") else connectionPoolAttempts a n
    else do
      restartCatalogueDbPod a
      connectionPoolAttempts a n

/-! ## Readiness path, session store -/

def restoreInitFailure (wait : Bool) : Routine Unit := do
  revert .bare .readinessPath
  onlyIf wait (rollout .clean)

def initFailureAttempts (a : Args) : Nat → Routine Bool
  | 0 => pure false
  | n + 1 => do
    let start ← ask .clean .time
    let _ ← call .clean (.inject .readinessPath)
    let verified ← verifyEffect .bare (check .bare .paymentStuckNotReady)
    if verified then do
      writeEvidenceFileOnce .bare a
      let now ← ask .bare .time
      interruptibleSleep .bare a (a.durationS - (now.now - start.now))
      restoreInitFailure (a.stopFile.isNone ∧ a.evidenceFile.isNone)
      pure true
    else do
      restoreInitFailure true
      initFailureAttempts a n

def injectInitFailure (a : Args) : Routine Bool := do
  ensureInitFailureBaseline
  initFailureAttempts a MAX_INJECT_ATTEMPTS

def restoreSession : Routine Unit := do
  revert .bare .replicas
  let _ ← waitForReplicasAvailable .clean 1 SESSION_FAILURE_SCALE_TIMEOUT_S

def sessionCartFailureAttempts (a : Args) : Nat → Routine Bool
  | 0 => pure false
  | n + 1 => do
    let start ← ask .clean .time
    let _ ← call .clean (.inject .replicas)
    let verified ← waitForReplicasAvailable .bare 0 SESSION_FAILURE_SCALE_TIMEOUT_S
    if verified then do
      writeEvidenceFileOnce .bare a
      let now ← ask .bare .time
      interruptibleSleep .bare a (a.durationS - (now.now - start.now))
      restoreSession
      pure true
    else do
      restoreSession
      sessionCartFailureAttempts a n

def injectSessionCartFailure (a : Args) : Routine Bool := do
  ensureSessionFailureBaseline
  sessionCartFailureAttempts a MAX_INJECT_ATTEMPTS

/-! ## CPU -/

def throttledPeriods (site : Site) (r : Read) : Routine Int := do
  let x ← ask site r
  pure (x.value.getD 0)

/-- `_verify_cpu_throttle_effect`, and with the pod's own counter `.._for_pod`. -/
def verifyCpuThrottleEffect (r : Read) (baseline : Int) : Routine Bool :=
  verifyEffect .tried do
    let now ← throttledPeriods .tried r
    pure (CPU_THROTTLE_MIN_PERIODS_INCREASE ≤ now - baseline)

/-- A batch run has no stop file. -/
def batchHold : Nat → Routine Unit
  | 0 => pure ()
  | n + 1 => do
    sleep .tried 10
    batchHold n

def cpuThrottlingAttempts (a : Args) : Nat → Routine (Option String)
  | 0 => pure none
  | n + 1 => do
    let baseline ← throttledPeriods .clean .cfsThrottledPeriods
    let chaosName ← chaosNameFrom .clean "wardence-cputhrottle"
    applyManifest .clean chaosName
    let verified ← (do
      batchHold (ticks a.durationS 10)
      verifyCpuThrottleEffect .cfsThrottledPeriods baseline : Routine Bool).andFinally (deleteChaosResource .bare chaosName)
    if verified then pure (some chaosName) else cpuThrottlingAttempts a n

/-- `_wait_for_fresh_user_pod`: a pod other than `old`, then that it is ready. -/
def waitForFreshUserPod (old : Option String) : Routine (Option String) := do
  let fresh ← findFreshPod 80
  match fresh with
  | none => pure none
  | some pod => do
    let ready ← waitReady 80
    pure (if ready then some pod else none)
where
  findFreshPod : Nat → Routine (Option String)
    | 0 => pure none
    | n + 1 => do
      let x ← ask .bare .podByLabel
      if x.text.isSome ∧ x.text ≠ old then pure x.text
      else do
        sleep .bare 3
        findFreshPod n
  waitReady : Nat → Routine Bool
    | 0 => pure false
    | n + 1 => do
      let x ← ask .bare .podReady
      if x.text = some "true" then pure true
      else do
        sleep .bare 3
        waitReady n

def loosenUserProbesForFault (a : Args) : Routine (Option String) := do
  let old ← currentPodName .clean a.target
  let _ ← call .clean (.inject .probes)
  let x ← ask .bare .rolloutStatus
  if x.ok then waitForFreshUserPod old else pure none

def restoreUserProbes : Routine Unit := revert .bare .probes

/-- Whether the evidence is written. -/
def cpuLiveHold (a : Args) (baseline : Int) : Nat → Bool → Routine Bool
  | 0, evidenceWritten => pure evidenceWritten
  | n + 1, evidenceWritten => do
    let stop ← stopRequested .tried a
    if stop then pure evidenceWritten
    else do
      let seen ← (if ¬ evidenceWritten ∧ a.evidenceFile.isSome then do
          let now ← throttledPeriods .tried .cfsThrottledPeriodsForPod
          pure (decide (CPU_THROTTLE_MIN_PERIODS_INCREASE ≤ now - baseline))
        else pure false : Routine Bool)
      onlyIf seen (writeEvidenceFileOnce .tried a)
      sleep .tried 10
      cpuLiveHold a baseline n (evidenceWritten || seen)

/-- The `finally`; `loaded`: the login load was launched. -/
def endCpuLiveHold (chaosName : String) (loaded : Bool) : Routine Unit := do
  deleteChaosResource .bare chaosName
  onlyIf loaded do
    command .bare .killPodNow
    (command .tried .waitLoad).graft pure (command .bare .killLoad)
  restoreUserProbes

def injectCpuThrottlingLive (a : Args) : Routine (Option String) := do
  ensureCpuThrottleProbeBaseline
  let fresh ← loosenUserProbesForFault a
  if fresh.isNone then do
    restoreUserProbes
    pure none
  else do
    command .bare .createLoginUser
    let chaosName ← chaosNameFrom .bare "wardence-cputhrottle-live"
    (do
      let baseline ← throttledPeriods .tried .cfsThrottledPeriodsForPod
      applyManifest .tried chaosName
      command .tried .launchLoginLoad
      pure baseline : Routine Int).graft
      (fun baseline => do
        let verified ← (do
          let seen ← cpuLiveHold a baseline (ticks a.durationS 10) false
          if seen then pure true else verifyCpuThrottleEffect .cfsThrottledPeriodsForPod baseline : Routine Bool).andFinally
            (endCpuLiveHold chaosName true)
        pure (if verified then some chaosName else none))
      (do
        endCpuLiveHold chaosName false
        raise)

def injectCpuThrottling (a : Args) : Routine (Option String) := do
  ensureCpuThrottleBaseline a
  if a.stopFile.isSome then injectCpuThrottlingLive a else cpuThrottlingAttempts a MAX_INJECT_ATTEMPTS

/-! ## Out of memory -/

def podRestartCount (site : Site) : Routine (Option Int) := do
  let x ← ask site .podRestartCount
  pure x.value

/-- `_pod_oom_killed`. -/
def podOomKilled (baseline : Int) : Routine Bool := do
  let count ← podRestartCount .tried
  if count.any (baseline < ·) then do
    let x ← ask .tried .terminatedReason
    pure (x.text = some "OOMKilled")
  else pure false

/-- The current pod has been killed since `baseline`. -/
def oomKilledNow (a : Args) (baseline : Option Int) : Routine Bool := do
  let pod ← currentPodName .tried a.target
  match baseline with
  | none => pure false
  | some b => if pod.isSome then podOomKilled b else pure false

def oomAttempts (a : Args) : Nat → Routine (Option String)
  | 0 => pure none
  | n + 1 => do
    let pod ← currentPodName .clean a.target
    let baseline ← (if pod.isSome then podRestartCount .clean else pure none : Routine (Option Int))
    let chaosName ← chaosNameFrom .clean "wardence-oom"
    applyManifest .clean chaosName
    let verified ← (pollEvery .tried OOM_VERIFY_POLL_S (oomKilledNow a baseline)
      (polls OOM_VERIFY_CEILING_S OOM_VERIFY_POLL_S)).andFinally (deleteChaosResource .bare chaosName)
    if verified then pure (some chaosName) else oomAttempts a n

/-- The replacement pod, looked for up to `n` times. -/
def findReplacementPod (old : Option String) : Nat → Routine (Option String)
  | 0 => pure none
  | n + 1 => do
    let x ← ask .bare .podByLabel
    if x.text.isSome ∧ x.text ≠ old then pure x.text
    else do
      sleep .bare 1
      findReplacementPod old n

/-- Whether the evidence is written. -/
def oomLiveHold (a : Args) : Nat → Option Int → Bool → Routine Bool
  | 0, _, evidenceWritten => pure evidenceWritten
  | n + 1, baseline, evidenceWritten => do
    let stop ← stopRequested .tried a
    if stop then pure evidenceWritten
    else do
      let killed ← oomKilledNow a baseline
      onlyIf (killed ∧ ¬ evidenceWritten) (writeEvidenceFileOnce .tried a)
      let baseline' ← (if killed then podRestartCount .tried else pure baseline : Routine (Option Int))
      sleep .tried OOM_VERIFY_POLL_S
      oomLiveHold a n baseline' (evidenceWritten || killed)

def injectOomLive (a : Args) : Routine (Option String) := do
  let old ← currentPodName .clean a.target
  let _ ← ask .clean .rollingUpdate
  let _ ← call .clean (.inject .memoryLimit)
  let pod ← findReplacementPod old 30
  let baseline ← (if pod.isSome then podRestartCount .bare else pure (some 0) : Routine (Option Int))
  let seen ← (oomLiveHold a (ticks a.durationS OOM_VERIFY_POLL_S) baseline false).andFinally (revert .bare .memoryLimit)
  pure (if seen then some "forced-limit-hold" else none)

def injectOom (a : Args) : Routine (Option String) :=
  if a.stopFile.isNone ∧ a.evidenceFile.isNone then oomAttempts a MAX_INJECT_ATTEMPTS else injectOomLive a

/-! ## `main` -/

/-- The name that `main` records for a verified class without a chaos resource. -/
def recordedAs (n : String) (p : Routine Bool) : Routine (Option String) := do
  let verified ← p
  pure (if verified then some n else none)

/-- The class's inject function: what it verified, or that it verified nothing. -/
def injectAndVerify (a : Args) : Routine (Option String) :=
  match a.faultClass with
  | .diskFull => recordedAs "manual-exec" (diskFullAttempts a MAX_INJECT_ATTEMPTS)
  | .crashLoop => recordedAs "manual-exec" (crashLoopAttempts a MAX_INJECT_ATTEMPTS)
  | .networkLatency => networkLatencyAttempts a MAX_INJECT_ATTEMPTS
  | .memoryLeak => injectMemoryLeak a
  | .connectionPoolExhaustion => connectionPoolAttempts a MAX_INJECT_ATTEMPTS
  | .networkPartition => networkPartitionAttempts a MAX_INJECT_ATTEMPTS
  | .initFailure => recordedAs "manual-patch" (injectInitFailure a)
  | .sessionCartFailure => recordedAs "manual-scale" (injectSessionCartFailure a)
  | .cpuThrottling => injectCpuThrottling a
  | .underProvisionedReplicas => injectUnderProvisioned a
  | .badRollout =>
    recordedAs "manual-patch" do
      ensureFrontEndImageBaseline
      badRolloutAttempts a MAX_INJECT_ATTEMPTS
  | .oom => injectOom a

/-- What `main` does before the class's inject function; `false`: it does not inject. -/
def prepare (a : Args) : Routine Bool :=
  match a.faultClass with
  | .diskFull => do
    ensureQueueMasterPodCleanup a
    pure true
  | .crashLoop => ensureCrashLoopBaseline
  | .memoryLeak => do
    ensureMemoryLeakBaseline a
    pure true
  | .oom => do
    ensureCatalogueReplicaBaseline
    ensureOomBaseline
    pure true
  | _ => pure true

/-- The class's branch of `main`. -/
def branch (a : Args) : Routine (Option String) := do
  let ready ← prepare a
  if ready then injectAndVerify a else pure none

/-- The classes whose injection writes to the row by itself. -/
def FaultClass.writesDuring (c : FaultClass) : Bool := c ∈ [.memoryLeak, .networkLatency, .networkPartition]

/-- How a run of `main` ends: what its class's inject function returned, and without an exception. -/
structure Exit where
  chaosName : Option String
  ok : Bool
  deriving DecidableEq, Repr

/-- After the inject function; without a name `main` exits with 1. -/
def recordVerified (a : Args) (chaosName : Option String) : Routine Unit :=
  match chaosName with
  | none => raise
  | some n => do
    onlyIf (¬ a.faultClass.writesDuring) do
      let _ ← call .clean (.ensureDb .record)
    let _ ← call .clean (.recordEpisode n)
    let _ ← call .clean .closeConn

/-- The `try` of `main`. -/
def underLock (a : Args) : Routine Exit := do
  clearStaleOomStickyFlag
  onlyIf (a.faultClass.writesDuring) do
    let _ ← call .clean (.ensureDb .inject)
  let chaosName ← branch a
  (recordVerified a chaosName).graft (fun _ => pure ⟨chaosName, true⟩) (pure ⟨chaosName, false⟩)

/-- An exception of the `finally` ends the run, but changes nothing of what was injected. -/
def main (a : Args) : Routine Exit := do
  acquireSystemLockOrDie
  (underLock a).graft
    (fun x => releaseSystemLock.graft (fun _ => pure x) (pure { x with ok := false }))
    (releaseSystemLock.graft (fun _ => raise) raise)

end Wardence.Injector
