import Wardence.Injector.Classes
/-!
# Which calls the helpers make

The helpers make no call but reads and commands where their caller stands, and handle
no exception; the functions before an injection also undo faults of earlier runs.
-/
namespace Wardence.Injector

open Threads Code

/-- A read or a command that tells nothing of a fault being left. -/
def Op.plain : Op → Bool
  | .read (.leakStatus (.ramp _)) | .read .floodPod => false
  | .read _ | .command _ => true
  | _ => false

theorem ends_onlyIf {Φ : Type} {m : Monitor Reply Call Φ} {φ : Φ} {c : Prop} {_ : Decidable c} {p : Routine Unit}
    {Q : Unit → Φ → Prop} {X : Φ → Prop} (h : c → Ends m p φ Q X) (hn : ¬ c → Q () φ) : Ends m (onlyIf c p) φ Q X := by
  unfold onlyIf
  split
  · exact h ‹_›
  · exact hn ‹_›

/-- `N` has the plain calls at `s`. -/
def Has (N : Call → Prop) (s : Site) : Prop := ∀ op : Op, op.plain → N ⟨op, s⟩

section Shape
variable {N : Call → Prop} {s : Site} {a : Args}

theorem plain_pure {α : Type} {x : α} : (pure x : Routine α).Plain N := trivial

theorem plain_ite {α : Type} {c : Prop} {_ : Decidable c} {p q : Routine α} (hp : p.Plain N) (hq : q.Plain N) :
    (if c then p else q).Plain N := by
  split
  · exact hp
  · exact hq

theorem plain_onlyIf {c : Prop} {_ : Decidable c} {p : Routine Unit} (hp : p.Plain N) : (onlyIf c p).Plain N :=
  plain_ite hp trivial

theorem plain_call {op : Op} (h : N ⟨op, s⟩) : (call s op).Plain N := ⟨h, fun _ => trivial, rfl⟩

theorem plain_ask {r : Read} (h : N ⟨.read r, s⟩) : (ask s r).Plain N := plain_call h

theorem plain_check {r : Read} (h : N ⟨.read r, s⟩) : (check s r).Plain N := (plain_ask h).bind fun _ => trivial

theorem plain_revert {f : Fault} (h : N ⟨.revert f, s⟩) : (revert s f).Plain N := (plain_call h).bind fun _ => trivial

theorem plain_until {α : Type} {body : Routine (Option α)} (h : body.Plain N) : (untilSome body).Plain N :=
  ⟨h, fun _ => trivial, rfl⟩

theorem plain_run {c : Command} (h : N ⟨.command c, s⟩) : (command s c).Plain N := (plain_call h).bind fun _ => trivial

theorem plain_stop (h : N ⟨.read .stopFile, s⟩) : (stopRequested s a).Plain N := plain_ite (plain_check h) trivial

theorem plain_tick (h : N ⟨.read .stopFile, s⟩) (hd : ∀ d, N ⟨.command (.sleep d), s⟩) (n remaining : Nat) :
    (interruptibleTicks s a n remaining).Plain N := by
  induction n generalizing remaining with
  | zero => trivial
  | succ n ih => exact (plain_stop h).bind fun b => plain_ite trivial ((plain_run (hd _)).bind fun _ => ih _)

section Plain
variable (h : Has N s)
include h

theorem plain_command (c : Command) : (command s c).Plain N := plain_run (h _ rfl)

theorem plain_sleep (d : Nat) : (sleep s d).Plain N := plain_command h _

theorem plain_pollEvery {poll : Nat} {asked : Routine Bool} (ha : asked.Plain N) (n : Nat) : (pollEvery s poll asked n).Plain N := by
  induction n with
  | zero => trivial
  | succ n ih => exact ha.bind fun b => plain_ite trivial ((plain_sleep h _).bind fun _ => ih)

theorem plain_verifyEffect {asked : Routine Bool} (ha : asked.Plain N) : (verifyEffect s asked).Plain N := plain_pollEvery h ha _

theorem plain_stopRequested : (stopRequested s a).Plain N := plain_stop (h _ rfl)

theorem plain_interruptibleSleep (remaining : Int) : (interruptibleSleep s a remaining).Plain N :=
  (plain_tick (h _ rfl) (fun _ => h _ rfl) _ _).bind fun _ => trivial

theorem plain_writeEvidenceFileOnce : (writeEvidenceFileOnce s a).Plain N := plain_onlyIf (plain_command h _)

theorem plain_currentPodName {target : String} : (currentPodName s target).Plain N :=
  (plain_ask (h _ rfl)).bind fun _ => trivial

theorem plain_chaosNameFrom {x : String} : (chaosNameFrom s x).Plain N := (plain_ask (h _ rfl)).bind fun _ => trivial

theorem plain_waitForReplicasAvailable {target : Int} {timeout : Nat} : (waitForReplicasAvailable s target timeout).Plain N := by
  refine plain_pollEvery h ?_ _
  exact (plain_ask (h _ rfl)).bind fun _ => trivial

theorem plain_rollout : (rollout s).Plain N := (plain_ask (h _ rfl)).bind fun _ => trivial

theorem plain_restartCount {base : Option Int} : (restartCount s base).Plain N := (plain_ask (h _ rfl)).bind fun _ => trivial

theorem plain_podRestartCount : (podRestartCount s).Plain N := (plain_ask (h _ rfl)).bind fun _ => trivial

end Plain

/-! ## Before an injection -/

section Clean
variable (h : Has N .clean) (hr : ∀ f, N ⟨.revert f, .clean⟩)
include h

theorem plain_resetUnless {r : Read} {x : String} {reset : Routine Unit} (hread : N ⟨.read r, .clean⟩) (hp : reset.Plain N) :
    (resetUnless r x reset).Plain N :=
  (plain_ask hread).bind fun _ => plain_onlyIf (hp.bind fun _ => plain_rollout h)

theorem plain_ensureCatalogueReplicaBaseline : ensureCatalogueReplicaBaseline.Plain N :=
  plain_resetUnless h (h _ rfl) (plain_command h _)

theorem plain_ensureFrontEndImageBaseline : ensureFrontEndImageBaseline.Plain N :=
  plain_resetUnless h (h _ rfl) (plain_command h _)

theorem plain_ensureOomBaseline : ensureOomBaseline.Plain N := by
  refine (plain_ask (h _ rfl)).bind fun _ => (plain_onlyIf (plain_command h _)).bind fun _ => ?_
  refine (plain_ask (h _ rfl)).bind fun _ => (plain_ask (h _ rfl)).bind fun _ => plain_onlyIf ?_
  exact (plain_command h _).bind fun _ => plain_rollout h

theorem plain_ensureCpuThrottleBaseline : (ensureCpuThrottleBaseline a).Plain N := by
  refine (plain_currentPodName h).bind fun pod => Plain.bind (plain_ite ?_ plain_pure) fun limit => plain_onlyIf ?_
  · exact (plain_ask (h _ rfl)).bind fun _ => trivial
  · refine Plain.bind (plain_ite ?_ plain_pure) fun _ => plain_onlyIf ((plain_command h _).bind fun _ => plain_rollout h)
    refine (plain_ask (h _ rfl)).bind fun _ => plain_ite ?_ plain_pure
    exact (plain_call (h _ rfl)).bind fun _ => trivial

theorem plain_cartsPodReady : cartsPodReady.Plain N := (plain_ask (h _ rfl)).bind fun _ => trivial

theorem plain_ensureCrashLoopBaseline : ensureCrashLoopBaseline.Plain N := by
  refine (plain_ask (h _ rfl)).bind fun _ => Plain.bind (plain_ite ?_ plain_pure) fun _ =>
    plain_ite (plain_cartsPodReady h) plain_pure
  refine (plain_cartsPodReady h).bind fun _ => plain_ite ?_ plain_pure
  exact (plain_call (h _ rfl)).bind fun _ => trivial

theorem plain_deletePods (l : List String) : (deletePods l).Plain N := by
  induction l with
  | nil => trivial
  | cons p ps ih => exact (plain_command h _).bind fun _ => ih

theorem plain_ensureQueueMasterPodCleanup : (ensureQueueMasterPodCleanup a).Plain N :=
  (plain_ask (h _ rfl)).bind fun _ => (plain_currentPodName h).bind fun _ => plain_deletePods h _

theorem plain_confirmClean (n : Nat) : (confirmClean n).Plain N := by
  induction n with
  | zero => trivial
  | succ n ih => exact (plain_sleep h _).bind fun _ => (plain_ask (h _ rfl)).bind fun _ => plain_ite trivial ih

theorem plain_confirmDrained (n : Nat) : (confirmDrained n).Plain N := by
  induction n with
  | zero => trivial
  | succ n ih => exact (plain_ask (h _ rfl)).bind fun _ => plain_ite trivial ((plain_sleep h _).bind fun _ => ih)

theorem plain_clearStaleOomStickyFlag : clearStaleOomStickyFlag.Plain N :=
  (plain_ask (h _ rfl)).bind fun _ => plain_onlyIf ((plain_command h _).bind fun _ => plain_rollout h)

include hr

theorem plain_ensureCpuThrottleProbeBaseline : ensureCpuThrottleProbeBaseline.Plain N :=
  plain_resetUnless h (h _ rfl) (plain_revert (hr _))

theorem plain_ensureInitFailureBaseline : ensureInitFailureBaseline.Plain N :=
  (plain_ask (h _ rfl)).bind fun _ => (plain_onlyIf (plain_revert (hr _))).bind fun _ => plain_rollout h

theorem plain_ensureSessionFailureBaseline : ensureSessionFailureBaseline.Plain N :=
  (plain_ask (h _ rfl)).bind fun _ => plain_onlyIf ((plain_revert (hr _)).bind fun _ =>
    (plain_waitForReplicasAvailable h).bind fun _ => trivial)

theorem plain_ensureMemoryLeakBaseline : (ensureMemoryLeakBaseline a).Plain N := by
  refine (plain_currentPodName h).bind fun _ => plain_onlyIf ((plain_ask (h _ rfl)).bind fun x => ?_)
  split
  · trivial
  · refine plain_onlyIf ((plain_revert (hr _)).bind fun _ => ?_)
    exact (plain_confirmClean h _).bind fun _ => plain_onlyIf (plain_confirmDrained h _)

end Clean

/-! ## Holds -/

theorem plain_floodPods (h : Has N .clean) : (ensureFloodUser a).Plain N ∧ (computeFloodTarget a).Plain N :=
  ⟨(plain_currentPodName h).bind fun _ => plain_onlyIf (plain_command h _),
    (plain_currentPodName h).bind fun _ => plain_onlyIf ((plain_ask (h _ rfl)).bind fun _ => trivial)⟩

theorem plain_restartCatalogueDbPod (h : Has N .clean) : (restartCatalogueDbPod a).Plain N := by
  have htime : N ⟨.read .time, .clean⟩ := h _ rfl
  refine (plain_currentPodName h).bind fun old => (plain_onlyIf (plain_command h _)).bind fun _ => ?_
  refine (plain_ask htime).bind fun start => Plain.bind (plain_until ?_) fun back => plain_onlyIf (plain_until ?_)
  · refine (plain_ask htime).bind fun now => plain_ite ?_ plain_pure
    exact (plain_sleep h _).bind fun _ => (plain_currentPodName h).bind fun _ => trivial
  · refine (plain_ask htime).bind fun now => plain_ite ?_ plain_pure
    exact (plain_check (h _ rfl)).bind fun _ => plain_ite plain_pure ((plain_sleep h _).bind fun _ => trivial)

theorem plain_connectionPoolHold (h : Has N .tried) : (connectionPoolHold a).Plain N := by
  refine (plain_sleep h _).bind fun _ => Plain.bind ?_ fun verified => ?_
  · exact (plain_currentPodName h).bind fun _ => plain_ite (plain_check (h _ rfl)) plain_pure
  · exact (plain_onlyIf (plain_writeEvidenceFileOnce h)).bind fun _ =>
      (plain_interruptibleSleep h _).bind fun _ => trivial

theorem plain_oomKilledNow {baseline : Option Int} (h : Has N .tried) : (oomKilledNow a baseline).Plain N := by
  refine (plain_currentPodName h).bind fun pod => ?_
  split
  · trivial
  · refine plain_ite ((plain_podRestartCount h).bind fun count => plain_ite ?_ plain_pure) plain_pure
    exact (plain_ask (h _ rfl)).bind fun _ => trivial

theorem plain_oomLiveHold (h : Has N .tried) (n : Nat) (baseline : Option Int) (seen : Bool) :
    (oomLiveHold a n baseline seen).Plain N := by
  induction n generalizing baseline seen with
  | zero => trivial
  | succ n ih =>
    refine (plain_stopRequested h).bind fun _ => plain_ite plain_pure ((plain_oomKilledNow h).bind fun killed => ?_)
    refine (plain_onlyIf (plain_writeEvidenceFileOnce h)).bind fun _ => ?_
    refine (plain_ite (plain_podRestartCount h) plain_pure).bind fun _ => ?_
    exact (plain_sleep h _).bind fun _ => ih _ _

theorem plain_findReplacementPod {old : Option String} (h : Has N .bare) (n : Nat) : (findReplacementPod old n).Plain N := by
  induction n with
  | zero => trivial
  | succ n ih =>
    exact (plain_ask (h _ rfl)).bind fun _ => plain_ite plain_pure ((plain_sleep h _).bind fun _ => ih)

theorem plain_waitForFreshUserPod {old : Option String} (h : Has N .bare) : (waitForFreshUserPod old).Plain N := by
  have hfind : ∀ n, (waitForFreshUserPod.findFreshPod old n).Plain N := by
    intro n
    induction n with
    | zero => trivial
    | succ n ih =>
      exact (plain_ask (h _ rfl)).bind fun _ => plain_ite plain_pure ((plain_sleep h _).bind fun _ => ih)
  have hready : ∀ n, (waitForFreshUserPod.waitReady n).Plain N := by
    intro n
    induction n with
    | zero => trivial
    | succ n ih =>
      exact (plain_ask (h _ rfl)).bind fun _ => plain_ite plain_pure ((plain_sleep h _).bind fun _ => ih)
  refine (hfind _).bind fun fresh => ?_
  split
  · trivial
  · exact (hready _).bind fun _ => trivial

theorem plain_throttledPeriods {r : Read} (h : N ⟨.read r, s⟩) : (throttledPeriods s r).Plain N :=
  (plain_ask h).bind fun _ => trivial

theorem plain_verifyCpuThrottleEffect {r : Read} {baseline : Int} (h : Has N .tried) (hr : N ⟨.read r, .tried⟩) :
    (verifyCpuThrottleEffect r baseline).Plain N := by
  refine plain_verifyEffect h ?_
  exact (plain_throttledPeriods hr).bind fun _ => trivial

theorem plain_cpuLiveHold {baseline : Int} (h : Has N .tried) (n : Nat) (seen : Bool) : (cpuLiveHold a baseline n seen).Plain N := by
  induction n generalizing seen with
  | zero => trivial
  | succ n ih =>
    refine (plain_stopRequested h).bind fun _ => plain_ite plain_pure (Plain.bind (plain_ite ?_ plain_pure) fun now => ?_)
    · exact (plain_throttledPeriods (h _ rfl)).bind fun _ => trivial
    · exact (plain_onlyIf (plain_writeEvidenceFileOnce h)).bind fun _ => (plain_sleep h _).bind fun _ => ih _

end Shape

/-! ## The classes that write nothing -/

/-- Neither a row of the injection's own nor the record. -/
def Op.noDb : Op → Bool
  | .upsertBaseline _ | .upsertProbe _ | .recordEpisode _ | .ensureDb .record => false
  | _ => true

def NoDb (c : Call) : Prop := c.op.noDb

section NoDb
variable {s : Site} {a : Args} {α : Type}

theorem noDb_call {op : Op} (h : op.noDb) : NoDb ⟨op, s⟩ := h

theorem noDb_read {r : Read} : NoDb ⟨.read r, s⟩ := noDb_call rfl

theorem noDb_undo {f : Fault} : NoDb ⟨.revert f, s⟩ := noDb_call rfl

theorem has_noDb : Has NoDb s := by
  intro op h
  cases op <;> first | exact noDb_call rfl | cases h

theorem noDb_of {p : Routine α} (h : p.Plain NoDb) : p.Within NoDb := h.within fun _ h => h

theorem noDb_ite {c : Prop} {_ : Decidable c} {p q : Routine α} (hp : p.Within NoDb) (hq : q.Within NoDb) :
    (if c then p else q).Within NoDb := by
  split
  · exact hp
  · exact hq

theorem noDb_applyManifest {n : String} : (applyManifest s n).Within NoDb :=
  (noDb_of (plain_call (noDb_call rfl))).bind fun _ => noDb_ite trivial trivial

theorem noDb_deleteChaosResource {n : String} : (deleteChaosResource s n).Within NoDb := noDb_of (plain_revert noDb_undo)

theorem noDb_diskFullAttempts (n : Nat) : (diskFullAttempts a n).Within NoDb := by
  have hevicted : (podEvictedSince .clean).Plain NoDb := plain_check noDb_read
  have hpod : (currentPodName .clean a.target).Plain NoDb := plain_currentPodName has_noDb
  induction n with
  | zero => trivial
  | succ n ih =>
    refine (noDb_of hpod).bind fun pod => ?_
    split
    · trivial
    · refine (noDb_of (plain_ask noDb_read)).bind fun _ => (noDb_of ((plain_ask noDb_read).bind fun start => plain_until ?_)).bind fun _ => ?_
      · refine (plain_ask noDb_read).bind fun now => plain_ite (hpod.bind fun pod => plain_ite plain_pure ?_) plain_pure
        exact hevicted.bind fun evicted => plain_ite plain_pure ((plain_command has_noDb _).bind fun _ =>
          (plain_sleep has_noDb _).bind fun _ => trivial)
      · refine Within.bind (Within.andFinally (noDb_of (plain_verifyEffect has_noDb ?_)) ?_) fun verified => noDb_ite ?_ ih
        · exact hevicted.bind fun evicted => plain_ite plain_pure (hpod.bind fun _ => trivial)
        · exact (noDb_of hpod).bind fun _ => noDb_of (plain_onlyIf (plain_command has_noDb _))
        · exact (noDb_of (plain_writeEvidenceFileOnce has_noDb)).bind fun _ => trivial

theorem plain_crashLoopAttempts (n : Nat) : (crashLoopAttempts a n).Plain NoDb := by
  induction n with
  | zero => trivial
  | succ n ih =>
    refine (plain_restartCount has_noDb).bind fun baseline => Plain.bind ?_ fun interrupted => Plain.bind ?_ fun verified => ?_
    · refine (plain_ask noDb_read).bind fun start => plain_until ((plain_ask noDb_read).bind fun now => plain_ite ?_ plain_pure)
      refine (plain_stopRequested has_noDb).bind fun _ => plain_ite plain_pure ((plain_currentPodName has_noDb).bind fun pod => ?_)
      split
      · exact (plain_command has_noDb _).bind fun _ => (plain_sleep has_noDb _).bind fun _ => trivial
      · exact (plain_sleep has_noDb _).bind fun _ => trivial
    · refine plain_verifyEffect has_noDb ?_
      exact (plain_restartCount has_noDb).bind fun _ => plain_ite plain_pure (plain_check noDb_read)
    · exact plain_ite plain_pure (plain_ite plain_pure ih)

theorem plain_badRolloutAttempts (n : Nat) : (badRolloutAttempts a n).Plain NoDb := by
  induction n with
  | zero => trivial
  | succ n ih =>
    refine (plain_command has_noDb _).bind fun _ => (plain_verifyEffect has_noDb (plain_check noDb_read)).bind fun _ => ?_
    exact plain_ite ((plain_writeEvidenceFileOnce has_noDb).bind fun _ => trivial) ((plain_command has_noDb _).bind fun _ => ih)

theorem plain_burstAttempts (n : Nat) : (burstAttempts n).Plain NoDb := by
  induction n with
  | zero => trivial
  | succ n ih => exact (plain_ask noDb_read).bind fun _ => plain_ite plain_pure ih

theorem plain_underProvisionedHold (n : Nat) (seen : Bool) : (underProvisionedHold a n seen).Plain NoDb := by
  induction n generalizing seen with
  | zero => exact plain_ite plain_pure ((plain_check noDb_read).bind fun _ => trivial)
  | succ n ih =>
    refine (plain_stopRequested has_noDb).bind fun _ => plain_ite plain_pure ?_
    refine (plain_ite plain_pure (plain_check noDb_read)).bind fun _ => ?_
    exact (plain_onlyIf (plain_writeEvidenceFileOnce has_noDb)).bind fun _ => (plain_sleep has_noDb _).bind fun _ => ih _

theorem noDb_injectUnderProvisioned : (injectUnderProvisioned a).Within NoDb := by
  have hc : ∀ c, (command .clean c).Within NoDb := fun c => noDb_of (plain_command has_noDb c)
  have hreap : ∀ interrupted, (reapCatalogueBurst interrupted).Within NoDb := fun interrupted =>
    (hc _).bind fun _ => noDb_ite ((hc _).bind fun _ => (hc _).graft (fun _ => trivial) trivial) ((hc _).graft (fun _ => trivial) (hc _))
  refine (noDb_of (plain_ensureCatalogueReplicaBaseline has_noDb)).bind fun _ => ?_
  refine (noDb_of (plain_ensureOomBaseline has_noDb)).bind fun _ => noDb_ite (noDb_of (plain_burstAttempts _)) ?_
  refine (hc _).bind fun _ => (hc _).bind fun _ => (noDb_of (plain_underProvisionedHold _ _)).graft (fun held => ?_) ?_
  · exact (hreap _).bind fun _ => trivial
  · exact (hreap _).bind fun _ => trivial

theorem noDb_connectionPoolAttempts (n : Nat) : (connectionPoolAttempts a n).Within NoDb := by
  induction n with
  | zero => trivial
  | succ n ih =>
    refine Within.bind (noDb_of ?_) fun flooded => noDb_ite (Within.bind (Within.andFinally ?_ ?_) fun _ => noDb_ite trivial ih) ?_
    · refine (plain_currentPodName has_noDb).bind fun _ => plain_ite ?_ plain_pure
      exact (plain_floodPods has_noDb).1.bind fun _ => (plain_floodPods has_noDb).2.bind fun _ => (plain_call (noDb_call rfl)).bind fun _ => trivial
    · exact noDb_of (plain_connectionPoolHold has_noDb)
    · exact noDb_of ((plain_ask noDb_read).bind fun _ => plain_onlyIf (plain_revert noDb_undo))
    · exact (noDb_of (plain_restartCatalogueDbPod has_noDb)).bind fun _ => ih

theorem plain_initFailureAttempts (n : Nat) : (initFailureAttempts a n).Plain NoDb := by
  have hrestore : ∀ wait, (restoreInitFailure wait).Plain NoDb :=
    fun wait => (plain_revert noDb_undo).bind fun _ => plain_onlyIf (plain_rollout has_noDb)
  induction n with
  | zero => trivial
  | succ n ih =>
    refine (plain_ask noDb_read).bind fun start => (plain_call (noDb_call rfl)).bind fun _ => ?_
    refine (plain_verifyEffect has_noDb (plain_check noDb_read)).bind fun _ => plain_ite ?_ ((hrestore _).bind fun _ => ih)
    refine (plain_writeEvidenceFileOnce has_noDb).bind fun _ => (plain_ask noDb_read).bind fun _ => ?_
    exact (plain_interruptibleSleep has_noDb _).bind fun _ => (hrestore _).bind fun _ => trivial

theorem plain_sessionCartFailureAttempts (n : Nat) : (sessionCartFailureAttempts a n).Plain NoDb := by
  have hrestore : restoreSession.Plain NoDb :=
    (plain_revert noDb_undo).bind fun _ => (plain_waitForReplicasAvailable has_noDb).bind fun _ => trivial
  induction n with
  | zero => trivial
  | succ n ih =>
    refine (plain_ask noDb_read).bind fun start => (plain_call (noDb_call rfl)).bind fun _ => ?_
    refine (plain_waitForReplicasAvailable has_noDb).bind fun _ => plain_ite ?_ (hrestore.bind fun _ => ih)
    refine (plain_writeEvidenceFileOnce has_noDb).bind fun _ => (plain_ask noDb_read).bind fun _ => ?_
    exact (plain_interruptibleSleep has_noDb _).bind fun _ => hrestore.bind fun _ => trivial

theorem plain_batchHold (n : Nat) : (batchHold n).Plain NoDb := by
  induction n with
  | zero => trivial
  | succ n ih => exact (plain_sleep has_noDb _).bind fun _ => ih

theorem noDb_cpuThrottlingAttempts (n : Nat) : (cpuThrottlingAttempts a n).Within NoDb := by
  induction n with
  | zero => trivial
  | succ n ih =>
    refine (noDb_of (plain_throttledPeriods noDb_read)).bind fun _ => (noDb_of (plain_chaosNameFrom has_noDb)).bind fun _ => ?_
    refine noDb_applyManifest.bind fun _ => Within.bind (Within.andFinally (noDb_of ?_) noDb_deleteChaosResource) fun _ =>
      noDb_ite trivial ih
    exact (plain_batchHold _).bind fun _ => plain_verifyCpuThrottleEffect has_noDb noDb_read

theorem noDb_injectCpuThrottlingLive : (injectCpuThrottlingLive a).Within NoDb := by
  have hc : ∀ {s : Site} c, (command s c).Within NoDb := fun c => noDb_of (plain_command has_noDb c)
  have hend : ∀ n loaded, (endCpuLiveHold n loaded).Within NoDb := fun n loaded =>
    noDb_deleteChaosResource.bind fun _ => Within.bind
      (noDb_ite ((hc _).bind fun _ => (hc _).graft (fun _ => trivial) (hc _)) trivial) fun _ => noDb_of (plain_revert noDb_undo)
  refine (noDb_of (plain_ensureCpuThrottleProbeBaseline has_noDb fun _ => noDb_undo)).bind fun _ => Within.bind (noDb_of ?_) fun fresh => ?_
  · refine (plain_currentPodName has_noDb).bind fun _ => (plain_call (noDb_call rfl)).bind fun _ => (plain_ask noDb_read).bind fun _ => ?_
    exact plain_ite (plain_waitForFreshUserPod has_noDb) plain_pure
  refine noDb_ite ((noDb_of (plain_revert noDb_undo)).bind fun _ => trivial) ?_
  refine (hc _).bind fun _ => (noDb_of (plain_chaosNameFrom has_noDb)).bind fun n => Within.graft ?_ (fun baseline => ?_) ?_
  · refine (noDb_of (plain_throttledPeriods noDb_read)).bind fun _ => noDb_applyManifest.bind fun _ => (hc _).bind fun _ => trivial
  · refine Within.bind (Within.andFinally (noDb_of ?_) (hend _ _)) fun _ => trivial
    exact (plain_cpuLiveHold has_noDb _ _).bind fun _ => plain_ite plain_pure (plain_verifyCpuThrottleEffect has_noDb noDb_read)
  · exact (hend _ _).bind fun _ => trivial

theorem noDb_oomAttempts (n : Nat) : (oomAttempts a n).Within NoDb := by
  induction n with
  | zero => trivial
  | succ n ih =>
    refine (noDb_of (plain_currentPodName has_noDb)).bind fun _ => ?_
    refine (noDb_of (plain_ite (plain_podRestartCount has_noDb) plain_pure)).bind fun _ => ?_
    refine (noDb_of (plain_chaosNameFrom has_noDb)).bind fun _ => noDb_applyManifest.bind fun _ => ?_
    refine Within.bind (Within.andFinally (noDb_of ?_) noDb_deleteChaosResource) fun _ => noDb_ite trivial ih
    exact plain_pollEvery has_noDb (plain_oomKilledNow has_noDb) _

theorem noDb_injectOomLive : (injectOomLive a).Within NoDb := by
  refine (noDb_of (plain_currentPodName has_noDb)).bind fun _ => (noDb_of (plain_ask noDb_read)).bind fun _ => ?_
  refine (noDb_of (plain_call (noDb_call rfl))).bind fun _ => (noDb_of (plain_findReplacementPod has_noDb _)).bind fun _ => ?_
  refine (noDb_of (plain_ite (plain_podRestartCount has_noDb) plain_pure)).bind fun _ => ?_
  exact Within.bind (Within.andFinally (noDb_of (plain_oomLiveHold has_noDb _ _ _)) (noDb_of (plain_revert noDb_undo))) fun _ => trivial

theorem noDb_recordedAs {n : String} {p : Routine Bool} (h : p.Within NoDb) : (recordedAs n p).Within NoDb := h.bind fun _ => trivial

/-- The other classes make no call that their row depends on. -/
theorem noDb_injectAndVerify (h : a.faultClass.writesDuring = false) : (injectAndVerify a).Within NoDb := by
  have hrev : ∀ f, NoDb ⟨.revert f, .clean⟩ := fun _ => noDb_undo
  unfold injectAndVerify
  cases hc : a.faultClass <;> rw [hc] at h
  case diskFull => exact noDb_recordedAs (noDb_diskFullAttempts _)
  case crashLoop => exact noDb_recordedAs (noDb_of (plain_crashLoopAttempts _))
  case connectionPoolExhaustion => exact noDb_connectionPoolAttempts _
  case initFailure =>
    exact noDb_recordedAs ((noDb_of (plain_ensureInitFailureBaseline has_noDb hrev)).bind fun _ => noDb_of (plain_initFailureAttempts _))
  case sessionCartFailure =>
    exact noDb_recordedAs ((noDb_of (plain_ensureSessionFailureBaseline has_noDb hrev)).bind fun _ =>
      noDb_of (plain_sessionCartFailureAttempts _))
  case cpuThrottling =>
    exact (noDb_of (plain_ensureCpuThrottleBaseline has_noDb)).bind fun _ =>
      noDb_ite noDb_injectCpuThrottlingLive (noDb_cpuThrottlingAttempts _)
  case underProvisionedReplicas => exact noDb_injectUnderProvisioned
  case badRollout =>
    exact noDb_recordedAs ((noDb_of (plain_ensureFrontEndImageBaseline has_noDb)).bind fun _ => noDb_of (plain_badRolloutAttempts _))
  case oom => exact noDb_ite (noDb_oomAttempts _) noDb_injectOomLive
  all_goals cases h

theorem noDb_prepare : (prepare a).Within NoDb := by
  have hrev : ∀ f, NoDb ⟨.revert f, .clean⟩ := fun _ => noDb_undo
  unfold prepare
  cases a.faultClass
  case diskFull => exact (noDb_of (plain_ensureQueueMasterPodCleanup has_noDb)).bind fun _ => trivial
  case crashLoop => exact noDb_of (plain_ensureCrashLoopBaseline has_noDb)
  case memoryLeak => exact (noDb_of (plain_ensureMemoryLeakBaseline has_noDb hrev)).bind fun _ => trivial
  case oom =>
    exact (noDb_of (plain_ensureCatalogueReplicaBaseline has_noDb)).bind fun _ =>
      (noDb_of (plain_ensureOomBaseline has_noDb)).bind fun _ => trivial
  all_goals trivial

end NoDb

end Wardence.Injector
