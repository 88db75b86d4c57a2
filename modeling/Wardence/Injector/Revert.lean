import Wardence.Injector.Shape
/-!
# Reverting what was injected

Of the injections that are to end with their fault undone: in which finished runs is
every fault that was brought about undone later? An exception in a `try` does no harm;
one while the fault stands and no `try` does, and so do two answers.
-/
namespace Wardence.Injector

open Threads Code

/-- The function looks at the return code of the fault's command. -/
def Fault.checked : Fault → Bool
  | .chaos _ | .flood | .leak => true
  | .readinessPath | .replicas | .probes | .memoryLimit => false

/-- The fault that is brought about. -/
def brought : Did Reply Call → Option Fault
  | .ran ⟨.inject f, _⟩ r => if f.checked ∧ ¬ r.ok then none else some f
  | _ => none

/-- The fault whose undoing is sent. -/
def undone : Did Reply Call → Option Fault
  | .ran ⟨.revert f, _⟩ _ => some f
  | _ => none

abbrev Reverted (tr : Trace) : Prop := Answered brought undone tr

/-- With the fault in place, an exception that nothing catches, or the last of the
readings that were to show the leak's ramp does not. -/
def leaves : Did Reply Call → Bool
  | .raised c => c.site = .bare
  | .ran ⟨.read (.leakStatus (.ramp 0)), _⟩ r => ¬ r.status.any (·.ramping)
  | _ => false

/-- The cleanup of the flood finds no pod, and finds one. -/
def missed : Did Reply Call → Option Unit
  | .ran ⟨.read .floodPod, _⟩ r => if r.text.isSome then none else some ()
  | _ => none

def found : Did Reply Call → Option Unit
  | .ran ⟨.read .floodPod, _⟩ r => if r.text.isSome then some () else none
  | _ => none

/-- No call leaves the fault, and a cleanup without a pod is followed by one with a pod. -/
def Guarded (tr : Trace) : Prop := (∀ d ∈ tr, leaves d = false) ∧ Answered missed found tr

instance (tr : Trace) : Decidable (Guarded tr) := inferInstanceAs (Decidable (_ ∧ _))

/-- The report-only classes, and the live holds of the other two. -/
def Args.reportOnly (a : Args) : Bool :=
  match a.faultClass with
  | .networkLatency | .networkPartition | .memoryLeak | .connectionPoolExhaustion | .initFailure | .sessionCartFailure => true
  | .oom => a.stopFile.isSome || a.evidenceFile.isSome
  | .cpuThrottling => a.stopFile.isSome
  | _ => false

/-! ## The monitor -/

structure Watch where
  /-- Faults not undone yet. -/
  faults : List Fault
  misses : List Unit
  left : Bool

def Watch.next (φ : Watch) (d : Did Reply Call) : Watch :=
  ⟨pending brought undone φ.faults d, pending missed found φ.misses d, φ.left || leaves d⟩

def watch : Monitor Reply Call Watch where
  start := ⟨[], [], false⟩
  ran φ c r := φ.next (.ran c r)
  raised φ c := φ.next (.raised c)

/-- The run may end here. -/
def Settled (φ : Watch) : Prop := φ.faults = [] ↔ φ.left = false ∧ φ.misses = []

theorem watch_foldl {φ : Watch} {tr : Trace} : tr.foldl watch.step φ =
    ⟨tr.foldl (pending brought undone) φ.faults, tr.foldl (pending missed found) φ.misses, φ.left || tr.any leaves⟩ := by
  induction tr generalizing φ with
  | nil => simp
  | cons d tr ih =>
    have hstep : watch.step φ d = φ.next d := by cases d <;> rfl
    rw [List.foldl_cons, ih, hstep]
    simp [Watch.next, Bool.or_assoc]

theorem guarded_of_settled {p : Routine (Option String)} {tr : Trace} {r : Option (Option String)} (hr : p.Runs tr r)
    (h : Ends watch p watch.start (fun _ => Settled) Settled) : Reverted tr ↔ Guarded tr := by
  have hs : Settled (tr.foldl watch.step watch.start) := by
    obtain ⟨h1, h2⟩ := hr.ends h
    cases r with
    | none => exact h2 rfl
    | some x => exact h1 x rfl
  rw [watch_foldl] at hs
  simp only [Settled, watch, Bool.false_or, List.any_eq_false, Bool.not_eq_true] at hs
  rw [Reverted, Guarded, answered_iff, answered_iff]
  exact hs

/-! ## What a call does -/

/-- An exception of a call at `s`. -/
def Watch.fail (φ : Watch) (s : Site) : Watch := { φ with left := φ.left || decide (s = .bare) }

def Watch.bring (φ : Watch) (f : Fault) : Watch := { φ with faults := f :: φ.faults }

def Watch.undo (φ : Watch) (f : Fault) : Watch := { φ with faults := φ.faults.filter (· ≠ f) }

/-- No fault, or the one. -/
def standing (f : Fault) : Watch := ⟨[f], [], false⟩

section Calls
variable {φ : Watch} {s : Site} {α : Type} {Q : α → Watch → Prop} {X : Watch → Prop}

/-- The reads, commands and writes that no fault depends on. -/
def Op.quiet : Op → Bool
  | .read (.leakStatus (.ramp _)) | .read .floodPod => false
  | .inject _ | .revert _ => false
  | _ => true

theorem next_none {d : Did Reply Call} (h : brought d = none ∧ undone d = none) (h' : missed d = none ∧ found d = none) :
    φ.next d = { φ with left := φ.left || leaves d } := by
  rw [Watch.next, pending_none h.1 h.2, pending_none h'.1 h'.2]

theorem raised_eq (c : Call) : watch.raised φ c = φ.fail c.site := next_none ⟨rfl, rfl⟩ ⟨rfl, rfl⟩

theorem ran_quiet {c : Call} {r : Reply} (h : c.op.quiet) : watch.ran φ c r = φ := by
  obtain ⟨op, s⟩ := c
  have hfault : brought (.ran ⟨op, s⟩ r) = none ∧ undone (.ran ⟨op, s⟩ r) = none := by
    cases op <;> first | exact ⟨rfl, rfl⟩ | cases h
  have hread : (missed (.ran ⟨op, s⟩ r) = none ∧ found (.ran ⟨op, s⟩ r) = none) ∧ leaves (.ran ⟨op, s⟩ r) = false := by
    unfold missed found leaves
    cases op with
    | read x =>
      cases x with
      | floodPod => cases h
      | leakStatus u =>
        cases u with
        | ramp => cases h
        | _ => exact ⟨⟨rfl, rfl⟩, rfl⟩
      | _ => exact ⟨⟨rfl, rfl⟩, rfl⟩
    | _ => exact ⟨⟨rfl, rfl⟩, rfl⟩
  have hnext := next_none (φ := φ) hfault hread.1
  rw [hread.2, Bool.or_false] at hnext
  exact hnext

theorem brought_inject {f : Fault} {r : Reply} :
    brought (.ran ⟨.inject f, s⟩ r) = if f.checked ∧ ¬ r.ok then none else some f := rfl

theorem undone_revert {f : Fault} {r : Reply} : undone (.ran ⟨.revert f, s⟩ r) = some f := rfl

theorem ran_inject {f : Fault} {r : Reply} : watch.ran φ ⟨.inject f, s⟩ r = if f.checked ∧ ¬ r.ok then φ else φ.bring f := by
  have hm : pending missed found φ.misses (.ran ⟨.inject f, s⟩ r) = φ.misses := pending_none rfl rfl
  have hl : (φ.left || leaves (.ran ⟨.inject f, s⟩ r)) = φ.left := Bool.or_false _
  have hb := brought_inject (s := s) (f := f) (r := r)
  show Watch.mk _ _ _ = _
  rw [hm, hl]
  split at hb
  · rw [pending_none hb rfl, if_pos ‹_›]
  · rw [pending_open hb rfl, if_neg ‹_›, Watch.bring]

theorem ran_revert {f : Fault} {r : Reply} : watch.ran φ ⟨.revert f, s⟩ r = φ.undo f := by
  have hm : pending missed found φ.misses (.ran ⟨.revert f, s⟩ r) = φ.misses := pending_none rfl rfl
  have hl : (φ.left || leaves (.ran ⟨.revert f, s⟩ r)) = φ.left := Bool.or_false _
  have hb : brought (.ran ⟨.revert f, s⟩ r) = none := rfl
  show Watch.mk _ _ _ = _
  rw [hm, hl, pending_close hb undone_revert, Watch.undo]

/-- A reading that was to show the leak's ramp. -/
theorem ran_ramp {n : Nat} {r : Reply} : watch.ran φ ⟨.read (.leakStatus (.ramp n)), .bare⟩ r =
    if n ≠ 0 ∨ r.status.any (·.ramping) then φ else φ.fail .bare := by
  have hnext := next_none (φ := φ) (d := .ran ⟨.read (.leakStatus (.ramp n)), .bare⟩ r) ⟨rfl, rfl⟩ ⟨rfl, rfl⟩
  have hrun : watch.ran φ ⟨.read (.leakStatus (.ramp n)), .bare⟩ r = _ := hnext
  rw [hrun]
  cases n with
  | zero => cases hr : r.status.any (·.ramping) <;> simp [leaves, hr, Watch.fail]
  | succ n => simp [leaves]

/-- The quiet calls at `s`. -/
def At (s : Site) (c : Call) : Prop := c.op.quiet ∧ c.site = s

theorem plain_quiet {op : Op} (h : op.plain) : op.quiet := by
  cases op with
  | read r =>
    cases r with
    | floodPod => cases h
    | leakStatus u =>
      cases u with
      | ramp => cases h
      | _ => rfl
    | _ => rfl
  | command => rfl
  | _ => cases h

theorem has_at : Has (At s) s := fun _ h => ⟨plain_quiet h, rfl⟩

theorem ends_at {p : Routine α} (hp : p.Plain (At s)) (hq : ∀ a, Q a φ) (hx : X (φ.fail s)) : Ends watch p φ Q X := by
  refine hp.ends (fun c r hc => ran_quiet hc.1) (fun c hc => ?_) hq
  rw [raised_eq, hc.2]
  exact hx

/-- Before a fault, the functions may undo the faults of other runs. -/
def Before (c : Call) : Prop := (c.op.quiet ∨ ∃ f, c.op = .revert f) ∧ c.site = .clean

theorem has_before : Has Before .clean := fun _ h => ⟨.inl (plain_quiet h), rfl⟩

theorem before_revert (f : Fault) : Before ⟨.revert f, .clean⟩ := ⟨.inr ⟨f, rfl⟩, rfl⟩

theorem fail_clean : φ.fail .clean = φ := by simp [Watch.fail]

theorem fail_tried : φ.fail .tried = φ := by simp [Watch.fail]

theorem ends_before {p : Routine α} (hf : φ.faults = []) (hp : p.Plain Before) (hq : ∀ a, Q a φ) (hx : X φ) :
    Ends watch p φ Q X := by
  refine hp.ends (fun c r hc => ?_) (fun c hc => ?_) hq
  · rcases hc.1 with hc' | ⟨f, hf'⟩
    · exact ran_quiet hc'
    · obtain ⟨op, site⟩ := c
      obtain rfl := hf'
      rw [ran_revert, Watch.undo, hf, List.filter_nil, ← hf]
  · rw [raised_eq, hc.2, fail_clean]
    exact hx

theorem ends_clean {p : Routine α} (hp : p.Plain (At .clean)) (hq : ∀ a, Q a φ) (hx : X φ) : Ends watch p φ Q X :=
  ends_at hp hq (fail_clean.symm ▸ hx)

theorem ends_tried {p : Routine α} (hp : p.Plain (At .tried)) (hq : ∀ a, Q a φ) (hx : X φ) : Ends watch p φ Q X :=
  ends_at hp hq (fail_tried.symm ▸ hx)

theorem ends_inject {f : Fault} {Q : Reply → Watch → Prop} (hq : ∀ r, Q r (if f.checked ∧ ¬ r.ok then φ else φ.bring f))
    (hx : X (φ.fail s)) : Ends watch (call s (.inject f)) φ Q X := by
  refine Ends.stmt (fun r => ?_) ?_
  · rw [ran_inject]
    exact hq r
  · rw [raised_eq]
    exact hx

theorem ends_revert {f : Fault} {Q : Unit → Watch → Prop} (hq : Q () (φ.undo f)) (hx : X (φ.fail s)) :
    Ends watch (revert s f) φ Q X := by
  refine Ends.bind (Ends.stmt (fun r => ?_) ?_)
  · rw [ran_revert]
    exact hq
  · rw [raised_eq]
    exact hx

/-- A program whose exceptions are handled. -/
theorem ends_handled {p : Routine Unit} {g : Routine Unit} {Q : Unit → Watch → Prop} (hp : p.Plain (At .tried)) (hq : Q () φ)
    (hg : Ends watch g φ Q X) : Ends watch (p.graft pure g) φ Q X :=
  Obeys.graft (ends_tried hp (fun _ => hq) hg)

end Calls

theorem settled_start : Settled watch.start := ⟨fun _ => ⟨rfl, rfl⟩, fun _ => rfl⟩

/-- A fault stands, and an exception has left it there. -/
theorem settled_left {φ : Watch} (hf : φ.faults ≠ []) : Settled (φ.fail .bare) := by
  simp [Settled, Watch.fail, hf]

theorem undo_standing (f : Fault) : (standing f).undo f = watch.start := by simp [standing, Watch.undo, watch]

theorem settled_standing (f : Fault) : Settled ((standing f).fail .bare) := settled_left (by simp [standing])

/-! ## The classes -/

section Classes
variable {a : Args}

/-- A hold in a `try`, whose `finally` undoes the fault. -/
theorem ends_undone {α : Type} {p : Routine α} {f : Fault} {Q : α → Watch → Prop} (hp : p.Plain (At .tried))
    (hq : ∀ x, Q x watch.start) : Ends watch (p.andFinally (revert .bare f)) (standing f) Q Settled := by
  have hundo : ∀ {Q : Unit → Watch → Prop}, Q () watch.start → Ends watch (revert .bare f) (standing f) Q Settled :=
    fun h => ends_revert (by rw [undo_standing]; exact h) (settled_standing f)
  exact Ends.andFinally (ends_tried hp (fun x => hundo (hq x)) (hundo settled_start))

/-- A chaos resource is there once the manifest is accepted. -/
theorem ends_applyManifest {n : String} {φ : Watch} {s : Site} {Q : Unit → Watch → Prop} {X : Watch → Prop}
    (hq : Q () (φ.bring (.chaos n))) (hx : X (φ.fail s)) (hr : X φ) : Ends watch (applyManifest s n) φ Q X := by
  refine Ends.bind (ends_inject (fun r => ?_) hx)
  have hc : (Fault.chaos n).checked = true := rfl
  by_cases hok : r.ok
  · rw [if_pos hok, if_neg fun h => h.2 hok]
    exact hq
  · rw [if_neg hok, if_pos ⟨hc, hok⟩]
    exact hr

theorem plain_latencyHold {baseline : Int} (n : Nat) (v : Bool) : (latencyHold a baseline n v).Plain (At .tried) := by
  have hq : ∀ {op : Op}, op.quiet → At .tried ⟨op, .tried⟩ := fun h => ⟨h, rfl⟩
  induction n generalizing v with
  | zero => trivial
  | succ n ih =>
    refine (plain_stopRequested has_at).bind fun _ => plain_ite trivial ((plain_sleep has_at _).bind fun _ => ?_)
    refine (plain_ask (hq rfl)).bind fun during => plain_ite ?_ (ih v)
    refine Plain.bind (plain_onlyIf ?_) fun _ => ih true
    refine (plain_ask (hq rfl)).bind fun probe => (plain_writeEvidenceFileOnce has_at).bind fun _ => ?_
    unfold persistNetworkProbe
    split
    · trivial
    · exact (plain_call (hq rfl)).bind fun _ => trivial

theorem ends_networkLatencyAttempts (n : Nat) :
    Ends watch (networkLatencyAttempts a n) watch.start (fun _ => Settled) Settled := by
  induction n with
  | zero => exact settled_start
  | succ n ih =>
    refine Ends.bind (ends_clean (plain_ask ⟨rfl, rfl⟩) (fun baseline => ?_) settled_start)
    refine Ends.bind (ends_clean (plain_chaosNameFrom has_at) (fun chaosName => ?_) settled_start)
    refine Ends.bind (ends_applyManifest ?_ (fail_clean.symm ▸ settled_start) settled_start)
    refine Ends.bind (ends_undone (plain_latencyHold _ _) fun held => ?_)
    split
    · exact settled_start
    · split
      · exact settled_start
      · exact ih

theorem plain_partitionHold {start : Nat} : (partitionHold a start).Plain (At .tried) := by
  refine (plain_sleep has_at _).bind fun _ => (plain_ask ⟨rfl, rfl⟩).bind fun probe => ?_
  refine Plain.bind (plain_onlyIf ((plain_writeEvidenceFileOnce has_at).bind fun _ => ?_)) fun _ => ?_
  · unfold persistNetworkProbe
    split
    · trivial
    · exact (plain_call ⟨rfl, rfl⟩).bind fun _ => trivial
  · exact (plain_ask ⟨rfl, rfl⟩).bind fun now => (plain_interruptibleSleep has_at _).bind fun _ => trivial

theorem ends_networkPartitionAttempts (n : Nat) :
    Ends watch (networkPartitionAttempts a n) watch.start (fun _ => Settled) Settled := by
  induction n with
  | zero => exact settled_start
  | succ n ih =>
    refine Ends.bind (ends_clean (plain_chaosNameFrom has_at) (fun chaosName => ?_) settled_start)
    refine Ends.bind (ends_applyManifest ?_ (fail_clean.symm ▸ settled_start) settled_start)
    refine Ends.bind (ends_at (plain_ask ⟨rfl, rfl⟩) (fun start => ?_) (settled_standing _))
    refine Ends.bind (ends_undone plain_partitionHold fun verified => ?_)
    split
    · exact settled_start
    · exact ih

/-- An unprotected hold: whatever raises leaves the fault. -/
theorem ends_bare {α : Type} {p : Routine α} {f : Fault} {Q : α → Watch → Prop} (hp : p.Plain (At .bare))
    (hq : ∀ x, Q x (standing f)) : Ends watch p (standing f) Q Settled :=
  ends_at hp hq (settled_standing f)

/-- The undoing of the fault that stands. -/
theorem ends_undo {f : Fault} {Q : Unit → Watch → Prop} (hq : Q () watch.start) :
    Ends watch (revert .bare f) (standing f) Q Settled :=
  ends_revert (by rw [undo_standing]; exact hq) (settled_standing f)

theorem ends_restoreInitFailure {wait : Bool} {Q : Unit → Watch → Prop} (hq : Q () watch.start) :
    Ends watch (restoreInitFailure wait) (standing .readinessPath) Q Settled :=
  Ends.bind (ends_undo (ends_onlyIf (fun _ => ends_clean (plain_rollout has_at) (fun _ => hq) settled_start) fun _ => hq))

/-- A verified attempt holds the fault until its time is over, or the stop file is there, and then undoes it. -/
theorem ends_held {start : Int} {f : Fault} {p : Routine Bool} {Q : Bool → Watch → Prop} (hp : Ends watch p (standing f) Q Settled) :
    Ends watch (do
      writeEvidenceFileOnce .bare a
      let now ← ask .bare .time
      interruptibleSleep .bare a (a.durationS - (now.now - start))
      p) (standing f) Q Settled := by
  refine Ends.bind (ends_bare (plain_writeEvidenceFileOnce has_at) fun _ => ?_)
  refine Ends.bind (ends_bare (plain_ask ⟨rfl, rfl⟩) fun now => ?_)
  exact Ends.bind (ends_bare (plain_interruptibleSleep has_at _) fun _ => hp)

theorem ends_initFailureAttempts (n : Nat) : Ends watch (initFailureAttempts a n) watch.start (fun _ => Settled) Settled := by
  induction n with
  | zero => exact settled_start
  | succ n ih =>
    refine Ends.bind (ends_clean (plain_ask ⟨rfl, rfl⟩) (fun start => ?_) settled_start)
    refine Ends.bind (ends_inject (fun _ => ?_) (fail_clean.symm ▸ settled_start))
    refine Ends.bind (ends_bare (plain_verifyEffect has_at (plain_check ⟨rfl, rfl⟩)) fun verified => ?_)
    split
    · exact ends_held (Ends.bind (ends_restoreInitFailure settled_start))
    · exact Ends.bind (ends_restoreInitFailure ih)

theorem ends_restoreSession {Q : Unit → Watch → Prop} (hq : Q () watch.start) :
    Ends watch restoreSession (standing .replicas) Q Settled :=
  Ends.bind (ends_undo (Ends.bind (ends_clean (plain_waitForReplicasAvailable has_at) (fun _ => hq) settled_start)))

theorem ends_sessionCartFailureAttempts (n : Nat) :
    Ends watch (sessionCartFailureAttempts a n) watch.start (fun _ => Settled) Settled := by
  induction n with
  | zero => exact settled_start
  | succ n ih =>
    refine Ends.bind (ends_clean (plain_ask ⟨rfl, rfl⟩) (fun start => ?_) settled_start)
    refine Ends.bind (ends_inject (fun _ => ?_) (fail_clean.symm ▸ settled_start))
    refine Ends.bind (ends_bare (plain_waitForReplicasAvailable has_at) fun verified => ?_)
    split
    · exact ends_held (Ends.bind (ends_restoreSession settled_start))
    · exact Ends.bind (ends_restoreSession ih)

/-! ### Connection pool -/

/-- Between two attempts: every flood so far has been undone, or its cleanup found no
pod and the floods that are left are missed. -/
def Between (φ : Watch) : Prop :=
  φ.left = false ∧ (φ.faults = [] ∧ φ.misses = [] ∨ (φ.faults ≠ [] ∧ ∀ f ∈ φ.faults, f = .flood) ∧ φ.misses ≠ [])

theorem Between.settled {φ : Watch} (h : Between φ) : Settled φ := by
  obtain ⟨hl, ⟨hf, hm⟩ | ⟨⟨hf, -⟩, hm⟩⟩ := h
  · exact ⟨fun _ => ⟨hl, hm⟩, fun _ => hf⟩
  · exact ⟨fun hf' => (hf hf').elim, fun h => (hm h.2).elim⟩

/-- A flood stands. -/
def Flooded (φ : Watch) : Prop := φ.left = false ∧ φ.faults ≠ [] ∧ ∀ f ∈ φ.faults, f = .flood

theorem Between.flooded {φ : Watch} (h : Between φ) : Flooded (φ.bring .flood) := by
  refine ⟨h.1, by simp [Watch.bring], ?_⟩
  intro f hf
  rcases List.mem_cons.1 hf with rfl | hf
  · rfl
  · obtain ⟨-, ⟨hnone, -⟩ | ⟨⟨-, hall⟩, -⟩⟩ := h
    · rw [hnone] at hf
      cases hf
    · exact hall f hf

theorem ran_floodPod {φ : Watch} {s : Site} {r : Reply} : watch.ran φ ⟨.read .floodPod, s⟩ r =
    { φ with misses := if r.text.isSome then [] else () :: φ.misses } := by
  have hf : pending brought undone φ.faults (.ran ⟨.read .floodPod, s⟩ r) = φ.faults := pending_none rfl rfl
  have hl : (φ.left || leaves (.ran ⟨.read .floodPod, s⟩ r)) = φ.left := Bool.or_false _
  have hmissed : missed (.ran ⟨.read .floodPod, s⟩ r) = if r.text.isSome then none else some () := rfl
  have hfound : found (.ran ⟨.read .floodPod, s⟩ r) = if r.text.isSome then some () else none := rfl
  show Watch.mk _ _ _ = _
  rw [hf, hl]
  split at hmissed
  · rw [if_pos ‹_›] at hfound
    rw [pending_close hmissed hfound, if_pos ‹_›]
    simp
  · rw [if_neg ‹_›] at hfound
    rw [pending_open hmissed hfound, if_neg ‹_›]

theorem ends_cleanupConnectionFlood {φ : Watch} (h : Flooded φ) {Q : Unit → Watch → Prop} (hq : ∀ ψ, Between ψ → Q () ψ) :
    Ends watch cleanupConnectionFlood φ Q Settled := by
  obtain ⟨hl, hf, hall⟩ := h
  refine Ends.bind (Ends.stmt (fun r => ?_) ?_)
  · rw [ran_floodPod]
    refine ends_onlyIf (fun hsome => ?_) fun hnone => ?_
    · rw [if_pos hsome]
      refine ends_revert (hq _ ⟨hl, .inl ⟨?_, rfl⟩⟩) (settled_left hf)
      exact List.filter_eq_nil_iff.2 fun f hf' => by simpa using hall f hf'
    · rw [if_neg hnone]
      exact hq _ ⟨hl, .inr ⟨⟨hf, hall⟩, by simp⟩⟩
  · rw [raised_eq]
    exact settled_left hf

theorem ends_floodConnections {φ : Watch} (h : Between φ) {Q : Bool → Watch → Prop} (ht : ∀ ψ, Flooded ψ → Q true ψ)
    (hn : Q false φ) : Ends watch (floodConnections a) φ Q Settled := by
  refine Ends.bind (ends_clean (plain_currentPodName has_at) (fun pod => ?_) h.settled)
  split
  · refine Ends.bind (ends_clean (plain_floodPods has_at).1 (fun _ => ?_) h.settled)
    refine Ends.bind (ends_clean (plain_floodPods has_at).2 (fun _ => ?_) h.settled)
    refine Ends.bind (ends_inject (fun r => ?_) (fail_clean.symm ▸ h.settled))
    have hc : Fault.flood.checked = true := rfl
    by_cases hok : r.ok
    · rw [if_neg fun hn' => hn'.2 hok, hok]
      exact ht _ h.flooded
    · have hno : r.ok = false := by simpa using hok
      rw [if_pos ⟨hc, hok⟩, hno]
      exact hn
  · exact hn

theorem ends_connectionPoolAttempts (n : Nat) {φ : Watch} (h : Between φ) :
    Ends watch (connectionPoolAttempts a n) φ (fun _ => Settled) Settled := by
  induction n generalizing φ with
  | zero => exact h.settled
  | succ n ih =>
    refine Ends.bind (ends_floodConnections h (fun ψ hψ => ?_) ?_)
    · rw [if_pos rfl]
      refine Ends.bind (Ends.andFinally (ends_tried (plain_connectionPoolHold has_at) (fun verified => ?_) ?_))
      · refine ends_cleanupConnectionFlood hψ fun χ hχ => ?_
        split
        · exact hχ.settled
        · exact ih hχ
      · exact ends_cleanupConnectionFlood hψ fun χ hχ => hχ.settled
    · rw [if_neg Bool.false_ne_true]
      exact Ends.bind (ends_clean (plain_restartCatalogueDbPod has_at) (fun _ => ih h) h.settled)

/-! ### Memory leak -/

/-- What stands when the load is started: a no-leak run has sent nothing. -/
def Args.leaking (a : Args) : Watch := if a.noLeak then watch.start else standing .leak

theorem leaking_undo : a.leaking.undo .leak = watch.start := by
  unfold Args.leaking
  split
  · rfl
  · exact undo_standing _

theorem leaking_fail : Settled (a.leaking.fail a.leakSite) := by
  unfold Args.leaking Args.leakSite
  split
  · exact fail_clean.symm ▸ settled_start
  · exact settled_standing _

/-- A call that nothing protects, while the agent may hold its leak. -/
theorem ends_leaking {α : Type} {p : Routine α} {Q : α → Watch → Prop} (hp : p.Plain (At a.leakSite)) (hq : ∀ x, Q x a.leaking) :
    Ends watch p a.leaking Q Settled :=
  ends_at hp hq leaking_fail

theorem ends_release {Q : Unit → Watch → Prop} (hq : Q () watch.start) : Ends watch (revert a.leakSite .leak) a.leaking Q Settled :=
  ends_revert (by rw [leaking_undo]; exact hq) leaking_fail

theorem ends_releaseLeak {Q : Unit → Watch → Prop} (hq : Q () watch.start) : Ends watch (releaseLeak a) a.leaking Q Settled := by
  have hc : ∀ c, (command .tried c).Plain (At .tried) := plain_command has_at
  -- The load is reaped and its log read whatever raises.
  refine Ends.bind (ends_handled ((hc _).bind fun _ => hc _) ?_ (ends_handled (hc _) ?_ ?_))
  all_goals refine Ends.bind (Obeys.graft (ends_tried (plain_ask ⟨rfl, rfl⟩) (fun _ => ?_) ?_))
  all_goals exact Ends.bind (ends_leaking (plain_command has_at _) fun _ => ends_release hq)

theorem plain_leakHold {baseline : Int} (n remaining : Nat) : (leakHold a baseline n remaining).Plain (At .tried) := by
  induction n generalizing remaining with
  | zero => trivial
  | succ n ih =>
    refine (plain_stopRequested has_at).bind fun _ => plain_ite trivial ((plain_sleep has_at _).bind fun _ => ?_)
    exact (plain_restartCount has_at).bind fun _ => plain_ite plain_pure (ih _)

theorem ends_leakLoaded : Ends watch (leakLoaded a) a.leaking (fun _ => Settled) Settled := by
  refine Ends.bind (ends_leaking (plain_call ⟨rfl, rfl⟩) fun burst => ?_)
  split
  · refine Ends.bind (ends_leaking (plain_writeEvidenceFileOnce has_at) fun _ => ?_)
    refine Ends.bind (ends_leaking (plain_restartCount has_at) fun baseline => ?_)
    refine Ends.bind (Ends.andFinally (ends_tried (plain_leakHold _ _) (fun restarted => ?_) ?_))
    · exact ends_releaseLeak settled_start
    · exact ends_releaseLeak settled_start
  · exact Ends.bind (ends_release settled_start)

/-- If the last reading shows no ramp either, the leak is left. -/
theorem ends_confirmRamp (n : Nat) {Q : Bool → Watch → Prop} (ht : Q true (standing .leak))
    (hn : Q false ((standing .leak).fail .bare)) : Ends watch (confirmRamp (n + 1)) (standing .leak) Q Settled := by
  have hstep : ∀ {m : Nat}, (m = 0 → Ends watch (confirmRamp m) ((standing .leak).fail .bare) Q Settled) →
      (m ≠ 0 → Ends watch (confirmRamp m) (standing .leak) Q Settled) → Ends watch (confirmRamp (m + 1)) (standing .leak) Q Settled := by
    intro m hzero hsucc
    refine Ends.bind (ends_bare (plain_sleep has_at _) fun _ => Ends.bind (Ends.stmt (fun r => ?_) ?_))
    · rw [ran_ramp]
      by_cases hr : r.status.any (·.ramping)
      · rw [if_pos hr, if_pos (Or.inr hr)]
        exact ht
      · rw [if_neg hr]
        by_cases hm : m = 0
        · rw [if_neg fun h => h.elim (fun h' => h' hm) hr]
          exact hzero hm
        · rw [if_pos (Or.inl hm)]
          exact hsucc hm
    · rw [raised_eq]
      exact settled_standing _
  induction n with
  | zero => exact hstep (fun _ => hn) fun h => (h rfl).elim
  | succ n ih => exact hstep (fun h => by cases h) fun _ => ih

theorem plain_waitForSaturation (n : Nat) : (waitForSaturation n).Plain (At .bare) := by
  induction n with
  | zero => trivial
  | succ n ih => exact (plain_ask ⟨rfl, rfl⟩).bind fun _ => plain_ite trivial ((plain_sleep has_at _).bind fun _ => ih)

theorem plain_captureMemoryLeakBaseline : (captureMemoryLeakBaseline a).Plain (At .clean) := by
  refine (plain_currentPodName has_at).bind fun pod => Plain.bind (plain_ite ?_ plain_pure) fun fromAgent => ?_
  · exact (plain_ask ⟨rfl, rfl⟩).bind fun _ => trivial
  · split
    · exact (plain_call ⟨rfl, rfl⟩).bind fun _ => trivial
    · refine (plain_ask ⟨rfl, rfl⟩).bind fun x => ?_
      split
      · trivial
      · exact (plain_call ⟨rfl, rfl⟩).bind fun _ => trivial

theorem ends_injectMemoryLeak : Ends watch (injectMemoryLeak a) watch.start (fun _ => Settled) Settled := by
  refine Ends.bind (ends_clean (plain_sleep has_at _) (fun _ => ?_) settled_start)
  refine Ends.bind (ends_clean plain_captureMemoryLeakBaseline (fun baseline => ?_) settled_start)
  split
  · exact settled_start
  refine Ends.bind (ends_clean (plain_currentPodName has_at) (fun pod => ?_) settled_start)
  split
  · exact settled_start
  split
  · rename_i hno
    have h := ends_leakLoaded (a := a)
    rwa [Args.leaking, if_pos hno] at h
  · rename_i hno
    refine Ends.bind (ends_inject (fun sent => ?_) (fail_clean.symm ▸ settled_start))
    have hc : Fault.leak.checked = true := rfl
    by_cases hok : sent.ok
    · rw [if_pos hok, if_neg fun h => h.2 hok]
      refine Ends.bind (ends_confirmRamp 9 ?_ ?_)
      · rw [if_pos rfl]
        refine Ends.bind (ends_bare (plain_waitForSaturation _) fun _ => ?_)
        have h := ends_leakLoaded (a := a)
        rwa [Args.leaking, if_neg hno] at h
      · rw [if_neg Bool.false_ne_true]
        exact settled_standing _
    · rw [if_neg hok, if_pos ⟨hc, hok⟩]
      exact settled_start

/-! ### Out of memory -/

theorem ends_injectOomLive : Ends watch (injectOomLive a) watch.start (fun _ => Settled) Settled := by
  refine Ends.bind (ends_clean (plain_currentPodName has_at) (fun old => ?_) settled_start)
  refine Ends.bind (ends_clean (plain_ask ⟨rfl, rfl⟩) (fun _ => ?_) settled_start)
  refine Ends.bind (ends_inject (fun _ => ?_) (fail_clean.symm ▸ settled_start))
  refine Ends.bind (ends_bare (plain_findReplacementPod has_at _) fun pod => ?_)
  refine Ends.bind (ends_bare (plain_ite (plain_podRestartCount has_at) plain_pure) fun baseline => ?_)
  exact Ends.bind (ends_undone (plain_oomLiveHold has_at _ _ _) fun _ => settled_start)

/-! ### CPU -/

/-- `user`'s probes are loose, and at most the chaos resource `n` is there besides. -/
def Loose (n : String) (φ : Watch) : Prop :=
  φ.left = false ∧ φ.misses = [] ∧ (φ.faults = [.probes] ∨ φ.faults = [.chaos n, .probes])

theorem Loose.faults {n : String} {φ : Watch} (h : Loose n φ) : φ.faults ≠ [] := by
  rcases h.2.2 with hf | hf <;> rw [hf] <;> exact List.cons_ne_nil _ _

theorem Loose.undo {n : String} {φ : Watch} (h : Loose n φ) : φ.undo (.chaos n) = standing .probes := by
  obtain ⟨faults, misses, left⟩ := φ
  obtain ⟨rfl, rfl, rfl | rfl⟩ := h <;> simp [Watch.undo, standing]

theorem ends_endCpuLiveHold {n : String} {φ : Watch} (h : Loose n φ) {loaded : Bool} {Q : Unit → Watch → Prop}
    (hq : Q () watch.start) : Ends watch (endCpuLiveHold n loaded) φ Q Settled := by
  refine Ends.bind (ends_revert ?_ (settled_left h.faults))
  rw [h.undo]
  refine Ends.bind (ends_onlyIf (fun _ => ?_) fun _ => ends_undo hq)
  refine Ends.bind (ends_bare (plain_command has_at _) fun _ => ends_handled (plain_command has_at _) (ends_undo hq) ?_)
  exact ends_bare (plain_command has_at _) fun _ => ends_undo hq

theorem loose_standing (n : String) : Loose n (standing .probes) := ⟨rfl, rfl, .inl rfl⟩

theorem loose_bring (n : String) : Loose n ((standing .probes).bring (.chaos n)) := ⟨rfl, rfl, .inr rfl⟩

theorem ends_injectCpuThrottlingLive : Ends watch (injectCpuThrottlingLive a) watch.start (fun _ => Settled) Settled := by
  refine Ends.bind (ends_before rfl (plain_ensureCpuThrottleProbeBaseline has_before before_revert) (fun _ => ?_) settled_start)
  refine Ends.bind (Ends.bind (ends_clean (plain_currentPodName has_at) (fun old => ?_) settled_start))
  refine Ends.bind (ends_inject (fun _ => ?_) (fail_clean.symm ▸ settled_start))
  refine Ends.bind (ends_bare (plain_ask ⟨rfl, rfl⟩) fun x => ?_)
  refine ends_bare (plain_ite (plain_waitForFreshUserPod has_at) plain_pure) fun fresh => ?_
  split
  · exact Ends.bind (ends_undo settled_start)
  refine Ends.bind (ends_bare (plain_command has_at _) fun _ => Ends.bind (ends_bare (plain_chaosNameFrom has_at) fun n => ?_))
  have hraised : ∀ {φ : Watch}, Loose n φ → Ends watch (do
      endCpuLiveHold n false
      raise : Routine (Option String)) φ (fun _ => Settled) Settled :=
    fun h => Ends.bind (ends_endCpuLiveHold h settled_start)
  refine Obeys.graft (Ends.bind (ends_tried (plain_throttledPeriods ⟨rfl, rfl⟩) (fun baseline => ?_) (hraised (loose_standing n))))
  refine Ends.bind (ends_applyManifest ?_ (fail_tried.symm ▸ hraised (loose_standing n)) (hraised (loose_standing n)))
  refine Ends.bind (ends_tried (plain_command has_at _) (fun _ => ?_) (hraised (loose_bring n)))
  refine Ends.bind (Ends.andFinally (ends_tried ?_ (fun verified => ?_) ?_))
  · exact (plain_cpuLiveHold has_at _ _).bind fun seen => plain_ite plain_pure (plain_verifyCpuThrottleEffect has_at ⟨rfl, rfl⟩)
  · exact ends_endCpuLiveHold (loose_bring n) settled_start
  · exact ends_endCpuLiveHold (loose_bring n) settled_start

theorem ends_recordedAs {n : String} {p : Routine Bool} (h : Ends watch p watch.start (fun _ => Settled) Settled) :
    Ends watch (recordedAs n p) watch.start (fun _ => Settled) Settled :=
  Ends.bind h

theorem ends_injectAndVerify (h : a.reportOnly) : Ends watch (injectAndVerify a) watch.start (fun _ => Settled) Settled := by
  have hbefore : ∀ {p : Routine Unit} {q : Routine Bool}, p.Plain Before → Ends watch q watch.start (fun _ => Settled) Settled →
      Ends watch (p >>= fun _ => q) watch.start (fun _ => Settled) Settled :=
    fun hp hq => Ends.bind (ends_before rfl hp (fun _ => hq) settled_start)
  unfold Args.reportOnly at h
  unfold injectAndVerify
  cases hc : a.faultClass <;> rw [hc] at h
  case networkLatency => exact ends_networkLatencyAttempts _
  case networkPartition => exact ends_networkPartitionAttempts _
  case memoryLeak => exact ends_injectMemoryLeak
  case connectionPoolExhaustion => exact ends_connectionPoolAttempts _ ⟨rfl, .inl ⟨rfl, rfl⟩⟩
  case initFailure =>
    exact ends_recordedAs (hbefore (plain_ensureInitFailureBaseline has_before before_revert) (ends_initFailureAttempts _))
  case sessionCartFailure =>
    exact ends_recordedAs (hbefore (plain_ensureSessionFailureBaseline has_before before_revert) (ends_sessionCartFailureAttempts _))
  case oom =>
    have hlive : ¬ (a.stopFile.isNone ∧ a.evidenceFile.isNone) := by
      rintro ⟨h1, h2⟩
      simp_all
    show Ends watch (injectOom a) _ _ _
    rw [injectOom, if_neg hlive]
    exact ends_injectOomLive
  case cpuThrottling =>
    refine Ends.bind (ends_before rfl (plain_ensureCpuThrottleBaseline has_before) (fun _ => ?_) settled_start)
    rw [if_pos h]
    exact ends_injectCpuThrottlingLive
  all_goals cases h

end Classes

/-- A live run of a class. -/
def liveRun (c : FaultClass) : Args := ⟨c, none, some "episode", some "stop", some "evidence", 0, false⟩

/-- The first probe of a hold raises; the chaos resource is deleted. -/
def probeRaises : Trace :=
  [.ran ⟨.read .ordersLatency, .clean⟩ yes, .ran ⟨.read .uuid, .clean⟩ yes,
    .ran ⟨.inject (.chaos "wardence-latency-"), .clean⟩ yes, .ran ⟨.read .stopFile, .tried⟩ { yes with ok := false },
    .ran ⟨.command (.sleep 10), .tried⟩ yes, .raised ⟨.read .ordersLatency, .tried⟩,
    .ran ⟨.revert (.chaos "wardence-latency-"), .bare⟩ yes]

/-- `payment`'s readiness path is patched, and the first query of Prometheus raises. -/
def queryRaises : Trace :=
  [.ran ⟨.read .readinessPath, .clean⟩ { yes with text := some "/health" }, .ran ⟨.read .rolloutStatus, .clean⟩ yes,
    .ran ⟨.read .time, .clean⟩ yes, .ran ⟨.inject .readinessPath, .clean⟩ yes, .raised ⟨.read .paymentStuckNotReady, .bare⟩]

end Wardence.Injector
