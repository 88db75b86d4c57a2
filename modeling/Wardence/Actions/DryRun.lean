import Wardence.Actions.Programs
/-!
# Dry-run first

Every real mutating call of an action comes after a successful dry-run of the same, and
`applied` is reported only of an action whose calls succeeded; but `patch_cpu_limit` has
a second way when the in-place resize is refused.
-/
namespace Wardence.Actions

open Threads Code Py

abbrev Trace := List (Did Reply Call)

/-- The real mutating call that was made, whatever became of it. -/
def wanted : Did Reply Call → Option Write
  | .ran (.patch w false) _ | .raised (.patch w false) => some w
  | _ => none

/-- The mutating call whose dry-run succeeded. -/
def dryRan : Did Reply Call → Option Write
  | .ran (.patch w true) r => if r.error.isNone then some w else none
  | _ => none

/-- The real mutating call that succeeded. -/
def accepted : Did Reply Call → Option Write
  | .ran (.patch w false) r => if r.error.isNone then some w else none
  | _ => none

/-- Every real mutating call succeeded, or is one of `P`. -/
def Clean (P : Write → Prop) (tr : Trace) : Prop := ∀ d ∈ tr, ∀ w, wanted d = some w → accepted d = some w ∨ P w

/-- The last call is the real `w`, and it succeeded. -/
def LastAccepted (w : Write) (tr : Trace) : Prop := ∃ x u, tr = x ++ [u] ∧ accepted u = some w

/-- What an action that reports `applied` has done. -/
def Action.Done (a : Action) (tr : Trace) : Prop :=
  Clean (fun _ => False) tr ∨
    match a with
    | .patchCpuLimit name container limit ns =>
      Clean (·.op = .podResize) tr ∧ LastAccepted ⟨.deployment, name, ns, .limits container "cpu" limit⟩ tr
    | _ => False

/-! ## Step by step -/

section Steps
variable {P : Write → Prop} {tr : Trace} {w : Write} {d : Did Reply Call}

abbrev DryRunFirst (tr : Trace) : Prop := Preceded wanted dryRan tr

theorem Clean.nil : Clean P [] := fun _ h => by cases h

theorem Clean.snoc (h : Clean P tr) (hd : ∀ w, wanted d = some w → accepted d = some w ∨ P w) : Clean P (tr ++ [d]) := by
  intro e he w hw
  rcases List.mem_append.1 he with he | he
  · exact h e he w hw
  · obtain rfl := List.mem_singleton.1 he
    exact hd w hw

theorem Clean.mono {P' : Write → Prop} (h : Clean P tr) (hp : ∀ w, P w → P' w) : Clean P' tr := fun d hd w hw =>
  (h d hd w hw).imp id (hp w)

theorem DryRunFirst.quiet (h : DryRunFirst tr) (hd : wanted d = none) : DryRunFirst (tr ++ [d]) :=
  h.snoc fun _ hf => by rw [hd] at hf; cases hf

theorem Clean.quiet (h : Clean P tr) (hd : wanted d = none) : Clean P (tr ++ [d]) :=
  h.snoc fun _ hf => by rw [hd] at hf; cases hf

/-- What is true all along. -/
structure Inv (P : Write → Prop) (tr : Trace) : Prop where
  first : DryRunFirst tr
  clean : Clean P tr

theorem Inv.quiet (h : Inv P tr) (hd : wanted d = none) : Inv P (tr ++ [d]) := ⟨h.first.quiet hd, h.clean.quiet hd⟩

theorem DryRunFirst.any (h : DryRunFirst tr) : Inv (fun _ => True) tr := ⟨h, fun _ _ _ _ => .inr trivial⟩

/-- A call that changes nothing. -/
def Call.quiet : Call → Prop
  | .patch _ _ => False
  | _ => True

theorem Call.quiet.wanted_ran {c : Call} (h : c.quiet) (r : Reply) : wanted (.ran c r) = none := by
  cases c with
  | patch => exact h.elim
  | _ => rfl

theorem Call.quiet.wanted_raised {c : Call} (h : c.quiet) : wanted (.raised c) = none := by
  cases c with
  | patch => exact h.elim
  | _ => rfl

/-- Calls that change nothing keep what is true all along. -/
theorem ends_quiet {α : Type} {p : Routine α} (hp : p.Within Call.quiet) (h : Inv P tr) :
    Ends Monitor.history p tr (fun _ => Inv P) DryRunFirst :=
  (hp.ends (I := Inv P) (fun _ _ r hi hc => hi.quiet (hc.wanted_ran r)) (fun _ _ hi hc => hi.quiet hc.wanted_raised) h).mono
    (fun _ _ hi => hi) fun _ hi => hi.first

theorem ends_stmt {c : Call} (hc : c.quiet) (h : Inv P tr) : Ends Monitor.history (stmt c) tr (fun _ => Inv P) DryRunFirst :=
  ends_quiet ⟨hc, fun _ => trivial, trivial⟩ h

theorem accepted_real {r : Reply} (h : r.error = none) : accepted (.ran (.patch w false) r) = some w := by
  simp [accepted, h]

theorem dryRan_ok {r : Reply} (h : r.error = none) : dryRan (.ran (.patch w true) r) = some w := by
  simp [dryRan, h]

/-- A part of a program, and the rest. -/
theorem ends_then {α β : Type} {p : Routine β} {f : β → Routine α} {I : β → Trace → Prop} {Q : α → Trace → Prop}
    (hp : Ends Monitor.history p tr I DryRunFirst) (hf : ∀ b tr, I b tr → Ends Monitor.history (f b) tr Q DryRunFirst) :
    Ends Monitor.history (p >>= f) tr Q DryRunFirst :=
  Ends.bind (hp.mono (fun b tr hi => hf b tr hi) fun _ hx => hx)

/-- A real call after its dry-run. -/
theorem DryRunFirst.real {dry : Reply} (h : DryRunFirst tr) (hd : dry.error = none) (hw : wanted d = some w) :
    DryRunFirst (tr ++ [.ran (.patch w true) dry] ++ [d]) := by
  refine (h.quiet rfl).snoc fun f hf => ?_
  obtain rfl : w = f := Option.some.inj (hw.symm.trans hf)
  exact ⟨_, List.mem_append_right _ (List.mem_singleton_self _), dryRan_ok hd⟩

theorem Clean.real {real : Reply} (h : Clean P tr) (hr : real.error = none ∨ P w) :
    Clean P (tr ++ [.ran (.patch w false) real]) := by
  refine h.snoc fun f hf => ?_
  obtain rfl : w = f := Option.some.inj hf
  exact hr.imp accepted_real id

/-- One call, remembered. -/
theorem ends_call {c : Call} (hx : DryRunFirst (tr ++ [.raised c])) :
    Ends Monitor.history (stmt c) tr (fun r tr' => tr' = tr ++ [.ran c r]) DryRunFirst :=
  Ends.stmt (fun _ => rfl) hx

/-- The two calls of a dry-run and its real call: what was refused for real, if anything, is `w`. -/
theorem ends_apply (h : DryRunFirst tr) : Ends Monitor.history (dryRunThenApply w) tr
    (fun o tr' => DryRunFirst tr' ∧ (o.applied = true → LastAccepted w tr') ∧
      ∀ P, Clean P tr → o.applied = true ∨ P w → Clean P tr') DryRunFirst := by
  refine ends_then (ends_call (h.quiet rfl)) ?_
  rintro dry _ rfl
  split
  next => exact ⟨h.quiet rfl, fun h => (by cases h), fun P hc _ => hc.quiet rfl⟩
  next hd =>
    refine ends_then (ends_call (h.real hd rfl)) ?_
    rintro real _ rfl
    split
    next => exact ⟨h.real hd rfl, fun h => (by cases h), fun P hc hp => (hc.quiet rfl).real (.inr (hp.resolve_left nofun))⟩
    next hr => exact ⟨h.real hd rfl, fun _ => ⟨_, _, rfl, accepted_real hr⟩, fun P hc _ => (hc.quiet rfl).real (.inl hr)⟩

/-- What a function with one mutating call comes to. -/
abbrev Ok (P : Write → Prop) (w : Write) (applied : Bool) (tr : Trace) : Prop :=
  DryRunFirst tr ∧ (applied = true → Clean P tr ∧ LastAccepted w tr)

theorem ends_one (h : Inv P tr) :
    Ends Monitor.history (dryRunThenApply w) tr (fun o => Ok P w o.applied) DryRunFirst :=
  (ends_apply h.first).mono (fun _ _ hq => ⟨hq.1, fun ha => ⟨hq.2.2 P h.clean (.inl ha), hq.2.1 ha⟩⟩) fun _ hx => hx

theorem ends_patch {name ns : Val} {body : Body} (h : Inv P tr) : Ends Monitor.history (patchDeployment name ns body) tr
    (fun o => Ok P ⟨.deployment, name, ns, body⟩ o.applied) DryRunFirst :=
  ends_then (ends_stmt (c := .client) trivial h) fun _ _ hi => ends_one hi

theorem ends_scale {name replicas ns : Val} (h : Inv P tr) : Ends Monitor.history (scale name replicas ns) tr
    (fun o => Ok P ⟨.scale, name, ns, .replicas replicas⟩ o.applied) DryRunFirst :=
  ends_then (ends_stmt (c := .client) trivial h) fun _ _ hi => ends_then (ends_one hi) fun _ _ hq => hq

/-! ## The functions -/

theorem within_ask {c : Call} (hc : c.quiet) : (ask c).Within Call.quiet := by
  refine ⟨hc, fun r => ?_, trivial⟩
  show Code.Within Call.quiet (if r.error.isSome then raise else pure r)
  split <;> trivial

theorem within_wait {name ns count : Val} {timeout : Nat} : (waitForPodCount name ns count timeout).Within Call.quiet := by
  refine ⟨trivial, fun _ => ⟨trivial, fun start => ?_, trivial⟩, trivial⟩
  refine ⟨⟨trivial, fun t => ?_, trivial⟩, fun _ => trivial, trivial⟩
  show Code.Within Call.quiet (if t.now < start.now + timeout then _ else _)
  split
  · refine Code.Within.bind (within_ask trivial) fun pods => ?_
    split
    · trivial
    · exact ⟨trivial, fun _ => trivial, trivial⟩
  · trivial

theorem ends_wait {name ns count : Val} {timeout : Nat} (h : Inv P tr) :
    Ends Monitor.history (waitForPodCount name ns count timeout) tr (fun _ => Inv P) DryRunFirst :=
  ends_quiet within_wait h

theorem ends_record {log : List Progress} {step status : String} {detail : Option String} (h : Inv P tr) :
    Ends Monitor.history (recordStep log step status detail) tr (fun _ => Inv P) DryRunFirst :=
  ends_quiet ⟨trivial, fun _ => trivial, trivial⟩ h

/-- A result that is right for what was done. -/
abbrev Right (a : Action) (res : Result) (tr : Trace) : Prop := DryRunFirst tr ∧ (res.applied = true → a.Done tr)

theorem ends_restart {name ns : Val} : Ends Monitor.history (restartDeployment name ns) []
    (Right (.restartDeployment name ns)) DryRunFirst := by
  refine ends_then (ends_stmt (P := fun _ => False) trivial ⟨preceded_nil, .nil⟩) fun t tr hi => ?_
  exact ends_then (ends_patch hi) fun _ _ ho => ⟨ho.1, fun h => .inl (ho.2 h).1⟩

theorem ends_memory {name container limit ns : Val} : Ends Monitor.history (patchMemoryLimit name container limit ns) []
    (Right (.patchMemoryLimit name container limit ns)) DryRunFirst :=
  ends_then (ends_patch (P := fun _ => False) ⟨preceded_nil, .nil⟩) fun _ _ ho => ⟨ho.1, fun h => .inl (ho.2 h).1⟩

theorem ends_scaleDeployment {name replicas ns : Val} : Ends Monitor.history (scaleDeployment name replicas ns) []
    (Right (.scaleDeployment name replicas ns)) DryRunFirst :=
  ends_then (ends_scale (P := fun _ => False) ⟨preceded_nil, .nil⟩) fun _ _ ho => ⟨ho.1, fun h => .inl (ho.2 h).1⟩

theorem ends_rollback {name ns : Val} : Ends Monitor.history (rollbackDeployment name ns) []
    (Right (.rollbackDeployment name ns)) DryRunFirst := by
  have refused : ∀ {tr : Trace} {e : String}, Inv (fun _ => False) tr →
      Right (.rollbackDeployment name ns) (Applied.result ⟨false, false, some e⟩ "rollback_deployment" name ns .plain) tr :=
    fun hi => ⟨hi.first, fun h => by cases h⟩
  refine ends_then (ends_stmt (P := fun _ => False) trivial ⟨preceded_nil, .nil⟩) fun _ tr hi => ?_
  refine ends_then (ends_stmt trivial hi) fun deployment tr hi => ?_
  split
  · exact refused hi
  split
  · exact hi.first
  refine ends_then (ends_stmt trivial hi) fun rsList tr hi => ?_
  split
  · exact refused hi
  split
  · exact hi.first
  split
  · exact refused hi
  · exact ends_then (ends_patch hi) fun _ _ ho => ⟨ho.1, fun h => .inl (ho.2 h).1⟩

/-- The live pod is resized, or it is not and what was refused is a resize. -/
theorem ends_resize {pod : Option Pod} {container limit ns : Val} (h : Inv (fun _ => False) tr) :
    Ends Monitor.history (resizeFirst pod container limit ns) tr
      (fun o tr => Inv (·.op = .podResize) tr ∧ ∀ x, o = some x → Clean (fun _ => False) tr) DryRunFirst := by
  have hi : Inv (·.op = .podResize) tr := ⟨h.first, h.clean.mono fun _ hf => hf.elim⟩
  cases pod with
  | none => exact ⟨hi, fun _ hx => by cases hx⟩
  | some pod =>
    show Ends Monitor.history (resizeInPlace pod container limit ns) _ _ _
    unfold resizeInPlace
    split
    · exact ⟨hi, fun _ hx => by cases hx⟩
    split
    · exact h.first
    refine ends_then (ends_apply h.first) fun o tr' hq => ?_
    refine ⟨⟨hq.1, hq.2.2 _ hi.clean (.inr rfl)⟩, fun x hx => hq.2.2 _ h.clean (.inl ?_)⟩
    by_contra hn
    rw [if_neg hn] at hx
    cases hx

theorem ends_cpu {name container limit ns : Val} : Ends Monitor.history (patchCpuLimit name container limit ns) []
    (Right (.patchCpuLimit name container limit ns)) DryRunFirst := by
  refine ends_then (ends_stmt (P := fun _ => False) (c := .client) trivial ⟨preceded_nil, .nil⟩) fun _ tr hi => ?_
  refine ends_then (ends_quiet (within_ask trivial) hi) fun pods tr hi => ?_
  refine ends_then (ends_resize hi) fun o tr hi => ?_
  split
  · exact ⟨hi.1.first, fun _ => .inl (hi.2 _ rfl)⟩
  · exact ends_then (ends_patch hi.1) fun o tr ho => ⟨ho.1, fun h => .inr (ho.2 h)⟩

theorem ends_scaleBackUp {name ns replicas : Val} {log : List Progress} (h : Inv P tr) :
    Ends Monitor.history (scaleBackUp name ns replicas log) tr
      (fun x tr => DryRunFirst tr ∧ (x.1.applied = true → Clean P tr)) DryRunFirst := by
  refine ends_then (ends_record h) fun log tr hi => ends_then (ends_scale hi) fun up tr hu => ?_
  split
  next ha =>
    have hi : Inv P tr := ⟨hu.1, (hu.2 ha).1⟩
    refine ends_then (ends_record hi) fun log tr hi => ends_then (ends_record hi) fun log tr hi => ?_
    refine ends_then (ends_wait hi) fun podBack tr hi => ?_
    split
    · exact ends_then (ends_record hi) fun log tr hi => ⟨hi.first, fun _ => hi.clean⟩
    · exact ends_then (ends_record hi) fun log tr hi => ⟨hi.first, fun _ => hi.clean⟩
  next ha => exact ends_then (ends_record hu.1.any) fun log tr hi => ⟨hi.first, fun h => absurd h ha⟩

theorem ends_restore {name ns replicas : Val} : Ends Monitor.history (restoreFromDiskFull name ns replicas) []
    (Right (.restoreFromDiskFull name ns replicas)) DryRunFirst := by
  show Ends Monitor.history (if name.hashable && ns.hashable then _ else raise) _ _ _
  split
  next =>
    refine ends_then (ends_record (P := fun _ => False) ⟨preceded_nil, .nil⟩) fun log tr hi => ?_
    refine ends_then (ends_scale hi) fun down tr hd => ?_
    split
    next ha =>
      have hi : Inv (fun _ => False) tr := ⟨hd.1, (hd.2 ha).1⟩
      refine ends_then (ends_record hi) fun log tr hi => ends_then (ends_record hi) fun log tr hi => ?_
      refine ends_then (ends_wait hi) fun podGone tr hi => ends_then (ends_record hi) fun log tr hi => ?_
      refine ends_then (ends_scaleBackUp hi) ?_
      rintro ⟨up, log⟩ tr hu
      show Ends Monitor.history (if podGone then _ else _) _ _ _
      split
      next =>
        have hi : Inv (fun _ => up.applied = false) tr := by
          refine ⟨hu.1, fun d hd w hw => ?_⟩
          cases hx : up.applied with
          | false => exact .inr rfl
          | true => exact (hu.2 hx d hd w hw).imp id False.elim
        refine ends_then (ends_record hi) fun log tr hi => ⟨hi.first, fun ha => .inl (hi.clean.mono fun _ hf => ?_)⟩
        rw [hf] at ha
        cases ha
      next => exact ends_then (ends_record hu.1.any) fun log tr hi => ⟨hi.first, fun h => by cases h⟩
    next ha => exact ends_then (ends_record hd.1.any) fun log tr hi => ⟨hi.first, fun h => by cases h⟩
  next => exact preceded_nil

end Steps

/-! ## Every action -/

theorem Action.ends (a : Action) : Ends Monitor.history a.run [] (Right a) DryRunFirst := by
  cases a with
  | restartDeployment => exact ends_restart
  | patchMemoryLimit => exact ends_memory
  | patchCpuLimit => exact ends_cpu
  | scaleDeployment => exact ends_scaleDeployment
  | rollbackDeployment => exact ends_rollback
  | restoreFromDiskFull => exact ends_restore

/-- Whatever the API server answers: each real mutating call comes after a successful dry-run of the
same, and `applied` says that all of them succeeded, or that the fallback did. -/
theorem dry_run_first (a : Action) {tr : Trace} {r : Option Result} (h : a.run.Runs tr r) :
    DryRunFirst tr ∧ ∀ res, r = some res → res.applied = true → a.Done tr := by
  obtain ⟨hres, hraised⟩ := h.ends a.ends
  rw [Monitor.history_after, List.nil_append] at hres hraised
  cases r with
  | none => exact ⟨hraised rfl, fun _ hr => by cases hr⟩
  | some res =>
    refine ⟨(hres res rfl).1, ?_⟩
    rintro _ ⟨⟩ ha
    exact (hres res rfl).2 ha

def catalogue : Val := .str "catalogue"
def sockShop : Val := .str "sock-shop"

/-- Down to nothing: accepted for real after its dry-run. -/
def scaledDown : Trace :=
  [.ran .client {}, .ran (.patch ⟨.scale, catalogue, sockShop, .replicas (.int 0)⟩ true) {},
    .ran (.patch ⟨.scale, catalogue, sockShop, .replicas (.int 0)⟩ false) {}]

theorem dry_run_first_scaled : DryRunFirst scaledDown ∧ (Action.scaleDeployment catalogue (.int 0) sockShop).Done scaledDown := by
  have hr : (Action.scaleDeployment catalogue (.int 0) sockShop).run.Runs scaledDown
      (some ⟨"scale_deployment", catalogue, sockShop, some true, true, none, .scale (.int 0)⟩) :=
    runs_play 10 [some {}, some {}, some {}] rfl
  exact ⟨(dry_run_first _ hr).1, (dry_run_first _ hr).2 _ rfl rfl⟩

/-- The one live pod of a workload, with no limits set. -/
def livePod : Reply := { pods := [⟨"catalogue-1", some "Running", [⟨"catalogue", none⟩]⟩] }

def resize : Write :=
  ⟨.podResize, .str "catalogue-1", sockShop, .resources catalogue { limits := some (some (Dict.set ∅ "cpu" (.str "500m"))) }⟩

def fallback : Write := ⟨.deployment, catalogue, sockShop, .limits catalogue "cpu" (.str "500m")⟩

/-- The resize passes its dry-run and is refused, and the Deployment is patched instead. -/
def resizeRefused : Trace :=
  [.ran .client {}, .ran (.listPods catalogue sockShop) livePod, .ran (.patch resize true) {},
    .ran (.patch resize false) { error := some "403: Forbidden" }, .ran .client {}, .ran (.patch fallback true) {},
    .ran (.patch fallback false) {}]

theorem applied_resizeRefused : ¬ ∀ (a : Action) (tr : Trace) (res : Result), a.run.Runs tr (some res) → res.applied = true →
    Clean (fun _ => False) tr := by
  intro h
  have hr : (Action.patchCpuLimit catalogue catalogue (.str "500m") sockShop).run.Runs resizeRefused
      (some ⟨"patch_cpu_limit", catalogue, sockShop, some true, true, none,
        .cpu catalogue (.str "500m") "deployment_patch_fallback" none⟩) :=
    runs_play 20 [some {}, some livePod, some {}, some { error := some "403: Forbidden" }, some {}, some {}, some {}] rfl
  have hc := h _ _ _ hr rfl (.ran (.patch resize false) { error := some "403: Forbidden" }) (by simp [resizeRefused]) resize rfl
  simp [accepted] at hc

end Wardence.Actions
