import Wardence.Installer.Script
/-!
# Installs and rollbacks

Any sequence of runs of the installer, each of which may end at any step. A rollback takes the
latest backup, and an install makes the ConfigMap again by deleting it first: both are right only
as long as no install is rerun on a Deployment that has the agent.
-/
namespace Wardence.Installer

open Scripts

/-! ## A sequence of runs -/

inductive Run where
  | install (sourceBytes ts now : Nat) (env : Environment)
  | rollback (env : Environment)

def Run.exec : Run → World → World
  | .install sourceBytes ts now env, w => (Installer.install sourceBytes ts now env w).2
  | .rollback env, w => (Installer.rollback env w).2

/-- The next pod can start. -/
def World.Startable (w : World) : Prop := w.live.references = true → w.configMap = true

/-- A rollback in `w` applies a backup. -/
def Applies (env : Environment) (w : World) : Prop := w.latest.isSome = true ∧ (env .applyBackup).takes = true

/-- A rollback that applies a backup leaves `original`, and the next pod can start after the run. -/
def Run.Right (original : Spec) (w : World) (r : Run) : Prop :=
  (match r with
    | .install .. => True
    | .rollback env => Applies env w → (r.exec w).live = original) ∧
  (r.exec w).Startable

/-- An install gets to the ConfigMap, and ends with the ConfigMap deleted and not made again. -/
def LosesConfigMap (sourceBytes : Nat) (env : Environment) (w : World) : Prop :=
  (buildJar sourceBytes env w).1.isSome = true ∧ (preflightReads env w).1.isSome = true ∧ (env .deleteConfigMap).takes = true ∧
    ¬ ((env .deleteConfigMap).goesOn = true ∧ (env .createConfigMap).takes = true)

/-- The latest backup, if it is applied, is of a Deployment without the agent; an install on a Deployment with it does not lose
the ConfigMap. -/
def Run.Meets (w : World) : Run → Prop
  | .install sourceBytes _ _ env => w.live.references = true → ¬ LosesConfigMap sourceBytes env w
  | .rollback env => Applies env w → (w.latest.all fun b => !b.spec.references) = true

def AllRight (original : Spec) : World → List Run → Prop
  | _, [] => True
  | w, r :: rs => r.Right original w ∧ AllRight original (r.exec w) rs

def AllMeet : World → List Run → Prop
  | _, [] => True
  | w, r :: rs => r.Meets w ∧ AllMeet (r.exec w) rs

/-- None of the agent's volumes, and no other reference to its ConfigMap. -/
def WithoutAgent (d : Spec) : Prop := (∀ v ∈ d.volumes, v.name ≠ "agent-src") ∧ d.references = false

/-! ### What a patch adds -/

theorem mem_addNamed {α : Type} {name : α → String} {x y : α} {xs : List α} (h : y ∈ xs) : y ∈ addNamed name x xs := by
  unfold addNamed
  split
  · exact h
  · exact List.mem_append_left _ h

theorem addNamed_new {α : Type} {name : α → String} {x : α} {xs : List α} (h : ∀ y ∈ xs, name y ≠ name x) : x ∈ addNamed name x xs := by
  unfold addNamed
  rw [if_neg]
  · exact List.mem_append_right _ (.head _)
  · simpa using h

theorem references_iff (d : Spec) : d.references = true ↔ ∃ v ∈ d.volumes, v.source = .configMap CONFIGMAP_NAME := by
  simp [Spec.references]

theorem patchSpec_volumes {d d' : Spec} (h : patchSpec d = some d') : d'.volumes = patchVolumes d.volumes := by
  simp only [patchSpec, Option.bind_eq_bind, Option.bind_eq_some_iff, Option.pure_def, Option.some.injEq] at h
  obtain ⟨main, -, javaOptsEnv, -, orig, -, rfl⟩ := h
  rfl

/-- A patch installs the agent, and does not uninstall it. -/
theorem patchSpec_references {original d d' : Spec} (ho : WithoutAgent original) (hd : d = original ∨ d.references = true)
    (h : patchSpec d = some d') : d'.references = true := by
  rw [references_iff, patchSpec_volumes h]
  rcases hd with rfl | hd
  · exact ⟨_, mem_addNamed (mem_addNamed (addNamed_new ho.1)), rfl⟩
  · obtain ⟨v, hv, hsource⟩ := (references_iff d).1 hd
    exact ⟨v, mem_addNamed (mem_addNamed (mem_addNamed hv)), hsource⟩

theorem latest_mem {w : World} {b : Backup} (h : w.latest = some b) : b ∈ w.backups.getD [] :=
  (List.mem_insertionSort _).1 (List.mem_of_getLast? h)

/-! ### The parts that only look -/

theorem pollLoaded_quiet (status beat : Nat → Step) (left : Nat) : Quiet (pollLoaded status beat left) := by
  induction left with
  | zero => exact .pure _
  | succ left ih => exact (Quiet.look _).bind fun _ => (Quiet.look _).bind fun _ => .ite (.pure _) ih

theorem pollReady_quiet (left : Nat) : Quiet (pollReady left) := by
  induction left with
  | zero => exact .pure _
  | succ left ih => exact (Quiet.look _).bind fun _ => .ite (.pure _) ih

theorem buildJar_quiet (sourceBytes : Nat) : Quiet (buildJar sourceBytes) := by
  unfold buildJar
  repeat' first
    | with_reducible refine Quiet.bind (Quiet.look _) fun _ => ?_
    | with_reducible refine Quiet.bind (Quiet.check _) fun _ => ?_
    | exact Quiet.pure _

theorem preflightReads_quiet : Quiet preflightReads :=
  (Quiet.look _).bind fun _ => (Quiet.look _).bind fun _ => (Quiet.look _).bind fun _ => .pure _

theorem preflightCheck_quiet (c : Prop) [Decidable c] : Quiet (preflightCheck c) :=
  .ite (.pure _) ((Quiet.look _).bind fun _ => .abort)

theorem preflightPod_quiet : Quiet preflightPod := by
  unfold preflightPod
  repeat' first
    | with_reducible refine Quiet.bind (Quiet.look _) fun _ => ?_
    | with_reducible refine Quiet.bind (Quiet.check _) fun _ => ?_
    | with_reducible refine Quiet.bind (preflightCheck_quiet _) fun _ => ?_
    | with_reducible refine Quiet.bind (pollLoaded_quiet _ _ _) fun _ => ?_
    | exact Quiet.pure _

theorem waitAndVerify_quiet (jarBytes : Nat) : Quiet (waitAndVerify jarBytes) := by
  unfold waitAndVerify
  repeat' first
    | with_reducible refine Quiet.bind (Quiet.look _) fun _ => ?_
    | with_reducible refine Quiet.bind (Quiet.check _) fun _ => ?_
    | with_reducible refine Quiet.bind (pollReady_quiet _) fun _ => ?_
    | with_reducible refine Quiet.bind (pollLoaded_quiet _ _ _) fun _ => ?_
    | exact Quiet.check _

/-! ### What a run leaves -/

/-- A rollback makes the latest backup live, or leaves everything as it is. -/
structure RolledBack (env : Environment) (w w' : World) : Prop where
  backups : w'.backups = w.backups
  live : Applies env w → ∃ b, w.latest = some b ∧ w'.live = b.spec
  idle : ¬ Applies env w → w' = w

/-- What an install that has the ConfigMap leaves. -/
structure Passed (w w' : World) : Prop where
  configMap : w'.configMap = w.configMap
  backups : ∀ b ∈ w'.backups.getD [], b ∈ w.backups.getD [] ∨ b.spec = w.live
  live : w'.live = w.live ∨ ∃ d t, patchSpec w.live = some d ∧ w'.live = { d with restartedAt := t }

/-- What an install leaves that may have lost the ConfigMap. -/
structure Ended (lost : Prop) (w w' : World) : Prop where
  backups : ∀ b ∈ w'.backups.getD [], b ∈ w.backups.getD [] ∨ b.spec = w.live
  live : w'.live = w.live ∨ w'.configMap = true ∧ ∃ d t, patchSpec w.live = some d ∧ w'.live = { d with restartedAt := t }
  kept : ¬ lost → w.configMap = true → w'.configMap = true
  gone : lost → w'.live = w.live ∧ w'.configMap = false

section Runs
variable {env : Environment} {w w' : World} {lost : Prop}

theorem Ended.refl (h : ¬ lost) : Ended lost w w := ⟨fun _ hb => .inl hb, .inl rfl, fun _ hc => hc, fun hl => absurd hl h⟩

theorem Passed.refl : Passed w w := ⟨rfl, fun _ hb => .inl hb, .inl rfl⟩

theorem Passed.trans {w₁ w₂ : World} (h₁ : Passed w w₁) (hlive : w₁.live = w.live) (h₂ : Passed w₁ w₂) : Passed w w₂ where
  configMap := h₂.configMap.trans h₁.configMap
  backups b hb := by
    rcases h₂.backups b hb with hb | hb
    · exact h₁.backups b hb
    · exact .inr (hb.trans hlive)
  live := hlive ▸ h₂.live

theorem Passed.ended (h : Passed { w with configMap := true } w') (hl : ¬ lost) : Ended lost w w' where
  backups := h.backups
  live := h.live.imp_right fun hd => ⟨h.configMap, hd⟩
  kept _ _ := h.configMap
  gone hlost := absurd hlost hl

/-- Only the ConfigMap is another one. -/
theorem Ended.map {c : Bool} (hkept : ¬ lost → w.configMap = true → c = true) (hgone : lost → c = false) :
    Ended lost w { w with configMap := c } := ⟨fun _ hb => .inl hb, .inl rfl, hkept, fun hl => ⟨rfl, hgone hl⟩⟩

/-- The ConfigMap is there when the script goes on; when it does not, the ConfigMap may be gone. -/
theorem renewConfigMap_triple (hlost : lost ↔ (env .deleteConfigMap).takes = true ∧
      ¬ ((env .deleteConfigMap).goesOn = true ∧ (env .createConfigMap).takes = true)) :
    Triple env w renewConfigMap (fun _ w' => w' = { w with configMap := true } ∧ ¬ lost) (Ended lost w) := by
  refine Triple.bind (Triple.step (Q := fun _ w' => (env .deleteConfigMap).goesOn = true ∧
    w' = { w with configMap := if (env .deleteConfigMap).takes then false else w.configMap }) ?_ ?_) ?_
  · intro hgo r _
    refine ⟨hgo, ?_⟩
    split <;> rfl
  · intro hstop
    rw [hstop] at hlost
    cases ht : (env .deleteConfigMap).takes with
    | true => exact .map (fun hl => absurd (hlost.2 ⟨ht, by simp⟩) hl) fun _ => rfl
    | false => exact .refl fun hl => by simp [ht] at hlost; exact hlost hl
  rintro _ _ ⟨hgo, rfl⟩
  simp only [hgo, true_and, Bool.not_eq_true] at hlost
  have hmade : (env .createConfigMap).takes = true → ¬ lost := fun ht hl => by simp [(hlost.1 hl).2] at ht
  have hnot : (env .createConfigMap).takes = false →
      Ended lost w { w with configMap := if (env .deleteConfigMap).takes then false else w.configMap } := by
    intro ht
    refine .map (fun hl hc => ?_) fun hl => by rw [(hlost.1 hl).1]; rfl
    rw [if_neg fun hd => hl (hlost.2 ⟨hd, ht⟩)]
    exact hc
  refine Triple.bind (Triple.step (Q := fun r w' => (w' = { w with configMap := true } ∧ ¬ lost) ∨ r.ok = false ∧ Ended lost w w') ?_ ?_) ?_
  · intro _ r hr
    cases ht : (env .createConfigMap).takes with
    | true => exact .inl ⟨rfl, hmade ht⟩
    | false => exact .inr ⟨by cases hr' : r.ok <;> simp_all, hnot ht⟩
  · intro _
    cases ht : (env .createConfigMap).takes with
    | true => exact .map (fun _ _ => rfl) fun hl => absurd hl (hmade ht)
    | false => exact hnot ht
  · rintro r w' (⟨rfl, hl⟩ | ⟨hr, he⟩)
    · exact Triple.check (fun _ => ⟨rfl, hl⟩) fun _ => .map (fun _ _ => rfl) fun h => absurd h hl
    · exact Triple.check (fun h => by simp [hr] at h) fun _ => he

/-- The backup is of the live spec. -/
theorem backupCurrentSpec_triple (ts : Nat) :
    Triple env w (backupCurrentSpec ts) (fun _ w' => Passed w w' ∧ w'.live = w.live) fun w' => Passed w w' := by
  have hwrite : ∀ w', Passed w w' → w'.live = w.live → Passed w (w'.write ts) := by
    intro w' h hlive
    refine ⟨h.configMap, fun b hb => ?_, .inl hlive⟩
    rcases List.mem_cons.1 hb with rfl | hb
    · exact .inr hlive
    · exact h.backups b (List.mem_filter.1 hb).1
  refine Triple.bind (Triple.either (I := fun w' => Passed w w' ∧ w'.live = w.live) ?_ ⟨.refl, rfl⟩ fun _ h => h.1) ?_
  · exact ⟨⟨rfl, fun b hb => .inl hb, .inl rfl⟩, rfl⟩
  rintro _ w' ⟨h, hlive⟩
  refine Triple.look_bind (fun got => Triple.check_bind (fun _ => ?_) fun _ => h) h
  exact Triple.bind (Triple.either (I := fun w' => Passed w w' ∧ w'.live = w.live) ⟨hwrite _ h hlive, hlive⟩ ⟨h, hlive⟩ fun _ h => h.1)
    fun _ _ h => h

/-- The live spec is patched, or as it was. -/
theorem patchDeployment_triple (now : Nat) : Triple env w (patchDeployment now) (fun _ w' => Passed w w') fun w' => Passed w w' := by
  refine Triple.look_bind (fun got => Triple.check_bind (fun _ => Triple.world_bind ?_) fun _ => .refl) .refl
  cases hd : patchSpec w.live with
  | none => exact Triple.abort .refl
  | some d =>
    have hpatched : ∀ t, Passed w { w with live := { d with restartedAt := t } } :=
      fun t => ⟨rfl, fun b hb => .inl hb, .inr ⟨d, t, hd, rfl⟩⟩
    refine Triple.bind (P := fun r w' => Passed w w' ∧ (r.ok = true → w' = { w with live := d })) (Triple.step ?_ ?_) ?_
    · intro _ r hr
      split
      · exact ⟨hpatched d.restartedAt, fun _ => rfl⟩
      · rename_i ht
        exact ⟨.refl, fun h => absurd (hr h) ht⟩
    · intro _
      split
      · exact hpatched d.restartedAt
      · exact .refl
    rintro apply w' ⟨h, hok⟩
    refine Triple.check_bind (fun happlied => ?_) fun _ => h
    obtain rfl := hok happlied
    exact Triple.bind (Triple.either (I := Passed w) (hpatched (some now)) (hpatched d.restartedAt) fun _ h => h) fun r w' h =>
      Triple.check (fun _ => h) fun _ => h

theorem install_ended (sourceBytes ts now : Nat) (env : Environment) (w : World) :
    Ended (LosesConfigMap sourceBytes env w) w (install sourceBytes ts now env w).2 := by
  refine Triple.last (Triple.bind ((buildJar_quiet sourceBytes).triple env w |>.mono (fun _ _ h => h) ?_) ?_)
  · rintro w ⟨rfl, hnone⟩
    exact .refl fun hl => by simpa [hnone] using hl.1
  rintro jarBytes w ⟨rfl, hbuilt⟩
  refine Triple.bind (P := fun _ w' => w' = { w with configMap := true } ∧ ¬ LosesConfigMap sourceBytes env w) ?_ ?_
  · refine Triple.bind ((preflightReads_quiet.triple env w).mono (fun _ _ h => h) ?_) ?_
    · rintro w ⟨rfl, hnone⟩
      exact .refl fun hl => by simpa [hnone] using hl.2.1
    rintro _ w ⟨rfl, hread⟩
    refine Triple.bind (renewConfigMap_triple (by simp [LosesConfigMap, hbuilt, hread])) ?_
    rintro _ _ ⟨rfl, hl⟩
    refine (preflightPod_quiet.triple env _).mono (fun _ _ h => ⟨h.1, hl⟩) ?_
    rintro _ ⟨rfl, -⟩
    exact Passed.refl.ended hl
  rintro _ _ ⟨rfl, hl⟩
  refine Triple.bind ((backupCurrentSpec_triple ts).mono (fun _ _ h => h) fun _ h => h.ended hl) ?_
  rintro _ w₁ ⟨h₁, hlive⟩
  refine Triple.bind ((patchDeployment_triple now).mono (fun _ _ h => h₁.trans hlive h) fun _ h => (h₁.trans hlive h).ended hl) ?_
  rintro _ w₂ h₂
  refine ((waitAndVerify_quiet jarBytes).triple env w₂).mono ?_ ?_
  · rintro _ _ ⟨rfl, -⟩
    exact h₂.ended hl
  · rintro _ ⟨rfl, -⟩
    exact h₂.ended hl

theorem rollback_ended (env : Environment) (w : World) : RolledBack env w (rollback env w).2 := by
  refine Triple.last (Triple.world_bind ?_)
  split
  · rename_i backups latest hb hlatest
    have happlies : Applies env w ↔ (env .applyBackup).takes = true := by simp [Applies, hlatest]
    have hstep : RolledBack env w (if (env .applyBackup).takes then { w with live := latest.spec } else w) := by
      split
      · rename_i ht
        exact ⟨rfl, fun _ => ⟨latest, hlatest, rfl⟩, fun hn => absurd (happlies.2 ht) hn⟩
      · rename_i ht
        exact ⟨rfl, fun ha => absurd (happlies.1 ha) ht, fun _ => rfl⟩
    refine Triple.bind (P := fun r w' => RolledBack env w w' ∧ (r.ok = true → Applies env w)) (Triple.step ?_ fun _ => hstep) ?_
    · exact fun _ r hr => ⟨hstep, fun hok => happlies.2 (hr hok)⟩
    rintro apply w' ⟨h, happly⟩
    refine Triple.check_bind (fun hok => Triple.look_bind (fun _ => ?_) h) fun _ => h
    exact Triple.bind (Triple.either (I := RolledBack env w) ⟨h.backups, h.live, fun hn => absurd (happly hok) hn⟩ h fun _ h => h)
      fun _ _ h => h
  · rename_i hnone
    refine Triple.abort ⟨rfl, fun ha => ?_, fun _ => rfl⟩
    obtain ⟨b, hb⟩ := Option.isSome_iff_exists.1 ha.1
    have hmem := latest_mem hb
    cases hdir : w.backups with
    | none =>
      rw [hdir] at hmem
      cases hmem
    | some backups => exact absurd hb (hnone backups b hdir)

end Runs

/-! ### Every sequence of runs -/

structure Inv (original : Spec) (w : World) : Prop where
  live : w.live = original ∨ w.live.references = true
  backups : ∀ b ∈ w.backups.getD [], b.spec = original ∨ b.spec.references = true
  startable : w.Startable

section Step
variable {original : Spec} {w : World}

theorem install_inv (ho : WithoutAgent original) (h : Inv original w) {lost : Prop} {w' : World} (he : Ended lost w w') :
    (w'.live = original ∨ w'.live.references = true) ∧ ∀ b ∈ w'.backups.getD [], b.spec = original ∨ b.spec.references = true := by
  constructor
  · rcases he.live with hlive | ⟨-, d, t, hd, hlive⟩
    · rw [hlive]
      exact h.live
    · rw [hlive]
      have hagent : d.references = true := patchSpec_references ho h.live hd
      exact .inr hagent
  · intro b hb
    rcases he.backups b hb with hb | hb
    · exact h.backups b hb
    · rw [hb]
      exact h.live

theorem install_startable (h : Inv original w) {lost : Prop} {w' : World} (he : Ended lost w w') :
    w'.Startable ↔ (w.live.references = true → ¬ lost) := by
  constructor
  · intro hs href hl
    obtain ⟨hlive, hgone⟩ := he.gone hl
    have := hs (hlive ▸ href)
    rw [hgone] at this
    cases this
  · intro hkept href
    rcases he.live with hlive | ⟨hcm, -⟩
    · rw [hlive] at href
      exact he.kept (hkept href) (h.startable href)
    · exact hcm

/-- A rollback is right when the backup it applies is of a Deployment without the agent. -/
theorem rollback_right (ho : WithoutAgent original) (h : Inv original w) {env : Environment} {w' : World} (hr : RolledBack env w w') :
    ((Applies env w → w'.live = original) ∧ w'.Startable) ↔ (Applies env w → (w.latest.all fun b => !b.spec.references) = true) := by
  by_cases ha : Applies env w
  · obtain ⟨b, hb, hlive⟩ := hr.live ha
    have hcases := h.backups b (latest_mem hb)
    simp only [ha, true_imp_iff, hb, Option.all_some, Bool.not_eq_true', hlive]
    constructor
    · rintro ⟨rfl, -⟩
      exact ho.2
    · intro hclean
      obtain rfl := hcases.resolve_right (by simp [hclean])
      refine ⟨rfl, fun href => ?_⟩
      rw [hlive, hclean] at href
      cases href
  · rw [hr.idle ha]
    simp [ha, h.startable]

theorem right_iff_meets (ho : WithoutAgent original) (h : Inv original w) (r : Run) : r.Right original w ↔ r.Meets w := by
  cases r with
  | install sourceBytes ts now env =>
    simp only [Run.Right, Run.Meets, true_and]
    exact install_startable h (install_ended sourceBytes ts now env w)
  | rollback env => exact rollback_right ho h (rollback_ended env w)

theorem exec_inv (ho : WithoutAgent original) (h : Inv original w) {r : Run} (hr : r.Right original w) : Inv original (r.exec w) := by
  cases r with
  | install sourceBytes ts now env =>
    obtain ⟨hlive, hbackups⟩ := install_inv ho h (install_ended sourceBytes ts now env w)
    exact ⟨hlive, hbackups, hr.2⟩
  | rollback env =>
    have hback : RolledBack env w ((Run.rollback env).exec w) := rollback_ended env w
    refine ⟨?_, by rw [hback.backups]; exact h.backups, hr.2⟩
    by_cases ha : Applies env w
    · exact .inl (hr.1 ha)
    · rw [hback.idle ha]
      exact h.live

theorem allRight_iff (ho : WithoutAgent original) (h : Inv original w) (runs : List Run) : AllRight original w runs ↔ AllMeet w runs := by
  induction runs generalizing w with
  | nil => rfl
  | cons r rs ih =>
    constructor
    · rintro ⟨hr, hrs⟩
      exact ⟨(right_iff_meets ho h r).1 hr, (ih (exec_inv ho h hr)).1 hrs⟩
    · rintro ⟨hm, hms⟩
      have hr := (right_iff_meets ho h r).2 hm
      exact ⟨hr, (ih (exec_inv ho h hr)).2 hms⟩

end Step

/-- A rollback restores the Deployment from before the first install, and the next pod can always start, exactly when no rollback
takes a backup of a Deployment with the agent and no install on such a Deployment loses the ConfigMap. -/
theorem rollback_restores {original : Spec} (ho : WithoutAgent original) (configMap : Bool) (runs : List Run) :
    AllRight original ⟨original, configMap, none⟩ runs ↔ AllMeet ⟨original, configMap, none⟩ runs := by
  refine allRight_iff ho ⟨.inl rfl, ?_, ?_⟩ runs
  · intro b hb
    cases hb
  · intro href
    rw [ho.2] at href
    cases href

/-! ### Rerun, and rolled back -/

instance (env : Environment) (w : World) : Decidable (Applies env w) := inferInstanceAs (Decidable (_ ∧ _))

instance (sourceBytes : Nat) (env : Environment) (w : World) : Decidable (LosesConfigMap sourceBytes env w) :=
  inferInstanceAs (Decidable (_ ∧ _ ∧ _ ∧ ¬ (_ ∧ _)))

instance (w : World) : ∀ r : Run, Decidable (r.Meets w)
  | .install .. => inferInstanceAs (Decidable (_ → _))
  | .rollback _ => inferInstanceAs (Decidable (_ → _))

instance decidableAllMeet : ∀ (w : World) (rs : List Run), Decidable (AllMeet w rs)
  | _, [] => .isTrue trivial
  | w, r :: rs => @instDecidableAnd _ _ inferInstance (decidableAllMeet (r.exec w) rs)

/-- `shipping`, before the agent. -/
def shipping : Spec where
  minReadySeconds := none
  strategy := none
  restartedAt := none
  containers := [⟨"shipping", "shipping:0.4.8", [⟨"JAVA_OPTS", some "-Xms64m -Xmx128m"⟩], [⟨"tmp-volume", "/tmp"⟩]⟩]
  volumes := [⟨"tmp-volume", .emptyDir (some "Memory") none⟩]
  initContainers := []

/-- Everything goes well. -/
def smooth : Environment
  | .sourceBytes => .ok ⟨"52000 /tmp/wardence/LeakAgent.java", some 52000, 35⟩
  | .build => .ok ⟨"BUILD_OK", none, 9⟩
  | .catJar => .ok ⟨"", none, 18000⟩
  | .jarBytes | .inPodBytes => .ok ⟨"18000 leak-agent.jar", some 18000, 21⟩
  | .allocated => .ok ⟨"state=ALLOCATED", none, 15⟩
  | _ => .ok ⟨"ok", none, 3⟩

theorem rollback_restores_once : AllRight shipping ⟨shipping, false, none⟩ [.install 52000 1 2 smooth, .rollback smooth] :=
  (rollback_restores ⟨by decide, by decide⟩ false _).2 (by decide +kernel)

/-- Installed, rerun for a new jar, and rolled back: the agent stays, without its ConfigMap. -/
theorem rerun_unrestored :
    ¬ AllRight shipping ⟨shipping, false, none⟩ [.install 52000 1 2 smooth, .install 52000 3 4 smooth, .rollback smooth] := by
  rintro ⟨-, -, ⟨hlive, hstart⟩, -⟩
  exact absurd (hlive (by decide +kernel)) (by decide +kernel)

end Wardence.Installer
