import Wardence.Batch.Runs
/-!
# No injection inside the recency window

The stamps the script has in memory are those it took, and before an injection
it waits for the one on its target to leave the window: unless a Ctrl+C ends the
wait, the clock is set back during it, or the script dies before it has saved a
stamp.
-/
namespace Wardence.Batch.Recency

open Threads Code

abbrev Stamps := List (String × Nat)

/-- The file has every stamp that the plan's runs have taken. -/
def Saved (w : World) : Prop := ∀ ps ∈ w.unfinished, ps.lastFaultTime = w.stamped

instance (w : World) : Decidable (Saved w) := inferInstanceAs (Decidable (∀ ps ∈ w.unfinished, _))

/-- The last of the stamps on the target of `c` is out of its window in `r` seconds. -/
def Clears (l : Stamps) (c : String) (t : Nat) : Prop :=
  ∀ at' last, FAULT_CONFIG.lookup c = some at' → l.lookup at'.1 = some last → last + recencyWindow c ≤ t

/-! ## The discipline -/

/-- How far the script is, with the stamps it has in memory; `dirty`: some may not be saved. -/
inductive Phase where
  | idle
  | fresh
  | blank
  | dead
  | held (l : Stamps) (dirty : Bool)
  /-- In the wait for class `c`, with `r` seconds to go; and asleep for a chunk, until `t`. -/
  | waiting (l : Stamps) (dirty : Bool) (c : String) (r : Nat)
  | asleep (l : Stamps) (dirty : Bool) (c : String) (r t : Nat)
  /-- A Ctrl+C has ended the wait. -/
  | cut (l : Stamps) (dirty : Bool)

/-- The statements that change nothing a phase speaks of. -/
def Calm : Stmt → Prop
  | .checkStop | .stamp _ | .loadPlan | .newPlan _ | .savePlan _ | .archivePlan | .startInjector _ | .finish => False
  | _ => True

inductive Rule : Phase → Stmt → World → Phase → Prop
  | calm {l d s w} : Calm s → Rule (.held l d) s w (.held l d)
  | begin {w} : Rule .fresh .look w .fresh
  | reap {pid w} : Rule .dead (.kill pid) w .dead
  -- the plan
  | load {ps w} : w.unfinished = some ps → Rule .fresh .loadPlan w (.held ps.lastFaultTime false)
  | missing {w} : w.unfinished = none → Rule .fresh .loadPlan w .blank
  | new {items w} : Rule .blank (.newPlan (startOf items)) w (.held [] false)
  | save {l d ps w} : ps.lastFaultTime = l → Rule (.held l d) (.savePlan ps) w (.held l false)
  | archive {l w} : Rule (.held l false) .archivePlan w (.held l false)
  | finish {φ w} : (∃ l, φ = .held l false) ∨ φ = .blank → Rule φ .finish w .idle
  -- the wait
  | enter {l d c r w} : Clears l c (w.clock + r) → Rule (.held l d) .look w (.waiting l d c r)
  | goOn {l d c r w} : w.stopRequested = false → Rule (.waiting l d c r) .checkStop w (.waiting l d c r)
  | stop {l d c r w} : w.stopRequested = true → Rule (.waiting l d c r) .checkStop w (.cut l d)
  | doze {l d c r n w} : n ≤ r → Rule (.waiting l d c r) .look w (.asleep l d c (r - n) (w.uptime + n))
  | wake {l d c r t w} : Rule (.asleep l d c r t) (.sleepUntil t) w (.waiting l d c r)
  -- the injection
  | first {l d c w} : (∀ t, Clears l c t) → Rule (.held l d) (.startInjector c) w (.held l d)
  | inject {l d c w} : Rule (.waiting l d c 0) (.startInjector c) w (.held l d)
  | barge {l d c w} : Rule (.cut l d) (.startInjector c) w (.held l d)
  | stamp {l d target w} : Rule (.held l d) (.stamp target) w (.held (put l target w.clock) true)

/-- The phase after an exception. -/
def Phase.fault : Phase → Phase
  | .idle => .idle
  | _ => .dead

def discipline : Typestate World Stmt (Option (List Item)) Phase where
  entry _ := .fresh
  rule := Rule
  fault φ _ := φ.fault
  rests _ := True
  mine _ _ := True
  mine_entry _ := trivial
  mine_rule _ _ := trivial
  mine_fault _ _ := trivial

/-! ## The script keeps to it -/

section Programs
variable {α β : Type} {φ φ' : Phase} {s : Stmt} {l : Stamps} {d : Bool} {c : String}

abbrev Keeps (p : Routine α) (φ : Phase) (Q : α → Phase → Prop) : Prop := Obeys batch discipline p φ Q fun _ => True

theorem keeps_bind {p : Routine α} {f : α → Routine β} {Q : β → Phase → Prop}
    (h : Keeps p φ fun a ψ => Keeps (f a) ψ Q) : Keeps (p >>= f) φ Q := Obeys.graft (h.mono (fun _ _ h => h) fun _ _ => trivial)

theorem keeps_then {p : Routine α} {f : α → Routine β} {P : α → Phase → Prop} {Q : β → Phase → Prop} (hp : Keeps p φ P)
    (hf : ∀ a ψ, P a ψ → Keeps (f a) ψ Q) : Keeps (p >>= f) φ Q := keeps_bind (hp.mono hf fun _ h => h)

theorem keeps_stmt {Q : World → Phase → Prop} (h : ∀ w, ∃ φ', Rule φ s w φ' ∧ Q w φ') : Keeps (stmt s) φ Q :=
  ⟨fun w _ _ => h w, trivial⟩

theorem keeps_exec {Q : Unit → Phase → Prop} (h : ∀ w, ∃ φ', Rule φ s w φ' ∧ Q () φ') : Keeps (exec s) φ Q :=
  ⟨fun w _ _ => h w, trivial⟩

/-- Still with the stamps `l` in memory. -/
abbrev Holds (l : Stamps) (d : Bool) (φ : Phase) : Prop := φ = .held l d

theorem keeps_calm {p : Routine α} (hp : p.Only Calm) : Keeps p (.held l d) fun _ => Holds l d :=
  hp.obeys (fun _ _ hs => .calm hs) (fun _ _ => trivial) trivial fun _ => rfl

theorem calm_exec (h : Calm s) : (exec s).Only Calm := ⟨h, fun _ => trivial, rfl⟩

theorem calm_stmt (h : Calm s) : (stmt s : Routine World).Only Calm := ⟨h, fun _ => trivial, rfl⟩

theorem calm_sleep {n : Nat} : (sleep n).Only Calm :=
  (calm_stmt (s := .look) trivial).graft fun _ => calm_exec (s := .sleepUntil _) trivial

theorem calm_pollInfra {n : Nat} : (pollInfra n).Only Calm := by
  induction n with
  | zero => exact (calm_stmt (s := .infraReady) trivial).graft fun _ => trivial
  | succ n ih =>
    refine (calm_stmt (s := .infraReady) trivial).graft fun w => ?_
    split
    · trivial
    · exact calm_sleep.graft fun _ => ih

theorem calm_runBaselineCheck : runBaselineCheck.Only Calm := by
  refine (calm_stmt (s := .checkBaselines) trivial).graft fun w => ?_
  split
  · trivial
  · refine (calm_stmt (s := .fixBaselines) trivial).graft fun w => ?_
    split
    · trivial
    · exact (calm_stmt (s := .checkBaselines) trivial).graft fun _ => trivial

/-- A child that is started with the stamps `l` in memory. -/
theorem keeps_runScript (h : ∀ w, Rule φ s w (.held l d)) : Keeps (runScript s) φ fun _ => Holds l d := by
  refine keeps_bind (keeps_stmt fun w => ⟨_, h w, ?_⟩)
  exact ⟨fun w' _ _ => ⟨_, .calm trivial, rfl⟩, keeps_bind (keeps_exec fun _ => ⟨_, .reap, trivial⟩)⟩

/-- What the wait leaves: nothing to wait for, or a Ctrl+C. -/
def Waited (l : Stamps) (d : Bool) (c : String) (φ : Phase) : Prop :=
  (φ = .held l d ∧ ∀ t, Clears l c t) ∨ φ = .waiting l d c 0 ∨ φ = .cut l d

theorem keeps_waitChunks {chunks r : Nat} (h : r ≤ chunks) : Keeps (waitChunks chunks r) (.waiting l d c r) fun _ => Waited l d c := by
  induction chunks generalizing r with
  | zero =>
    obtain rfl := Nat.le_zero.1 h
    exact .inr (.inl rfl)
  | succ chunks ih =>
    unfold waitChunks
    split
    · rename_i hr
      subst hr
      exact .inr (.inl rfl)
    · refine keeps_bind (keeps_stmt fun w => ?_)
      cases hw : w.stopRequested with
      | true => exact ⟨_, .stop hw, .inr (.inr rfl)⟩
      | false =>
        refine ⟨_, .goOn hw, keeps_bind (keeps_bind (keeps_stmt fun w' => ⟨_, .doze (Nat.min_le_left r 5), ?_⟩))⟩
        exact keeps_exec fun _ => ⟨_, .wake, ih (by omega)⟩

theorem keeps_waitForTargetRecency {target ns : String} {ps : PlanState} (hc : FAULT_CONFIG.lookup c = some (target, ns)) :
    Keeps (waitForTargetRecency target c ps) (.held ps.lastFaultTime d) fun _ => Waited ps.lastFaultTime d c := by
  unfold waitForTargetRecency
  split
  · rename_i hnone
    refine .inl ⟨rfl, fun t at' last hat hlast => ?_⟩
    obtain rfl := Option.some.inj (hc.symm.trans hat)
    rw [hnone] at hlast
    cases hlast
  · rename_i last hsome
    refine keeps_bind (keeps_stmt fun w => ⟨_, .enter (fun at' last' hat hlast => ?_), keeps_waitChunks le_rfl⟩)
    obtain rfl := Option.some.inj (hc.symm.trans hat)
    obtain rfl := Option.some.inj (hsome.symm.trans hlast)
    omega

/-- Whatever came of it, the stamps in memory are those of the state it returns. -/
def Ran : PlanState × Option Nat → Phase → Prop
  | (ps, _), φ => ∃ d, φ = .held ps.lastFaultTime d

theorem keeps_runOneEpisode {ps : PlanState} : Keeps (runOneEpisode c ps) (.held ps.lastFaultTime d) Ran := by
  unfold runOneEpisode
  split
  · trivial
  rename_i target ns hc
  refine keeps_then (keeps_calm calm_pollInfra) ?_
  rintro ready _ rfl
  split
  · exact ⟨_, rfl⟩
  refine keeps_then (keeps_waitForTargetRecency hc) fun _ ψ hψ => ?_
  have hinject : ∀ w, Rule ψ (.startInjector c) w (.held ps.lastFaultTime d) := by
    rcases hψ with ⟨rfl, hclear⟩ | rfl | rfl
    · exact fun w => .first hclear
    · exact fun w => .inject
    · exact fun w => .barge
  refine keeps_then (keeps_runScript hinject) ?_
  rintro ⟨pid, ok⟩ _ rfl
  dsimp only
  split
  · exact ⟨_, rfl⟩
  refine keeps_bind (keeps_stmt fun w => ⟨_, .stamp, ?_⟩)
  refine keeps_then (keeps_calm calm_sleep) ?_
  rintro _ _ rfl
  refine keeps_then (keeps_runScript fun w => .calm trivial) ?_
  rintro ⟨spid, ok⟩ _ rfl
  dsimp only
  split
  · exact ⟨_, rfl⟩
  · exact ⟨_, rfl⟩

/-! ## The plan's loops -/

/-- The state the loops return is the one in memory, and saved if they have stopped early. -/
def Left : PlanState × Bool → Phase → Prop
  | (ps, stopped), φ => ∃ d, φ = .held ps.lastFaultTime d ∧ (stopped = true → d = false)

theorem keeps_savePlan {ps : PlanState} (h : ps.lastFaultTime = l) : Keeps (savePlan ps) (.held l d) fun _ => Holds l false :=
  keeps_exec fun _ => ⟨_, .save h, rfl⟩

theorem keeps_pause {ps : PlanState} :
    Keeps (pause ps) (.held ps.lastFaultTime d) fun r ψ => ψ = .held r.1.lastFaultTime false := by
  refine keeps_then (keeps_savePlan rfl) ?_
  rintro _ _ rfl
  rfl

theorem keeps_attempt {idx left : Nat} {item : Item} {next : PlanState → Routine (PlanState × Bool)} {ps : PlanState}
    (hnext : ∀ ps' d', Keeps (next ps') (.held ps'.lastFaultTime d') Left) :
    Keeps (attempt idx item next left ps) (.held ps.lastFaultTime d) Left := by
  induction left generalizing d ps with
  | zero => exact ⟨d, rfl, fun h => (by cases h)⟩
  | succ left ih =>
    unfold attempt
    refine keeps_then (keeps_calm (calm_stmt (s := .countBefore _) trivial)) ?_
    rintro w _ rfl
    refine keeps_then keeps_runOneEpisode ?_
    rintro ⟨ps', _ | pid⟩ _ ⟨d', rfl⟩
    · refine keeps_pause.mono ?_ fun _ h => h
      rintro r _ rfl
      exact ⟨false, rfl, fun _ => rfl⟩
    refine keeps_then (keeps_calm (calm_stmt (s := .countAfter _ _ _) trivial)) ?_
    rintro w' _ rfl
    split
    -- No new row: the class is given up, or tried again.
    · cases left with
      | zero =>
        refine keeps_then (keeps_savePlan rfl) ?_
        rintro _ _ rfl
        exact ⟨false, rfl, fun _ => rfl⟩
      | succ left => exact ih
    · refine keeps_then (keeps_calm (calm_exec (s := .look) trivial)) ?_
      rintro _ _ rfl
      refine keeps_then (keeps_calm (calm_exec (s := .look) trivial)) ?_
      rintro _ _ rfl
      refine keeps_then (keeps_savePlan rfl) ?_
      rintro _ _ rfl
      refine keeps_then (keeps_calm (calm_exec (s := .look) trivial)) ?_
      rintro _ _ rfl
      refine keeps_then (keeps_calm (calm_stmt (s := .pauseRequested) trivial)) ?_
      rintro w'' _ rfl
      split
      · refine keeps_then keeps_pause ?_
        rintro ⟨ps'', stopped⟩ _ rfl
        refine keeps_then (keeps_calm (calm_exec (s := .unlinkPauseFlag) trivial)) ?_
        rintro _ _ rfl
        exact ⟨false, rfl, fun _ => rfl⟩
      · exact hnext _ _

theorem keeps_runChunk {idx n : Nat} {item : Item} {ps : PlanState} :
    Keeps (runChunk idx item n ps) (.held ps.lastFaultTime d) Left := by
  induction n generalizing d ps with
  | zero => exact ⟨d, rfl, fun h => (by cases h)⟩
  | succ n ih => exact keeps_attempt fun _ _ => ih

theorem keeps_runPlan {idx : Nat} {items : List Item} {ps : PlanState} :
    Keeps (runPlan idx items ps) (.held ps.lastFaultTime d) Left := by
  induction items generalizing idx d ps with
  | nil => exact ⟨d, rfl, fun h => (by cases h)⟩
  | cons item rest ih =>
    unfold runPlan
    split
    · exact ih
    · split
      · refine keeps_then (keeps_savePlan rfl) ?_
        rintro _ _ rfl
        exact ih
      · refine keeps_then keeps_runChunk ?_
        rintro ⟨ps', stopped⟩ _ ⟨d', rfl, hd⟩
        dsimp only
        split
        · exact ⟨d', rfl, fun _ => hd ‹_›⟩
        · exact ih

theorem keeps_finish {Q : Unit → Phase → Prop} (h : (∃ l, φ = .held l false) ∨ φ = .blank) (hq : Q () .idle) :
    Keeps (exec .finish) φ Q := keeps_exec fun _ => ⟨_, .finish h, hq⟩

theorem keeps_resume {ps : PlanState} : Keeps (resume ps) (.held ps.lastFaultTime false) fun _ _ => True := by
  refine keeps_then (keeps_calm (calm_exec (s := .unlinkPauseFlag) trivial)) ?_
  rintro _ _ rfl
  refine keeps_then (keeps_calm calm_runBaselineCheck) ?_
  rintro clean _ rfl
  split
  · refine keeps_then keeps_pause ?_
    rintro r _ rfl
    exact keeps_finish (.inl ⟨_, rfl⟩) trivial
  · refine keeps_then keeps_runPlan ?_
    rintro ⟨ps', stopped⟩ _ ⟨d, rfl, hd⟩
    dsimp only
    split
    · rename_i hs
      obtain rfl := hd hs
      exact keeps_finish (.inl ⟨_, rfl⟩) trivial
    · refine keeps_then (keeps_savePlan rfl) ?_
      rintro _ _ rfl
      exact keeps_bind (keeps_exec fun _ => ⟨_, .archive, keeps_finish (.inl ⟨_, rfl⟩) trivial⟩)

theorem keeps_main {given : Option (List Item)} : Keeps (main given) .fresh fun _ _ => True := by
  refine keeps_bind (keeps_exec fun _ => ⟨_, .begin, ?_⟩)
  refine keeps_bind (keeps_stmt fun w => ?_)
  cases hw : w.unfinished with
  | some ps => exact ⟨_, .load hw, keeps_resume⟩
  | none =>
    refine ⟨_, .missing hw, ?_⟩
    cases given with
    | none => exact keeps_finish (.inr rfl) trivial
    | some items => exact keeps_bind (keeps_exec fun _ => ⟨_, .new, keeps_resume⟩)

theorem batch_sound : Sound batch discipline := fun _ => keeps_main

end Programs

/-! ## What holds in every state -/

variable {w w' : World} {φ φ' : Phase} {s : Stmt} {l : Stamps} {c : String}

theorem Clears.mono {t t' : Nat} (h : Clears l c t) (ht : t ≤ t') : Clears l c t' :=
  fun at' last hat hlast => (h at' last hat hlast).trans ht

/-- The stamps in memory are those that were taken, and those in the file too unless `dirty`. -/
def Truthful (w : World) (l : Stamps) (dirty : Bool) : Prop := w.stamped = l ∧ (dirty = false → Saved w)

def Fits (w : World) : Phase → Prop
  | .idle => True
  | .fresh | .blank | .dead => Saved w
  | .held l d => Truthful w l d
  | .waiting l d c r => Truthful w l d ∧ Clears l c (w.clock + r)
  | .asleep l d c r t => Truthful w l d ∧ Clears l c (w.clock + (t - w.uptime) + r)
  | .cut _ _ => False

/-- Whenever an injector was started, the last stamp on its target was out of the window of its class. -/
def Spaced (log : Log) : Prop :=
  ∀ ev ∈ log, ev.raised = false → ∀ c, ev.stmt = .startInjector c → Clears ev.seen.stamped c ev.seen.clock

theorem Rule.awake (h : Rule φ s w φ') : φ ≠ .idle := by
  rintro rfl
  cases h with
  | finish h =>
    rcases h with ⟨_, h⟩ | h <;> cases h

theorem Rule.asleep (h : Rule φ s w φ') (hf : s = .finish) : φ' = .idle := by
  subst hf
  cases h with
  | calm hs => exact hs.elim
  | finish => rfl

/-- A calm statement changes neither the clocks nor the file nor the stamps. -/
theorem calm_app (hs : Calm s) (h : app s w = some w') :
    w'.unfinished = w.unfinished ∧ w'.stamped = w.stamped := by
  cases s with
  | checkStop | stamp | loadPlan | newPlan | savePlan | archivePlan | startInjector | finish => exact hs.elim
  | sleepUntil t | wait pid =>
    simp only [app] at h
    split at h
    · cases h; exact ⟨rfl, rfl⟩
    · cases h
  | _ => cases h; exact ⟨rfl, rfl⟩

theorem Saved.congr (h : Saved w) (hu : w'.unfinished = w.unfinished) (hst : w'.stamped = w.stamped) : Saved w' := by
  unfold Saved
  rw [hu, hst]
  exact h

theorem Truthful.congr {d : Bool} (h : Truthful w l d) (hu : w'.unfinished = w.unfinished) (hst : w'.stamped = w.stamped) :
    Truthful w' l d := ⟨hst.trans h.1, fun hd => (h.2 hd).congr hu hst⟩

/-- A step of the script, which no Ctrl+C hurries. -/
theorem fits_step (hr : Rule φ s w φ') (ha : app s w = some w') (h : Fits w φ)
    (hc : s = .checkStop → w.stopRequested = false) : Fits w' φ' := by
  cases hr with
  | calm hs =>
    obtain ⟨hu, hst⟩ := calm_app hs ha
    exact h.congr hu hst
  | begin | reap => cases ha; exact h
  | load hu => cases ha; exact ⟨(h _ hu).symm, fun _ => h⟩
  | missing hu => cases ha; exact h
  | new =>
    cases ha
    refine ⟨rfl, fun _ ps hps => ?_⟩
    obtain ⟨he, -⟩ := Option.filter_eq_some_iff.1 hps
    obtain rfl := Option.some.inj he
    rfl
  | save hl =>
    cases ha
    refine ⟨h.1, fun _ ps hps => ?_⟩
    obtain ⟨he, -⟩ := Option.filter_eq_some_iff.1 hps
    obtain rfl := Option.some.inj he
    exact hl.trans h.1.symm
  | archive =>
    cases ha
    exact ⟨h.1, fun _ ps hps => (by cases hps)⟩
  | finish => cases ha; trivial
  | enter hclear => cases ha; exact ⟨h, hclear⟩
  | goOn => cases ha; exact h
  | stop hw => rw [hc rfl] at hw; cases hw
  | doze hn => cases ha; exact ⟨h.1, h.2.mono (by omega)⟩
  | wake =>
    simp only [app] at ha
    split at ha
    · cases ha; exact ⟨h.1, h.2.mono (by omega)⟩
    · cases ha
  | first => cases ha; exact h.congr rfl rfl
  | inject => cases ha; exact h.1.congr rfl rfl
  | barge => exact h.elim
  | stamp =>
    cases ha
    refine ⟨?_, fun hd => (by cases hd)⟩
    rw [h.1]

theorem clears_of_inject (hr : Rule φ (.startInjector c) w φ') (h : Fits w φ) : Clears w.stamped c w.clock := by
  cases hr with
  | calm hs => exact hs.elim
  | first hclear => exact h.1 ▸ hclear _
  | inject => exact h.1.1 ▸ h.2
  | barge => exact h.elim

theorem saved_of_finish (hr : Rule φ .finish w φ') (h : Fits w φ) : Saved w := by
  cases hr with
  | calm hs => exact hs.elim
  | finish hφ =>
    rcases hφ with ⟨l, rfl⟩ | rfl
    · exact h.2 rfl
    · exact h

theorem finish_of_idle (hr : Rule φ s w .idle) : s = .finish := by
  cases hr
  rfl

/-- The surroundings set no clock back while the script runs. -/
theorem fits_env {x : Env} (h : Fits w φ) (hx : ∀ t, x = .setClock t → φ = .idle ∨ w.clock ≤ t) : Fits (env x w) φ := by
  have hu : (env x w).unfinished = w.unfinished ∧ (env x w).stamped = w.stamped := by
    cases x with
    | record pid => simp only [env]; cases w.procs[pid]?.bind Proc.recording <;> exact ⟨rfl, rfl⟩
    | _ => exact ⟨rfl, rfl⟩
  have hclock : φ = .idle ∨ ∀ t, w.clock + (t - w.uptime) ≤ (env x w).clock + (t - (env x w).uptime) := by
    cases x with
    | setClock t =>
      refine (hx t rfl).imp id fun ht t' => ?_
      exact Nat.add_le_add_right ht _
    | tick d => exact .inr fun t => (by simp only [env]; omega)
    | record pid => simp only [env]; cases w.procs[pid]?.bind Proc.recording <;> exact .inr fun t => le_rfl
    | _ => exact .inr fun t => le_rfl
  obtain ⟨hu, hst⟩ := hu
  rcases hclock with rfl | hclock
  · trivial
  cases φ with
  | idle => trivial
  | fresh | blank | dead => exact Saved.congr h hu hst
  | held l d => exact h.congr hu hst
  | waiting l d c r =>
    refine ⟨h.1.congr hu hst, h.2.mono ?_⟩
    have := hclock 0
    omega
  | asleep l d c r t => exact ⟨h.1.congr hu hst, h.2.mono (Nat.add_le_add_right (hclock t) _)⟩
  | cut l d => exact h

/-! ## Whole runs -/

/-- The condition on a move: no Ctrl+C is up when the wait looks, the script does not die with a stamp that is not
saved, and while it runs the clock is not set back. -/
def Spares (st : State World Stmt (Option (List Item))) : Move (Option (List Item)) Env → Prop
  | .step i => ∀ x ∈ st.next i, x.2 = .checkStop → st.world.stopRequested = false
  | .fail _ | .kill => Saved st.world
  | .env (.setClock t) => st.world.running = false ∨ st.world.clock ≤ t
  | .env _ | .post _ => True

instance (st : State World Stmt (Option (List Item))) : (m : Move (Option (List Item)) Env) → Decidable (Spares st m)
  | .step i => inferInstanceAs (Decidable (∀ x ∈ st.next i, x.2 = .checkStop → st.world.stopRequested = false))
  | .fail _ | .kill => inferInstanceAs (Decidable (Saved st.world))
  | .env (.setClock t) => inferInstanceAs (Decidable (st.world.running = false ∨ st.world.clock ≤ t))
  | .env (.tick _) | .env (.observe ..) | .env .sigint | .env .touchPauseFlag | .env (.record _) | .env (.exit ..)
  | .env (.score _) | .env (.live _) | .post _ => .isTrue trivial

structure Kept (w : World) (ph : Nat → Option Phase) (log : Log) : Prop where
  spaced : Spaced log
  fits : ∀ i φ, ph i = some φ → Fits w φ
  single : ∀ i j φ ψ, ph i = some φ → ph j = some ψ → φ ≠ .idle → ψ ≠ .idle → i = j
  running : ∀ i φ, ph i = some φ → φ ≠ .idle → w.running = true
  rest : (∀ i φ, ph i = some φ → φ = .idle) → Saved w

theorem Spaced.cons {log : Log} (h : Spaced log) {ev : Event World Stmt}
    (hev : ev.raised = false → ∀ c, ev.stmt = .startInjector c → Clears ev.seen.stamped c ev.seen.clock) : Spaced (ev :: log) := by
  intro ev' hm
  rcases List.mem_cons.1 hm with rfl | hm
  · exact hev
  · exact h ev' hm

open Function in
/-- Thread `i`, which was not idle, goes on in phase `φ'`; the others are idle. -/
theorem Kept.update {ph : Nat → Option Phase} {log log' : Log} {i : Nat} (h : Kept w ph log) (hi : ph i = some φ)
    (hawake : φ ≠ .idle) (hs : Spaced log') (hf : Fits w' φ') (hr : φ' ≠ .idle → w'.running = true) (hrest : φ' = .idle → Saved w') :
    Kept w' (update ph i (some φ')) log' := by
  have hidle : ∀ k ψ, k ≠ i → ph k = some ψ → ψ = .idle := by
    intro k ψ hk hψ
    by_contra hne
    exact hk (h.single k i ψ φ hψ hi hne hawake)
  refine ⟨hs, ?_, ?_, ?_, fun hall => hrest (hall i φ' (update_self ..))⟩
  · intro k ψ hψ
    rcases of_update hψ with ⟨rfl, rfl⟩ | ⟨hk, hψ'⟩
    · exact hf
    · rw [hidle k ψ hk hψ']; trivial
  · exact single_update (fun φ => φ = Phase.idle) hidle
  · intro k ψ hψ hne
    rcases of_update hψ with ⟨rfl, rfl⟩ | ⟨hk, hψ'⟩
    · exact hr hne
    · exact (hne (hidle k ψ hk hψ')).elim

theorem kept_effect {st : State World Stmt (Option (List Item))} {ph ph' : Nat → Option Phase} {log : Log}
    {m : Move (Option (List Item)) Env} (h : Kept st.world ph st.log) (hc : Spares st m)
    (he : Effect batch discipline st ph m w ph' log) : Kept w ph' log := by
  cases he with
  | stay => exact h
  | @exec i j s φ φ' w hn hφ _ hr ha _ =>
    have hcheck : s = .checkStop → st.world.stopRequested = false := fun hs => hc (j, s) (by rw [hn]; rfl) hs
    refine h.update hφ hr.awake (h.spaced.cons fun _ c hs => ?_) (fits_step hr ha (h.fits i φ hφ) hcheck) (fun hne => ?_) fun hi => ?_
    · obtain rfl : s = .startInjector c := hs
      exact clears_of_inject hr (h.fits i φ hφ)
    · rw [running_app ha fun hs => hne (hr.asleep hs)]
      exact h.running i φ hφ hr.awake
    · subst hi
      obtain rfl := finish_of_idle hr
      cases ha
      exact (saved_of_finish hr (h.fits i φ hφ)).congr rfl rfl
  | spawn _ _ _ _ _ hsp => cases hsp
  | @fail i j s φ hn hφ _ =>
    have hspaced : Spaced (⟨i, s, st.world, true⟩ :: st.log) := h.spaced.cons fun hr => (by cases hr)
    by_cases hi : φ = .idle
    · subst hi
      have hsame : Function.update ph i (some (discipline.fault .idle s)) = ph := by
        rw [Function.update_eq_self_iff, hφ]
        rfl
      rw [hsame]
      exact ⟨hspaced, h.fits, h.single, h.running, h.rest⟩
    · have hdead : discipline.fault φ s = .dead := by cases φ <;> first | rfl | exact (hi rfl).elim
      rw [hdead]
      exact h.update hφ hi hspaced hc (fun _ => h.running i φ hφ hi) fun hd => (by cases hd)
  | @post j n w hp hn hl =>
    obtain ⟨hrun, rfl⟩ := post_eq hp
    have hidle : ∀ k ψ, ph k = some ψ → ψ = .idle := by
      intro k ψ hψ
      by_contra hne
      rw [h.running k ψ hψ hne] at hrun
      cases hrun
    have hsaved : Saved st.world := h.rest hidle
    refine ⟨h.spaced, ?_, ?_, fun _ _ _ _ => rfl, fun _ => hsaved.congr rfl rfl⟩
    · intro k ψ hψ
      rcases of_update hψ with ⟨rfl, rfl⟩ | ⟨-, hψ'⟩
      · exact hsaved.congr rfl rfl
      · rw [hidle k ψ hψ']; trivial
    · exact single_update (fun φ => φ = Phase.idle) fun k ψ _ => hidle k ψ
  | env x =>
    refine ⟨h.spaced, fun i φ hφ => fits_env (h.fits i φ hφ) fun t ht => ?_, h.single,
      fun i φ hφ hne => (running_env x _).trans (h.running i φ hφ hne), fun hall => ?_⟩
    · subst ht
      refine hc.imp (fun hrun => ?_) id
      by_contra hne
      rw [h.running i φ hφ hne] at hrun
      cases hrun
    · have hsaved : Fits st.world .fresh := h.rest hall
      cases x with
      | record pid =>
        simp only [batch, env]
        cases st.world.procs[pid]?.bind Proc.recording <;> exact Saved.congr hsaved rfl rfl
      | _ => exact Saved.congr hsaved rfl rfl
  | kill =>
    exact ⟨h.spaced, fun _ _ h => (by cases h), fun _ _ _ _ h => (by cases h), fun _ _ h => (by cases h),
      fun _ => Saved.congr hc rfl rfl⟩

/-- In every run whose moves meet the condition, with any plans, pauses, interrupts and resumes, no injector is started
inside the window of its class. -/
theorem recency_window (w : World) (hw : Saved w) (ms : List (Move (Option (List Item)) Env))
    (hc : batch.Admits Spares ⟨w, [], []⟩ ms) : Spaced (batch.run ⟨w, [], []⟩ ms).log := by
  have hag : Agrees batch discipline ⟨w, [], []⟩ fun _ => none := by constructor <;> simp
  have hk : Kept w (fun _ => none) [] :=
    ⟨fun _ h => (by cases h), fun _ _ h => (by cases h), fun _ _ _ _ h => (by cases h), fun _ _ h => (by cases h), fun _ => hw⟩
  obtain ⟨ph, -, h⟩ := batch.invariant batch_sound Spares Kept (fun st ph m w' ph' l _ h hm he => kept_effect h hm he) hag hk ms hc
  exact h.spaced

/-! ## Two episodes on `catalogue` -/

/-- The second episode has come to its wait: the target was stamped at 1000, and it is 1035. -/
def toTheWait : List (Move (Option (List Item)) Env) :=
  .post (some [⟨"oom", 2⟩]) :: .env (.tick 1000) :: steps 0 9 ++ [.env (.record 0), .env (.exit 0 0)] ++ steps 0 3 ++
    .env (.tick 35) :: steps 0 2 ++ [.env (.score 0), .env (.exit 1 0)] ++ steps 0 10

/-- The five chunks of the wait, and the injection. -/
def patient : List (Move (Option (List Item)) Env) :=
  toTheWait ++ (List.replicate 5 (steps 0 2 ++ .env (.tick 5) :: steps 0 1)).flatten ++ steps 0 1

/-- The starts of injectors so far, and what the clock said. -/
def injections (log : Log) : List Nat := log.filterMap fun ev =>
  match ev.stmt with
  | .startInjector _ => some ev.seen.clock
  | _ => none

theorem recency_window_patient :
    Spaced (batch.run ⟨quietWorld, [], []⟩ patient).log ∧ injections (batch.run ⟨quietWorld, [], []⟩ patient).log = [1060, 1000] :=
  ⟨recency_window quietWorld (by decide) patient (by decide +kernel), by decide +kernel⟩

/-- A Ctrl+C ends the wait, and the fault is injected 35 seconds after the last one. -/
theorem injected_at_once : ¬ Spaced (batch.run ⟨quietWorld, [], []⟩ (toTheWait ++ .env .sigint :: steps 0 2)).log := by
  have hev : (batch.run ⟨quietWorld, [], []⟩ (toTheWait ++ .env .sigint :: steps 0 2)).log.any (fun ev =>
      ev.raised = false && ev.stmt = .startInjector "oom" && ev.seen.stamped.lookup "catalogue" = some 1000 &&
        ev.seen.clock = 1035) = true := by decide +kernel
  obtain ⟨ev, hm, hev⟩ := List.any_eq_true.1 hev
  simp only [Bool.and_eq_true, decide_eq_true_eq] at hev
  obtain ⟨⟨⟨hr, hs⟩, hl⟩, hclock⟩ := hev
  intro h
  have := h ev hm hr "oom" hs _ _ rfl hl
  rw [hclock] at this
  exact absurd this (by decide)

end Wardence.Batch.Recency
