import Wardence.Live.Bystanders
import Wardence.Live.Lifecycle
/-!
# The caps on demo triggers

An inject request of the role `demo-trigger` reads its three caps one after the other
before it takes the trigger lock, and writes the row that counts against them under it.
-/
namespace Wardence.Live.Caps

open Threads Code

/-! ## What a request has read -/

/-- How many statements of a request for class `c` come before it reads the first cap. -/
def capsFrom (c : String) : Nat := if c = "crash-loop" then 2 else 1

inductive Phase where
  /-- Writes no trigger any more, or never did. -/
  | idle
  /-- A request of `ip` for class `c` after `n` statements, none of which read a cap. -/
  | fresh (c ip : String) (n : Nat)
  /-- Has read, and passed, the global cap in `w₀`; the last trigger of `ip` in `w₁`;
  found that one long enough ago; and read and passed the cap of `ip` in `w₂`. -/
  | asked (c ip : String) (w₀ : World)
  | looked (c ip : String) (w₀ w₁ : World)
  | spaced (c ip : String) (w₀ w₁ : World)
  | checked (c ip : String) (w₀ w₁ w₂ : World)

def Untriggering (s : Stmt) : Prop := ∀ ip, s ≠ .insertTrigger ip

inductive Rule : Phase → Stmt → World → Phase → Prop
  | idle {s w} : Untriggering s → Rule .idle s w .idle
  | drop {φ w} : Rule φ .look w .idle
  | begin {c ip n w} : Rule (.fresh c ip n) .look w (.fresh c ip (n + 1))
  | global {c ip w} : w.globalTriggersToday < GLOBAL_DAILY_CAP → Rule (.fresh c ip (capsFrom c)) .look w (.asked c ip w)
  | last {c ip w₀ w} : Rule (.asked c ip w₀) .look w (.looked c ip w₀ w)
  | cooled {c ip w₀ w₁ t w} : w₁.lastTrigger ip = some t → COOLDOWN_S ≤ w.clock - t →
    Rule (.looked c ip w₀ w₁) .look w (.spaced c ip w₀ w₁)
  | daily {c ip w₀ w₁ w} : w.triggersToday ip < DAILY_CAP → Rule (.spaced c ip w₀ w₁) .look w (.checked c ip w₀ w₁ w)
  | dailyFirst {c ip w₀ w₁ w} : w₁.lastTrigger ip = none → w.triggersToday ip < DAILY_CAP →
    Rule (.looked c ip w₀ w₁) .look w (.checked c ip w₀ w₁ w)
  | wait {c ip w₀ w₁ w₂ s w} : Untriggering s → Rule (.checked c ip w₀ w₁ w₂) s w (.checked c ip w₀ w₁ w₂)
  | insert {c ip w₀ w₁ w₂ w} : Rule (.checked c ip w₀ w₁ w₂) (.insertTrigger ip) w .idle

def entry : Job → Phase
  | .triggerInject c .demoTrigger _ ip => .fresh c ip 0
  | _ => .idle

/-- The phases of a job. -/
def Phase.Within (j : Job) : Phase → Prop
  | .idle => True
  | .fresh c ip _ | .asked c ip _ | .looked c ip _ _ | .spaced c ip _ _ | .checked c ip _ _ _ =>
    ∃ u, j = .triggerInject c .demoTrigger u ip

def discipline : Typestate World Stmt Job Phase where
  entry := entry
  rule := Rule
  fault _ _ := .idle
  rests _ := True
  mine j φ := φ.Within j
  mine_entry j := by
    cases j with
    | triggerInject c role u ip =>
      cases role with
      | admin => trivial
      | demoTrigger => exact ⟨u, rfl⟩
    | _ => trivial
  mine_rule := by
    rintro j φ s w φ' hm (_ | _ | _ | _ | _ | _ | _ | _ | _ | _) <;> trivial
  mine_fault _ _ := trivial

/-! ## Programs that write no trigger -/

/-- The program writes no trigger. -/
abbrev Idles {α : Type} (p : Routine α) : Prop := p.Within Untriggering

theorem untriggering_of_mild {s : Stmt} (h : s.Mild) : Untriggering s := by
  rintro ip rfl
  exact h

theorem idles_of_mild {α : Type} {p : Routine α} (h : Mild p) : Idles p := h.mono fun _ => untriggering_of_mild

theorem idles_of_modest {α : Type} {p : Routine α} (h : Modest p) : Idles p := idles_of_mild h.mild

/-! ## An inject request -/

section Request
variable {α β : Type} {φ : Phase} {c ip : String} {u : Option String} {role : Role} {w₀ w₁ w₂ : World}

/-- After an exception nothing is written. -/
abbrev Keeps (p : Routine α) (φ : Phase) (Q : α → Phase → Prop) : Prop := Obeys operatorApi discipline p φ Q (· = .idle)

theorem keeps_bind {p : Routine α} {f : α → Routine β} {Q : β → Phase → Prop} (h : Keeps p φ fun a ψ => Keeps (f a) ψ Q) :
    Keeps (p >>= f) φ Q := by
  refine Obeys.graft (h.mono (fun _ _ h => h) ?_)
  rintro _ rfl
  exact rfl

theorem keeps_idle {p : Routine α} {Q : α → Phase → Prop} (hp : Idles p) (hq : ∀ a, Q a .idle) : Keeps p .idle Q := by
  refine (hp.obeys (fun s w hs => Rule.idle hs) fun _ _ => rfl).mono ?_ fun _ h => h
  rintro a _ rfl
  exact hq a

theorem keeps_look {Q : World → Phase → Prop} (h : ∀ w, ∃ φ', Rule φ .look w φ' ∧ Q w φ') : Keeps look φ Q :=
  ⟨fun w _ _ => h w, rfl⟩

theorem keeps_exec {s : Stmt} {Q : Unit → Phase → Prop} (h : ∀ w w', app s w = some w' → ∃ φ', Rule φ s w φ' ∧ Q () φ') :
    Keeps (exec s) φ Q := ⟨h, rfl⟩

theorem keeps_refuse {Q : α → Phase → Prop} : Keeps (refuse : Routine α) φ Q :=
  keeps_bind (keeps_exec fun _ _ _ => ⟨_, .drop, keeps_bind (keeps_idle (idles_of_modest modest_closeConn) fun _ => rfl)⟩)

theorem keeps_refuseIf {b : Prop} {_ : Decidable b} {Q : Unit → Phase → Prop} (h : ¬ b → Q () φ) :
    Keeps (onlyIf b refuse) φ Q := by
  unfold onlyIf
  split
  · exact keeps_refuse
  · exact h ‹_›

theorem keeps_cooldown {w₁ : World} {Q : Unit → Phase → Prop} (h : Q () (.spaced c ip w₀ w₁))
    (hfirst : w₁.lastTrigger ip = none → Q () (.looked c ip w₀ w₁)) : Keeps (cooldown w₁ ip) (.looked c ip w₀ w₁) Q := by
  unfold cooldown
  split
  · exact hfirst ‹_›
  · rename_i t ht
    refine keeps_bind (keeps_look fun now => ?_)
    by_cases hc : now.clock - t < COOLDOWN_S
    · refine ⟨_, .drop, ?_⟩
      rw [onlyIf, if_pos hc]
      exact keeps_refuse
    · refine ⟨_, .cooled ht (Nat.le_of_not_lt hc), ?_⟩
      rw [onlyIf, if_neg hc]
      exact h

theorem keeps_demoTriggerChecks {Q : Unit → Phase → Prop} (hq : ∀ w₀ w₁ w₂, Q () (.checked c ip w₀ w₁ w₂)) :
    Keeps (demoTriggerChecks c ip) (.fresh c ip (capsFrom c)) Q := by
  refine keeps_bind (keeps_refuseIf fun _ => keeps_bind (keeps_look fun w₀ => ?_))
  by_cases hg : GLOBAL_DAILY_CAP ≤ w₀.globalTriggersToday
  · refine ⟨_, .drop, keeps_bind ?_⟩
    rw [onlyIf, if_pos hg]
    exact keeps_refuse
  · refine ⟨_, .global (Nat.lt_of_not_le hg), keeps_bind (keeps_refuseIf fun _ => ?_)⟩
    refine keeps_bind (keeps_look fun w₁ => ⟨_, .last, ?_⟩)
    have hlast : ∀ {ψ : Phase} {w : World}, Rule ψ .look w (.checked c ip w₀ w₁ w) ∨ DAILY_CAP ≤ w.triggersToday ip →
        ∃ φ', Rule ψ .look w φ' ∧ Keeps (onlyIf (DAILY_CAP ≤ w.triggersToday ip) refuse) φ' Q := by
      intro ψ w hw
      by_cases hd : DAILY_CAP ≤ w.triggersToday ip
      · refine ⟨_, .drop, ?_⟩
        rw [onlyIf, if_pos hd]
        exact keeps_refuse
      · refine ⟨_, hw.resolve_right hd, ?_⟩
        rw [onlyIf, if_neg hd]
        exact hq w₀ w₁ w
    refine keeps_bind (keeps_cooldown ?_ fun hnone => ?_)
    · refine keeps_bind (keeps_look fun w => hlast ?_)
      exact (Nat.lt_or_ge (w.triggersToday ip) DAILY_CAP).imp .daily id
    · refine keeps_bind (keeps_look fun w => hlast ?_)
      exact (Nat.lt_or_ge (w.triggersToday ip) DAILY_CAP).imp (.dailyFirst hnone) id

theorem keeps_episodeInFlight {Q : Bool → Phase → Prop} (hq : ∀ b, Q b (.checked c ip w₀ w₁ w₂)) :
    Keeps episodeInFlight (.checked c ip w₀ w₁ w₂) Q := by
  have hwait : ∀ {f : World → Routine Bool}, (∀ w, Keeps (f w) (.checked c ip w₀ w₁ w₂) Q) →
      Keeps (look >>= f) (.checked c ip w₀ w₁ w₂) Q :=
    fun h => keeps_bind (keeps_look fun w => ⟨_, .wait (by simp [Untriggering]), h w⟩)
  refine hwait fun w => ?_
  split
  · exact hq true
  · refine hwait fun w' => ?_
    split
    · exact hq false
    · rename_i t0 _
      refine keeps_bind (keeps_bind (keeps_exec fun _ _ ha => ⟨_, .wait (by simp [Untriggering]), ?_⟩))
      cases t0 with
      | none => simp [app] at ha
      | some t => exact hwait fun now => hq _

/-- The row that counts is written once, under the lock. -/
theorem keeps_admitUnderLock {Q : Nat → Phase → Prop} (hq : ∀ e, Q e .idle) :
    Keeps (admitUnderLock c .demoTrigger u ip) (.checked c ip w₀ w₁ w₂) Q := by
  have hrelease : Idles (exec .release) := within_exec (by simp [Untriggering])
  refine keeps_bind (keeps_exec fun w _ _ => ⟨_, .wait (by simp [Untriggering]), ?_⟩)
  refine Obeys.graft (Obeys.mono (Q := fun _ ψ => ψ = .idle) (X := (· = .idle)) ?_ ?_ ?_)
  · refine keeps_bind (keeps_episodeInFlight fun busy => ?_)
    split
    · exact keeps_refuse
    · refine keeps_bind ⟨fun w _ _ => ⟨_, .wait (by simp [Untriggering]), ?_⟩, rfl⟩
      exact keeps_bind (keeps_exec fun w' _ _ => ⟨_, .insert, rfl⟩)
  · rintro e _ rfl
    exact keeps_bind (keeps_idle hrelease fun _ => hq e)
  · rintro _ rfl
    exact keeps_bind (keeps_idle hrelease fun _ => rfl)

/-- From the lock on, and after it. -/
theorem idles_admitted {e : Nat} : Idles (do
    audit
    closeConn
    onlyIf (c = "memory-leak") (setLeakCheckoutPaused true)
    startThread (.runLiveEpisode e c)) :=
  Within.bind (idles_of_modest modest_audit) fun _ => Within.bind (idles_of_modest modest_closeConn) fun _ =>
    Within.bind (within_onlyIf (within_exec (by simp [Untriggering]))) fun _ => within_exec (by simp [Untriggering])

theorem idles_episodeInFlight : Idles episodeInFlight := by
  refine Within.bind (idles_of_modest modest_look) fun w => Within.ite trivial (Within.bind (idles_of_modest modest_look) fun w' => ?_)
  split
  · trivial
  · exact Within.bind (idles_of_modest (modest_orRaise _)) fun _ => Within.bind (idles_of_modest modest_look) fun _ => trivial

theorem idles_triggerInject : Idles (triggerInject c .admin u ip) := by
  refine Within.bind (idles_of_modest modest_openConn) fun _ => Within.bind (within_onlyIf (idles_of_modest modest_refuse)) fun _ => ?_
  refine Within.bind (within_onlyIf (Within.bind (idles_of_modest modest_look) fun w => within_onlyIf (idles_of_modest modest_refuse))) fun _ => ?_
  refine Within.bind trivial fun _ => Within.bind (Within.bind (within_exec (by simp [Untriggering])) fun _ => ?_) fun e => idles_admitted
  refine Code.Within.graft (Within.bind idles_episodeInFlight fun busy => Within.ite (idles_of_modest modest_refuse) ?_) (fun e => ?_) ?_
  · exact Within.bind (Within.stmt (by simp [Untriggering])) fun w => Within.bind trivial fun _ => trivial
  · exact Within.bind (within_exec (by simp [Untriggering])) fun _ => trivial
  · exact Within.bind (within_exec (by simp [Untriggering])) fun _ => trivial

theorem keeps_triggerInject : Keeps (triggerInject c .demoTrigger u ip) (.fresh c ip 0) fun _ _ => True := by
  have hchecks : Keeps (do
      demoTriggerChecks c ip
      let e ← admitUnderLock c .demoTrigger u ip
      audit
      closeConn
      onlyIf (c = "memory-leak") (setLeakCheckoutPaused true)
      startThread (.runLiveEpisode e c)) (.fresh c ip (capsFrom c)) fun _ _ => True := by
    refine keeps_bind (keeps_demoTriggerChecks fun w₀ w₁ w₂ => keeps_bind (keeps_admitUnderLock fun e => ?_))
    exact keeps_idle idles_admitted fun _ => trivial
  refine keeps_bind (keeps_exec fun _ _ _ => ⟨_, .begin, keeps_bind (keeps_refuseIf fun _ => ?_)⟩)
  by_cases hc : c = "crash-loop"
  · subst hc
    refine keeps_bind (keeps_bind (keeps_look fun w => ⟨_, .begin, keeps_refuseIf fun _ => ?_⟩))
    exact hchecks
  · have hfrom : capsFrom c = 1 := if_neg hc
    rw [hfrom] at hchecks
    rw [onlyIf, if_neg hc]
    exact hchecks

theorem operatorApi_capped : Sound operatorApi discipline := by
  intro j
  have idle : ∀ {p : Routine Unit}, Idles p → Obeys operatorApi discipline p .idle (fun _ _ => True) fun _ => True :=
    fun hp => (keeps_idle (Q := fun _ _ => True) hp fun _ => trivial).mono (fun _ _ _ => trivial) fun _ _ => trivial
  cases j with
  | triggerInject c role u ip =>
    cases role with
    | admin => exact idle idles_triggerInject
    | demoTrigger => exact keeps_triggerInject.mono (fun _ _ _ => trivial) fun _ _ => trivial
  | triggerStopHold => exact idle (idles_of_modest modest_triggerStopHold)
  | triggerResolve => exact idle (idles_of_modest modest_triggerResolve)
  | logout => exact idle (idles_of_modest modest_logout)
  | onStartup => exact idle (idles_of_mild mild_onStartup)
  | runLiveEpisode => exact idle (idles_of_mild mild_runLiveEpisode)
  | attemptResolve => exact idle (Within.bind (idles_of_mild mild_attemptResolve) fun _ => trivial)
  | waitForOrphan => exact idle (idles_of_mild mild_waitForOrphan)

end Request

/-! ## What the table says -/

/-- The caps hold of a table of triggers, oldest first. -/
structure Capped (l : List (String × Nat)) : Prop where
  global : ∀ d, l.countP (fun x => x.2 / World.DAY_S = d) ≤ GLOBAL_DAILY_CAP
  daily : ∀ ip d, l.countP (fun x => x.1 = ip ∧ x.2 / World.DAY_S = d) ≤ DAILY_CAP
  spaced : l.Pairwise fun x y => x.1 = y.1 → x.2 + COOLDOWN_S ≤ y.2

/-- Nothing in the table is of a later time. -/
def Past (w : World) : Prop := ∀ x ∈ w.demoTriggerLog, x.2 ≤ w.clock

/-- `w'` may come after `w`. -/
def Before (w w' : World) : Prop := w.demoTriggerLog <+: w'.demoTriggerLog ∧ w.clock ≤ w'.clock

section Table
variable {w w' w'' w₀ w₁ w₂ : World} {ip : String}

theorem Before.refl (w : World) : Before w w := ⟨List.prefix_rfl, Nat.le_refl _⟩

theorem Before.trans (h : Before w w') (h' : Before w' w'') : Before w w'' := ⟨h.1.trans h'.1, Nat.le_trans h.2 h'.2⟩

theorem le_max_of_mem {l : List Nat} {x t : Nat} (hx : x ∈ l) (ht : l.max? = some t) : x ≤ t :=
  (List.max?_eq_some_iff.1 ht).2 x hx

theorem lastTrigger_le {x : String × Nat} (hx : x ∈ w.demoTriggerLog) {t : Nat} (ht : w.lastTrigger x.1 = some t) : x.2 ≤ t :=
  le_max_of_mem (List.mem_map_of_mem (List.mem_filter.2 ⟨hx, by simp⟩)) ht

theorem lastTrigger_isSome {x : String × Nat} (hx : x ∈ w.demoTriggerLog) : w.lastTrigger x.1 ≠ none := by
  rw [World.lastTrigger, Ne, List.max?_eq_none_iff]
  intro h
  have : x.2 ∈ (w.demoTriggerLog.filter (·.1 = x.1)).map (·.2) := List.mem_map_of_mem (List.mem_filter.2 ⟨hx, by simp⟩)
  rw [h] at this
  cases this

/-- The rows of a day, read at a time of which nothing is later, stay below a bound
for a later time's day, if no row has come. -/
theorem count_lt {P : String × Nat → Prop} [DecidablePred P] {n : Nat} (hn : 0 < n) (hp : Past w₀) (hle : w₀.clock ≤ w.clock)
    (h : w₀.demoTriggerLog.countP (fun x => P x ∧ x.2 / World.DAY_S = w₀.clock / World.DAY_S) < n) :
    w₀.demoTriggerLog.countP (fun x => P x ∧ x.2 / World.DAY_S = w.clock / World.DAY_S) < n := by
  by_cases hd : w₀.clock / World.DAY_S = w.clock / World.DAY_S
  · rwa [hd] at h
  · have hlt : w₀.clock / World.DAY_S < w.clock / World.DAY_S := Nat.lt_of_le_of_ne (Nat.div_le_div_right hle) hd
    have hzero : w₀.demoTriggerLog.countP (fun x => P x ∧ x.2 / World.DAY_S = w.clock / World.DAY_S) = 0 := by
      refine List.countP_eq_zero.2 fun x hx => ?_
      simp only [decide_eq_true_eq, not_and]
      intro _ hday
      have := Nat.div_le_div_right (c := World.DAY_S) (hp x hx)
      omega
    rw [hzero]
    exact hn

theorem Capped.insert (h : Capped w.demoTriggerLog) (hg : w.demoTriggerLog.countP (fun x => x.2 / World.DAY_S = w.clock / World.DAY_S) <
      GLOBAL_DAILY_CAP)
    (hd : w.demoTriggerLog.countP (fun x => x.1 = ip ∧ x.2 / World.DAY_S = w.clock / World.DAY_S) < DAILY_CAP)
    (hs : ∀ x ∈ w.demoTriggerLog, x.1 = ip → x.2 + COOLDOWN_S ≤ w.clock) : Capped (w.demoTriggerLog ++ [(ip, w.clock)]) := by
  refine ⟨fun d => ?_, fun ip' d => ?_, ?_⟩
  · rw [List.countP_append, List.countP_singleton]
    by_cases hday : w.clock / World.DAY_S = d
    · subst hday
      rw [if_pos (by simp)]
      exact hg
    · simpa [hday] using h.global d
  · rw [List.countP_append, List.countP_singleton]
    by_cases hday : ip = ip' ∧ w.clock / World.DAY_S = d
    · obtain ⟨rfl, rfl⟩ := hday
      rw [if_pos (by simp)]
      exact hd
    · simpa [hday] using h.daily ip' d
  · refine List.pairwise_append.2 ⟨h.spaced, List.pairwise_singleton _ _, fun x hx y hy hxy => ?_⟩
    obtain rfl := List.mem_singleton.1 hy
    exact hs x hx hxy

theorem app_before {s : Stmt} (h : app s w = some w') (hs : Untriggering s) :
    w'.demoTriggerLog = w.demoTriggerLog ∧ w'.clock = w.clock := by
  cases s with
  | insertTrigger ip => exact (hs ip rfl).elim
  | claim e =>
    simp only [app, Option.some.injEq] at h
    subst h
    split <;> exact ⟨rfl, rfl⟩
  | require | publish | sleepUntil | acquire | wait | waitUntil =>
    simp only [app] at h
    split at h <;> first | (obtain rfl := Option.some.inj h; exact ⟨rfl, rfl⟩) | cases h
  | _ =>
    obtain rfl := Option.some.inj h
    exact ⟨rfl, rfl⟩

theorem env_before (x : Env) (w : World) : (env x w).demoTriggerLog = w.demoTriggerLog ∧ w.clock ≤ (env x w).clock := by
  cases x with
  | tick d => exact ⟨rfl, Nat.le_add_right _ _⟩
  | record pid t n | evidence pid v | score pid =>
    simp only [env]
    split <;> exact ⟨rfl, Nat.le_refl _⟩
  | _ => exact ⟨rfl, Nat.le_refl _⟩

end Table

/-! ## Every run -/

/-- What request `i` has executed, oldest first. -/
def history (i : Nat) (l : List (Event World Stmt)) : List (Event World Stmt) := (l.filter (·.thread = i)).reverse

/-- If thread `i` writes the row that counts against the caps, the table is as it was
when its request read the first cap. -/
def AsRead (w : World) (l : List (Event World Stmt)) (i : Nat) : Job × Stmt → Prop
  | (.triggerInject c _ _ _, .insertTrigger _) => ∀ ev ∈ (history i l)[capsFrom c]?, ev.seen.demoTriggerLog = w.demoTriggerLog
  | _ => True

/-- No trigger is written by a request that has read its caps before the last one was. -/
def Unraced (st : State World Stmt Job) : Move Job Env → Prop
  | .step i => ∀ x ∈ st.next i, AsRead st.world st.log i x
  | _ => True

/-- What the phase of thread `i` tells. -/
def Tells (w : World) (l : List (Event World Stmt)) (i : Nat) : Phase → Prop
  | .idle => True
  | .fresh _ _ n => (history i l).length = n
  | .asked c _ w₀ => First w l i c w₀
  | .looked c _ w₀ w₁ => First w l i c w₀ ∧ Before w₀ w₁ ∧ Before w₁ w
  | .spaced c ip w₀ w₁ => First w l i c w₀ ∧ Before w₀ w₁ ∧ Before w₁ w ∧ Cool w ip w₁
  | .checked c ip w₀ w₁ w₂ => First w l i c w₀ ∧ Before w₀ w₁ ∧ Before w₁ w ∧ Cool w ip w₁ ∧ Before w₀ w₂ ∧ Before w₂ w ∧
    Past w₂ ∧ w₂.triggersToday ip < DAILY_CAP
where
  /-- Request `i` read, and passed, the global cap in `w₀`. -/
  First (w : World) (l : List (Event World Stmt)) (i : Nat) (c : String) (w₀ : World) : Prop :=
    (∃ ev, (history i l)[capsFrom c]? = some ev ∧ ev.seen = w₀) ∧ Before w₀ w ∧ Past w₀ ∧ w₀.globalTriggersToday < GLOBAL_DAILY_CAP
  /-- The last trigger that `w₁` has of `ip` is long enough ago. -/
  Cool (w : World) (ip : String) (w₁ : World) : Prop := ∀ t, w₁.lastTrigger ip = some t → t + COOLDOWN_S ≤ w.clock

theorem agrees_start (w : World) : Agrees operatorApi discipline (boot w) fun _ => none :=
  ⟨by simp [boot], fun _ _ => rfl, by simp [boot]⟩

structure Inv (w : World) (ph : Nat → Option Phase) (l : List (Event World Stmt)) : Prop where
  capped : Capped w.demoTriggerLog
  past : Past w
  tells : ∀ i φ, ph i = some φ → Tells w l i φ

section Run
variable {w w' w₀ : World} {ph : Nat → Option Phase} {l : List (Event World Stmt)} {i : Nat} {φ φ' : Phase} {s : Stmt} {c ip : String}

theorem history_cons (ev : Event World Stmt) : history i (ev :: l) = if ev.thread = i then history i l ++ [ev] else history i l := by
  unfold history
  by_cases h : ev.thread = i <;> simp [h]

theorem history_stays {ev ev' : Event World Stmt} {n : Nat} (h : (history i l)[n]? = some ev) :
    (history i (ev' :: l))[n]? = some ev := by
  rw [history_cons]
  split
  · rw [List.getElem?_append_left (List.getElem?_eq_some_iff.1 h).1]
    exact h
  · exact h

theorem Tells.First.later {ev : Event World Stmt} (h : Tells.First w l i c w₀) (hw : Before w w') :
    Tells.First w' (ev :: l) i c w₀ := by
  obtain ⟨⟨e, he, hs⟩, hb, hp, hg⟩ := h
  exact ⟨⟨e, history_stays he, hs⟩, hb.trans hw, hp, hg⟩

theorem Tells.First.after (h : Tells.First w l i c w₀) (hw : Before w w') : Tells.First w' l i c w₀ :=
  ⟨h.1, h.2.1.trans hw, h.2.2⟩

theorem Tells.Cool.after {w₁ : World} (h : Tells.Cool w ip w₁) (hw : Before w w') : Tells.Cool w' ip w₁ :=
  fun t ht => Nat.le_trans (h t ht) hw.2

/-- What a phase tells stays, whatever others do. -/
theorem Tells.after (h : Tells w l i φ) (hw : Before w w') : Tells w' l i φ := by
  cases φ with
  | idle => trivial
  | fresh c ip n => exact h
  | asked c ip w₀ => exact First.after h hw
  | looked c ip w₀ w₁ => exact ⟨h.1.after hw, h.2.1, h.2.2.trans hw⟩
  | spaced c ip w₀ w₁ => exact ⟨h.1.after hw, h.2.1, h.2.2.1.trans hw, h.2.2.2.after hw⟩
  | checked c ip w₀ w₁ w₂ =>
    obtain ⟨h1, h2, h3, h4, h5, h6, h7⟩ := h
    exact ⟨h1.after hw, h2, h3.trans hw, h4.after hw, h5, h6.trans hw, h7⟩

theorem Tells.elsewhere {ev : Event World Stmt} (h : Tells w l i φ) (hev : ev.thread ≠ i) : Tells w (ev :: l) i φ := by
  have hh : history i (ev :: l) = history i l := by rw [history_cons, if_neg hev]
  cases φ with
  | idle => trivial
  | _ => simpa only [Tells, Tells.First, hh] using h

theorem past_of (h : Past w) (hl : w'.demoTriggerLog = w.demoTriggerLog) (hc : w.clock ≤ w'.clock) : Past w' := by
  intro x hx
  rw [hl] at hx
  exact Nat.le_trans (h x hx) hc

/-- What a request knows when it has executed a statement that writes no trigger. -/
theorem tells_rule (hr : Rule φ s w φ') (hs : Untriggering s) (h : Tells w l i φ) (hp : Past w) :
    Tells w (⟨i, s, w, false⟩ :: l) i φ' := by
  have hb := Before.refl w
  have hh : history i (⟨i, s, w, false⟩ :: l) = history i l ++ [⟨i, s, w, false⟩] := by rw [history_cons, if_pos rfl]
  cases hr with
  | idle | drop | insert => trivial
  | begin =>
    have hn : (history i l).length = _ := h
    simp only [Tells, hh, List.length_append, List.length_singleton, hn]
  | global hg =>
    have hn : (history i l).length = _ := h
    refine ⟨⟨⟨i, .look, w, false⟩, ?_, rfl⟩, hb, hp, hg⟩
    rw [hh, ← hn, List.getElem?_concat_length]
  | last =>
    have h1 : Tells.First w l i _ _ := h
    exact ⟨h1.later hb, h1.2.1, hb⟩
  | cooled ht hc =>
    obtain ⟨h1, h2, h3⟩ := h
    refine ⟨h1.later hb, h2, h3, fun t' ht' => ?_⟩
    obtain rfl := Option.some.inj (ht.symm.trans ht')
    unfold COOLDOWN_S at *
    omega
  | daily hd =>
    obtain ⟨h1, h2, h3, h4⟩ := h
    exact ⟨h1.later hb, h2, h3, h4, h1.2.1, hb, hp, hd⟩
  | dailyFirst hnone hd =>
    obtain ⟨h1, h2, h3⟩ := h
    refine ⟨h1.later hb, h2, h3, fun t ht => ?_, h1.2.1, hb, hp, hd⟩
    rw [hnone] at ht
    cases ht
  | wait =>
    obtain ⟨h1, h2⟩ := h
    exact ⟨h1.later hb, h2⟩

/-- Two tables that a third one lies between and that are the same. -/
theorem Before.same (h : Before w₀ w) (h' : Before w w') (he : w₀.demoTriggerLog = w'.demoTriggerLog) :
    w.demoTriggerLog = w'.demoTriggerLog := by
  refine h'.1.eq_of_length (Nat.le_antisymm h'.1.length_le ?_)
  rw [← he]
  exact h.1.length_le

/-- The row that counts, written while the table is as it was when the request read its first cap. -/
theorem capped_insert {w₁ w₂ : World} (h : Tells w l i (.checked c ip w₀ w₁ w₂)) (hcap : Capped w.demoTriggerLog)
    (hsame : w₀.demoTriggerLog = w.demoTriggerLog) : Capped (w.demoTriggerLog ++ [(ip, w.clock)]) := by
  obtain ⟨⟨-, hb, hp, hg⟩, hb1, hb1', hcool, hb2, hb2', hp2, hd⟩ := h
  have h1 := hb1.same hb1' hsame
  have h2 := hb2.same hb2' hsame
  refine hcap.insert ?_ ?_ ?_
  · have hg' : w₀.demoTriggerLog.countP (fun x => True ∧ x.2 / World.DAY_S = w₀.clock / World.DAY_S) < GLOBAL_DAILY_CAP := by
      simpa [World.globalTriggersToday] using hg
    have := count_lt (by decide) hp hb.2 hg'
    simpa [hsame] using this
  · rw [← h2]
    exact count_lt (P := fun x => x.1 = ip) (by decide) hp2 hb2'.2 hd
  · rintro x hx rfl
    rw [← h1] at hx
    obtain ⟨t, ht⟩ := Option.ne_none_iff_exists'.1 (lastTrigger_isSome hx)
    exact Nat.le_trans (Nat.add_le_add_right (lastTrigger_le hx ht) _) (hcool t ht)

/-- Every thread but `i` knows what it knew. -/
theorem Inv.tells_after (h : Inv w ph l) (hb : Before w w') {b : Bool} (hi : ∀ ψ, φ' = ψ → Tells w' (⟨i, s, w, b⟩ :: l) i ψ) :
    ∀ k ψ, Function.update ph i (some φ') k = some ψ → Tells w' (⟨i, s, w, b⟩ :: l) k ψ := by
  intro k ψ hk
  rcases of_update hk with ⟨rfl, hψ⟩ | ⟨hne, hk'⟩
  · exact hi ψ hψ
  · exact ((h.tells k ψ hk').elsewhere (Ne.symm hne)).after hb

/-- A statement keeps the caps, if the row that counts is not raced. -/
theorem Inv.exec {j : Job} (h : Inv w ph l) (hφ : ph i = some φ) (hm : discipline.mine j φ) (hr : Rule φ s w φ')
    (ha : app s w = some w') (hu : AsRead w l i (j, s)) :
    Inv w' (Function.update ph i (some φ')) (⟨i, s, w, false⟩ :: l) := by
  have ht := h.tells i φ hφ
  by_cases hs : Untriggering s
  · obtain ⟨hl, hc⟩ := app_before ha hs
    have hb : Before w w' := ⟨hl ▸ List.prefix_rfl, Nat.le_of_eq hc.symm⟩
    refine ⟨hl ▸ h.capped, past_of h.past hl (Nat.le_of_eq hc.symm), h.tells_after hb ?_⟩
    rintro _ rfl
    exact (tells_rule hr hs ht h.past).after hb
  · cases hr with
    | insert =>
      rename_i c ip w₀ w₁ w₂
      obtain ⟨u, rfl⟩ := hm
      obtain ⟨ev, hev, rfl⟩ := ht.1.1
      obtain rfl := Option.some.inj ha
      have hb : Before w { w with demoTriggerLog := w.demoTriggerLog ++ [(ip, w.clock)] } := ⟨List.prefix_append _ _, Nat.le_refl _⟩
      refine ⟨capped_insert ht h.capped (hu ev hev), ?_, h.tells_after hb ?_⟩
      · intro x hx
        rcases List.mem_append.1 hx with hx | hx
        · exact h.past x hx
        · exact Nat.le_of_eq (congrArg Prod.snd (List.mem_singleton.1 hx))
      · rintro _ rfl
        trivial
    | idle hs' | wait hs' => exact (hs hs').elim
    | _ => exact (hs (by simp [Untriggering])).elim

/-- A thread that has not executed anything yet knows nothing. -/
theorem Inv.enter (h : Inv w ph l) {n : Nat} (j : Job) (hn : ∀ ev ∈ l, ev.thread ≠ n) :
    Inv w (Function.update ph n (some (entry j))) l := by
  refine ⟨h.capped, h.past, fun k ψ hk => ?_⟩
  rcases of_update hk with ⟨rfl, rfl⟩ | ⟨-, hk'⟩
  · have hnone : l.filter (·.thread = k) = [] := List.filter_eq_nil_iff.2 fun ev hev => by simpa using hn ev hev
    have hnil : history k l = [] := by rw [history, hnone, List.reverse_nil]
    cases j with
    | triggerInject c role u ip =>
      cases role with
      | admin => trivial
      | demoTrigger => exact congrArg List.length hnil
    | _ => trivial
  · exact h.tells k ψ hk'

/-- What the world does on its own keeps the caps. -/
theorem Inv.around (h : Inv w ph l) (hl : w'.demoTriggerLog = w.demoTriggerLog) (hc : w.clock ≤ w'.clock) : Inv w' ph l :=
  ⟨hl ▸ h.capped, past_of h.past hl hc, fun i φ hi => (h.tells i φ hi).after ⟨hl ▸ List.prefix_rfl, hc⟩⟩

theorem post_same {j : Job} (h : post j w = some w') : w'.demoTriggerLog = w.demoTriggerLog ∧ w'.clock = w.clock := by
  unfold post at h
  split at h
  all_goals first | cases h | (split at h <;> first | (obtain rfl := Option.some.inj h; exact ⟨rfl, rfl⟩) | cases h)

theorem inv_effect {st : State World Stmt Job} {ph' : Nat → Option Phase} {l' : List (Event World Stmt)} {m : Move Job Env}
    (h : Inv st.world ph st.log) (hc : Unraced st m) (he : Effect operatorApi discipline st ph m w' ph' l') : Inv w' ph' l' := by
  cases he with
  | stay => exact h
  | exec hn hφ hm hr ha _ => exact h.exec hφ hm hr ha (hc _ hn)
  | spawn hn hφ hm hr ha hsp hnew _ hfresh =>
    rename_i i j s φ φ' j' n hne
    refine (h.exec hφ hm hr ha (hc _ hn)).enter j' fun ev hev => ?_
    rcases List.mem_cons.1 hev with rfl | hev
    · exact Ne.symm hne
    · exact hfresh ev hev
  | fail hn hφ hm =>
    refine ⟨h.capped, h.past, h.tells_after (Before.refl _) ?_⟩
    rintro _ rfl
    trivial
  | post hp hnew hfresh =>
    obtain ⟨hl, hc'⟩ := post_same hp
    exact (h.around hl (Nat.le_of_eq hc'.symm)).enter _ hfresh
  | env e => exact h.around (env_before e _).1 (env_before e _).2
  | kill => exact ⟨h.capped, h.past, fun _ _ hi => by cases hi⟩

end Run

/-- In a run in which no row that counts against the caps is raced, the caps hold. -/
theorem triggers_capped {w : World} (h : Capped w.demoTriggerLog) (hp : Past w) (ms : List (Move Job Env))
    (hc : operatorApi.Admits Unraced (boot w) ms) : Capped (operatorApi.run (boot w) ms).world.demoTriggerLog := by
  obtain ⟨ph, -, hi⟩ := Machine.invariant operatorApi_capped Unraced Inv (fun _ _ _ _ _ _ _ hi hc he => inv_effect hi hc he)
    (agrees_start w) ⟨h, hp, fun _ _ hi => by cases hi⟩ ms hc
  exact hi.capped

instance (w : World) (l : List (Event World Stmt)) (i : Nat) (x : Job × Stmt) : Decidable (AsRead w l i x) := by
  unfold AsRead
  split <;> infer_instance

instance (st : State World Stmt Job) (m : Move Job Env) : Decidable (Unraced st m) :=
  match m with
  | .step i => inferInstanceAs (Decidable (∀ x ∈ st.next i, AsRead st.world st.log i x))
  | .fail _ | .post _ | .env _ | .kill => .isTrue trivial

/-- Two requests of one address; the first one's injector fails after 30 s. -/
def requests : List (Move Job Env) :=
  .post .onStartup :: turns 0 4 ++ List.replicate 2 (.post (.triggerInject "bad-rollout" .demoTrigger none "203.0.113.7"))

def firstFails : List (Move Job Env) := turns 1 13 ++ turns 3 4 ++ [.env (.tick 30), .env (.exit 0 1)] ++ turns 3 11

/-- The second request reads its caps before the first one's row is there. -/
def raced : List (Move Job Env) := requests ++ turns 2 4 ++ firstFails ++ turns 2 5

/-- The second request starts when the first one's cooldown is over. -/
def unraced : List (Move Job Env) := requests ++ firstFails ++ [.env (.tick 30)] ++ turns 2 10

theorem capped_nil : Capped [] := ⟨fun _ => Nat.zero_le _, fun _ _ => Nat.zero_le _, .nil⟩

theorem triggers_capped_unraced : (operatorApi.run (boot idle) unraced).world.demoTriggerLog = [("203.0.113.7", 0), ("203.0.113.7", 60)] ∧
    Capped (operatorApi.run (boot idle) unraced).world.demoTriggerLog :=
  ⟨by decide +kernel, triggers_capped (w := idle) capped_nil (by simp [Past, idle]) unraced (by decide +kernel)⟩

/-- The second row comes 30 s after the first. -/
theorem triggers_raced : (operatorApi.run (boot idle) raced).world.demoTriggerLog = [("203.0.113.7", 0), ("203.0.113.7", 30)] ∧
    ¬ Capped (operatorApi.run (boot idle) raced).world.demoTriggerLog := by
  have h : (operatorApi.run (boot idle) raced).world.demoTriggerLog = [("203.0.113.7", 0), ("203.0.113.7", 30)] := by decide +kernel
  refine ⟨h, fun hc => ?_⟩
  rw [h] at hc
  have := (List.pairwise_pair.1 hc.spaced) rfl
  simp [COOLDOWN_S] at this

end Wardence.Live.Caps
