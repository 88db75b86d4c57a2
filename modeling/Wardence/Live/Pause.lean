import Wardence.Live.Bystanders
import Wardence.Live.Resolving
/-!
# The checkout pause

`_leak_checkout_paused` is set by the request that triggers a memory-leak episode, before it
starts the wrapper, and cleared by whoever writes the episode's terminal state. Both are
outside the trigger lock, and the clear comes after the commit that lets the next episode in.
-/
namespace Wardence.Live

/-- A memory-leak episode. -/
def World.leaks (w : World) (e : Nat) : Bool := w.episodes[e]?.any (·.faultClass = "memory-leak")

/-- The thread runs the wrapper of `e`. -/
def Job.wraps (e : Nat) : Job → Bool
  | .runLiveEpisode e' _ => decide (e' = e)
  | _ => false

instance (w : World) (e : Nat) : Decidable (w.InFlight e) :=
  decidable_of_iff ((w.stateOf e).any (· ∈ NON_TERMINAL_EPISODE_STATES) = true) (by simp [World.InFlight, Option.any_eq_true])

namespace Pause

open Threads Code EpisodeState

/-! ## What threads owe -/

/-- Whether a thread owes a clear, after it executed `s`. -/
def owed (w : World) (s : Stmt) (b : Bool) : Bool :=
  match s with
  | .setPaused _ => false
  | .setState e t _ => b || (decide (t ∈ TERMINAL_EPISODE_STATES) && w.leaks e)
  | _ => b

/-- Thread `i` has written the terminal state of a memory-leak episode, and not the flag since. -/
def owes (i : Nat) : List (Event World Stmt) → Bool
  | [] => false
  | ev :: l => if ev.thread = i ∧ ev.raised = false then owed ev.seen ev.stmt (owes i l) else owes i l

/-- What a request's own phases may execute besides its insert, its pause and its start. -/
def Calm : Stmt → Prop
  | .insertEpisode _ _ | .setPaused _ | .setState _ _ _ | .startThread (.runLiveEpisode _ _) => False
  | _ => True

inductive Phase where
  /-- A request before its insert. -/
  | asking
  /-- It has inserted `e`; then it has set the flag for `e`. -/
  | inserted (e : Nat) (leak : Bool)
  | paused (e : Nat)
  /-- Any other thread; `wrapper` is the episode whose wrapper it is. -/
  | running (wrapper : Option Nat) (owes : Bool)

inductive Rule : Phase → Stmt → World → Phase → Prop
  | wait {φ s w} : Calm s → Rule φ s w φ
  | run {o b s w} : s.Mild → Rule (.running o b) s w (.running o (owed w s b))
  | insert {c u w} : Rule .asking (.insertEpisode c u) w (.inserted w.episodes.length (decide (c = "memory-leak")))
  | pause {e w} : Rule (.inserted e true) (.setPaused true) w (.paused e)
  | start {e c w} : Rule (.paused e) (.startThread (.runLiveEpisode e c)) w (.running none false)
  | startOther {e c w} : Rule (.inserted e false) (.startThread (.runLiveEpisode e c)) w (.running none false)

/-- A request that raises goes no further. -/
def fault : Phase → Phase
  | .running o b => .running o b
  | _ => .running none false

def entry : Job → Phase
  | .triggerInject .. => .asking
  | .runLiveEpisode e _ => .running (some e) false
  | _ => .running none false

/-- The phases of a job. -/
def Phase.Within (φ : Phase) : Job → Prop
  | .runLiveEpisode e _ => ∃ b, φ = .running (some e) b
  | _ => ∀ e b, φ ≠ .running (some e) b

/-- A request that has set the flag goes on to start the wrapper. -/
def Phase.Rests (φ : Phase) : Prop := ∀ e, φ ≠ .paused e

theorem Phase.within_rule {j : Job} {φ φ' : Phase} {s : Stmt} {w : World} (hm : φ.Within j) (h : Rule φ s w φ') :
    φ'.Within j := by
  cases j with
  | runLiveEpisode e c =>
    obtain ⟨b, rfl⟩ := hm
    cases h with
    | wait => exact ⟨b, rfl⟩
    | run => exact ⟨_, rfl⟩
  | _ =>
    intro e b he
    cases h with
    | wait => exact hm e b he
    | run =>
      cases he
      exact hm e _ rfl
    | _ => cases he

def discipline : Typestate World Stmt Job Phase where
  entry := entry
  rule := Rule
  fault φ _ := fault φ
  rests := Phase.Rests
  mine j φ := φ.Within j
  mine_entry j := by cases j <;> simp [entry, Phase.Within]
  mine_rule := Phase.within_rule
  mine_fault {j φ} _ hm := by cases j <;> cases φ <;> simp_all [fault, Phase.Within]

theorem rests_fault (φ : Phase) : (fault φ).Rests := by
  intro e he
  cases φ <;> cases he

section Programs
variable {α β : Type} {φ : Phase}

/-- Whatever it executed, a thread that raises may rest. -/
abbrev Keeps (p : Routine α) (φ : Phase) (Q : α → Phase → Prop) : Prop := Obeys operatorApi discipline p φ Q Phase.Rests

/-- Every program but an inject request. -/
theorem obeys_mild {p : Routine Unit} {o : Option Nat} (hp : Mild p) :
    Keeps p (.running o false) fun _ => Phase.Rests := by
  have hrun : Obeys operatorApi discipline p (.running o false) (fun _ ψ => ∃ b, ψ = .running o b) fun ψ => ∃ b, ψ = .running o b := by
    refine hp.obeys_among ⟨false, rfl⟩ ?_ ?_
    · rintro _ s w ⟨b, rfl⟩ hs
      exact ⟨_, .run hs, _, rfl⟩
    · rintro _ s ⟨b, rfl⟩ _
      exact ⟨b, rfl⟩
  refine hrun.mono ?_ ?_
  · rintro _ _ ⟨b, rfl⟩ e he
    cases he
  · rintro _ ⟨b, rfl⟩ e he
    cases he

theorem keeps_bind {p : Routine α} {f : α → Routine β} {Q : β → Phase → Prop} (h : Keeps p φ fun a ψ => Keeps (f a) ψ Q) :
    Keeps (p >>= f) φ Q :=
  Obeys.graft (h.mono (fun _ _ h => h) fun _ h => h)

theorem keeps_stmt {s : Stmt} {Q : World → Phase → Prop} (h : ∀ w, ∃ φ', Rule φ s w φ' ∧ Q w φ') : Keeps (stmt s) φ Q :=
  ⟨fun w _ _ => h w, rests_fault φ⟩

theorem keeps_exec {s : Stmt} {Q : Unit → Phase → Prop} (h : ∀ w, ∃ φ', Rule φ s w φ' ∧ Q () φ') : Keeps (exec s) φ Q :=
  ⟨fun w _ _ => h w, rests_fault φ⟩

/-- The program executes calm statements, and handles no exception. -/
abbrev Waits (p : Routine α) : Prop := p.Only Calm

theorem waits_bind {p : Routine α} {f : α → Routine β} (hp : Waits p) (hf : ∀ a, Waits (f a)) : Waits (p >>= f) :=
  Code.Only.graft hp hf

theorem waits_exec {s : Stmt} (h : Calm s) : Waits (exec s) := ⟨h, fun _ => trivial, rfl⟩

theorem waits_look : Waits look := ⟨trivial, fun _ => trivial, rfl⟩

theorem waits_onlyIf {c : Prop} {_ : Decidable c} {p : Routine Unit} (hp : Waits p) : Waits (onlyIf c p) := by
  unfold onlyIf
  split
  · exact hp
  · trivial

theorem waits_refuse : Waits (refuse : Routine α) :=
  waits_bind (waits_exec trivial) fun _ => waits_bind (waits_exec trivial) fun _ => trivial

theorem waits_cooldown {w : World} {ip : String} : Waits (cooldown w ip) := by
  unfold cooldown
  split
  · trivial
  · exact waits_bind waits_look fun _ => waits_onlyIf waits_refuse

theorem waits_demoTriggerChecks {c ip : String} : Waits (demoTriggerChecks c ip) := by
  refine waits_bind (waits_onlyIf waits_refuse) fun _ => waits_bind waits_look fun _ => ?_
  refine waits_bind (waits_onlyIf waits_refuse) fun _ => waits_bind waits_look fun _ => ?_
  exact waits_bind waits_cooldown fun _ => waits_bind waits_look fun _ => waits_onlyIf waits_refuse

theorem waits_orRaise (o : Option α) : Waits (orRaise o) :=
  waits_bind (waits_exec trivial) fun _ => by cases o <;> trivial

theorem waits_episodeInFlight : Waits episodeInFlight := by
  refine waits_bind waits_look fun w => ?_
  split
  · trivial
  · refine waits_bind waits_look fun w' => ?_
    split
    · trivial
    · exact waits_bind (waits_orRaise _) fun _ => waits_bind waits_look fun _ => trivial

theorem keeps_waits {p : Routine α} {Q : α → Phase → Prop} (hp : Waits p) (hφ : φ.Rests) (hq : ∀ a, Q a φ) : Keeps p φ Q :=
  hp.obeys (fun _ _ hs => Rule.wait hs) (fun _ _ => rests_fault φ) hφ hq

theorem keeps_refuse {Q : α → Phase → Prop} (hφ : φ.Rests) : Keeps (refuse : Routine α) φ Q :=
  keeps_bind (keeps_waits (waits_exec trivial) hφ fun _ => keeps_bind (keeps_waits (waits_exec trivial) hφ fun _ => hφ))

theorem keeps_admitUnderLock {c ip : String} {role : Role} {u : Option String} {Q : Nat → Phase → Prop}
    (hq : ∀ e, Q e (.inserted e (decide (c = "memory-leak")))) : Keeps (admitUnderLock c role u ip) .asking Q := by
  have hask : Phase.Rests .asking := fun _ h => by cases h
  refine keeps_bind (keeps_exec fun w => ⟨_, .wait trivial, ?_⟩)
  refine Obeys.graft (Obeys.mono (Q := fun e ψ => ψ = .inserted e (decide (c = "memory-leak"))) (X := Phase.Rests) ?_ ?_ ?_)
  · refine keeps_bind (keeps_waits waits_episodeInFlight hask fun busy => ?_)
    split
    · exact keeps_refuse hask
    · refine keeps_bind (keeps_stmt fun w => ⟨_, .insert, ?_⟩)
      exact keeps_bind (keeps_waits (waits_onlyIf (waits_exec trivial)) (fun _ h => by cases h) fun _ => rfl)
  · rintro e _ rfl
    exact keeps_bind (keeps_waits (waits_exec trivial) (fun _ h => by cases h) fun _ => hq e)
  · intro ψ hψ
    exact keeps_bind (keeps_waits (waits_exec trivial) hψ fun _ => hψ)

theorem keeps_triggerInject {c ip : String} {role : Role} {u : Option String} :
    Keeps (triggerInject c role u ip) .asking fun _ => Phase.Rests := by
  have hask : Phase.Rests .asking := fun _ h => by cases h
  have hend : Phase.Rests (.running none false) := fun _ h => by cases h
  refine keeps_bind (keeps_waits (waits_exec trivial) hask fun _ => ?_)
  refine keeps_bind (keeps_waits (waits_onlyIf waits_refuse) hask fun _ => ?_)
  refine keeps_bind (keeps_waits (waits_onlyIf (waits_bind waits_look fun _ => waits_onlyIf waits_refuse)) hask fun _ => ?_)
  refine keeps_bind (keeps_waits (waits_onlyIf waits_demoTriggerChecks) hask fun _ => ?_)
  refine keeps_bind (keeps_admitUnderLock fun e => ?_)
  have hins : Phase.Rests (.inserted e (decide (c = "memory-leak"))) := fun _ h => by cases h
  refine keeps_bind (keeps_waits (waits_exec trivial) hins fun _ => ?_)
  refine keeps_bind (keeps_waits (waits_exec trivial) hins fun _ => ?_)
  unfold onlyIf
  -- Only a memory-leak request sets the flag.
  by_cases hc : c = "memory-leak"
  · rw [if_pos hc, decide_eq_true hc]
    exact keeps_bind (keeps_exec fun w => ⟨_, .pause, keeps_exec fun w' => ⟨_, .start, hend⟩⟩)
  · rw [if_neg hc, decide_eq_false hc]
    exact keeps_exec fun w => ⟨_, .startOther, hend⟩

theorem operatorApi_pauses : Sound operatorApi discipline := by
  intro j
  cases j with
  | triggerInject => exact keeps_triggerInject
  | triggerStopHold => exact obeys_mild modest_triggerStopHold.mild
  | triggerResolve => exact obeys_mild modest_triggerResolve.mild
  | logout => exact obeys_mild modest_logout.mild
  | onStartup => exact obeys_mild mild_onStartup
  | runLiveEpisode => exact obeys_mild mild_runLiveEpisode
  | attemptResolve => exact obeys_mild (Within.bind mild_attemptResolve fun _ => trivial)
  | waitForOrphan => exact obeys_mild mild_waitForOrphan

end Programs

/-! ## The table -/

section Table
variable {w w' : World} {s : Stmt} {e : Nat}

/-- `w'` has the rows of `w` first, of the same classes. -/
structure Grown (w w' : World) : Prop where
  length : w.episodes.length ≤ w'.episodes.length
  leaks : ∀ e, e < w.episodes.length → w'.leaks e = w.leaks e

theorem Grown.of_eq (h : w'.episodes = w.episodes) : Grown w w' :=
  ⟨Nat.le_of_eq (by rw [h]), fun e _ => by simp only [World.leaks, h]⟩

theorem Grown.setRow (w : World) (e : Nat) {f : Episode → Episode} (hf : ∀ r, (f r).faultClass = r.faultClass) :
    Grown w (w.setRow e f) := by
  refine ⟨by simp [World.setRow], fun e' _ => ?_⟩
  simp only [World.leaks, World.setRow, List.getElem?_modify]
  split
  · rename_i h
    subst h
    cases w.episodes[e]? <;> simp [hf]
  · simp

theorem Grown.append (w : World) (r : Episode) : Grown w { w with episodes := w.episodes ++ [r] } :=
  ⟨by simp, fun e he => by simp only [World.leaks, List.getElem?_append_left he]⟩

theorem app_grown (ha : app s w = some w') : Grown w w' := by
  cases s <;> simp only [app, Option.some.injEq, Option.ite_none_left_eq_some, Option.ite_none_right_eq_some] at ha
  case insertEpisode => exact ha ▸ .append w _
  case setState | setPid | confirmEvidence | requestStop | setRepublished => exact ha ▸ .setRow w _ fun _ => rfl
  case claim =>
    split at ha
    · exact ha ▸ .setRow w _ fun _ => rfl
    · exact .of_eq (by rw [ha])
  case requestAbandon =>
    subst ha
    refine ⟨by simp, fun e _ => ?_⟩
    simp only [World.leaks, List.getElem?_map]
    cases w.episodes[e]? with
    | none => rfl
    | some r =>
      simp only [Option.map_some, Option.any_some]
      split <;> rfl
  all_goals
    apply Grown.of_eq
    first
    | (subst ha; rfl)
    | (obtain ⟨-, rfl⟩ := ha; rfl)

theorem env_grown (x : Env) (w : World) : Grown w (env x w) := by
  cases x with
  | batch => exact .append w _
  | tick | exit | cluster | scoreBatch => exact .of_eq rfl
  | record =>
    simp only [env]
    split
    · exact .setRow w _ fun _ => rfl
    · exact .of_eq rfl
  | evidence | score =>
    simp only [env]
    split <;> exact .of_eq rfl

/-- Only `setPaused` writes the flag. -/
theorem app_flag (ha : app s w = some w') (hs : ∀ b, s ≠ .setPaused b) : w'.leakCheckoutPaused = w.leakCheckoutPaused := by
  cases s <;> simp only [app, Option.some.injEq, Option.ite_none_left_eq_some, Option.ite_none_right_eq_some] at ha
  case setPaused b => exact absurd rfl (hs b)
  case claim =>
    subst ha
    split <;> rfl
  all_goals
    first
    | (subst ha; rfl)
    | (obtain ⟨-, rfl⟩ := ha; rfl)

theorem env_flag (x : Env) (w : World) : (env x w).leakCheckoutPaused = w.leakCheckoutPaused := by
  cases x with
  | record | evidence | score =>
    simp only [env]
    split <;> rfl
  | _ => rfl

theorem post_flag {j : Job} (hp : post j w = some w') : w'.leakCheckoutPaused = w.leakCheckoutPaused := by
  cases j <;> simp only [post, reduceCtorEq] at hp
  case attemptResolve e' t =>
    cases t <;> simp only [Option.ite_none_right_eq_some, Option.some.injEq, reduceCtorEq] at hp
    obtain ⟨-, rfl⟩ := hp
    rfl
  all_goals
    simp only [Option.ite_none_right_eq_some, Option.some.injEq] at hp
    obtain ⟨-, rfl⟩ := hp
    rfl

theorem lt_of_leaks (h : w.leaks e = true) : e < w.episodes.length := by
  by_contra hn
  simp [World.leaks, List.getElem?_eq_none (Nat.le_of_not_lt hn)] at h

/-- An episode leaves the non-terminal states by a terminal write. -/
theorem inFlight_forward (ha : app s w = some w') (h : w.InFlight e) :
    w'.InFlight e ∨ ∃ t x, s = .setState e t x ∧ t ∈ TERMINAL_EPISODE_STATES := by
  obtain ⟨t₀, ht₀, hn⟩ := h
  have hsame : w'.stateOf e = w.stateOf e → w'.InFlight e := fun hst => ⟨t₀, hst ▸ ht₀, hn⟩
  cases s with
  | insertEpisode c u =>
    obtain ⟨h0, h1⟩ := stateOf_insert ha
    have hne : e ≠ w.episodes.length := by
      rintro rfl
      rw [h0] at ht₀
      cases ht₀
    exact .inl (hsame (by rw [h1, Function.update_of_ne hne]))
  | setState e' t x =>
    by_cases he : e = e'
    · subst he
      rw [World.InFlight, stateOf_setState ha (by simp [ht₀]), Function.update_self]
      by_cases ht : t ∈ TERMINAL_EPISODE_STATES
      · exact .inr ⟨t, x, rfl, ht⟩
      · refine .inl ⟨t, rfl, ?_⟩
        revert ht
        cases t <;> decide
    · simp only [app, Option.some.injEq] at ha
      subst ha
      exact .inl (hsame (by rw [stateOf_setRow, if_neg he]))
  | claim e' =>
    by_cases hs : w.stateOf e' = some awaitingFix
    · rw [World.InFlight, stateOf_claim ha hs, Function.update_apply]
      split
      · exact .inl ⟨_, rfl, by decide⟩
      · exact .inl ⟨t₀, ht₀, hn⟩
    · simp only [app, if_neg hs, Option.some.injEq] at ha
      exact .inl (hsame (by rw [ha]))
  | _ => exact .inl (hsame (by rw [app_stateOf ha rfl]))

/-- A row that is there is in flight because it was. -/
theorem inFlight_back {φ φ' : Live.Phase} (hf : φ.Fits w) (hr : Live.Rule φ s w φ') (ha : app s w = some w')
    (he : e < w.episodes.length) (h : w'.InFlight e) : w.InFlight e := by
  rcases inFlight_step hf (rule_step hf hr ha) h with h' | ⟨rfl, -⟩
  · exact h'
  · cases hr with
    | insert =>
      rwa [World.InFlight, (stateOf_insert ha).2, Function.update_of_ne (Nat.ne_of_lt he)] at h
    | neutral _ hn => rwa [World.InFlight, (neutral_frame hn ha).state] at h
    | resolve | probe | giveUp => rwa [World.InFlight, app_stateOf ha rfl] at h
    | lose h' => rcases h' with h' | h' <;> cases h'
    | fail hm => cases hm

/-- A request keeps its new row until it starts the wrapper. -/
theorem rule_launching {b : Bool} {φ' : Live.Phase} (hr : Live.Rule (.launching e b) s w φ') :
    (∃ c, s = .startThread (.runLiveEpisode e c)) ∨ ∃ b', φ' = .launching e b' := by
  cases hr with
  | neutral | resolve | probe => exact .inr ⟨b, rfl⟩
  | release => exact .inr ⟨_, rfl⟩
  | launch => exact .inl ⟨_, rfl⟩
  | giveUp h | lose h => rcases h with h | h <;> cases h
  | fail hm => cases hm

theorem rule_inserts {φ φ' : Live.Phase} {c : String} {u : Option String} (hr : Live.Rule φ (.insertEpisode c u) w φ') :
    φ' = .launching w.episodes.length true := by
  cases hr with
  | insert => rfl
  | neutral _ hn => exact hn.elim
  | reap hp => simp [Stmt.Probes] at hp

end Table

/-! ## The flag along a run -/

namespace Phase

/-- The episode of a request's row or of a wrapper. -/
def About (e : Nat) : Phase → Prop
  | inserted e' _ | paused e' => e' = e
  | running o _ => o = some e
  | asking => False

/-- The thread is the request that inserted `e`. -/
def Requests (e : Nat) : Phase → Prop
  | inserted e' _ | paused e' => e' = e
  | _ => False

/-- The flag has been set for `e`, if it is one to set it for. -/
def Marks (e : Nat) : Phase → Prop
  | paused e' => e' = e
  | running o _ => o = some e
  | _ => False

theorem Marks.about {ψ : Phase} {e : Nat} (h : ψ.Marks e) : ψ.About e := by cases ψ <;> first | exact h | exact h.elim

end Phase

section Rules
variable {w : World} {s : Stmt} {ψ ψ' : Phase} {e : Nat}

theorem rule_about (hr : Rule ψ s w ψ') (h : ψ'.About e) :
    ψ.About e ∨ ((∃ c u, s = .insertEpisode c u) ∧ e = w.episodes.length) := by
  cases hr with
  | wait | run | pause => exact .inl h
  | insert => exact .inr ⟨⟨_, _, rfl⟩, h.symm⟩
  | start | startOther => cases h

theorem rule_marks (hr : Rule ψ s w ψ') (h : ψ'.Marks e) : ψ.Marks e ∨ s = .setPaused true := by
  cases hr with
  | wait | run => exact .inl h
  | pause => exact .inr rfl
  | insert => exact h.elim
  | start | startOther => cases h

theorem fault_about (h : (fault ψ).About e) : ψ.About e := by
  cases ψ <;> first | exact h | cases h

theorem fault_marks (h : (fault ψ).Marks e) : ψ.Marks e := by
  cases ψ <;> first | exact h | cases h

theorem owed_calm {b : Bool} (hs : Calm s) : owed w s b = b := by
  cases s <;> first | rfl | exact hs.elim

theorem owed_mono {b b' : Bool} (h : owed w s b = true) (hb : b = true → b' = true) : owed w s b' = true := by
  cases s with
  | setPaused => exact h
  | setState =>
    simp only [owed, Bool.or_eq_true] at h ⊢
    exact h.imp hb id
  | _ => exact hb h

/-- A thread that owes a clear after `s` did before, or it has just written. -/
theorem owes_cons {i k : Nat} {r : Bool} {l : List (Event World Stmt)} (h : k ≠ i ∨ r = true) :
    owes k (⟨i, s, w, r⟩ :: l) = owes k l := by
  rw [owes, if_neg]
  rintro ⟨rfl, hr⟩
  rcases h with h | h
  · exact h rfl
  · rw [h] at hr
    cases hr

theorem owes_self {i : Nat} {l : List (Event World Stmt)} : owes i (⟨i, s, w, false⟩ :: l) = owed w s (owes i l) := by
  rw [owes, if_pos ⟨rfl, rfl⟩]

end Rules

/-- The phases against the table, the log and the flag. The flag is set for every
marked episode in flight as far as `u`, which says that no clear disturbs one. -/
structure Inv (u : Prop) (w : World) (ph : Nat → Option (Live.Phase × Phase)) (l : List (Event World Stmt)) : Prop where
  known : ∀ i φ ψ e, ph i = some (φ, ψ) → ψ.About e → e < w.episodes.length
  launching : ∀ i φ ψ e, ph i = some (φ, ψ) → ψ.Requests e → ∃ b, φ = .launching e b
  leak : ∀ i φ e b, ph i = some (φ, .inserted e b) → w.leaks e = b
  logged : ∀ i φ o, ph i = some (φ, .running o true) → owes i l = true
  marked : ∀ i φ e, ph i = some (φ, .paused e) → ∃ ev ∈ l, ev.thread = i ∧ ev.stmt = .setPaused true ∧ ev.raised = false
  cleared : w.leakCheckoutPaused = true →
    (∃ e, w.leaks e = true ∧ w.InFlight e) ∨ ∃ i φ o, ph i = some (φ, .running o true)
  held : u → ∀ i φ ψ e, ph i = some (φ, ψ) → ψ.Marks e → w.leaks e = true → w.InFlight e → w.leakCheckoutPaused = true

section Run
variable {u : Prop} {w w' : World} {ph ph' : Nat → Option (Live.Phase × Phase)} {l l' : List (Event World Stmt)} {i : Nat}
  {φ φ' : Live.Phase} {ψ ψ' : Phase} {s : Stmt}

theorem Inv.exec (h : Inv u w ph l) (hl : Lifecycle w (firsts ph)) (hi : ph i = some (φ, ψ)) (hr : Live.Rule φ s w φ')
    (hp : Rule ψ s w ψ') (ha : app s w = some w')
    (hu : u → s = .setPaused false → ∀ k φ ψ e, ph k = some (φ, ψ) → ψ.Marks e → w.leaks e = true → ¬ w.InFlight e) :
    Inv u w' (Function.update ph i (some (φ', ψ'))) (⟨i, s, w, false⟩ :: l) := by
  have hg := app_grown ha
  have hf : φ.Fits w := hl.fits i φ (by simp [firsts, hi])
  refine ⟨?_, ?_, ?_, ?_, ?_, ?_, ?_⟩
  · intro k χ χ' e hk he
    rcases of_update hk with ⟨rfl, hχ⟩ | ⟨-, hk⟩
    · cases hχ
      rcases rule_about hp he with h' | ⟨⟨c, v, rfl⟩, rfl⟩
      · exact Nat.lt_of_lt_of_le (h.known k φ ψ e hi h') hg.length
      · simp only [app, Option.some.injEq] at ha
        subst ha
        simp
    · exact Nat.lt_of_lt_of_le (h.known k χ χ' e hk he) hg.length
  · intro k χ χ' e hk he
    rcases of_update hk with ⟨rfl, hχ⟩ | ⟨-, hk⟩
    · cases hχ
      have hstay : ψ.Requests e → (∀ c, s ≠ .startThread (.runLiveEpisode e c)) → ∃ b, φ' = .launching e b := by
        intro h' hs
        obtain ⟨b, rfl⟩ := h.launching k φ ψ e hi h'
        exact (rule_launching hr).resolve_left (not_exists.2 hs)
      cases hp with
      | wait hs =>
        refine hstay he ?_
        rintro c rfl
        exact hs
      | insert =>
        obtain rfl : _ = e := he
        exact ⟨true, rule_inserts hr⟩
      | pause => exact hstay he (by simp)
      | run | start | startOther => exact he.elim
    · exact h.launching k χ χ' e hk he
  · intro k χ e b hk
    rcases of_update hk with ⟨rfl, hχ⟩ | ⟨-, hk⟩
    · simp only [Prod.mk.injEq] at hχ
      obtain ⟨rfl, rfl⟩ := hχ
      cases hp with
      | wait => rw [hg.leaks e (h.known k φ _ e hi rfl), h.leak k φ e b hi]
      | insert =>
        simp only [app, Option.some.injEq] at ha
        subst ha
        simp [World.leaks]
    · rw [hg.leaks e (h.known k χ _ e hk rfl), h.leak k χ e b hk]
  · intro k χ o hk
    rcases of_update hk with ⟨rfl, hχ⟩ | ⟨hki, hk⟩
    · simp only [Prod.mk.injEq] at hχ
      obtain ⟨rfl, hψ⟩ := hχ
      rw [owes_self]
      cases hp with
      | wait hs =>
        rw [owed_calm hs]
        exact h.logged k φ o (hψ ▸ hi)
      | @run o' b _ _ _ =>
        simp only [Phase.running.injEq] at hψ
        refine owed_mono hψ.2 fun hb => h.logged k φ o' (hb ▸ hi)
      | _ => cases hψ
    · rw [owes_cons (.inl hki)]
      exact h.logged k χ o hk
  · intro k χ e hk
    rcases of_update hk with ⟨rfl, hχ⟩ | ⟨-, hk⟩
    · simp only [Prod.mk.injEq] at hχ
      obtain ⟨rfl, rfl⟩ := hχ
      cases hp with
      | wait =>
        obtain ⟨ev, hev, h'⟩ := h.marked k φ e hi
        exact ⟨ev, .tail _ hev, h'⟩
      | pause => exact ⟨_, .head _, rfl, rfl, rfl⟩
    · obtain ⟨ev, hev, h'⟩ := h.marked k χ e hk
      exact ⟨ev, .tail _ hev, h'⟩
  · intro hflag
    -- The thread itself sets the flag, or it was set before.
    by_cases hs : ∃ b, s = .setPaused b
    · obtain ⟨b, rfl⟩ := hs
      simp only [app, Option.some.injEq] at ha
      subst ha
      cases hp with
      | wait hc => exact hc.elim
      | run hm =>
        obtain rfl : b = true := hflag
        exact hm.elim
      | @pause e =>
        obtain ⟨b, rfl⟩ := h.launching i φ _ e hi rfl
        exact .inl ⟨e, h.leak i _ e true hi, (hf.arms e rfl).inFlight⟩
    · rw [app_flag ha fun b hb => hs ⟨b, hb⟩] at hflag
      rcases h.cleared hflag with ⟨e, he, hfl⟩ | ⟨k, χ, o, hk⟩
      · rcases inFlight_forward ha hfl with hfl' | ⟨t, x, rfl, ht⟩
        · exact .inl ⟨e, by rw [hg.leaks e (lt_of_leaks he), he], hfl'⟩
        · -- who ends the episode owes the clear from here on
          right
          cases hp with
          | wait hc => exact hc.elim
          | @run o b => exact ⟨i, φ', o, by simp [owed, ht, he]⟩
      · right
        by_cases hki : k = i
        · subst hki
          rw [hi, Option.some.injEq, Prod.mk.injEq] at hk
          obtain ⟨-, rfl⟩ := hk
          cases hp with
          | wait => exact ⟨k, φ', o, Function.update_self ..⟩
          | run =>
            refine ⟨k, φ', o, ?_⟩
            rw [Function.update_self]
            cases s <;> first | rfl | exact absurd ⟨_, rfl⟩ hs
        · exact ⟨k, χ, o, by rw [Function.update_of_ne hki, hk]⟩
  · intro hu' k χ χ' e hk hm he hfl
    by_cases hs : s = .setPaused true
    · subst hs
      simp only [app, Option.some.injEq] at ha
      subst ha
      rfl
    · obtain ⟨k, χ, χ', hk, hm⟩ : ∃ k χ χ', ph k = some (χ, χ') ∧ χ'.Marks e := by
        rcases of_update hk with ⟨rfl, hχ⟩ | ⟨-, hk⟩
        · cases hχ
          exact ⟨k, φ, ψ, hi, (rule_marks hp hm).resolve_right hs⟩
        · exact ⟨k, χ, χ', hk, hm⟩
      have hlt := h.known k χ χ' e hk hm.about
      rw [hg.leaks e hlt] at he
      have hfl' := inFlight_back hf hr ha hlt hfl
      rw [app_flag ha ?_]
      · exact h.held hu' k χ χ' e hk hm he hfl'
      · rintro b rfl
        cases b with
        | true => exact hs rfl
        | false => exact hu hu' rfl k χ χ' e hk hm he hfl'

theorem Inv.fail (h : Inv u w ph l) (hi : ph i = some (φ, ψ)) :
    Inv u w (Function.update ph i (some (φ', fault ψ))) (⟨i, s, w, true⟩ :: l) := by
  have hlog : ∀ k, owes k (⟨i, s, w, true⟩ :: l) = owes k l := fun k => owes_cons (.inr rfl)
  refine ⟨?_, ?_, ?_, ?_, ?_, ?_, ?_⟩
  · intro k χ χ' e hk he
    rcases of_update hk with ⟨rfl, hχ⟩ | ⟨-, hk⟩
    · cases hχ
      exact h.known k φ ψ e hi (fault_about he)
    · exact h.known k χ χ' e hk he
  · intro k χ χ' e hk he
    rcases of_update hk with ⟨rfl, hχ⟩ | ⟨-, hk⟩
    · cases hχ
      cases ψ <;> exact he.elim
    · exact h.launching k χ χ' e hk he
  · intro k χ e b hk
    rcases of_update hk with ⟨rfl, hχ⟩ | ⟨-, hk⟩
    · cases ψ <;> cases hχ
    · exact h.leak k χ e b hk
  · intro k χ o hk
    rw [hlog]
    rcases of_update hk with ⟨rfl, hχ⟩ | ⟨-, hk⟩
    · cases ψ <;> cases hχ
      exact h.logged k φ o hi
    · exact h.logged k χ o hk
  · intro k χ e hk
    rcases of_update hk with ⟨rfl, hχ⟩ | ⟨-, hk⟩
    · cases ψ <;> cases hχ
    · obtain ⟨ev, hev, h'⟩ := h.marked k χ e hk
      exact ⟨ev, .tail _ hev, h'⟩
  · intro hflag
    refine (h.cleared hflag).imp id ?_
    rintro ⟨k, χ, o, hk⟩
    by_cases hki : k = i
    · subst hki
      rw [hi, Option.some.injEq, Prod.mk.injEq] at hk
      obtain ⟨-, rfl⟩ := hk
      exact ⟨k, φ', o, Function.update_self ..⟩
    · exact ⟨k, χ, o, by rw [Function.update_of_ne hki, hk]⟩
  · intro hu k χ χ' e hk hm
    rcases of_update hk with ⟨rfl, hχ⟩ | ⟨-, hk⟩
    · cases hχ
      exact h.held hu k φ ψ e hi (fault_marks hm)
    · exact h.held hu k χ χ' e hk hm

/-- A new thread; of a wrapper, the flag is set. -/
theorem Inv.add (h : Inv u w ph l) {n : Nat} (hn : ph n = none) (j : Job) (φ : Live.Phase)
    (hj : ∀ e c, j = .runLiveEpisode e c → e < w.episodes.length ∧
      (u → w.leaks e = true → w.InFlight e → w.leakCheckoutPaused = true)) :
    Inv u w (Function.update ph n (some (φ, entry j))) l := by
  have habout : ∀ e, (entry j).About e → ∃ c, j = .runLiveEpisode e c := by
    intro e he
    cases j <;> first | exact ⟨_, by rw [Option.some.inj he]⟩ | cases he
  refine ⟨?_, ?_, ?_, ?_, ?_, ?_, ?_⟩
  · intro k χ χ' e hk he
    rcases of_update hk with ⟨rfl, hχ⟩ | ⟨-, hk⟩
    · cases hχ
      obtain ⟨c, hc⟩ := habout e he
      exact (hj e c hc).1
    · exact h.known k χ χ' e hk he
  · intro k χ χ' e hk he
    rcases of_update hk with ⟨rfl, hχ⟩ | ⟨-, hk⟩
    · cases hχ
      cases j <;> exact he.elim
    · exact h.launching k χ χ' e hk he
  · intro k χ e b hk
    rcases of_update hk with ⟨rfl, hχ⟩ | ⟨-, hk⟩
    · cases j <;> cases hχ
    · exact h.leak k χ e b hk
  · intro k χ o hk
    rcases of_update hk with ⟨rfl, hχ⟩ | ⟨-, hk⟩
    · cases j <;> cases hχ
    · exact h.logged k χ o hk
  · intro k χ e hk
    rcases of_update hk with ⟨rfl, hχ⟩ | ⟨-, hk⟩
    · cases j <;> cases hχ
    · exact h.marked k χ e hk
  · intro hflag
    refine (h.cleared hflag).imp id ?_
    rintro ⟨k, χ, o, hk⟩
    have hkn : k ≠ n := by
      rintro rfl
      rw [hn] at hk
      cases hk
    exact ⟨k, χ, o, by rw [Function.update_of_ne hkn, hk]⟩
  · intro hu k χ χ' e hk hm
    rcases of_update hk with ⟨rfl, hχ⟩ | ⟨-, hk⟩
    · cases hχ
      obtain ⟨c, hc⟩ := habout e hm.about
      exact (hj e c hc).2 hu
    · exact h.held hu k χ χ' e hk hm

/-- What happens around the threads. -/
theorem Inv.frame (h : Inv u w ph l) (hs : ∀ e, w'.stateOf e = w.stateOf e) (hg : Grown w w')
    (hf : w'.leakCheckoutPaused = w.leakCheckoutPaused) : Inv u w' ph l := by
  have hin : ∀ e, w'.InFlight e ↔ w.InFlight e := fun e => by rw [World.InFlight, hs e]; rfl
  refine ⟨fun i φ ψ e hi he => Nat.lt_of_lt_of_le (h.known i φ ψ e hi he) hg.length, h.launching, ?_, h.logged, h.marked, ?_, ?_⟩
  · intro i φ e b hi
    rw [hg.leaks e (h.known i φ _ e hi rfl), h.leak i φ e b hi]
  · intro hflag
    rw [hf] at hflag
    refine (h.cleared hflag).imp ?_ id
    rintro ⟨e, he, hfl⟩
    exact ⟨e, by rw [hg.leaks e (lt_of_leaks he), he], (hin e).2 hfl⟩
  · intro hu i φ ψ e hi hm he hfl
    rw [hg.leaks e (h.known i φ ψ e hi hm.about)] at he
    rw [hf]
    exact h.held hu i φ ψ e hi hm he ((hin e).1 hfl)

end Run

/-! ## The two halves -/

/-- The wrapper of `e` has been started in this process. -/
def Wrapped (st : State World Stmt Job) (e : Nat) : Prop := ∃ t ∈ st.pool, t.rest.isSome = true ∧ t.job.wraps e = true

/-- A request that has set the flag has yet to start its wrapper. -/
def Requested (st : State World Stmt Job) : Prop :=
  ∃ ev ∈ st.log, ev.stmt = .setPaused true ∧ ev.raised = false ∧ (st.pool[ev.thread]?.any (·.active)) = true

/-- The move clears no flag that another memory-leak episode has been given. -/
def Undisturbed (st : State World Stmt Job) : Move Job Env → Prop
  | .step i => (st.next i).any (fun x => decide (x.2 = .setPaused false)) = true →
      ∀ e, e < st.world.episodes.length → st.world.leaks e = true → st.world.InFlight e → ¬ Wrapped st e ∧ ¬ Requested st
  | _ => True

/-- No thread of the process owes a clear. -/
def Cleared (st : State World Stmt Job) : Prop :=
  ∀ i, i < st.pool.length → (st.pool[i]?.any (·.rest.isSome)) = true → owes i st.log = false

instance (st : State World Stmt Job) (e : Nat) : Decidable (Wrapped st e) := by unfold Wrapped; infer_instance
instance (st : State World Stmt Job) : Decidable (Requested st) := by unfold Requested; infer_instance
instance (st : State World Stmt Job) : Decidable (Cleared st) := by unfold Cleared; infer_instance

instance (st : State World Stmt Job) : ∀ m : Move Job Env, Decidable (Undisturbed st m)
  | .step i => inferInstanceAs (Decidable ((st.next i).any (fun x => decide (x.2 = .setPaused false)) = true →
      ∀ e, e < st.world.episodes.length → st.world.leaks e = true → st.world.InFlight e → ¬ Wrapped st e ∧ ¬ Requested st))
  | .fail _ | .post _ | .env _ | .kill => .isTrue trivial

section Theorem
variable {u : Prop} {st : State World Stmt Job} {ph ph' : Nat → Option (Live.Phase × Phase)} {w' : World}
  {l : List (Event World Stmt)} {m : Move Job Env}

/-- Every thread is in a phase of its lifecycle, and in one of the pause. -/
abbrev both : Typestate World Stmt Job (Live.Phase × Phase) := Live.discipline.both discipline

/-- Who marks an episode shows in the process. -/
theorem marks_shown (h : Inv u st.world ph st.log) (ha : Agrees operatorApi both st ph) {k e : Nat} {φ : Live.Phase} {ψ : Phase}
    (hk : ph k = some (φ, ψ)) (hm : ψ.Marks e) : Wrapped st e ∨ Requested st := by
  cases ψ with
  | asking | inserted => exact hm.elim
  | paused e' =>
    obtain ⟨ev, hev, rfl, hs, hr⟩ := h.marked k φ e' hk
    obtain ⟨t, ht, hact⟩ := ha.active hk fun hrest => hrest.2 e' rfl
    exact .inr ⟨ev, hev, hs, hr, by rw [ht]; exact hact⟩
  | running o b =>
    obtain rfl : o = some e := hm
    obtain ⟨j, p, hj, -, hw⟩ := ha.job hk
    refine .inl ⟨_, List.mem_of_getElem? hj, rfl, ?_⟩
    cases j with
    | runLiveEpisode e' c =>
      obtain ⟨b', hb⟩ := hw
      cases hb
      exact decide_eq_true rfl
    | _ => exact absurd rfl (hw e b)

theorem inv_effect (hl : Lifecycle st.world (firsts ph)) (h : Inv u st.world ph st.log) (ha : Agrees operatorApi both st ph)
    (hc : u → Undisturbed st m) (he : Effect operatorApi both st ph m w' ph' l) : Inv u w' ph' l := by
  have hu : ∀ {i j s}, m = .step i → st.next i = some (j, s) → u → s = .setPaused false → ∀ k φ ψ e, ph k = some (φ, ψ) →
      ψ.Marks e → st.world.leaks e = true → ¬ st.world.InFlight e := by
    rintro i j s rfl hn hu rfl k φ ψ e hk hm hle hfl
    have := hc hu (by simp [hn]) e (lt_of_leaks hle) hle hfl
    exact (marks_shown h ha hk hm).elim this.1 this.2
  cases he with
  | stay => exact h
  | @exec i j s φ φ' _ hn hi hm hr ha' _ => exact h.exec hl hi hr.1 hr.2 ha' (hu rfl hn)
  | @spawn i j s φ φ' _ j' n hn hi hm hr ha' hs hnew hne _ =>
    obtain ⟨φ, ψ⟩ := φ
    refine (h.exec hl hi hr.1 hr.2 ha' (hu rfl hn)).add (by rw [Function.update_of_ne hne, hnew]) j' _ ?_
    rintro e c rfl
    obtain rfl := eq_of_spawns hs
    simp only [operatorApi, app, Option.some.injEq] at ha'
    subst ha'
    obtain ⟨-, hp⟩ := hr
    generalize φ'.2 = ψ' at hp
    cases hp with
    | wait hs => exact hs.elim
    | run hs => exact hs.elim
    | start => exact ⟨h.known i φ _ e hi rfl, fun hu => h.held hu i φ _ e hi rfl⟩
    | startOther =>
      refine ⟨h.known i φ _ e hi rfl, fun _ hle => ?_⟩
      rw [h.leak i φ e false hi] at hle
      cases hle
  | fail _ hi _ => exact h.fail hi
  | @post j n _ hp hnew _ =>
    have hsame := post_same hp
    have h' : Inv u w' ph st.log := h.frame (post_state hp) (.of_eq hsame.1) (post_flag hp)
    refine h'.add hnew j _ ?_
    rintro e c rfl
    cases hp
  | env x => exact h.frame (env_frame x _).state (env_grown x _) (env_flag x _)
  | kill =>
    refine ⟨?_, ?_, ?_, ?_, ?_, ?_, ?_⟩ <;> simp [operatorApi, killed]

/-- The checkout pause follows the memory-leak episodes, whatever requests, wrappers,
resolves, exceptions and restarts do. The flag is clear when no memory-leak episode is
in flight and none of the threads that ended one has yet to clear it. It is set for
a memory-leak episode in flight from the start of its wrapper on, in every run in which
no late clear meets an episode that the flag has been set for. -/
theorem pause_follows {w : World} (h : Initial w) (hw : w.leakCheckoutPaused = false) (ms : List (Move Job Env)) :
    ((∀ e, (operatorApi.run (boot w) ms).world.leaks e = true → ¬ (operatorApi.run (boot w) ms).world.InFlight e) →
      Cleared (operatorApi.run (boot w) ms) → (operatorApi.run (boot w) ms).world.leakCheckoutPaused = false) ∧
    (operatorApi.Admits Undisturbed (boot w) ms → ∀ e, (operatorApi.run (boot w) ms).world.leaks e = true →
      (operatorApi.run (boot w) ms).world.InFlight e → Wrapped (operatorApi.run (boot w) ms) e →
      (operatorApi.run (boot w) ms).world.leakCheckoutPaused = true) := by
  have hrun : ∀ (u : Prop) (C : State World Stmt Job → Move Job Env → Prop), (∀ st m, C st m → u → Undisturbed st m) →
      operatorApi.Admits C (boot w) ms → ∃ ph, Agrees operatorApi both (operatorApi.run (boot w) ms) ph ∧
        Inv u (operatorApi.run (boot w) ms).world ph (operatorApi.run (boot w) ms).log := by
    intro u C hC hc
    have hboot : Agrees operatorApi both (boot w) fun _ => none := ⟨by simp [boot], fun _ _ => rfl, by simp [boot]⟩
    obtain ⟨ph, ha, -, hi⟩ := operatorApi.invariant (operatorApi_sound.both operatorApi_pauses) C
      (fun w ph l => Lifecycle w (firsts ph) ∧ Inv u w ph l)
      (fun st _ m _ _ _ ha h hcm he => ⟨lifecycle_effect h.1 he.first, inv_effect h.1 h.2 ha (hC st m hcm) he⟩)
      hboot ⟨lifecycle_boot h, by constructor <;> simp [boot, hw]⟩ ms hc
    exact ⟨ph, ha, hi⟩
  constructor
  · intro hn hcl
    obtain ⟨ph, ha, hi⟩ := hrun False (fun _ _ => True) (fun _ _ _ hf => hf.elim) (operatorApi.admits_true ms)
    by_contra hflag
    rcases hi.cleared (by simpa using hflag) with ⟨e, he, hfl⟩ | ⟨i, φ, o, hk⟩
    · exact hn e he hfl
    · obtain ⟨j, p, hj, -⟩ := ha.job hk
      have := hcl i (List.getElem?_eq_some_iff.1 hj).1 (by simp [hj])
      rw [hi.logged i φ o hk] at this
      cases this
  · rintro hu e he hfl ⟨t, ht, hrest, hwr⟩
    obtain ⟨ph, ha, hi⟩ := hrun True Undisturbed (fun _ _ h _ => h) hu
    obtain ⟨i, hit⟩ := List.mem_iff_getElem?.1 ht
    obtain ⟨j, rest⟩ := t
    obtain ⟨p, rfl⟩ := Option.isSome_iff_exists.1 hrest
    obtain ⟨⟨φ, ψ⟩, hφ, ⟨-, hm⟩, -⟩ := ha.living i j p hit
    cases j with
    | runLiveEpisode e' c =>
      obtain rfl : e' = e := of_decide_eq_true hwr
      obtain ⟨b, rfl⟩ : ∃ b, ψ = .running (some e') b := hm
      exact hi.held trivial i φ _ e' hφ rfl he hfl
    | _ => cases hwr

end Theorem

/-- A request for a memory-leak episode starts the wrapper, thread 2. -/
def leakTriggered : List (Move Job Env) :=
  .post .onStartup :: turns 0 4 ++ .post (.triggerInject "memory-leak" .admin none "") :: turns 1 10

/-- The injector fails, and the wrapper has written `failed`. -/
def leakFailed : List (Move Job Env) := leakTriggered ++ turns 2 10 ++ .env (.exit 0 1) :: turns 2 6

theorem pause_follows_leak : (operatorApi.run (boot idle) leakTriggered).world.leakCheckoutPaused = true ∧
    (operatorApi.run (boot idle) (leakFailed ++ turns 2 2)).world.leakCheckoutPaused = false := by
  have hnone : (operatorApi.run (boot idle) (leakFailed ++ turns 2 2)).world.inFlight = false := by decide +kernel
  refine ⟨(pause_follows initial_idle rfl leakTriggered).2 (by decide +kernel) 0 (by decide +kernel) (by decide +kernel) (by decide +kernel),
    (pause_follows initial_idle rfl (leakFailed ++ turns 2 2)).1 (fun e _ he => ?_) (by decide +kernel)⟩
  rw [World.inFlight_iff.2 ⟨e, he⟩] at hnone
  cases hnone

/-- Between the terminal write and its clear, the flag of an ended episode is still set, and
no request is under way. Another request comes in there, sets the flag for its own
episode and starts the wrapper; then the clear of the first one takes the flag away. -/
theorem late_clear :
    ((operatorApi.run (boot idle) leakFailed).world.inFlight = false ∧
      (∀ t ∈ (operatorApi.run (boot idle) leakFailed).pool, t.job.isInject = true → t.ended = true) ∧
      (operatorApi.run (boot idle) leakFailed).world.leakCheckoutPaused = true) ∧
    ∃ ms, (∀ m ∈ ms, m.fails = false ∧ m.kills = false) ∧ (operatorApi.run (boot idle) ms).world.leaks 1 = true ∧
      (operatorApi.run (boot idle) ms).world.InFlight 1 ∧ Wrapped (operatorApi.run (boot idle) ms) 1 ∧
      (operatorApi.run (boot idle) ms).world.leakCheckoutPaused = false :=
  ⟨by decide +kernel, leakFailed ++ .post (.triggerInject "memory-leak" .admin none "") :: turns 3 10 ++ turns 2 2, by decide +kernel,
    by decide +kernel, by decide +kernel, by decide +kernel, by decide +kernel⟩


end Pause

end Wardence.Live
