import Wardence.Live.Absorbing
import Wardence.Live.Checked
import Wardence.Live.Scorers
/-!
# Spoiled injections

An injection is spoiled when its injector fails, or when somebody asks to abandon the episode before
its evidence is confirmed. What a statement leaves as it was, of the rows, of the injectors and of
the log, keeps an episode that is not spoiled so.
-/
namespace Wardence.Live

open Threads EpisodeState

namespace World

/-- The injection of `e` is in its row. -/
def Recorded (w : World) (e : Nat) : Prop := ∃ r ∈ w.episodes[e]?, r.Recorded

/-- Every injector of `e` has returned 0, with the row filled in. -/
def Injected (w : World) (e : Nat) : Prop := ∀ p ∈ w.procs, p.program = .injector e → p.exit = some 0 ∧ w.Recorded e

/-- An injector of `e` has returned something else, or has left the row as it was. -/
def InjectorFailed (w : World) (e : Nat) : Prop :=
  ∃ p ∈ w.procs, p.program = .injector e ∧ ∃ c ∈ p.exit, c ≠ 0 ∨ ¬ w.Recorded e

end World

/-- The episode that a program is run for. -/
def Program.episode : Program → Nat
  | .injector e | .scorer e _ => e

/-- The episode that a statement brings to `awaiting_fix`. -/
def Stmt.arms : Stmt → Option Nat
  | .setState e .awaitingFix _ => some e
  | _ => none

/-- Whose episodes a statement abandons. -/
def Stmt.abandons : Stmt → Option (Option String)
  | .requestAbandon u => some u
  | _ => none

/-- The wrapper of an episode. -/
def Job.isWrapper : Job → Bool
  | .runLiveEpisode _ _ => true
  | _ => false

/-- A logout of `u` sets `abandon_requested` in the row. -/
def Episode.LoggedOut (r : Episode) (u : Option String) : Prop :=
  u ≠ none ∧ r.triggeringUsername = u ∧ r.episodeState.any (· ∈ NON_TERMINAL_EPISODE_STATES) = true

/-- A logout that abandons `e`, before its evidence is confirmed. -/
def Abandons (ev : Event World Stmt) (e : Nat) : Prop :=
  ev.raised = false ∧ ∃ u ∈ ev.stmt.abandons, ∃ r ∈ ev.seen.episodes[e]?, r.LoggedOut u ∧ r.evidenceConfirmed = false

def Abandoned (log : List (Event World Stmt)) (e : Nat) : Prop := ∃ ev ∈ log, Abandons ev e

/-- The injection is done, and not spoiled. -/
structure Unspoiled (w : World) (log : List (Event World Stmt)) (e : Nat) : Prop where
  injected : w.Injected e
  kept : ¬ Abandoned log e

/-- For a spoiled injection there is no row of `scores`, and no scorer was started: only a scorer moves the ladders. -/
def NeverScored (st : State World Stmt Job) : Prop :=
  ∀ e, st.world.InjectorFailed e ∨ Abandoned st.log e → e ∉ st.world.scores ∧ ∀ pid, st.world.scorerOf pid ≠ some e

namespace Checked

section Rows
variable {w w' : World} {log : List (Event World Stmt)} {s : Stmt} {e : Nat}

theorem not_failed (h : w.Injected e) : ¬ w.InjectorFailed e := by
  rintro ⟨p, hp, hprog, c, hc, hbad⟩
  obtain ⟨hexit, hrec⟩ := h p hp hprog
  rw [hexit] at hc
  cases hc
  rcases hbad with hbad | hbad
  · exact hbad rfl
  · exact hbad hrec

/-! ### What the rows keep -/

/-- A row as it was, but for what is set once and for all. -/
structure Kept (r r' : Episode) : Prop where
  recorded : r.Recorded → r'.Recorded
  abandoned : r.abandonRequested = true → r'.abandonRequested = true

/-- No row is lost. -/
def Rows (w w' : World) : Prop := ∀ (e : Nat) r, w.episodes[e]? = some r → ∃ r', w'.episodes[e]? = some r' ∧ Kept r r'

theorem Rows.of_eq (h : w'.episodes = w.episodes) : Rows w w' := fun _ r hr => ⟨r, h ▸ hr, id, id⟩

theorem Rows.setRow (w : World) (e : Nat) {f : Episode → Episode} (hf : ∀ r, Kept r (f r)) : Rows w (w.setRow e f) := by
  intro e' r hr
  simp only [World.setRow, List.getElem?_modify, hr]
  by_cases he : e = e'
  · exact ⟨f r, by simp [he], hf r⟩
  · exact ⟨r, by simp [he], id, id⟩

theorem Rows.append (w : World) (r : Episode) : Rows w { w with episodes := w.episodes ++ [r] } := by
  intro e r' hr
  exact ⟨r', by rw [List.getElem?_append_left (List.getElem?_eq_some_iff.1 hr).1, hr], id, id⟩

theorem app_rows (ha : app s w = some w') : Rows w w' := by
  cases s <;> simp only [app, Option.some.injEq, Option.ite_none_left_eq_some, Option.ite_none_right_eq_some] at ha
  case insertEpisode => exact ha ▸ .append w _
  case setState | setPid | confirmEvidence | requestStop | setRepublished => exact ha ▸ .setRow w _ fun _ => ⟨id, id⟩
  case claim =>
    split at ha
    · exact ha ▸ .setRow w _ fun _ => ⟨id, id⟩
    · exact .of_eq (by rw [ha])
  case requestAbandon =>
    subst ha
    intro e r hr
    simp only [List.getElem?_map, hr, Option.map_some, Option.some.injEq, exists_eq_left']
    split
    · exact ⟨id, fun _ => rfl⟩
    · exact ⟨id, id⟩
  all_goals
    apply Rows.of_eq
    first
    | (subst ha; rfl)
    | (obtain ⟨-, rfl⟩ := ha; rfl)

theorem env_rows (x : Env) (w : World) : Rows w (env x w) := by
  cases x with
  | batch => exact .append w _
  | tick | exit | cluster | scoreBatch => exact .of_eq rfl
  | record =>
    simp only [env]
    split
    · exact .setRow w _ fun _ => ⟨fun _ => ⟨rfl, rfl⟩, id⟩
    · exact .of_eq rfl
  | evidence | score =>
    simp only [env]
    split <;> exact .of_eq rfl

theorem Rows.recorded (h : Rows w w') (hr : w.Recorded e) : w'.Recorded e := by
  obtain ⟨r, hr, hrec⟩ := hr
  obtain ⟨r', hr', hkeep⟩ := h e r hr
  exact ⟨r', hr', hkeep.recorded hrec⟩

/-! ### What becomes of the injectors -/

/-- Every injector of `e` was there before, and a return code stays. -/
def Injectors (w w' : World) (e : Nat) : Prop :=
  ∀ (k : Nat) p', w'.procs[k]? = some p' → p'.program = .injector e →
    ∃ p, w.procs[k]? = some p ∧ p.program = .injector e ∧ ∀ c, p.exit = some c → p'.exit = some c

theorem Injectors.of_eq (h : w'.procs = w.procs) : Injectors w w' e := fun _ p' hk hp => ⟨p', h ▸ hk, hp, fun _ => id⟩

theorem Injectors.append {x : Proc} (h : w'.procs = w.procs ++ [x]) (hx : x.program ≠ .injector e) : Injectors w w' e := by
  intro k p' hk hp
  rw [h, List.getElem?_append] at hk
  split at hk
  · exact ⟨p', hk, hp, fun _ => id⟩
  · obtain rfl : x = p' := List.mem_singleton.1 (List.mem_of_getElem? hk) |>.symm
    exact absurd hp hx

theorem Injectors.ended (w : World) (q : Nat) (c : Int) (e : Nat) : Injectors w (w.setProc q (·.ended c)) e := by
  intro k p' hk hp
  simp only [World.setProc, List.getElem?_modify, Option.map_eq_map, Option.map_eq_some_iff] at hk
  obtain ⟨p, hk, rfl⟩ := hk
  refine ⟨p, hk, ?_⟩
  by_cases hq : q = k
  · simp only [hq, if_true, Proc.ended] at hp ⊢
    exact ⟨hp, fun c hc => by simp [hc]⟩
  · simp only [if_neg hq] at hp ⊢
    exact ⟨hp, fun _ => id⟩

/-- A statement leaves the injectors of `e`, but for the start of one. -/
theorem app_injectors (ha : app s w = some w') (hs : s ≠ .startInjector e) : Injectors w w' e := by
  rcases app_procs ha with hp | ⟨q, -, rfl⟩ | ⟨e', rfl, hp⟩ | ⟨e', t, -, hp⟩
  · exact .of_eq hp
  · exact .ended w q _ e
  · exact .append hp fun h => hs (by cases h; rfl)
  · exact .append hp (by simp)

theorem env_injectors (x : Env) (w : World) (e : Nat) : Injectors w (env x w) e := by
  cases x with
  | exit pid c => exact .ended w pid c e
  | record | evidence | score =>
    simp only [env]
    split <;> exact .of_eq rfl
  | _ => exact .of_eq rfl

/-- `pid` is the one injector of `e`. -/
def Sole (w : World) (e pid : Nat) : Prop := ∀ (k : Nat) p, w.procs[k]? = some p → p.program = .injector e → k = pid

theorem Injectors.sole {pid : Nat} (h : Injectors w w' e) (hs : Sole w e pid) : Sole w' e pid := by
  intro k p' hk hp
  obtain ⟨p, hk, hp, -⟩ := h k p' hk hp
  exact hs k p hk hp

theorem Injectors.injected (h : Injectors w w' e) (hr : Rows w w') (hi : w.Injected e) : w'.Injected e := by
  intro p' hp' hprog
  obtain ⟨k, hk⟩ := List.mem_iff_getElem?.1 hp'
  obtain ⟨p, hk, hprog, hexit⟩ := h k p' hk hprog
  obtain ⟨hx, hrec⟩ := hi p (List.mem_of_getElem? hk) hprog
  exact ⟨hexit 0 hx, hr.recorded hrec⟩

theorem exitOf_ended {q pid : Nat} {c d : Int} (h : w.exitOf pid = some d) : (w.setProc q (·.ended c)).exitOf pid = some d := by
  obtain ⟨p, hp, hx⟩ := Option.bind_eq_some_iff.1 h
  simp only [World.exitOf, World.setProc, List.getElem?_modify, hp]
  by_cases hq : q = pid <;> simp [hq, Proc.ended, hx]

theorem app_exitOf {pid : Nat} {d : Int} (ha : app s w = some w') (h : w.exitOf pid = some d) : w'.exitOf pid = some d := by
  have happend : ∀ x, w'.procs = w.procs ++ [x] → w'.exitOf pid = some d := by
    intro x hp
    obtain ⟨p, hk, hx⟩ := Option.bind_eq_some_iff.1 h
    simp only [World.exitOf, hp, List.getElem?_append_left (List.getElem?_eq_some_iff.1 hk).1, hk, Option.bind_some, hx]
  rcases app_procs ha with hp | ⟨q, -, rfl⟩ | ⟨e', -, hp⟩ | ⟨e', t, -, hp⟩
  · simpa only [World.exitOf, hp] using h
  · exact exitOf_ended h
  · exact happend _ hp
  · exact happend _ hp

theorem env_exitOf {pid : Nat} {d : Int} (x : Env) (h : w.exitOf pid = some d) : (env x w).exitOf pid = some d := by
  cases x with
  | exit pid c => exact exitOf_ended h
  | record | evidence | score =>
    simp only [env]
    split <;> exact h
  | _ => exact h

/-! ### What becomes of the states -/

/-- Only the wrapper of an injection that is under way keeps it so. -/
theorem rule_unsettled {φ φ' : Live.Phase} {t : EpisodeState} {x : Extra} (hr : Live.Rule φ (.setState e t x) w φ')
    (ht : t.Unsettled) : φ.Arms e := by
  cases hr with
  | neutral _ hn => exact hn.elim
  | reap hp => simp [Stmt.Probes] at hp
  | hold => rfl
  | settle _ _ _ hs | close _ _ hs => rcases hs with rfl | rfl <;> simp [EpisodeState.Unsettled] at ht
  | _ => simp [EpisodeState.Unsettled] at ht

theorem not_injecting {φ φ' : Live.Phase} (hf : φ.Fits w) (hr : Live.Rule φ s w φ') (ha : app s w = some w')
    (hrow : e < w.episodes.length) (h : ¬ w.Injecting e) : ¬ w'.Injecting e := by
  have hsame : w'.stateOf e = w.stateOf e → ¬ w'.Injecting e := fun hs => by simpa only [World.Injecting, hs] using h
  cases s with
  | insertEpisode c u =>
    refine hsame ?_
    rw [(stateOf_insert ha).2, Function.update_of_ne (Nat.ne_of_lt hrow)]
  | setState e' t x =>
    by_cases he : e = e'
    · subst he
      rintro ⟨t', ht', hu⟩
      have hstate : w'.stateOf e = some t := by
        simp only [app, Option.some.injEq] at ha
        subst ha
        simp [World.stateOf, World.setRow, List.getElem?_eq_getElem hrow]
      obtain rfl : t = t' := Option.some.inj (hstate.symm.trans ht')
      exact h (hf.arms e (rule_unsettled hr hu))
    · exact hsame (row_setState ha he).1
  | claim e' =>
    by_cases hst : w.stateOf e' = some awaitingFix
    · by_cases he : e = e'
      · rintro ⟨t', ht', hu⟩
        rw [stateOf_claim ha hst, Function.update_apply, if_pos he] at ht'
        cases ht'
        simp [EpisodeState.Unsettled] at hu
      · exact hsame (by rw [stateOf_claim ha hst, Function.update_of_ne he])
    · simp only [app, if_neg hst, Option.some.injEq] at ha
      exact hsame (by rw [ha])
  | _ => exact hsame (by rw [app_stateOf ha rfl])

/-! ### What is logged -/

/-- No logout abandons an episode whose injection is not under way, and whose evidence is not confirmed. -/
def Timely (w : World) (s : Stmt) : Prop :=
  ∀ u ∈ s.abandons, ∀ r ∈ w.episodes, r.LoggedOut u → r.evidenceConfirmed = false → r.episodeState.any (·.Unsettled) = true

theorem abandoned_cons {ev : Event World Stmt} : Abandoned (ev :: log) e ↔ Abandons ev e ∨ Abandoned log e := by
  simp [Abandoned]

theorem raised_abandons {i : Nat} : ¬ Abandons ⟨i, s, w, true⟩ e := fun h => by cases h.1

/-- Only a logout abandons. -/
theorem abandons_cases {i : Nat} (h : Abandons ⟨i, s, w, false⟩ e) :
    ∃ u r, s = .requestAbandon u ∧ w.episodes[e]? = some r ∧ r.LoggedOut u ∧ r.evidenceConfirmed = false := by
  obtain ⟨-, u, hu, r, hr, hout, hev⟩ := h
  cases s with
  | requestAbandon u' =>
    obtain rfl : u' = u := Option.some.inj hu
    exact ⟨u', r, rfl, hr, hout, hev⟩
  | _ => cases hu

/-- What a logout abandons in time has its injection under way. -/
theorem Timely.injecting {i : Nat} (h : Timely w s) (ha : Abandons ⟨i, s, w, false⟩ e) : w.Injecting e := by
  obtain ⟨u, r, rfl, hr, hout, hev⟩ := abandons_cases ha
  obtain ⟨t, ht, hu⟩ := (Option.any_eq_true _ _).1 (h u rfl r (List.mem_of_getElem? hr) hout hev)
  exact ⟨t, by simp [World.stateOf, hr, ht], by simpa using hu⟩

/-- The flag is in the row. -/
theorem abandons_flag {i : Nat} (h : Abandons ⟨i, s, w, false⟩ e) (ha : app s w = some w') :
    ∃ r, w'.episodes[e]? = some r ∧ r.abandonRequested = true := by
  obtain ⟨u, r, rfl, hr, hout, -⟩ := abandons_cases h
  simp only [app, Option.some.injEq] at ha
  subst ha
  refine ⟨{ r with abandonRequested := true }, ?_, rfl⟩
  simp only [List.getElem?_map, hr, Option.map_some]
  exact congrArg some (if_pos hout)

/-! ### What stays safe -/

/-- An episode of the table that may be scored. -/
structure Safe (w : World) (log : List (Event World Stmt)) (e : Nat) : Prop where
  row : e < w.episodes.length
  unspoiled : Unspoiled w log e
  past : ¬ w.Injecting e

theorem Rows.length (h : Rows w w') (he : e < w.episodes.length) : e < w'.episodes.length := by
  obtain ⟨r', hr', -⟩ := h e _ (List.getElem?_eq_getElem he)
  exact (List.getElem?_eq_some_iff.1 hr').1

theorem Safe.exec {φ φ' : Live.Phase} {i : Nat} (h : Safe w log e) (hf : φ.Fits w) (hr : Live.Rule φ s w φ')
    (ha : app s w = some w') (ht : Timely w s) : Safe w' (⟨i, s, w, false⟩ :: log) e := by
  refine ⟨(app_rows ha).length h.row, ⟨?_, ?_⟩, not_injecting hf hr ha h.row h.past⟩
  · refine (app_injectors ha ?_).injected (app_rows ha) h.unspoiled.injected
    rintro rfl
    obtain ⟨rfl, -⟩ := rule_startsInjector hr
    exact h.past (hf.arms e rfl)
  · rw [abandoned_cons]
    rintro (hev | hlog)
    · exact h.past (ht.injecting hev)
    · exact h.unspoiled.kept hlog

theorem Safe.raised {i : Nat} (h : Safe w log e) : Safe w (⟨i, s, w, true⟩ :: log) e := by
  refine ⟨h.row, ⟨h.unspoiled.injected, ?_⟩, h.past⟩
  rw [abandoned_cons]
  rintro (hev | hlog)
  · exact raised_abandons hev
  · exact h.unspoiled.kept hlog

/-- What happens around the API leaves it safe. -/
theorem Safe.frame (h : Safe w log e) (hr : Rows w w') (hi : Injectors w w' e) (hs : w'.stateOf e = w.stateOf e) :
    Safe w' log e :=
  ⟨hr.length h.row, ⟨hi.injected hr h.unspoiled.injected, h.unspoiled.kept⟩, by simpa only [World.Injecting, hs] using h.past⟩

end Rows

end Checked

end Wardence.Live
