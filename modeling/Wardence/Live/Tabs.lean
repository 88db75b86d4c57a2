import Wardence.Lib.Steps
import Wardence.Live.Gate
import Wardence.Live.Page
/-!
# Tabs and the API

Any number of tabs of the operator's page with the API they talk to. A request is a letter: it reaches
the API, and its answer the tab, after any time and in any order, or it is lost. A page that is loaded
again is a new tab, and a closed one gets no more moves.
-/
namespace Wardence.Live

open Threads EpisodeState

inductive Stage where
  | sent
  /-- A thread of the API runs the request's handler. -/
  | handled (thread : Nat)
  | answered (a : Answer)
  | closed
  deriving DecidableEq, Repr

structure Letter where
  tab : Nat
  user : Option User
  request : Request
  stage : Stage
  deriving DecidableEq, Repr

structure Sys where
  api : State World Stmt Job
  tabs : List Tab
  letters : List Letter

inductive Act where
  /-- The API, its programs, or another client. -/
  | api (m : Move Job Env)
  | load (ip : String) (user : Option User)
  | statusTimer (p : Nat)
  | liveTimer (p : Nat)
  | setUser (p : Nat) (user : Option User)
  | logout (p : Nat)
  | trigger (p : Nat) (faultClass : String)
  | diagnoseAndFix (p : Nat)
  | reach (k : Nat)
  | deliver (k : Nat)
  | lose (k : Nat)

/-! ## The letters -/

/-- What the handler of a `POST` runs. -/
def Letter.job (l : Letter) (ip : String) : Option Job :=
  match l.request, l.user with
  | .inject c, some (role, username) => some (.triggerInject c role username ip)
  | .stopHold e, some (role, username) => some (.triggerStopHold e role username)
  | .resolve e _, some _ => some (.triggerResolve e)
  | .logout username, _ => some (.logout username)
  | _, _ => none

/-- What a `GET` is answered. -/
def Letter.read (l : Letter) (ip : String) (w : World) : Option Answer :=
  match l.request, l.user with
  | .triggerStatus, _ => (Live.triggerStatus w ip).map .status
  | .liveStatus e _, some _ => (triggerLiveStatus w e).map .live
  | _, _ => none

/-- The episode that thread `i` has inserted. -/
def insertedBy (log : List (Event World Stmt)) (i : Nat) : Option Nat :=
  log.findSome? fun ev =>
    match ev.stmt with
    | .insertEpisode _ _ => if ev.thread = i ∧ ev.raised = false then some ev.seen.episodes.length else none
    | _ => none

/-- What a handler that has returned answers. -/
def returned (st : State World Stmt Job) (i : Nat) : Option Answer :=
  match st.pool[i]? with
  | some ⟨.triggerInject .., some (.done _)⟩ => (insertedBy st.log i).map .injected
  | some ⟨_, some (.done _)⟩ => some .ok
  | _ => none

/-- Sent by a poll. -/
def Request.chains : Request → Bool
  | .resolve _ chained => chained
  | _ => false

def Request.triggers : Request → Bool
  | .inject _ => true
  | _ => false

/-- Sent by run number `n` of the polling effect. -/
def Request.polls (n : Nat) : Request → Bool
  | .liveStatus _ m => m = n
  | _ => false

namespace Sys

def stage (s : Sys) (k : Nat) (g : Stage) : Sys := { s with letters := s.letters.modify k fun l => { l with stage := g } }

/-- Tab `p` reacts. -/
def on (s : Sys) (p : Nat) (f : Tab → Tab × List Request) : Sys :=
  match s.tabs[p]? with
  | some t => { s with tabs := s.tabs.set p (f t).1, letters := s.letters ++ (f t).2.map fun q => ⟨p, (f t).1.user, q, .sent⟩ }
  | none => s

def ip (s : Sys) (l : Letter) : String := (s.tabs[l.tab]?.map (·.ip)).getD ""

/-- A request reaches the API. -/
def reach (s : Sys) (k : Nat) : Sys :=
  match s.letters[k]? with
  | some l =>
    match l.stage with
    | .sent =>
      if s.api.world.status = .serving then
        match l.job (s.ip l) with
        | some j => { s.stage k (.handled s.api.pool.length) with api := operatorApi.move s.api (.post j) }
        | none =>
          match l.read (s.ip l) s.api.world with
          | some a => s.stage k (.answered a)
          | none => s
      else s
    | _ => s
  | none => s

def answerOf (s : Sys) (l : Letter) : Option Answer :=
  match l.stage with
  | .answered a => some a
  | .handled i => returned s.api i
  | _ => none

def deliver (s : Sys) (k : Nat) : Sys :=
  match s.letters[k]? with
  | some l =>
    match s.answerOf l with
    | some a => (s.stage k .closed).on l.tab fun t => t.receive l.request a
    | none => s
  | none => s

def act (s : Sys) : Act → Sys
  | .api m => { s with api := operatorApi.move s.api m }
  | .load ip user =>
    let r := Tab.load ip user
    { s with tabs := s.tabs ++ [r.1], letters := s.letters ++ r.2.map fun q => ⟨s.tabs.length, user, q, .sent⟩ }
  | .statusTimer p => s.on p fun t => (t, [.triggerStatus])
  | .liveTimer p => s.on p fun t => (t, t.poll)
  | .setUser p user => s.on p (·.setUser user)
  | .logout p => s.on p (·.logout)
  | .trigger p c => s.on p (·.handleTrigger c)
  | .diagnoseAndFix p => s.on p (·.handleDiagnoseAndFix)
  | .reach k => s.reach k
  | .deliver k => s.deliver k
  | .lose k => s.stage k .closed

def run (s : Sys) (acts : List Act) : Sys := Steps.run act s acts

/-- The API, and no page yet. -/
def start (w : World) : Sys := ⟨boot w, [], []⟩

/-- What the tabs have sent. -/
def sends (s : Sys) : List (Nat × Request) := s.letters.map fun l => (l.tab, l.request)

/-- Tab `p` has sent `q`. -/
def Sent (s : Sys) (p : Nat) (q : Request) : Prop := (p, q) ∈ s.sends

/-- How many requests of a kind tab `p` has sent. -/
def count (s : Sys) (p : Nat) (kind : Request → Bool) : Nat := s.sends.countP fun x => x.1 = p && kind x.2

/-- Letter `k` has not reached the API. -/
def Later (s : Sys) (k : Nat) : Prop := ∀ l ∈ s.letters[k]?, l.stage = .sent

instance (s : Sys) (k : Nat) : Decidable (s.Later k) := inferInstanceAs (Decidable (∀ _ ∈ _, _))

/-- A trigger of tab `p` is under way. -/
def Triggering (s : Sys) (p : Nat) : Prop := ∃ l ∈ s.letters, l.tab = p ∧ l.request.triggers = true ∧ l.stage ≠ .closed

instance (s : Sys) (p : Nat) : Decidable (s.Triggering p) := inferInstanceAs (Decidable (∃ _ ∈ _, _))

/-- No answer about the episode reaches a tab while a trigger of the tab's own is under way. -/
def Orderly (s : Sys) : Act → Prop
  | .deliver k => ∀ l ∈ s.letters[k]?, ∀ t ∈ s.tabs[l.tab]?, l.request.polls t.effect = true → ¬ s.Triggering l.tab
  | _ => True

instance (s : Sys) : (a : Act) → Decidable (s.Orderly a)
  | .deliver _ => inferInstanceAs (Decidable (∀ _ ∈ _, _))
  | .api _ | .load _ _ | .statusTimer _ | .liveTimer _ | .setUser _ _ | .logout _ | .trigger _ _ | .diagnoseAndFix _ | .reach _
  | .lose _ => .isTrue trivial

end Sys

/-! ## What the API keeps -/

section Api
variable {w w' : World} {e : Nat}

/-- The row of `e` says that its hold is to be stopped. -/
def World.Stopped (w : World) (e : Nat) : Prop := w.episodes[e]?.any (·.stopHoldRequested) = true

instance : Decidable (w.Stopped e) := inferInstanceAs (Decidable (_ = true))

theorem World.Stopped.of_eq (h : w.Stopped e) (hw : w'.episodes = w.episodes) : w'.Stopped e := by rwa [World.Stopped, hw]

theorem World.Stopped.map {f : Episode → Episode} (hf : ∀ r, r.stopHoldRequested = true → (f r).stopHoldRequested = true)
    {o : Option Episode} (h : o.any (·.stopHoldRequested) = true) : (o.map f).any (·.stopHoldRequested) = true := by
  cases o with
  | none => exact h
  | some r => exact hf r h

theorem World.Stopped.setRow (h : w.Stopped e) (i : Nat) {f : Episode → Episode}
    (hf : ∀ r, r.stopHoldRequested = true → (f r).stopHoldRequested = true) : (w.setRow i f).Stopped e := by
  simp only [World.Stopped, World.setRow, List.getElem?_modify]
  split
  · exact World.Stopped.map hf h
  · simpa [World.Stopped] using h

theorem World.Stopped.append (h : w.Stopped e) (r : Episode) : World.Stopped { w with episodes := w.episodes ++ [r] } e := by
  have he : e < w.episodes.length := by
    by_contra hn
    simp [World.Stopped, List.getElem?_eq_none (Nat.le_of_not_lt hn)] at h
  simpa only [World.Stopped, List.getElem?_append_left he] using h

/-- No statement takes a stop request back. -/
theorem stopped_app {s : Stmt} (h : w.Stopped e) (ha : app s w = some w') : w'.Stopped e := by
  cases s <;> simp only [app, Option.some.injEq, Option.ite_none_left_eq_some, Option.ite_none_right_eq_some] at ha
  case insertEpisode => exact ha ▸ h.append _
  case setState | setPid | confirmEvidence | setRepublished => exact ha ▸ h.setRow _ fun _ => id
  case requestStop => exact ha ▸ h.setRow _ fun _ _ => rfl
  case claim =>
    split at ha
    · exact ha ▸ h.setRow _ fun _ => id
    · exact ha ▸ h
  case requestAbandon =>
    subst ha
    rw [World.Stopped, List.getElem?_map]
    refine World.Stopped.map (fun r hr => ?_) h
    split
    · exact hr
    · exact hr
  all_goals
    refine World.Stopped.of_eq h ?_
    first
    | (subst ha; rfl)
    | (obtain ⟨-, rfl⟩ := ha; rfl)

theorem stopped_env (h : w.Stopped e) (x : Env) : (env x w).Stopped e := by
  cases x with
  | batch => exact h.append _
  | tick | exit | cluster | scoreBatch => exact h
  | record =>
    simp only [env]
    split
    · exact h.setRow _ fun _ => id
    · exact h
  | evidence | score =>
    simp only [env]
    split <;> exact h

theorem stopped_move {st : State World Stmt Job} (h : st.world.Stopped e) (m : Move Job Env) :
    (operatorApi.move st m).world.Stopped e := by
  have := operatorApi.holds (fun _ _ => True) (fun w _ => w.Stopped e)
    (fun _ _ _ _ _ _ h _ ha => stopped_app h ha) (fun _ _ _ _ _ h _ => h)
    (fun _ _ _ _ h hp => World.Stopped.of_eq h (post_same hp).1) (fun _ x _ h => stopped_env h x) (fun _ _ h => h) h
    (operatorApi.admits_true [m])
  exact this

end Api

end Wardence.Live
