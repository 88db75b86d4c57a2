import Mathlib.Logic.Function.Basic
import Mathlib.Data.List.Basic
/-!
# Threads of a process

A process runs threads over a world that the other threads, the programs around
the process and the clock change between any two of their statements. One
statement is one atomic step; it may raise instead of taking effect, and the
process may be killed between any two. A thread may start another one.

`Obeys` is a typestate discipline for programs: a thread is in a phase, a rule
says which statements a phase may execute and what phase follows. Programs are
checked against it one by one; invariants of the process are then proved of the
phases of its threads alone (`Machine.invariant`).
-/
namespace Threads

/-- A program over a world `σ` with statements `S`. After a statement it goes on
as `k` of the world the statement ran in; if the statement raises, as `h`. A loop
runs its body until the body has a result. -/
inductive Code (σ S : Type) : Type → Type 1 where
  | done {α : Type} (a : α) : Code σ S α
  | raise {α : Type} : Code σ S α
  | act {α : Type} (s : S) (k : σ → Code σ S α) (h : Code σ S α) : Code σ S α
  | loop {α β : Type} (body : Code σ S (Option β)) (k : β → Code σ S α) (h : Code σ S α) : Code σ S α

variable {σ S J E Φ α β : Type}

namespace Code

/-- `p`, then `k`; `h` if `p` raises. -/
def graft : Code σ S α → (α → Code σ S β) → Code σ S β → Code σ S β
  | done a, k, _ => k a
  | raise, _, h => h
  | act s f g, k, h => act s (fun w => (f w).graft k h) (g.graft k h)
  | loop b f g, k, h => loop b (fun x => (f x).graft k h) (g.graft k h)

instance : Monad (Code σ S) where
  pure := done
  bind p f := p.graft f raise

def tryCatch (p h : Code σ S α) : Code σ S α := p.graft done h

/-- One statement; its result is the world it ran in. -/
def stmt (s : S) : Code σ S σ := act s done raise

/-- After a body: once more, or on with its result. -/
def again (l : Code σ S α) (k : β → Code σ S α) : Option β → Code σ S α
  | none => l
  | some b => k b

/-- Runs `body` until it has a result. -/
def untilSome (body : Code σ S (Option α)) : Code σ S α := loop body done raise

/-- Nothing is left to run. -/
def ended : Code σ S α → Bool
  | done _ | raise => true
  | _ => false

@[simp] theorem graft_done (a : α) (k : α → Code σ S β) (h : Code σ S β) : graft (done a) k h = k a := rfl
@[simp] theorem graft_raise (k : α → Code σ S β) (h : Code σ S β) : graft raise k h = h := rfl
@[simp] theorem graft_act (s : S) (f : σ → Code σ S α) (g : Code σ S α) (k : α → Code σ S β) (h : Code σ S β) :
    graft (act s f g) k h = act s (fun w => (f w).graft k h) (g.graft k h) := rfl
@[simp] theorem bind_eq (p : Code σ S α) (f : α → Code σ S β) : (p >>= f) = p.graft f raise := rfl
@[simp] theorem pure_eq (a : α) : (pure a : Code σ S α) = done a := rfl

end Code

open Code

/-- What a process is: how statements act on the world (`none`: the statement
cannot succeed now; it waits, as for a lock that is held, or it can only raise),
which thread a statement starts, what a job runs, which jobs may be started from
outside and what else happens to the world. -/
structure Machine (σ S J E : Type) where
  app : S → σ → Option σ
  spawns : S → Option J
  body : J → Code σ S Unit
  post : J → σ → Option σ
  env : E → σ → σ
  killed : σ → σ

/-- A thread: the job it was started with, and what is left of it (`none`: killed). -/
structure Thread (σ S J : Type) where
  job : J
  rest : Option (Code σ S Unit)

/-- The thread has run to its end. -/
def Thread.ended (t : Thread σ S J) : Bool := t.rest.any (·.ended)

/-- The thread has something left to run. -/
def Thread.active (t : Thread σ S J) : Bool := t.rest.any (!·.ended)

/-- A statement that a thread executed or that raised, and the world it ran in. -/
structure Event (σ S : Type) where
  thread : Nat
  stmt : S
  seen : σ
  raised : Bool

/-- The world, the threads ever started, and what they executed, newest first. -/
structure State (σ S J : Type) where
  world : σ
  pool : List (Thread σ S J)
  log : List (Event σ S)

/-- A thread executes its next statement, or that statement raises; a job is
started from outside; something else happens; the process is killed. -/
inductive Move (J E : Type) where
  | step (i : Nat)
  | fail (i : Nat)
  | post (j : J)
  | env (e : E)
  | kill

namespace Machine
variable (M : Machine σ S J E)

def thread (j : J) : Thread σ S J := ⟨j, some (M.body j)⟩

def stepThread (st : State σ S J) (i : Nat) : State σ S J :=
  match st.pool[i]? with
  | some ⟨j, some (.act s k _)⟩ =>
    match M.app s st.world with
    | some w => ⟨w, st.pool.set i ⟨j, some (k st.world)⟩ ++ (M.spawns s).toList.map M.thread, ⟨i, s, st.world, false⟩ :: st.log⟩
    | none => st
  | some ⟨j, some (.loop b k h)⟩ =>
    { st with pool := st.pool.set i ⟨j, some (b.graft (again (.loop b k h) k) h)⟩ }
  | _ => st

def move (st : State σ S J) : Move J E → State σ S J
  | .step i => M.stepThread st i
  | .fail i =>
    match st.pool[i]? with
    | some ⟨j, some (.act s _ h)⟩ => ⟨st.world, st.pool.set i ⟨j, some h⟩, ⟨i, s, st.world, true⟩ :: st.log⟩
    | _ => st
  | .post j =>
    match M.post j st.world with
    | some w => { st with world := w, pool := st.pool ++ [M.thread j] }
    | none => st
  | .env e => { st with world := M.env e st.world }
  | .kill => { st with world := M.killed st.world, pool := st.pool.map fun t => { t with rest := none } }

def run (st : State σ S J) (ms : List (Move J E)) : State σ S J := ms.foldl M.move st

/-- Every move of the run meets `C` in the state it is made in. -/
def Admits (C : State σ S J → Move J E → Prop) : State σ S J → List (Move J E) → Prop
  | _, [] => True
  | st, m :: ms => C st m ∧ Admits C (M.move st m) ms

@[simp] theorem run_nil (st : State σ S J) : M.run st [] = st := rfl
@[simp] theorem run_cons (st : State σ S J) (m : Move J E) (ms : List (Move J E)) :
    M.run st (m :: ms) = M.run (M.move st m) ms := rfl

theorem run_append (st : State σ S J) (ms ns : List (Move J E)) : M.run st (ms ++ ns) = M.run (M.run st ms) ns :=
  List.foldl_append

theorem admits_append {C : State σ S J → Move J E → Prop} {st : State σ S J} {ms ns : List (Move J E)} :
    M.Admits C st (ms ++ ns) ↔ M.Admits C st ms ∧ M.Admits C (M.run st ms) ns := by
  induction ms generalizing st with
  | nil => simp [Admits]
  | cons m ms ih => simp [Admits, ih, and_assoc]

theorem admits_and {C D : State σ S J → Move J E → Prop} {st : State σ S J} {ms : List (Move J E)} :
    M.Admits (fun st m => C st m ∧ D st m) st ms ↔ M.Admits C st ms ∧ M.Admits D st ms := by
  induction ms generalizing st with
  | nil => simp [Admits]
  | cons m ms ih => simp only [Admits, ih, and_and_and_comm]

theorem admits_of {C : State σ S J → Move J E → Prop} {ms : List (Move J E)} (h : ∀ st, ∀ m ∈ ms, C st m)
    (st : State σ S J) : M.Admits C st ms := by
  induction ms generalizing st with
  | nil => trivial
  | cons m ms ih => exact ⟨h st m (.head ms), ih (fun st' m' hm => h st' m' (.tail m hm)) _⟩

instance admitsDecidable {C : State σ S J → Move J E → Prop} [∀ st m, Decidable (C st m)] :
    ∀ (st : State σ S J) (ms : List (Move J E)), Decidable (M.Admits C st ms)
  | _, [] => .isTrue trivial
  | st, m :: ms =>
    match (inferInstance : Decidable (C st m)), admitsDecidable (M.move st m) ms with
    | .isTrue h, .isTrue hs => .isTrue ⟨h, hs⟩
    | .isFalse h, _ => .isFalse fun hc => h hc.1
    | _, .isFalse hs => .isFalse fun hc => hs hc.2

theorem admits_true {st : State σ S J} (ms : List (Move J E)) : M.Admits (fun _ _ => True) st ms :=
  M.admits_of (fun _ _ _ => trivial) st

end Machine

/-- A statement raises. -/
def Move.fails : Move J E → Bool
  | .fail _ => true
  | _ => false

def Move.kills : Move J E → Bool
  | .kill => true
  | _ => false

/-- The job and the next statement of thread `i`, if it has one. -/
def State.next (st : State σ S J) (i : Nat) : Option (J × S) :=
  match st.pool[i]? with
  | some ⟨j, some (.act s _ _)⟩ => some (j, s)
  | _ => none

/-- An invariant of the world and the log that every admitted move keeps, whatever
the programs are, holds after every admitted run. -/
theorem Machine.holds (M : Machine σ S J E) (C : State σ S J → Move J E → Prop) (I : σ → List (Event σ S) → Prop)
    (exec : ∀ st i j s w, C st (.step i) → I st.world st.log → st.next i = some (j, s) → M.app s st.world = some w →
      I w (⟨i, s, st.world, false⟩ :: st.log))
    (fail : ∀ st i j s, C st (.fail i) → I st.world st.log → st.next i = some (j, s) →
      I st.world (⟨i, s, st.world, true⟩ :: st.log))
    (post : ∀ st j w, C st (.post j) → I st.world st.log → M.post j st.world = some w → I w st.log)
    (env : ∀ st e, C st (.env e) → I st.world st.log → I (M.env e st.world) st.log)
    (kill : ∀ st, C st .kill → I st.world st.log → I (M.killed st.world) st.log)
    {st : State σ S J} (h0 : I st.world st.log) {ms : List (Move J E)} (hc : M.Admits C st ms) :
    I (M.run st ms).world (M.run st ms).log := by
  induction ms generalizing st with
  | nil => exact h0
  | cons m ms ih =>
    refine ih ?_ hc.2
    have hm := hc.1
    cases m with
    | step i =>
      simp only [Machine.move, Machine.stepThread]
      split
      · rename_i j s k g hi
        cases ha : M.app s st.world with
        | none => exact h0
        | some w => exact exec st i j s w hm h0 (by simp only [State.next, hi]) ha
      · exact h0
      · exact h0
    | fail i =>
      simp only [Machine.move]
      split
      · rename_i j s k g hi
        exact fail st i j s hm h0 (by simp only [State.next, hi])
      · exact h0
    | post j =>
      simp only [Machine.move]
      cases hp : M.post j st.world with
      | none => exact h0
      | some w => exact post st j w hm h0 hp
    | env e => exact env st e hm h0
    | kill => exact kill st hm h0

/-! ## Typestates -/

/-- A typestate discipline. `entry`: the phase a job starts in; `rule φ s w φ'`:
a thread in phase `φ` may execute `s` in world `w`, and is then in phase `φ'`;
`fault φ s`: its phase when `s` raises; `rests`: the phases a thread may end in;
`mine`: the phases a job can be in. -/
structure Typestate (σ S J Φ : Type) where
  entry : J → Φ
  rule : Φ → S → σ → Φ → Prop
  fault : Φ → S → Φ
  rests : Φ → Prop
  mine : J → Φ → Prop
  mine_entry : ∀ j, mine j (entry j)
  mine_rule : ∀ {j φ s w φ'}, mine j φ → rule φ s w φ' → mine j φ'
  mine_fault : ∀ {j φ} s, mine j φ → mine j (fault φ s)

variable {M : Machine σ S J E} {T : Typestate σ S J Φ}

/-- From phase `φ`, the program keeps to the rules; `Q` of its result and phase
when it is done, `X` of its phase when it raises. -/
def Obeys (M : Machine σ S J E) (T : Typestate σ S J Φ) :
    {α : Type} → Code σ S α → Φ → (α → Φ → Prop) → (Φ → Prop) → Prop
  | _, .done a, φ, Q, _ => Q a φ
  | _, .raise, φ, _, X => X φ
  | _, .act s k h, φ, Q, X =>
    (∀ w w', M.app s w = some w' → ∃ φ', T.rule φ s w φ' ∧ Obeys M T (k w) φ' Q X) ∧ Obeys M T h (T.fault φ s) Q X
  | _, .loop b k h, φ, Q, X =>
    ∃ I : Φ → Prop, I φ ∧ ∀ ψ, I ψ →
      Obeys M T b ψ (fun o χ => (o = none → I χ) ∧ ∀ x, o = some x → Obeys M T (k x) χ Q X) (fun χ => Obeys M T h χ Q X)

theorem Obeys.mono {p : Code σ S α} {φ : Φ} {Q Q' : α → Φ → Prop} {X X' : Φ → Prop} (h : Obeys M T p φ Q X)
    (hq : ∀ a ψ, Q a ψ → Q' a ψ) (hx : ∀ ψ, X ψ → X' ψ) : Obeys M T p φ Q' X' := by
  induction p generalizing φ X X' with
  | done a => exact hq a φ h
  | raise => exact hx φ h
  | act s k g ihk ihg =>
    refine ⟨fun w w' hw => ?_, ihg h.2 hq hx⟩
    obtain ⟨φ', hr, hk⟩ := h.1 w w' hw
    exact ⟨φ', hr, ihk w hk hq hx⟩
  | loop b k g ihb ihk ihg =>
    obtain ⟨I, hi, hb⟩ := h
    refine ⟨I, hi, fun ψ hψ => ihb (hb ψ hψ) ?_ ?_⟩
    · intro o χ ho
      exact ⟨ho.1, fun x hx' => ihk x (ho.2 x hx') hq hx⟩
    · intro χ hχ
      exact ihg hχ hq hx

theorem Obeys.graft {p : Code σ S α} {k : α → Code σ S β} {g : Code σ S β} {φ : Φ} {Q : β → Φ → Prop} {X : Φ → Prop}
    (h : Obeys M T p φ (fun a ψ => Obeys M T (k a) ψ Q X) (fun ψ => Obeys M T g ψ Q X)) :
    Obeys M T (p.graft k g) φ Q X := by
  induction p generalizing φ with
  | done a => exact h
  | raise => exact h
  | act s f f' ihk ihh =>
    refine ⟨fun w w' hw => ?_, ihh h.2⟩
    obtain ⟨φ', hr, hk⟩ := h.1 w w' hw
    exact ⟨φ', hr, ihk w hk⟩
  | loop b f f' ihb ihk ihh =>
    obtain ⟨I, hi, hb⟩ := h
    refine ⟨I, hi, fun ψ hψ => (hb ψ hψ).mono ?_ ?_⟩
    · intro o χ ho
      exact ⟨ho.1, fun x hx => ihk x (ho.2 x hx)⟩
    · intro χ hχ
      exact ihh hχ

/-- Runs only statements of `N`, and handles no exception. -/
def Code.Only (N : S → Prop) : {α : Type} → Code σ S α → Prop
  | _, .done _ | _, .raise => True
  | _, .act s k h => N s ∧ (∀ w, Only N (k w)) ∧ h = .raise
  | _, .loop b k h => Only N b ∧ (∀ x, Only N (k x)) ∧ h = .raise

theorem Code.Only.graft {N : S → Prop} {p : Code σ S α} {k : α → Code σ S β} (hp : p.Only N) (hk : ∀ a, (k a).Only N) :
    (p.graft k .raise).Only N := by
  induction p with
  | done a => exact hk a
  | raise => trivial
  | act s f g ihf _ =>
    obtain ⟨hs, hf, rfl⟩ := hp
    exact ⟨hs, fun w => ihf w (hf w) hk, rfl⟩
  | loop b f g _ ihf _ =>
    obtain ⟨hb, hf, rfl⟩ := hp
    exact ⟨hb, fun x => ihf x (hf x) hk, rfl⟩

/-- A program whose statements leave the phase as it is stays in its phase. -/
theorem Code.Only.obeys {N : S → Prop} {p : Code σ S α} {φ : Φ} {Q : α → Φ → Prop} {X : Φ → Prop} (hp : p.Only N)
    (hr : ∀ s w, N s → T.rule φ s w φ) (hx : ∀ s, N s → X (T.fault φ s)) (hX : X φ) (hq : ∀ a, Q a φ) :
    Obeys M T p φ Q X := by
  induction p generalizing X with
  | done a => exact hq a
  | raise => exact hX
  | act s f g ihf _ =>
    obtain ⟨hs, hf, rfl⟩ := hp
    exact ⟨fun w _ _ => ⟨φ, hr s w hs, ihf w (hf w) hx hX hq⟩, hx s hs⟩
  | loop b f g ihb ihf _ =>
    obtain ⟨hb, hf, rfl⟩ := hp
    refine ⟨(· = φ), rfl, ?_⟩
    rintro _ rfl
    exact ihb hb hx hX fun o => ⟨fun _ => rfl, fun x _ => ihf x (hf x) hx hX hq⟩

theorem Code.graft_self (p : Code σ S α) : p.graft done raise = p := by
  induction p with
  | done | raise => rfl
  | act s f g ihf ihg =>
    rw [graft_act, ihg]
    congr 1
    funext w
    exact ihf w
  | loop b f g _ ihf ihg =>
    rw [graft, ihg]
    congr 1
    funext x
    exact ihf x

/-- Runs only statements of `N`, whatever it handles. -/
def Code.Within (N : S → Prop) : {α : Type} → Code σ S α → Prop
  | _, .done _ | _, .raise => True
  | _, .act s k h => N s ∧ (∀ w, Within N (k w)) ∧ Within N h
  | _, .loop b k h => Within N b ∧ (∀ x, Within N (k x)) ∧ Within N h

theorem Code.Within.graft {N : S → Prop} {p : Code σ S α} {k : α → Code σ S β} {g : Code σ S β} (hp : p.Within N)
    (hk : ∀ a, (k a).Within N) (hg : g.Within N) : (p.graft k g).Within N := by
  induction p with
  | done a => exact hk a
  | raise => exact hg
  | act s f f' ihf ihg => exact ⟨hp.1, fun w => ihf w (hp.2.1 w) hk, ihg hp.2.2 hk⟩
  | loop b f f' _ ihf ihg => exact ⟨hp.1, fun x => ihf x (hp.2.1 x) hk, ihg hp.2.2 hk⟩

section Within
variable {N : S → Prop}

theorem Code.Within.bind {p : Code σ S α} {f : α → Code σ S β} (hp : p.Within N) (hf : ∀ a, (f a).Within N) :
    (p >>= f).Within N :=
  hp.graft hf trivial

theorem Code.Within.tryCatch {p g : Code σ S α} (hp : p.Within N) (hg : g.Within N) : (p.tryCatch g).Within N :=
  hp.graft (fun _ => trivial) hg

theorem Code.Within.stmt {s : S} (h : N s) : (Code.stmt s : Code σ S σ).Within N := ⟨h, fun _ => trivial, trivial⟩

theorem Code.Within.ite {c : Prop} {_ : Decidable c} {p q : Code σ S α} (hp : p.Within N) (hq : q.Within N) :
    (if c then p else q).Within N := by
  split
  · exact hp
  · exact hq

theorem Code.Within.untilSome {body : Code σ S (Option α)} (h : body.Within N) : (Code.untilSome body).Within N :=
  ⟨h, fun _ => trivial, trivial⟩

end Within

theorem Code.Within.mono {N N' : S → Prop} {p : Code σ S α} (hp : p.Within N) (h : ∀ s, N s → N' s) : p.Within N' := by
  induction p with
  | done | raise => trivial
  | act s f g ihf ihg => exact ⟨h s hp.1, fun w => ihf w (hp.2.1 w), ihg hp.2.2⟩
  | loop b f g ihb ihf ihg => exact ⟨ihb hp.1, fun x => ihf x (hp.2.1 x), ihg hp.2.2⟩

/-- A program whose statements stay among the phases of `I`, also when they raise. -/
theorem Code.Within.obeys_among {N : S → Prop} {I : Φ → Prop} {p : Code σ S α} {φ : Φ} (hp : p.Within N) (hi : I φ)
    (hr : ∀ φ s w, I φ → N s → ∃ φ', T.rule φ s w φ' ∧ I φ') (hf : ∀ φ s, I φ → N s → I (T.fault φ s)) :
    Obeys M T p φ (fun _ => I) I := by
  induction p generalizing φ with
  | done | raise => exact hi
  | act s f g ihf ihg =>
    refine ⟨fun w _ _ => ?_, ihg hp.2.2 (hf φ s hi hp.1)⟩
    obtain ⟨φ', hr', hi'⟩ := hr φ s w hi hp.1
    exact ⟨φ', hr', ihf w (hp.2.1 w) hi'⟩
  | loop b f g ihb ihf ihg =>
    refine ⟨I, hi, fun ψ hψ => (ihb hp.1 hψ).mono ?_ ?_⟩
    · intro o χ hχ
      exact ⟨fun _ => hχ, fun x _ => ihf x (hp.2.1 x) hχ⟩
    · intro χ hχ
      exact ihg hp.2.2 hχ

/-- A program whose statements leave the phase as it is, also when they raise. -/
theorem Code.Within.obeys {N : S → Prop} {p : Code σ S α} {φ : Φ} (hp : p.Within N) (hr : ∀ s w, N s → T.rule φ s w φ)
    (hf : ∀ s, N s → T.fault φ s = φ) : Obeys M T p φ (fun _ ψ => ψ = φ) (· = φ) := by
  induction p with
  | done a => exact rfl
  | raise => exact rfl
  | act s f g ihf ihg =>
    refine ⟨fun w _ _ => ⟨φ, hr s w hp.1, ihf w (hp.2.1 w)⟩, ?_⟩
    rw [hf s hp.1]
    exact ihg hp.2.2
  | loop b f g ihb ihf ihg =>
    refine ⟨(· = φ), rfl, ?_⟩
    rintro _ rfl
    refine (ihb hp.1).mono ?_ ?_
    · rintro o _ rfl
      exact ⟨fun _ => rfl, fun x _ => ihf x (hp.2.1 x)⟩
    · rintro _ rfl
      exact ihg hp.2.2

/-- Every job keeps to the rules from its entry phase, and ends where it may rest. -/
def Sound (M : Machine σ S J E) (T : Typestate σ S J Φ) : Prop :=
  ∀ j, Obeys M T (M.body j) (T.entry j) (fun _ => T.rests) T.rests

/-- `ph` gives each living thread a phase from which what is left of it keeps to
the rules, and no other thread one. -/
structure Agrees (M : Machine σ S J E) (T : Typestate σ S J Φ) (st : State σ S J) (ph : Nat → Option Φ) : Prop where
  living : ∀ i j p, st.pool[i]? = some ⟨j, some p⟩ →
    ∃ φ, ph i = some φ ∧ T.mine j φ ∧ Obeys M T p φ (fun _ => T.rests) T.rests
  gone : ∀ i, (∀ j p, st.pool[i]? ≠ some ⟨j, some p⟩) → ph i = none
  logged : ∀ ev ∈ st.log, ev.thread < st.pool.length

open Function in
/-- All that a move can do to the world, the phases and the log. -/
inductive Effect (M : Machine σ S J E) (T : Typestate σ S J Φ) (st : State σ S J) (ph : Nat → Option Φ) :
    Move J E → σ → (Nat → Option Φ) → List (Event σ S) → Prop
  | stay (m) : Effect M T st ph m st.world ph st.log
  | exec {i j s φ φ' w} : st.next i = some (j, s) → ph i = some φ → T.mine j φ → T.rule φ s st.world φ' →
    M.app s st.world = some w → M.spawns s = none →
    Effect M T st ph (.step i) w (update ph i (some φ')) (⟨i, s, st.world, false⟩ :: st.log)
  | spawn {i j s φ φ' w j' n} : st.next i = some (j, s) → ph i = some φ → T.mine j φ → T.rule φ s st.world φ' →
    M.app s st.world = some w → M.spawns s = some j' → ph n = none → n ≠ i → (∀ ev ∈ st.log, ev.thread ≠ n) →
    Effect M T st ph (.step i) w (update (update ph i (some φ')) n (some (T.entry j'))) (⟨i, s, st.world, false⟩ :: st.log)
  | fail {i j s φ} : st.next i = some (j, s) → ph i = some φ → T.mine j φ →
    Effect M T st ph (.fail i) st.world (update ph i (some (T.fault φ s))) (⟨i, s, st.world, true⟩ :: st.log)
  | post {j n w} : M.post j st.world = some w → ph n = none → (∀ ev ∈ st.log, ev.thread ≠ n) →
    Effect M T st ph (.post j) w (update ph n (some (T.entry j))) st.log
  | env (e) : Effect M T st ph (.env e) (M.env e st.world) ph st.log
  | kill : Effect M T st ph .kill (M.killed st.world) (fun _ => none) st.log

/-- Who has a phase once thread `i` is in phase `φ`. -/
theorem of_update {ph : Nat → Option Φ} {i k : Nat} {φ ψ : Φ} (h : Function.update ph i (some φ) k = some ψ) :
    (k = i ∧ φ = ψ) ∨ (k ≠ i ∧ ph k = some ψ) := by
  by_cases hk : k = i
  · subst hk
    rw [Function.update_self, Option.some.injEq] at h
    exact .inl ⟨rfl, h⟩
  · rw [Function.update_of_ne hk] at h
    exact .inr ⟨hk, h⟩

/-- Phases that do not meet two by two still do not when thread `i` goes to a
phase that meets nobody else's. -/
theorem apart_update {R : Φ → Φ → Prop} (hR : ∀ φ ψ, R φ ψ → R ψ φ) {ph : Nat → Option Φ} {i : Nat} {φ : Φ}
    (h : ∀ j k ψ χ, j ≠ k → ph j = some ψ → ph k = some χ → ¬ R ψ χ)
    (hi : ∀ k χ, k ≠ i → ph k = some χ → ¬ R φ χ) (j k : Nat) (ψ χ : Φ) (hjk : j ≠ k)
    (hj : Function.update ph i (some φ) j = some ψ) (hk : Function.update ph i (some φ) k = some χ) : ¬ R ψ χ := by
  rcases of_update hj with ⟨rfl, rfl⟩ | ⟨hji, hj'⟩
  · rw [Function.update_of_ne (Ne.symm hjk)] at hk
    exact hi k χ (Ne.symm hjk) hk
  · rcases of_update hk with ⟨rfl, rfl⟩ | ⟨-, hk'⟩
    · exact fun hc => hi j ψ hji hj' (hR ψ φ hc)
    · exact h j k ψ χ hjk hj' hk'

/-- Where all but thread `i` are idle, no two threads are not. -/
theorem single_update (Idle : Φ → Prop) {ph : Nat → Option Φ} {i : Nat} {φ : Φ} (h : ∀ k ψ, k ≠ i → ph k = some ψ → Idle ψ)
    (j k : Nat) (ψ χ : Φ) (hj : Function.update ph i (some φ) j = some ψ) (hk : Function.update ph i (some φ) k = some χ)
    (hψ : ¬ Idle ψ) (hχ : ¬ Idle χ) : j = k := by
  rcases of_update hj with ⟨rfl, -⟩ | ⟨hji, hj'⟩
  · rcases of_update hk with ⟨rfl, -⟩ | ⟨hki, hk'⟩
    · rfl
    · exact absurd (h k χ hki hk') hχ
  · exact absurd (h j ψ hji hj') hψ

section Invariant
variable {st : State σ S J} {ph : Nat → Option Φ}

theorem Agrees.fresh (h : Agrees M T st ph) : ph st.pool.length = none := by
  apply h.gone
  intro j p
  simp

theorem Agrees.unlogged (h : Agrees M T st ph) : ∀ ev ∈ st.log, ev.thread ≠ st.pool.length :=
  fun ev hev => Nat.ne_of_lt (h.logged ev hev)

/-- Who has a phase runs a job. -/
theorem Agrees.job (h : Agrees M T st ph) {i : Nat} {φ : Φ} (hi : ph i = some φ) :
    ∃ j p, st.pool[i]? = some ⟨j, some p⟩ ∧ T.mine j φ := by
  by_contra hn
  push Not at hn
  have hnone : ph i = none := by
    apply h.gone
    intro j p hp
    obtain ⟨ψ, hψ, hm, -⟩ := h.living i j p hp
    rw [hi, Option.some.injEq] at hψ
    exact hn j p hp (hψ ▸ hm)
  rw [hi] at hnone
  cases hnone

/-- A thread that has ended is in a phase it may rest in. -/
theorem Agrees.ended (h : Agrees M T st ph) {i : Nat} {t : Thread σ S J} (hi : st.pool[i]? = some t)
    (ht : t.ended = true) : ∃ φ, ph i = some φ ∧ T.rests φ := by
  obtain ⟨j, rest⟩ := t
  cases rest with
  | none => cases ht
  | some p =>
    obtain ⟨φ, hφ, -, ho⟩ := h.living i j p hi
    cases p with
    | done | raise => exact ⟨φ, hφ, ho⟩
    | act | loop => cases ht

/-- A thread in a phase that it may not rest in goes on. -/
theorem Agrees.active (h : Agrees M T st ph) {i : Nat} {φ : Φ} (hi : ph i = some φ) (hr : ¬ T.rests φ) :
    ∃ t, st.pool[i]? = some t ∧ t.active = true := by
  by_contra hn
  have hnone : ph i = none := by
    apply h.gone
    intro j p hp
    cases he : p.ended with
    | false => exact hn ⟨_, hp, by simp [Thread.active, he]⟩
    | true =>
      obtain ⟨ψ, hψ, hr'⟩ := h.ended hp (by simp [Thread.ended, he])
      rw [hi, Option.some.injEq] at hψ
      exact hr (hψ ▸ hr')
  rw [hi] at hnone
  cases hnone

/-- Thread `i` goes on as `p` in phase `φ`; the others are as they were. -/
theorem Agrees.set (h : Agrees M T st ph) {i : Nat} {j : J} {q p : Code σ S Unit} {φ : Φ} (w : σ) (l : List (Event σ S))
    (hi : st.pool[i]? = some ⟨j, some q⟩) (hm : T.mine j φ) (hp : Obeys M T p φ (fun _ => T.rests) T.rests)
    (hl : ∀ ev ∈ l, ev ∈ st.log ∨ ev.thread = i) :
    Agrees M T ⟨w, st.pool.set i ⟨j, some p⟩, l⟩ (Function.update ph i (some φ)) := by
  have hlen : i < st.pool.length := by
    by_contra hn
    rw [List.getElem?_eq_none (Nat.le_of_not_lt hn)] at hi
    cases hi
  refine ⟨?_, ?_, ?_⟩
  · intro i' j' p' h'
    by_cases he : i' = i
    · subst he
      simp only [List.getElem?_set_self hlen, Option.some.injEq, Thread.mk.injEq] at h'
      obtain ⟨rfl, rfl⟩ := h'
      exact ⟨φ, Function.update_self .., hm, hp⟩
    · rw [List.getElem?_set_ne (Ne.symm he)] at h'
      rw [Function.update_of_ne he]
      exact h.living i' j' p' h'
  · intro i' h'
    by_cases he : i' = i
    · subst he
      exact absurd (List.getElem?_set_self hlen) (h' j p)
    · rw [Function.update_of_ne he]
      apply h.gone
      intro j' p' hp'
      exact h' j' p' (by rw [List.getElem?_set_ne (Ne.symm he)]; exact hp')
  · intro ev hev
    rw [List.length_set]
    rcases hl ev hev with h' | h'
    · exact h.logged ev h'
    · exact h' ▸ hlen

/-- A new thread runs job `j`. -/
theorem Agrees.add (h : Agrees M T st ph) (hs : Sound M T) (w : σ) (j : J) :
    Agrees M T ⟨w, st.pool ++ [M.thread j], st.log⟩ (Function.update ph st.pool.length (some (T.entry j))) := by
  refine ⟨?_, ?_, ?_⟩
  · intro i' j' p' h'
    by_cases he : i' = st.pool.length
    · subst he
      simp only [List.getElem?_concat_length, Machine.thread, Option.some.injEq, Thread.mk.injEq] at h'
      obtain ⟨rfl, rfl⟩ := h'
      exact ⟨_, Function.update_self .., T.mine_entry j, hs j⟩
    · rw [Function.update_of_ne he]
      have hlt : i' < st.pool.length := by
        have := (List.getElem?_eq_some_iff.1 h').1
        simp only [List.length_append, List.length_singleton] at this
        omega
      rw [List.getElem?_append_left hlt] at h'
      exact h.living i' j' p' h'
  · intro i' h'
    by_cases he : i' = st.pool.length
    · subst he
      exact absurd List.getElem?_concat_length (h' _ _)
    · rw [Function.update_of_ne he]
      apply h.gone
      intro j' p' hp'
      refine h' j' p' ?_
      rw [List.getElem?_append_left (List.getElem?_eq_some_iff.1 hp').1]
      exact hp'
  · intro ev hev
    rw [List.length_append]
    exact Nat.lt_add_right _ (h.logged ev hev)

/-- What a move does, with the phases the threads are in after it. -/
theorem Agrees.move (h : Agrees M T st ph) (hs : Sound M T) (m : Move J E) :
    ∃ ph', Agrees M T (M.move st m) ph' ∧ Effect M T st ph m (M.move st m).world ph' (M.move st m).log := by
  cases m with
  | step i =>
    simp only [Machine.move, Machine.stepThread]
    split
    -- An operation: the discipline says what comes of it.
    · rename_i j s k g hi
      obtain ⟨φ, hφ, hm, ho⟩ := h.living i _ _ hi
      have hn : st.next i = some (j, s) := by simp only [State.next, hi]
      cases ha : M.app s st.world with
      | none => exact ⟨ph, h, .stay _⟩
      | some w =>
        obtain ⟨φ', hr, hk⟩ := ho.1 st.world w ha
        have h' := h.set w (⟨i, s, st.world, false⟩ :: st.log) hi (T.mine_rule hm hr) hk (by simp +contextual)
        cases hsp : M.spawns s with
        | none =>
          simp only [Option.toList_none, List.map_nil, List.append_nil]
          exact ⟨_, h', .exec hn hφ hm hr ha hsp⟩
        | some j' =>
          have hl : (st.pool.set i ⟨j, some (k st.world)⟩).length = st.pool.length := List.length_set
          have h'' := h'.add hs w j'
          simp only [hl] at h''
          have hne : st.pool.length ≠ i := by
            rintro rfl
            rw [h.fresh] at hφ
            cases hφ
          exact ⟨_, h'', .spawn hn hφ hm hr ha hsp h.fresh hne h.unlogged⟩
    -- A loop is unfolded by one round; its invariant holds of the next.
    · rename_i j β b k g hi
      obtain ⟨φ, hφ, hm, I, hi', hb⟩ := h.living i _ _ hi
      have hp : Obeys M T (b.graft (Code.again (.loop b k g) k) g) φ (fun _ => T.rests) T.rests := by
        refine Obeys.graft ((hb φ hi').mono ?_ fun _ hx => hx)
        intro o χ ho
        cases o with
        | none => exact ⟨I, ho.1 rfl, hb⟩
        | some x => exact ho.2 x rfl
      have h' := h.set st.world st.log hi hm hp fun _ hev => .inl hev
      rw [← hφ, Function.update_eq_self] at h'
      exact ⟨ph, h', .stay _⟩
    · exact ⟨ph, h, .stay _⟩
  | fail i =>
    simp only [Machine.move]
    split
    · rename_i j s k g hi
      obtain ⟨φ, hφ, hm, ho⟩ := h.living i _ _ hi
      have hn : st.next i = some (j, s) := by simp only [State.next, hi]
      exact ⟨_, h.set st.world _ hi (T.mine_fault s hm) ho.2 (by simp +contextual), .fail hn hφ hm⟩
    · exact ⟨ph, h, .stay _⟩
  | post j =>
    simp only [Machine.move]
    cases hp : M.post j st.world with
    | none => exact ⟨ph, h, .stay _⟩
    | some w => exact ⟨_, h.add hs w j, .post hp h.fresh h.unlogged⟩
  | env e => exact ⟨ph, ⟨h.living, h.gone, h.logged⟩, .env e⟩
  | kill =>
    refine ⟨fun _ => none, ⟨?_, fun _ _ => rfl, by simpa [Machine.move] using h.logged⟩, .kill⟩
    intro i j p hi
    simp only [Machine.move, List.getElem?_map, Option.map_eq_some_iff, Thread.mk.injEq] at hi
    obtain ⟨t, -, -, ht⟩ := hi
    cases ht

/-- An invariant of the world, the phases and the log that every effect of an
admitted move keeps holds after every admitted run. -/
theorem Machine.invariant (hs : Sound M T) (C : State σ S J → Move J E → Prop)
    (I : σ → (Nat → Option Φ) → List (Event σ S) → Prop)
    (hI : ∀ st ph m w ph' l, Agrees M T st ph → I st.world ph st.log → C st m → Effect M T st ph m w ph' l → I w ph' l)
    (h : Agrees M T st ph) (h0 : I st.world ph st.log) (ms : List (Move J E)) (hc : M.Admits C st ms) :
    ∃ ph', Agrees M T (M.run st ms) ph' ∧ I (M.run st ms).world ph' (M.run st ms).log := by
  induction ms generalizing st ph with
  | nil => exact ⟨ph, h, h0⟩
  | cons m ms ih =>
    obtain ⟨ph', h', he⟩ := h.move hs m
    exact ih h' (hI st ph m _ ph' _ h h0 hc.1 he) hc.2

end Invariant

/-! ## Two disciplines at once -/

section Both
variable {Ψ : Type} {U : Typestate σ S J Ψ}

/-- A thread is in a phase of each. -/
def Typestate.both (T : Typestate σ S J Φ) (U : Typestate σ S J Ψ) : Typestate σ S J (Φ × Ψ) where
  entry j := (T.entry j, U.entry j)
  rule φ s w φ' := T.rule φ.1 s w φ'.1 ∧ U.rule φ.2 s w φ'.2
  fault φ s := (T.fault φ.1 s, U.fault φ.2 s)
  rests φ := T.rests φ.1 ∧ U.rests φ.2
  mine j φ := T.mine j φ.1 ∧ U.mine j φ.2
  mine_entry j := ⟨T.mine_entry j, U.mine_entry j⟩
  mine_rule hm hr := ⟨T.mine_rule hm.1 hr.1, U.mine_rule hm.2 hr.2⟩
  mine_fault s hm := ⟨T.mine_fault s hm.1, U.mine_fault s hm.2⟩

theorem Obeys.both {p : Code σ S α} {φ : Φ} {ψ : Ψ} {Q : α → Φ → Prop} {X : Φ → Prop} {R : α → Ψ → Prop} {Y : Ψ → Prop}
    (hT : Obeys M T p φ Q X) (hU : Obeys M U p ψ R Y) :
    Obeys M (T.both U) p (φ, ψ) (fun a χ => Q a χ.1 ∧ R a χ.2) fun χ => X χ.1 ∧ Y χ.2 := by
  induction p generalizing φ ψ X Y with
  | done | raise => exact ⟨hT, hU⟩
  | act s k g ihk ihg =>
    refine ⟨fun w w' hw => ?_, ihg hT.2 hU.2⟩
    obtain ⟨φ', hr, hk⟩ := hT.1 w w' hw
    obtain ⟨ψ', hr', hk'⟩ := hU.1 w w' hw
    exact ⟨(φ', ψ'), ⟨hr, hr'⟩, ihk w hk hk'⟩
  | loop b k g ihb ihk ihg =>
    obtain ⟨I, hi, hb⟩ := hT
    obtain ⟨I', hi', hb'⟩ := hU
    refine ⟨fun χ => I χ.1 ∧ I' χ.2, ⟨hi, hi'⟩, ?_⟩
    rintro ⟨χ, χ'⟩ ⟨hχ, hχ'⟩
    refine (ihb (hb χ hχ) (hb' χ' hχ')).mono ?_ ?_
    · rintro o χ ⟨h1, h2⟩
      exact ⟨fun ho => ⟨h1.1 ho, h2.1 ho⟩, fun x hx => ihk x (h1.2 x hx) (h2.2 x hx)⟩
    · rintro χ ⟨h1, h2⟩
      exact ihg h1 h2

theorem Sound.both (hT : Sound M T) (hU : Sound M U) : Sound M (T.both U) := fun j => (hT j).both (hU j)

/-- Their first phases. -/
def firsts (ph : Nat → Option (Φ × Ψ)) : Nat → Option Φ := fun i => (ph i).map (·.1)

theorem firsts_update (ph : Nat → Option (Φ × Ψ)) (i : Nat) (φ : Φ × Ψ) :
    firsts (Function.update ph i (some φ)) = Function.update (firsts ph) i (some φ.1) := by
  funext k
  simp only [firsts, Function.update_apply]
  split <;> rfl

/-- A move does to the first phases what the first discipline says. -/
theorem Effect.first {st : State σ S J} {ph ph' : Nat → Option (Φ × Ψ)} {m : Move J E} {w : σ} {l : List (Event σ S)}
    (h : Effect M (T.both U) st ph m w ph' l) : Effect M T st (firsts ph) m w (firsts ph') l := by
  cases h with
  | stay => exact .stay m
  | exec hn hi hm hr ha hs =>
    rw [firsts_update]
    exact .exec hn (by simp [firsts, hi]) hm.1 hr.1 ha hs
  | spawn hn hi hm hr ha hs hnew hne hl =>
    rw [firsts_update, firsts_update]
    exact .spawn hn (by simp [firsts, hi]) hm.1 hr.1 ha hs (by simp [firsts, hnew]) hne hl
  | fail hn hi hm =>
    rw [firsts_update]
    exact .fail hn (by simp [firsts, hi]) hm.1
  | post hp hnew hl =>
    rw [firsts_update]
    exact .post hp (by simp [firsts, hnew]) hl
  | env e => exact .env e
  | kill => exact .kill

end Both

end Threads
