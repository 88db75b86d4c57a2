import Wardence.Lib.Client
/-!
# Many clients of one store

The clients of a fleet move one atomic step at a time: a read sees what is
committed now, and a transaction, from its first statement to its commit, is
one step that takes effect whole or not at all. A client may be killed between
any two of its steps. A fleet runs any list of moves; a theorem about every
list of moves holds for every interleaving and every crash.
-/
namespace Txn

open Client

variable {σ S ε α β ι : Type}

section Step
variable [Store σ S ε]

/-- Runs an open transaction to its commit: what is then committed, what it
executed and what is left to do. An end or an error before the commit rolls
back to `x`. -/
def transact (x : σ) : Client σ S ε α → σ → List S → σ × List S × Client σ S ε α
  | .done a, _, _ => (x, [], .done a)
  | .raise e, _, _ => (x, [], .raise e)
  | .read k, v, w => transact x (k v) v w
  | .exec s k, v, w =>
    match Store.app s v with
    | .ok v' => transact x k v' (w ++ [s])
    | .error e => (x, [], .raise e)
  | .commit k, v, w => (v, w, k)

/-- One atomic step of a client that is not over. -/
def step (x : σ) : Client σ S ε α → Option (σ × List S × Client σ S ε α)
  | .done _ => none
  | .raise _ => none
  | .read k => some (x, [], k x)
  | .exec s k => some (transact x (.exec s k) x [])
  | .commit k => some (x, [], k)

/-- `Path p v zs v' p'`: from `v`, the transaction of `p` executes `zs`,
commits `v'` and leaves `p'` to do. -/
inductive Path : Client σ S ε α → σ → List S → σ → Client σ S ε α → Prop
  | commit {k v} : Path (.commit k) v [] v k
  | read {k v zs v' p'} : Path (k v) v zs v' p' → Path (.read k) v zs v' p'
  | exec {s k v u zs v' p'} : Store.app s v = .ok u → Path k u zs v' p' → Path (.exec s k) v (s :: zs) v' p'

/-- `Abort p v p'`: from `v`, the transaction of `p` ends before any commit, as `p'`. -/
inductive Abort : Client σ S ε α → σ → Client σ S ε α → Prop
  | done {a v} : Abort (.done a) v (.done a)
  | raise {e v} : Abort (.raise e) v (.raise e)
  | read {k v p'} : Abort (k v) v p' → Abort (.read k) v p'
  | exec {s k v u p'} : Store.app s v = .ok u → Abort k u p' → Abort (.exec s k) v p'
  | failed {s k v e} : Store.app s v = .error e → Abort (.exec s k) v (.raise e)

/-- A transaction that ends before its commit ends the client. -/
theorem Abort.ended {p p' : Client σ S ε α} {v : σ} (h : Abort p v p') :
    (∃ a, p' = .done a) ∨ ∃ e, p' = .raise e := by
  induction h with
  | done => exact .inl ⟨_, rfl⟩
  | raise => exact .inr ⟨_, rfl⟩
  | read _ ih => exact ih
  | exec _ _ ih => exact ih
  | failed => exact .inr ⟨_, rfl⟩

theorem transact_cases (x : σ) (p : Client σ S ε α) (v : σ) (w : List S) :
    (∃ zs v' p', Path p v zs v' p' ∧ transact x p v w = (v', w ++ zs, p')) ∨
      ∃ p', Abort p v p' ∧ transact x p v w = (x, [], p') := by
  induction p generalizing v w with
  | done a => exact .inr ⟨_, .done, rfl⟩
  | raise e => exact .inr ⟨_, .raise, rfl⟩
  | commit k ih => exact .inl ⟨[], v, k, .commit, by rw [List.append_nil]; rfl⟩
  | read k ih =>
    rcases ih v v w with ⟨zs, v', p', hp, he⟩ | ⟨p', hp, he⟩
    · exact .inl ⟨zs, v', p', .read hp, he⟩
    · exact .inr ⟨p', .read hp, he⟩
  | exec s k ih =>
    simp only [transact]
    cases ha : (Store.app s v : Except ε σ) with
    | error e => exact .inr ⟨_, .failed ha, rfl⟩
    | ok u =>
      rcases ih u (w ++ [s]) with ⟨zs, v', p', hp, he⟩ | ⟨p', hp, he⟩
      · exact .inl ⟨s :: zs, v', p', .exec ha hp, by simpa using he⟩
      · exact .inr ⟨p', .exec ha hp, he⟩

/-- All a step can be: a read, a committed transaction, or one rolled back. -/
theorem step_cases {x x' : σ} {p p' : Client σ S ε α} {ws : List S} (h : step x p = some (x', ws, p')) :
    (∃ k, p = .read k ∧ x' = x ∧ ws = [] ∧ p' = k x) ∨ Path p x ws x' p' ∨
      (Abort p x p' ∧ x' = x ∧ ws = []) := by
  cases p with
  | done a => simp [step] at h
  | raise e => simp [step] at h
  | read k =>
    simp only [step, Option.some.injEq, Prod.mk.injEq] at h
    obtain ⟨rfl, rfl, rfl⟩ := h
    exact .inl ⟨k, rfl, rfl, rfl, rfl⟩
  | commit k =>
    simp only [step, Option.some.injEq, Prod.mk.injEq] at h
    obtain ⟨rfl, rfl, rfl⟩ := h
    exact .inr (.inl .commit)
  | exec s k =>
    simp only [step, Option.some.injEq] at h
    rcases transact_cases x (.exec s k) x [] with ⟨zs, v', q, hp, he⟩ | ⟨q, hp, he⟩
    · rw [he, List.nil_append, Prod.mk.injEq, Prod.mk.injEq] at h
      obtain ⟨rfl, rfl, rfl⟩ := h
      exact .inr (.inl hp)
    · rw [he, Prod.mk.injEq, Prod.mk.injEq] at h
      obtain ⟨rfl, rfl, rfl⟩ := h
      exact .inr (.inr ⟨hp, rfl, rfl⟩)

theorem Path.transact {p p' : Client σ S ε α} {v v' : σ} {zs : List S} (h : Path p v zs v' p') (x : σ) (w : List S) :
    Txn.transact x p v w = (v', w ++ zs, p') := by
  induction h generalizing w with
  | commit => rw [List.append_nil]; rfl
  | read _ ih => exact ih w
  | exec ha _ ih => simp only [Txn.transact, ha, ih, List.append_assoc, List.singleton_append]

theorem Path.all {P : S → Prop} {p p' : Client σ S ε α} {v v' : σ} {zs : List S} (h : Path p v zs v' p') (hp : p.All P) :
    (∀ z ∈ zs, P z) ∧ p'.All P := by
  induction h with
  | commit => exact ⟨by simp, hp⟩
  | read _ ih => exact ih (hp _)
  | exec _ _ ih => exact ⟨List.forall_mem_cons.2 ⟨hp.1, (ih hp.2).1⟩, (ih hp.2).2⟩

/-- The first half of a program that commits is the first half of its step. -/
theorem Path.bind {p p' : Client σ S ε α} {v v' : σ} {zs : List S} (h : Path p v zs v' p')
    (f : α → Client σ S ε β) : Path (p >>= f) v zs v' (p' >>= f) := by
  induction h with
  | commit => exact .commit
  | read _ ih => exact .read ih
  | exec ha _ ih => exact .exec ha ih

theorem Path.run {p p' : Client σ S ε α} {v v' : σ} {zs : List S} (h : Path p v zs v' p') (x : σ) :
    Txn.run p ⟨x, v⟩ = Txn.run p' (.idle v') := by
  induction h with
  | commit => rfl
  | read _ ih => exact ih
  | exec ha _ ih => rw [run_exec_ok ha]; exact ih

theorem Abort.run {p p' : Client σ S ε α} {v : σ} (h : Abort p v p') (x : σ) :
    (Txn.run p ⟨x, v⟩).2.committed = x := by
  induction h with
  | done => rfl
  | raise => rfl
  | read _ ih => exact ih
  | exec ha _ ih => rw [run_exec_ok ha]; exact ih
  | failed ha => rw [run_exec_error ha]

/-- A client that commits something has a path to its first commit. -/
theorem path_of_run {x v : σ} {p : Client σ S ε α} (h : (Txn.run p ⟨x, v⟩).2.committed ≠ x) :
    ∃ zs v' p', Path p v zs v' p' := by
  rcases transact_cases x p v [] with ⟨zs, v', p', hp, -⟩ | ⟨p', hab, -⟩
  · exact ⟨zs, v', p', hp⟩
  · exact absurd (hab.run x) h

/-- A client that takes one step alone still ends where it would have ended. -/
theorem after_step {x x' : σ} {p p' : Client σ S ε α} {ws : List S} (h : step x p = some (x', ws, p')) :
    after p x = after p' x' := by
  rcases step_cases h with ⟨k, rfl, rfl, -, rfl⟩ | hpath | ⟨hab, rfl, -⟩
  · rfl
  · exact congrArg (fun r => r.2.committed) (hpath.run x)
  · rcases hab.ended with ⟨a, rfl⟩ | ⟨e, rfl⟩ <;> exact hab.run _

end Step

/-! ## Fleets -/

/-- What is committed, the clients (`none` once killed), and every committed
statement with the client that committed it. -/
structure Fleet (ι σ S ε α : Type) where
  db : σ
  procs : ι → Option (Client σ S ε α)
  log : List (ι × S)

inductive Move (ι : Type) where
  | go (i : ι)
  | kill (i : ι)
  deriving DecidableEq, Repr

/-- A fleet about to start. -/
def Fleet.init (x : σ) (ps : ι → Client σ S ε α) : Fleet ι σ S ε α := ⟨x, fun i => some (ps i), []⟩

namespace Fleet
variable [DecidableEq ι] [Store σ S ε]

/-- The state of the fleet after one move; a client that is over or killed does nothing. -/
def move (f : Fleet ι σ S ε α) : Move ι → Fleet ι σ S ε α
  | .go i =>
    match f.procs i with
    | none => f
    | some p =>
      match step f.db p with
      | none => f
      | some (x, ws, p') => ⟨x, Function.update f.procs i (some p'), f.log ++ ws.map (i, ·)⟩
  | .kill i => { f with procs := Function.update f.procs i none }

/-- The state of the fleet after a list of moves. -/
def runs (f : Fleet ι σ S ε α) (ms : List (Move ι)) : Fleet ι σ S ε α := ms.foldl move f

/-- A move that satisfies `C`, each judged in the state it is made in. -/
def Clean (C : Fleet ι σ S ε α → Move ι → Prop) : Fleet ι σ S ε α → List (Move ι) → Prop
  | _, [] => True
  | f, m :: ms => C f m ∧ Clean C (f.move m) ms

theorem move_finished {f : Fleet ι σ S ε α} {i : ι} {p : Client σ S ε α} (hp : f.procs i = some p)
    (hs : step f.db p = none) : f.move (.go i) = f := by simp only [move, hp, hs]

theorem move_step {f : Fleet ι σ S ε α} {i : ι} {p p' : Client σ S ε α} {x : σ} {ws : List S}
    (hp : f.procs i = some p) (hs : step f.db p = some (x, ws, p')) :
    f.move (.go i) = ⟨x, Function.update f.procs i (some p'), f.log ++ ws.map (i, ·)⟩ := by
  simp only [move, hp, hs]

/-- All a move can be: nothing, a kill, or one step of one client. -/
theorem move_cases (f : Fleet ι σ S ε α) (m : Move ι) :
    f.move m = f ∨ (∃ i, m = .kill i ∧ f.move m = { f with procs := Function.update f.procs i none }) ∨
      ∃ i p x ws p', m = .go i ∧ f.procs i = some p ∧ step f.db p = some (x, ws, p') ∧
        f.move m = ⟨x, Function.update f.procs i (some p'), f.log ++ ws.map (i, ·)⟩ := by
  cases m with
  | kill i => exact .inr (.inl ⟨i, rfl, rfl⟩)
  | go i =>
    cases hp : f.procs i with
    | none => exact .inl (by simp only [move, hp])
    | some p =>
      cases hs : step f.db p with
      | none => exact .inl (move_finished hp hs)
      | some r => exact .inr (.inr ⟨i, p, r.1, r.2.1, r.2.2, rfl, hp, hs, move_step hp hs⟩)

/-- What every move keeps holds after every run. -/
theorem runs_inv {I : Fleet ι σ S ε α → Prop} (hs : ∀ f m, I f → I (f.move m)) {f : Fleet ι σ S ε α}
    (h : I f) (ms : List (Move ι)) : I (f.runs ms) := by
  induction ms generalizing f with
  | nil => exact h
  | cons m ms ih => exact ih (hs f m h)

/-- What every clean move keeps holds after every clean run. -/
theorem runs_clean {I : Fleet ι σ S ε α → Prop} {C : Fleet ι σ S ε α → Move ι → Prop}
    (hs : ∀ f m, C f m → I f → I (f.move m)) {f : Fleet ι σ S ε α} (h : I f) {ms : List (Move ι)}
    (hc : Clean C f ms) : I (f.runs ms) := by
  induction ms generalizing f with
  | nil => exact h
  | cons m ms ih => exact ih (hs f m hc.1 h) hc.2

end Fleet
end Txn
