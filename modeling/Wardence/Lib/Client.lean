import Mathlib.Logic.Function.Basic
import Mathlib.Data.List.Basic
/-!
# Clients of a transactional store

A client reads, executes statements and commits, in program order. The first
statement after a commit opens a transaction; until the next commit only the
client itself sees what it wrote, and a client that stops or raises loses it.
One program has three readings: `run` (alone, to its end), `stop` (killed after
some number of steps) and `step` (one atomic step among other clients).
-/
namespace Txn

/-- What one statement does to the store, or the error it raises. -/
class Store (σ S : Type) (ε : outParam Type) where
  app : S → σ → Except ε σ

/-- A program over a store `σ` with statements `S`, errors `ε` and result `α`. -/
inductive Client (σ S ε α : Type) where
  | done (a : α)
  | raise (e : ε)
  | read (k : σ → Client σ S ε α)
  | exec (s : S) (k : Client σ S ε α)
  | commit (k : Client σ S ε α)

variable {σ S ε α β γ : Type}

namespace Client

def bind : Client σ S ε α → (α → Client σ S ε β) → Client σ S ε β
  | done a, f => f a
  | raise e, _ => raise e
  | read k, f => read fun x => (k x).bind f
  | exec s k, f => exec s (k.bind f)
  | commit k, f => commit (k.bind f)

instance : Monad (Client σ S ε) where
  pure := done
  bind := bind

/-- `SELECT`: what the client's own transaction sees. -/
def select (q : σ → α) : Client σ S ε α := read fun x => done (q x)

/-- One data-changing statement. -/
def execute (s : S) : Client σ S ε Unit := exec s (done ())

def commitNow : Client σ S ε Unit := commit (done ())

def throw (e : ε) : Client σ S ε α := raise e

@[simp] theorem pure_eq (a : α) : (pure a : Client σ S ε α) = done a := rfl
@[simp] theorem done_bind (a : α) (f : α → Client σ S ε β) : (done a >>= f) = f a := rfl
@[simp] theorem raise_bind (e : ε) (f : α → Client σ S ε β) : (raise e >>= f) = raise e := rfl
@[simp] theorem throw_bind (e : ε) (f : α → Client σ S ε β) : (throw e >>= f) = raise e := rfl
@[simp] theorem read_bind (k : σ → Client σ S ε α) (f : α → Client σ S ε β) :
    (read k >>= f) = read fun x => k x >>= f := rfl
@[simp] theorem exec_bind (s : S) (k : Client σ S ε α) (f : α → Client σ S ε β) :
    (exec s k >>= f) = exec s (k >>= f) := rfl
@[simp] theorem commit_bind (k : Client σ S ε α) (f : α → Client σ S ε β) :
    (commit k >>= f) = commit (k >>= f) := rfl
@[simp] theorem select_bind (q : σ → α) (f : α → Client σ S ε β) :
    (select q >>= f) = read fun x => f (q x) := rfl
@[simp] theorem execute_bind (s : S) (f : Unit → Client σ S ε β) :
    (execute s >>= f) = exec s (f ()) := rfl
@[simp] theorem commitNow_bind (f : Unit → Client σ S ε β) :
    ((commitNow : Client σ S ε Unit) >>= f) = commit (f ()) := rfl

theorem bind_done (p : Client σ S ε α) : (p >>= done) = p := by
  induction p with
  | done a => rfl
  | raise e => rfl
  | read k ih => simp only [read_bind, ih]
  | exec s k ih => simp only [exec_bind, ih]
  | commit k ih => simp only [commit_bind, ih]

theorem bind_unit (p : Client σ S ε Unit) : (p >>= fun _ => done ()) = p := bind_done p

theorem bind_assoc (p : Client σ S ε α) (f : α → Client σ S ε β) (g : β → Client σ S ε γ) :
    (p >>= f >>= g) = (p >>= fun a => f a >>= g) := by
  induction p with
  | done a => rfl
  | raise e => rfl
  | read k ih => simp only [read_bind, ih]
  | exec s k ih => simp only [exec_bind, ih]
  | commit k ih => simp only [commit_bind, ih]

instance : LawfulMonad (Client σ S ε) := LawfulMonad.mk' _ (fun p => bind_done p) (fun _ _ => rfl) bind_assoc

end Client

open Client

/-- A connection: what is committed, and what its open transaction sees. -/
structure Conn (σ : Type) where
  committed : σ
  view : σ

/-- A connection with no transaction open. -/
def Conn.idle (x : σ) : Conn σ := ⟨x, x⟩

@[simp] theorem Conn.idle_committed (x : σ) : (Conn.idle x).committed = x := rfl
@[simp] theorem Conn.idle_view (x : σ) : (Conn.idle x).view = x := rfl

section Run
variable [Store σ S ε]

/-- Runs a client to its end, with nobody else writing. -/
def run : Client σ S ε α → Conn σ → Except ε α × Conn σ
  | .done a, c => (.ok a, c)
  | .raise e, c => (.error e, c)
  | .read k, c => run (k c.view) c
  | .exec s k, c =>
    match Store.app s c.view with
    | .ok v => run k ⟨c.committed, v⟩
    | .error e => (.error e, c)
  | .commit k, c => run k (.idle c.view)

/-- What is committed after running `p` alone from `x`. -/
def after (p : Client σ S ε α) (x : σ) : σ := (run p (.idle x)).2.committed

/-- What is committed when the client is killed after `n` steps. -/
def stop : Nat → Client σ S ε α → Conn σ → σ
  | 0, _, c => c.committed
  | _ + 1, .done _, c => c.committed
  | _ + 1, .raise _, c => c.committed
  | n + 1, .read k, c => stop n (k c.view) c
  | n + 1, .exec s k, c =>
    match Store.app s c.view with
    | .ok v => stop n k ⟨c.committed, v⟩
    | .error _ => c.committed
  | n + 1, .commit k, c => stop n k (.idle c.view)

/-- What a client commits, in order. -/
def commits : Client σ S ε α → Conn σ → List σ
  | .done _, _ => []
  | .raise _, _ => []
  | .read k, c => commits (k c.view) c
  | .exec s k, c =>
    match Store.app s c.view with
    | .ok v => commits k ⟨c.committed, v⟩
    | .error _ => []
  | .commit k, c => c.view :: commits k (.idle c.view)

/-- How many commits a client makes in its first `n` steps. -/
def commitsBy : Nat → Client σ S ε α → Conn σ → Nat
  | 0, _, _ => 0
  | _ + 1, .done _, _ => 0
  | _ + 1, .raise _, _ => 0
  | n + 1, .read k, c => commitsBy n (k c.view) c
  | n + 1, .exec s k, c =>
    match Store.app s c.view with
    | .ok v => commitsBy n k ⟨c.committed, v⟩
    | .error _ => 0
  | n + 1, .commit k, c => commitsBy n k (.idle c.view) + 1

variable {c : Conn σ}

@[simp] theorem run_done (a : α) : run (done a : Client σ S ε α) c = (.ok a, c) := rfl
@[simp] theorem run_raise (e : ε) : run (raise e : Client σ S ε α) c = (.error e, c) := rfl
@[simp] theorem run_throw (e : ε) : run (throw e : Client σ S ε α) c = (.error e, c) := rfl
@[simp] theorem run_read (k : σ → Client σ S ε α) : run (read k) c = run (k c.view) c := rfl
@[simp] theorem run_commit (k : Client σ S ε α) : run (commit k) c = run k (.idle c.view) := rfl
@[simp] theorem run_commitNow : run (commitNow : Client σ S ε Unit) c = (.ok (), .idle c.view) := rfl
@[simp] theorem run_select (q : σ → α) : run (select q : Client σ S ε α) c = (.ok (q c.view), c) := rfl

@[simp] theorem commits_done (a : α) : commits (done a : Client σ S ε α) c = [] := rfl
@[simp] theorem commits_read (k : σ → Client σ S ε α) : commits (read k) c = commits (k c.view) c := rfl
@[simp] theorem commits_commit (k : Client σ S ε α) : commits (commit k) c = c.view :: commits k (.idle c.view) := rfl
@[simp] theorem commits_commitNow : commits (commitNow : Client σ S ε Unit) c = [c.view] := rfl

theorem commits_exec_ok {s : S} {v : σ} (h : Store.app s c.view = .ok v) (k : Client σ S ε α) :
    commits (exec s k) c = commits k ⟨c.committed, v⟩ := by simp only [commits, h]

theorem run_exec_ok {s : S} {v : σ} (h : Store.app s c.view = .ok v) (k : Client σ S ε α) :
    run (exec s k) c = run k ⟨c.committed, v⟩ := by simp only [run, h]

theorem run_exec_error {s : S} {e : ε} (h : (Store.app s c.view : Except ε σ) = .error e) (k : Client σ S ε α) :
    run (exec s k) c = (.error e, c) := by simp only [run, h]

theorem run_bind (p : Client σ S ε α) (f : α → Client σ S ε β) (c : Conn σ) :
    run (p >>= f) c =
      match run p c with
      | (.ok a, c') => run (f a) c'
      | (.error e, c') => (.error e, c') := by
  induction p generalizing c with
  | done a => rfl
  | raise e => rfl
  | read k ih => simp only [read_bind, run_read, ih]
  | exec s k ih =>
    simp only [exec_bind, run]
    cases Store.app s c.view with
    | ok v => exact ih _
    | error e => rfl
  | commit k ih => simp only [commit_bind, run_commit, ih]

/-- The second half of a program starts where the first half ended. -/
theorem run_bind_ok {p : Client σ S ε α} {c c' : Conn σ} {a : α} (h : run p c = (.ok a, c'))
    (f : α → Client σ S ε β) : run (p >>= f) c = run (f a) c' := by rw [run_bind, h]

theorem run_bind_error {p : Client σ S ε α} {c c' : Conn σ} {e : ε} (h : run p c = (.error e, c'))
    (f : α → Client σ S ε β) : run (p >>= f) c = (.error e, c') := by rw [run_bind, h]

/-- A loop whose body always ends normally is a fold over the connection. -/
theorem run_forM {ι : Type} {l : List ι} {f : ι → Client σ S ε PUnit} {F : ι → Conn σ → Conn σ}
    (h : ∀ i c, run (f i) c = (.ok ⟨⟩, F i c)) (c : Conn σ) :
    run (forM l f) c = (.ok ⟨⟩, l.foldl (fun c i => F i c) c) := by
  induction l generalizing c with
  | nil => rfl
  | cons i l ih => rw [List.forM_cons, run_bind_ok (h i c), ih, List.foldl_cons]

/-- When every pass of the loop commits, the loop is a fold over the store. -/
theorem foldl_idle_view {ι : Type} (g : σ → ι → σ) (l : List ι) (c : Conn σ) :
    (l.foldl (fun c i => Conn.idle (g c.view i)) c).view = l.foldl g c.view := by
  induction l generalizing c with
  | nil => rfl
  | cons i l ih => exact ih _

theorem foldl_idle {ι : Type} (g : σ → ι → σ) (l : List ι) (x : σ) :
    l.foldl (fun c i => Conn.idle (g c.view i)) (.idle x) = .idle (l.foldl g x) := by
  induction l generalizing x with
  | nil => rfl
  | cons i l ih => exact ih _

/-! ## Killed clients -/

/-- A killed client leaves what its last commit left. -/
theorem stop_eq (n : Nat) (p : Client σ S ε α) (c : Conn σ) :
    (c.committed :: commits p c)[commitsBy n p c]? = some (stop n p c) := by
  induction n generalizing p c with
  | zero => rfl
  | succ n ih =>
    cases p with
    | done a => rfl
    | raise e => rfl
    | read k => exact ih (k c.view) c
    | exec s k =>
      simp only [stop, commits, commitsBy]
      cases Store.app s c.view with
      | ok v => exact ih k ⟨c.committed, v⟩
      | error e => rfl
    | commit k =>
      simp only [stop, commits, commitsBy, List.getElem?_cons_succ]
      exact ih k (.idle c.view)

theorem commits_bind (p : Client σ S ε α) (f : α → Client σ S ε β) (c : Conn σ) :
    commits (p >>= f) c = commits p c ++
      match run p c with
      | (.ok a, c') => commits (f a) c'
      | (.error _, _) => [] := by
  induction p generalizing c with
  | done a => rfl
  | raise e => rfl
  | read k ih => simpa only [read_bind, commits, run_read] using ih c.view c
  | exec s k ih =>
    simp only [exec_bind, run, commits]
    cases Store.app s c.view with
    | ok v => exact ih _
    | error e => rfl
  | commit k ih => simp only [commit_bind, commits, run_commit, List.cons_append, ih]

theorem commits_bind_ok {p : Client σ S ε α} {c c' : Conn σ} {a : α} (h : run p c = (.ok a, c'))
    (f : α → Client σ S ε β) : commits (p >>= f) c = commits p c ++ commits (f a) c' := by rw [commits_bind, h]

/-- Discarding the result changes nothing else. -/
theorem run_discard (p : Client σ S ε α) (c : Conn σ) : (run (do let _ ← p; pure ()) c).2 = (run p c).2 := by
  rw [run_bind]
  cases run p c with
  | mk r c' => cases r <;> rfl

theorem commits_discard (p : Client σ S ε α) (c : Conn σ) : commits (do let _ ← p; pure ()) c = commits p c := by
  rw [commits_bind]
  cases run p c with
  | mk r c' => cases r <;> exact List.append_nil _

/-- A client that ends with nothing open ends in its last commit. -/
theorem run_committed (p : Client σ S ε α) (c : Conn σ) :
    (run p c).2.committed = (commits p c).getLastD c.committed := by
  induction p generalizing c with
  | done a => rfl
  | raise e => rfl
  | read k ih => exact ih c.view c
  | exec s k ih =>
    simp only [run, commits]
    cases Store.app s c.view with
    | ok v => exact ih _
    | error e => rfl
  | commit k ih => simp only [run_commit, commits, List.getLastD_cons, ih, Conn.idle_committed]

/-- A program commits `old`, where nothing is lost yet, then `mid`, then only `y`.
A killed run of it leaves something of `old`, or `y`, exactly when it is killed
outside the commits of `mid`. -/
theorem stop_iff {old mid new : List σ} {y : σ} {p : Client σ S ε α} {c : Conn σ}
    (hc : commits p c = old ++ (mid ++ new)) (hm : ∀ s ∈ mid, s ∉ c.committed :: old ∧ s ≠ y)
    (hn : ∀ s ∈ new, s = y) (n : Nat) :
    (stop n p c ∈ c.committed :: old ∨ stop n p c = y) ↔
      commitsBy n p c ≤ old.length ∨ old.length + mid.length < commitsBy n p c := by
  have h := stop_eq n p c
  rw [hc, ← List.cons_append] at h
  generalize stop n p c = s at h ⊢
  generalize commitsBy n p c = k at h ⊢
  by_cases h1 : k ≤ old.length
  · rw [List.getElem?_append_left (by simpa using Nat.lt_succ_of_le h1)] at h
    exact iff_of_true (.inl (List.mem_of_getElem? h)) (.inl h1)
  · rw [List.getElem?_append_right (by simp; omega), List.length_cons] at h
    by_cases h2 : old.length + mid.length < k
    · rw [List.getElem?_append_right (by omega)] at h
      exact iff_of_true (.inr (hn s (List.mem_of_getElem? h))) (.inr h2)
    · rw [List.getElem?_append_left (by omega)] at h
      obtain ⟨h3, h4⟩ := hm s (List.mem_of_getElem? h)
      exact iff_of_false (not_or.2 ⟨h3, h4⟩) (not_or.2 ⟨h1, h2⟩)

end Run

/-! ## What every path of a program does -/

namespace Client

/-- Every statement `p` may execute satisfies `P`. -/
def All (P : S → Prop) : Client σ S ε α → Prop
  | done _ => True
  | raise _ => True
  | read k => ∀ x, (k x).All P
  | exec s k => P s ∧ k.All P
  | commit k => k.All P

@[simp] theorem all_done (P : S → Prop) (a : α) : (done a : Client σ S ε α).All P := trivial
@[simp] theorem all_raise (P : S → Prop) (e : ε) : (raise e : Client σ S ε α).All P := trivial
@[simp] theorem all_throw (P : S → Prop) (e : ε) : (throw e : Client σ S ε α).All P := trivial
@[simp] theorem all_select (P : S → Prop) (q : σ → α) : (select q : Client σ S ε α).All P := fun _ => trivial
@[simp] theorem all_execute (P : S → Prop) (s : S) : (execute s : Client σ S ε Unit).All P ↔ P s :=
  ⟨fun h => h.1, fun h => ⟨h, trivial⟩⟩
@[simp] theorem all_commitNow (P : S → Prop) : (commitNow : Client σ S ε Unit).All P := trivial

theorem All.bind {P : S → Prop} {p : Client σ S ε α} {f : α → Client σ S ε β} (hp : p.All P)
    (hf : ∀ a, (f a).All P) : (p >>= f).All P := by
  induction p with
  | done a => exact hf a
  | raise e => trivial
  | read k ih => exact fun x => ih x (hp x)
  | exec s k ih => exact ⟨hp.1, ih hp.2⟩
  | commit k ih => exact ih hp

theorem All.mono {P Q : S → Prop} (h : ∀ s, P s → Q s) {p : Client σ S ε α} (hp : p.All P) : p.All Q := by
  induction p with
  | done a => trivial
  | raise e => trivial
  | read k ih => exact fun x => ih x (hp x)
  | exec s k ih => exact ⟨h _ hp.1, ih hp.2⟩
  | commit k ih => exact ih hp

theorem all_true (p : Client σ S ε α) : p.All fun _ => True := by
  induction p with
  | done a => trivial
  | raise e => trivial
  | read k ih => exact ih
  | exec s k ih => exact ⟨trivial, ih⟩
  | commit k ih => exact ih

/-- A loop over a list, written with `forM`. -/
theorem All.forM {P : S → Prop} {ι : Type} {l : List ι} {f : ι → Client σ S ε PUnit} (h : ∀ i ∈ l, (f i).All P) :
    (forM l f).All P := by
  induction l with
  | nil => trivial
  | cons i l ih =>
    rw [List.forM_cons]
    exact All.bind (h i (by simp)) fun _ => ih fun j hj => h j (by simp [hj])

/-- Every statement `p` may execute satisfies `P`, and `p` raises nothing of its own. -/
def Sure (P : S → Prop) : Client σ S ε α → Prop
  | done _ => True
  | raise _ => False
  | read k => ∀ x, (k x).Sure P
  | exec s k => P s ∧ k.Sure P
  | commit k => k.Sure P

@[simp] theorem sure_done (P : S → Prop) (a : α) : (done a : Client σ S ε α).Sure P := trivial
@[simp] theorem sure_select (P : S → Prop) (q : σ → α) : (select q : Client σ S ε α).Sure P := fun _ => trivial
@[simp] theorem sure_execute (P : S → Prop) (s : S) : (execute s : Client σ S ε Unit).Sure P ↔ P s :=
  ⟨fun h => h.1, fun h => ⟨h, trivial⟩⟩
@[simp] theorem sure_commitNow (P : S → Prop) : (commitNow : Client σ S ε Unit).Sure P := trivial

theorem Sure.all {P : S → Prop} {p : Client σ S ε α} (hp : p.Sure P) : p.All P := by
  induction p with
  | done a => trivial
  | raise e => exact hp.elim
  | read k ih => exact fun x => ih x (hp x)
  | exec s k ih => exact ⟨hp.1, ih hp.2⟩
  | commit k ih => exact ih hp

theorem Sure.bind {P : S → Prop} {p : Client σ S ε α} {f : α → Client σ S ε β} (hp : p.Sure P)
    (hf : ∀ a, (f a).Sure P) : (p >>= f).Sure P := by
  induction p with
  | done a => exact hf a
  | raise e => exact hp.elim
  | read k ih => exact fun x => ih x (hp x)
  | exec s k ih => exact ⟨hp.1, ih hp.2⟩
  | commit k ih => exact ih hp

theorem Sure.mono {P Q : S → Prop} (h : ∀ s, P s → Q s) {p : Client σ S ε α} (hp : p.Sure P) : p.Sure Q := by
  induction p with
  | done a => trivial
  | raise e => exact hp.elim
  | read k ih => exact fun x => ih x (hp x)
  | exec s k ih => exact ⟨h _ hp.1, ih hp.2⟩
  | commit k ih => exact ih hp

theorem Sure.forM {P : S → Prop} {ι : Type} {l : List ι} {f : ι → Client σ S ε PUnit} (h : ∀ i ∈ l, (f i).Sure P) :
    (forM l f).Sure P := by
  induction l with
  | nil => trivial
  | cons i l ih =>
    rw [List.forM_cons]
    exact Sure.bind (h i (by simp)) fun _ => ih fun j hj => h j (by simp [hj])

end Client

/-- What every statement of a program keeps, the whole program keeps. -/
theorem run_keeps [Store σ S ε] (I : σ → Prop) (P : S → Prop)
    (h : ∀ s x x', P s → Store.app s x = (.ok x' : Except ε σ) → I x → I x') {p : Client σ S ε α} (hp : p.All P)
    {c : Conn σ} (hc : I c.committed) (hv : I c.view) :
    I (run p c).2.committed ∧ I (run p c).2.view := by
  induction p generalizing c with
  | done a => exact ⟨hc, hv⟩
  | raise e => exact ⟨hc, hv⟩
  | read k ih => exact ih c.view (hp c.view) hc hv
  | exec s k ih =>
    simp only [run]
    cases ha : (Store.app s c.view : Except ε σ) with
    | ok v => exact ih hp.2 hc (h s _ v hp.1 ha hv)
    | error e => exact ⟨hc, hv⟩
  | commit k ih => exact ih hp hv hv

/-- What every statement of a program keeps holds of everything it commits. -/
theorem commits_keep [Store σ S ε] (I : σ → Prop) (P : S → Prop)
    (h : ∀ s x x', P s → Store.app s x = (.ok x' : Except ε σ) → I x → I x') {p : Client σ S ε α} (hp : p.All P)
    {c : Conn σ} (hv : I c.view) : ∀ y ∈ commits p c, I y := by
  induction p generalizing c with
  | done a => simp [commits]
  | raise e => simp [commits]
  | read k ih => exact ih c.view (hp c.view) hv
  | exec s k ih =>
    simp only [commits]
    cases ha : (Store.app s c.view : Except ε σ) with
    | ok v => exact ih hp.2 (h s _ v hp.1 ha hv)
    | error e => simp
  | commit k ih =>
    simp only [commits, List.forall_mem_cons]
    exact ⟨hv, ih hp hv⟩

end Txn
