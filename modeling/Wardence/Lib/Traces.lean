import Wardence.Lib.Threads
/-!
# Finished runs of one program

A program that runs alone, where nothing is known of what its statements answer:
each may answer anything, or raise. `Code.Runs` relates it to what was done in a
finished run. A monitor follows what is done; `Ends` is a program's weakest
precondition for the monitor's last state (`Runs.ends`).
-/
namespace Threads

open Code

variable {σ S Φ D F α β : Type}

/-- A statement that answered, or that raised. -/
inductive Did (σ S : Type) where
  | ran (s : S) (w : σ)
  | raised (s : S)
  deriving DecidableEq, Repr

/-- What is done in a finished run, in order, and the result; `none`: an exception. -/
inductive Code.Runs : {α : Type} → Code σ S α → List (Did σ S) → Option α → Prop
  | done {α : Type} (a : α) : Runs (.done a) [] (some a)
  | raise {α : Type} : Runs (.raise : Code σ S α) [] none
  | ran {α : Type} {s : S} {k : σ → Code σ S α} {h : Code σ S α} {w : σ} {tr : List (Did σ S)} {r : Option α} :
    Runs (k w) tr r → Runs (.act s k h) (.ran s w :: tr) r
  | raised {α : Type} {s : S} {k : σ → Code σ S α} {h : Code σ S α} {tr : List (Did σ S)} {r : Option α} :
    Runs h tr r → Runs (.act s k h) (.raised s :: tr) r
  | loop {α β : Type} {b : Code σ S (Option β)} {k : β → Code σ S α} {h : Code σ S α} {tr : List (Did σ S)} {r : Option α} :
    Runs (b.graft (again (.loop b k h) k) h) tr r → Runs (.loop b k h) tr r

/-- The run in which the statements answer as listed (`none`: the statement raises);
it has at most `n` steps and uses up the list. -/
def Code.play : Nat → Code σ S α → List (Option σ) → Option (List (Did σ S) × Option α)
  | _, .done a, [] => some ([], some a)
  | _, .raise, [] => some ([], none)
  | n + 1, .act s k _, some w :: os => (play n (k w) os).map fun x => (.ran s w :: x.1, x.2)
  | n + 1, .act s _ h, none :: os => (play n h os).map fun x => (.raised s :: x.1, x.2)
  | n + 1, .loop b k h, os => play n (b.graft (again (.loop b k h) k) h) os
  | _, _, _ => none

/-- What the statements of a run answered. -/
def answers (tr : List (Did σ S)) : List (Option σ) := tr.map fun
  | .ran _ w => some w
  | .raised _ => none

theorem Code.runs_play (n : Nat) {p : Code σ S α} (os : List (Option σ)) {tr : List (Did σ S)} {r : Option α}
    (h : play n p os = some (tr, r)) : p.Runs tr r := by
  fun_induction play n p os generalizing tr r with
  | case1 | case2 =>
    cases h
    constructor
  | case3 n s k g w os ih =>
    obtain ⟨⟨tr', r'⟩, hp, hx⟩ := Option.map_eq_some_iff.1 h
    cases hx
    exact .ran (ih hp)
  | case4 n s k g os ih =>
    obtain ⟨⟨tr', r'⟩, hp, hx⟩ := Option.map_eq_some_iff.1 h
    cases hx
    exact .raised (ih hp)
  | case5 _ _ _ _ _ _ ih => exact .loop (ih h)
  | case6 => cases h

/-! ## Runs of a program and its continuation -/

theorem Code.graft_graft {γ : Type} {p : Code σ S α} {c : α → Code σ S β} {h : Code σ S β} {k : β → Code σ S γ} {g : Code σ S γ} :
    (p.graft c h).graft k g = p.graft (fun a => (c a).graft k g) (h.graft k g) := by
  induction p with
  | done | raise => rfl
  | act s f h' ihf ihh => simp only [graft_act, ihf, ihh]
  | loop b f h' _ ihf ihh =>
    show Code.loop b (fun x => ((f x).graft c h).graft k g) ((h'.graft c h).graft k g) = _
    simp only [ihf, ihh]
    rfl

/-- One pass of a loop with a continuation. -/
theorem Code.again_graft {γ δ : Type} {c : Code σ S (Option δ)} {f : δ → Code σ S β} {g : Code σ S β} {k : β → Code σ S γ}
    {h : Code σ S γ} : (c.graft (again (.loop c f g) f) g).graft k h =
      c.graft (again (.loop c (fun x => (f x).graft k h) (g.graft k h)) fun x => (f x).graft k h) (g.graft k h) := by
  rw [graft_graft]
  congr 1
  funext o
  cases o <;> rfl

/-- What is done in a program and its continuation is done in the one, and then in the other. -/
theorem Code.Runs.graft {p : Code σ S β} {k : β → Code σ S α} {h : Code σ S α} {tr : List (Did σ S)} {r : Option α}
    (hr : (p.graft k h).Runs tr r) : ∃ l l', tr = l ++ l' ∧
      ((∃ b, p.Runs l (some b) ∧ (k b).Runs l' r) ∨ (p.Runs l none ∧ h.Runs l' r)) := by
  generalize hq : p.graft k h = q at hr
  induction hr generalizing p with
  | done a =>
    cases p with
    | done b => exact ⟨[], [], rfl, .inl ⟨b, .done b, (show k b = _ from hq) ▸ .done a⟩⟩
    | raise => exact ⟨[], [], rfl, .inr ⟨.raise, (show h = _ from hq) ▸ .done a⟩⟩
    | act | loop => cases hq
  | raise =>
    cases p with
    | done b => exact ⟨[], [], rfl, .inl ⟨b, .done b, (show k b = _ from hq) ▸ .raise⟩⟩
    | raise => exact ⟨[], [], rfl, .inr ⟨.raise, (show h = _ from hq) ▸ .raise⟩⟩
    | act | loop => cases hq
  | ran hk ih =>
    cases p with
    | done b => exact ⟨[], _, rfl, .inl ⟨b, .done b, (show k b = _ from hq) ▸ .ran hk⟩⟩
    | raise => exact ⟨[], _, rfl, .inr ⟨.raise, (show h = _ from hq) ▸ .ran hk⟩⟩
    | act s f g =>
      cases hq
      obtain ⟨l, l', rfl, ⟨b, hp, hb⟩ | ⟨hp, hh⟩⟩ := ih rfl
      · exact ⟨_ :: l, l', rfl, .inl ⟨b, .ran hp, hb⟩⟩
      · exact ⟨_ :: l, l', rfl, .inr ⟨.ran hp, hh⟩⟩
    | loop => cases hq
  | raised hk ih =>
    cases p with
    | done b => exact ⟨[], _, rfl, .inl ⟨b, .done b, (show k b = _ from hq) ▸ .raised hk⟩⟩
    | raise => exact ⟨[], _, rfl, .inr ⟨.raise, (show h = _ from hq) ▸ .raised hk⟩⟩
    | act s f g =>
      cases hq
      obtain ⟨l, l', rfl, ⟨b, hp, hb⟩ | ⟨hp, hh⟩⟩ := ih rfl
      · exact ⟨_ :: l, l', rfl, .inl ⟨b, .raised hp, hb⟩⟩
      · exact ⟨_ :: l, l', rfl, .inr ⟨.raised hp, hh⟩⟩
    | loop => cases hq
  | @loop _ c _ _ _ _ hk ih =>
    cases p with
    | done b => exact ⟨[], _, rfl, .inl ⟨b, .done b, (show k b = _ from hq) ▸ .loop hk⟩⟩
    | raise => exact ⟨[], _, rfl, .inr ⟨.raise, (show h = _ from hq) ▸ .loop hk⟩⟩
    | act => cases hq
    | loop b f g =>
      cases hq
      obtain ⟨l, l', rfl, ⟨b, hp, hb⟩ | ⟨hp, hh⟩⟩ := ih again_graft
      · exact ⟨l, l', rfl, .inl ⟨b, .loop hp, hb⟩⟩
      · exact ⟨l, l', rfl, .inr ⟨.loop hp, hh⟩⟩

theorem Code.Runs.bind {p : Code σ S β} {f : β → Code σ S α} {tr : List (Did σ S)} {r : Option α} (hr : (p >>= f).Runs tr r) :
    (∃ b l l', tr = l ++ l' ∧ p.Runs l (some b) ∧ (f b).Runs l' r) ∨ (p.Runs tr none ∧ r = none) := by
  obtain ⟨l, l', rfl, ⟨b, hp, hb⟩ | ⟨hp, hh⟩⟩ := hr.graft
  · exact .inl ⟨b, l, l', rfl, hp, hb⟩
  · cases hh
    exact .inr ⟨by simpa using hp, rfl⟩

theorem Code.Runs.stmt {s : S} {tr : List (Did σ S)} {r : Option σ} (hr : (stmt s).Runs tr r) :
    (∃ w, tr = [.ran s w] ∧ r = some w) ∨ (tr = [.raised s] ∧ r = none) := by
  cases hr with
  | ran h =>
    cases h
    exact .inl ⟨_, rfl, rfl⟩
  | raised h =>
    cases h
    exact .inr ⟨rfl, rfl⟩

theorem Code.Runs.bind_some {p : Code σ S β} {f : β → Code σ S α} {tr : List (Did σ S)} {a : α}
    (hr : (p >>= f).Runs tr (some a)) : ∃ b l l', tr = l ++ l' ∧ p.Runs l (some b) ∧ (f b).Runs l' (some a) := by
  rcases hr.bind with h | ⟨-, h⟩
  · exact h
  · cases h

theorem Code.Runs.stmt_some {s : S} {tr : List (Did σ S)} {w : σ} (hr : (Code.stmt s).Runs tr (some w)) : tr = [.ran s w] := by
  rcases hr.stmt with ⟨w', rfl, h⟩ | ⟨-, h⟩
  · cases h
    rfl
  · cases h

/-- `p`, and then, however it ends, `f`. -/
def Code.andFinally (p : Code σ S α) (f : Code σ S Unit) : Code σ S α :=
  p.graft (fun a => f.graft (fun _ => .done a) .raise) (f.graft (fun _ => .raise) .raise)

theorem Code.Runs.andFinally_some {p : Code σ S α} {f : Code σ S Unit} {tr : List (Did σ S)} {a : α}
    (hr : (p.andFinally f).Runs tr (some a)) : ∃ l l', tr = l ++ l' ∧ p.Runs l (some a) ∧ f.Runs l' (some ()) := by
  obtain ⟨l, l', rfl, ⟨b, hp, hf⟩ | ⟨-, hf⟩⟩ := hr.graft
  · obtain ⟨m, m', rfl, ⟨_, hm, hb⟩ | ⟨-, hb⟩⟩ := hf.graft
    · cases hb
      exact ⟨l, m, by simp, hp, hm⟩
    · cases hb
  · obtain ⟨m, m', rfl, ⟨_, -, hb⟩ | ⟨-, hb⟩⟩ := hf.graft <;> cases hb

def Did.stmt : Did σ S → S
  | .ran s _ | .raised s => s

/-! ## Programs without loops -/

def Code.Loopless : {α : Type} → Code σ S α → Prop
  | _, .done _ | _, .raise => True
  | _, .act _ k h => (∀ w, Loopless (k w)) ∧ Loopless h
  | _, .loop _ _ _ => False

theorem Code.Loopless.graft {p : Code σ S β} {k : β → Code σ S α} {h : Code σ S α} (hp : p.Loopless) (hk : ∀ b, (k b).Loopless)
    (hh : h.Loopless) : (p.graft k h).Loopless := by
  induction p with
  | done b => exact hk b
  | raise => exact hh
  | act s f g ihf ihg => exact ⟨fun w => ihf w (hp.1 w) hk, ihg hp.2 hk⟩
  | loop => exact hp.elim

theorem Code.Loopless.bind {p : Code σ S β} {f : β → Code σ S α} (hp : p.Loopless) (hf : ∀ b, (f b).Loopless) : (p >>= f).Loopless :=
  hp.graft hf trivial

def Did.answer : Did σ S → Option σ
  | .ran _ w => some w
  | .raised _ => none

/-- Every statement is answered as the surroundings answer it after what was done before. -/
def Follows (env : List (Did σ S) → S → Option σ) : List (Did σ S) → List (Did σ S) → Prop
  | _, [] => True
  | past, d :: tr => d.answer = env past d.stmt ∧ Follows env (past ++ [d]) tr

/-- A program without loops ends, whatever its surroundings answer. -/
theorem Code.Loopless.finishes {p : Code σ S α} (hp : p.Loopless) (env : List (Did σ S) → S → Option σ) (past : List (Did σ S)) :
    ∃ tr r, p.Runs tr r ∧ Follows env past tr := by
  induction p generalizing past with
  | done a => exact ⟨[], some a, .done a, trivial⟩
  | raise => exact ⟨[], none, .raise, trivial⟩
  | act s k h ihk ihh =>
    cases ha : env past s with
    | some w =>
      obtain ⟨tr, r, hr, hf⟩ := ihk w (hp.1 w) (past ++ [.ran s w])
      exact ⟨_, r, .ran hr, ha.symm, hf⟩
    | none =>
      obtain ⟨tr, r, hr, hf⟩ := ihh hp.2 (past ++ [.raised s])
      exact ⟨_, r, .raised hr, ha.symm, hf⟩
  | loop => exact hp.elim

/-! ## Programs that finish -/

theorem Code.Runs.graft_some {p : Code σ S β} {k : β → Code σ S α} {h : Code σ S α} {l l' : List (Did σ S)} {b : β} {r : Option α}
    (hp : p.Runs l (some b)) (hk : (k b).Runs l' r) : (p.graft k h).Runs (l ++ l') r := by
  generalize hb : some b = o at hp
  induction hp with
  | done a =>
    cases hb
    exact hk
  | raise => cases hb
  | ran _ ih => exact .ran (ih hb)
  | raised _ ih => exact .raised (ih hb)
  | loop _ ih => exact .loop (again_graft ▸ ih hb)

theorem Code.Runs.graft_none {p : Code σ S β} {k : β → Code σ S α} {h : Code σ S α} {l l' : List (Did σ S)} {r : Option α}
    (hp : p.Runs l none) (hh : h.Runs l' r) : (p.graft k h).Runs (l ++ l') r := by
  generalize hb : none = o at hp
  induction hp with
  | done a => cases hb
  | raise => exact hh
  | ran _ ih => exact .ran (ih hb)
  | raised _ ih => exact .raised (ih hb)
  | loop _ ih => exact .loop (again_graft ▸ ih hb)

theorem follows_append {env : List (Did σ S) → S → Option σ} {past l l' : List (Did σ S)} :
    Follows env past (l ++ l') ↔ Follows env past l ∧ Follows env (past ++ l) l' := by
  induction l generalizing past with
  | nil => simp [Follows]
  | cons d l ih => simp only [List.cons_append, Follows, ih, and_assoc, List.append_assoc, List.nil_append]

/-- The run of a program in its surroundings, of at most `n` steps. -/
def Code.simulate (env : List (Did σ S) → S → Option σ) : Nat → List (Did σ S) → Code σ S α → Option (List (Did σ S) × Option α)
  | _, _, .done a => some ([], some a)
  | _, _, .raise => some ([], none)
  | 0, _, _ => none
  | n + 1, past, .act s k h =>
    match env past s with
    | some w => (simulate env n (past ++ [.ran s w]) (k w)).map fun x => (.ran s w :: x.1, x.2)
    | none => (simulate env n (past ++ [.raised s]) h).map fun x => (.raised s :: x.1, x.2)
  | n + 1, past, .loop b k h => simulate env n past (b.graft (again (.loop b k h) k) h)

theorem Code.runs_simulate {env : List (Did σ S) → S → Option σ} {n : Nat} {past : List (Did σ S)} {p : Code σ S α}
    {tr : List (Did σ S)} {r : Option α} (h : simulate env n past p = some (tr, r)) : p.Runs tr r ∧ Follows env past tr := by
  induction n generalizing past p tr r with
  | zero =>
    cases p with
    | done | raise =>
      cases h
      exact ⟨by constructor, trivial⟩
    | act | loop => cases h
  | succ n ih =>
    cases p with
    | done | raise =>
      cases h
      exact ⟨by constructor, trivial⟩
    | act s k g =>
      simp only [simulate] at h
      cases ha : env past s with
      | some w =>
        rw [ha] at h
        obtain ⟨⟨tr', r'⟩, hs, hx⟩ := Option.map_eq_some_iff.1 h
        cases hx
        exact ⟨.ran (ih hs).1, ha.symm, (ih hs).2⟩
      | none =>
        rw [ha] at h
        obtain ⟨⟨tr', r'⟩, hs, hx⟩ := Option.map_eq_some_iff.1 h
        cases hx
        exact ⟨.raised (ih hs).1, ha.symm, (ih hs).2⟩
    | loop b k g => exact ⟨.loop (ih h).1, (ih h).2⟩

section Finishes
variable {env : List (Did σ S) → S → Option σ}

/-- Whatever was done before, the program has a finished run as its surroundings answer. -/
def Code.Finishes (env : List (Did σ S) → S → Option σ) (p : Code σ S α) : Prop :=
  ∀ past, ∃ tr r, p.Runs tr r ∧ Follows env past tr

theorem Code.Finishes.graft {p : Code σ S β} {k : β → Code σ S α} {h : Code σ S α} (hp : p.Finishes env)
    (hk : ∀ b, (k b).Finishes env) (hh : h.Finishes env) : (p.graft k h).Finishes env := by
  intro past
  obtain ⟨l, o, hl, hfl⟩ := hp past
  cases o with
  | some b =>
    obtain ⟨l', r, hl', hfl'⟩ := hk b (past ++ l)
    exact ⟨_, r, hl.graft_some hl', follows_append.2 ⟨hfl, hfl'⟩⟩
  | none =>
    obtain ⟨l', r, hl', hfl'⟩ := hh (past ++ l)
    exact ⟨_, r, hl.graft_none hl', follows_append.2 ⟨hfl, hfl'⟩⟩

theorem Code.Finishes.raise : (.raise : Code σ S α).Finishes env := fun _ => ⟨[], none, .raise, trivial⟩

theorem Code.Finishes.done (a : α) : (.done a : Code σ S α).Finishes env := fun _ => ⟨[], some a, .done a, trivial⟩

theorem Code.Finishes.bind {p : Code σ S β} {f : β → Code σ S α} (hp : p.Finishes env) (hf : ∀ b, (f b).Finishes env) :
    (p >>= f).Finishes env :=
  hp.graft hf .raise

/-- A loop finishes when no pass goes on once `n` statements were done, and a pass that goes on does something. -/
theorem Code.Finishes.untilSome {body : Code σ S (Option α)} (hb : body.Finishes env) (n : Nat)
    (hstop : ∀ past tr, n ≤ past.length → body.Runs tr (some none) → ¬ Follows env past tr)
    (hgrow : ∀ tr, body.Runs tr (some none) → tr ≠ []) : (Code.untilSome body).Finishes env := by
  intro past
  induction hk : n - past.length using Nat.strongRecOn generalizing past with
  | ind k ih =>
    obtain ⟨l, o, hl, hfl⟩ := hb past
    rcases o with _ | _ | a
    · exact ⟨_, none, .loop (hl.graft_none .raise), by simpa using hfl⟩
    -- A pass that goes on: fewer statements are left before `n`.
    · have hlt : past.length < n := Nat.lt_of_not_le fun h => hstop past l h hl hfl
      have hpos : 0 < l.length := List.length_pos_of_ne_nil (hgrow l hl)
      obtain ⟨l', r, hl', hfl'⟩ := ih (n - (past ++ l).length) (by rw [List.length_append]; omega) (past ++ l) rfl
      exact ⟨_, r, .loop (hl.graft_some hl'), follows_append.2 ⟨hfl, hfl'⟩⟩
    · exact ⟨_, some a, .loop (hl.graft_some (.done a)), by simpa using hfl⟩

end Finishes

/-! ## Monitors -/

/-- What is to be known of a run: before it, and after each statement. -/
structure Monitor (σ S Φ : Type) where
  start : Φ
  ran : Φ → S → σ → Φ
  raised : Φ → S → Φ

namespace Monitor
variable (m : Monitor σ S Φ)

def step (φ : Φ) : Did σ S → Φ
  | .ran s w => m.ran φ s w
  | .raised s => m.raised φ s

/-- The state after all that was done. -/
def after (tr : List (Did σ S)) : Φ := tr.foldl m.step m.start

/-- Statements that may always answer, and answer anything. -/
def machine : Machine σ S Unit Unit where
  app _ w := some w
  spawns _ := none
  body _ := .done ()
  post _ _ := none
  env _ w := w
  killed w := w

def typestate : Typestate σ S Unit Φ where
  entry _ := m.start
  rule φ s w φ' := φ' = m.ran φ s w
  fault := m.raised
  rests _ := True
  mine _ _ := True
  mine_entry _ := trivial
  mine_rule _ _ := trivial
  mine_fault _ _ := trivial

/-- Remembers all that was done. -/
def history : Monitor σ S (List (Did σ S)) := ⟨[], fun tr s w => tr ++ [.ran s w], fun tr s => tr ++ [.raised s]⟩

theorem history_after (tr past : List (Did σ S)) : tr.foldl history.step past = past ++ tr := by
  induction tr generalizing past with
  | nil => simp
  | cons d tr ih =>
    rw [List.foldl_cons, ih, List.append_cons]
    cases d <;> rfl

end Monitor

variable {m : Monitor σ S Φ} {φ : Φ} {Q : α → Φ → Prop} {X : Φ → Prop}

/-- From state `φ`, every finished run of the program ends with `Q` of its result and
the state, or, if it ends with an exception, with `X` of the state. -/
abbrev Ends (m : Monitor σ S Φ) (p : Code σ S α) (φ : Φ) (Q : α → Φ → Prop) (X : Φ → Prop) : Prop :=
  Obeys Monitor.machine m.typestate p φ Q X

theorem Ends.act {s : S} {k : σ → Code σ S α} {h : Code σ S α} (hk : ∀ w, Ends m (k w) (m.ran φ s w) Q X)
    (hh : Ends m h (m.raised φ s) Q X) : Ends m (.act s k h) φ Q X :=
  ⟨fun w _ _ => ⟨_, rfl, hk w⟩, hh⟩

theorem Ends.bind {p : Code σ S β} {f : β → Code σ S α} (h : Ends m p φ (fun b ψ => Ends m (f b) ψ Q X) X) :
    Ends m (p >>= f) φ Q X :=
  Obeys.graft h

theorem Ends.andFinally {p : Code σ S α} {f : Code σ S Unit}
    (h : Ends m p φ (fun a ψ => Ends m f ψ (fun _ χ => Q a χ) X) fun ψ => Ends m f ψ (fun _ => X) X) :
    Ends m (p.andFinally f) φ Q X :=
  Obeys.graft (h.mono (fun _ _ hf => Obeys.graft (hf.mono (fun _ _ hq => hq) fun _ hx => hx))
    fun _ hf => Obeys.graft (hf.mono (fun _ _ hx => hx) fun _ hx => hx))

/-- A statement whose exception nothing handles. -/
theorem Ends.stmt {s : S} {Q : σ → Φ → Prop} (hq : ∀ w, Q w (m.ran φ s w)) (hx : X (m.raised φ s)) : Ends m (stmt s) φ Q X :=
  Ends.act hq hx

theorem Code.Runs.ends {p : Code σ S α} {tr : List (Did σ S)} {r : Option α} (hr : p.Runs tr r) (h : Ends m p φ Q X) :
    (∀ a, r = some a → Q a (tr.foldl m.step φ)) ∧ (r = none → X (tr.foldl m.step φ)) := by
  induction hr generalizing φ with
  | done a =>
    refine ⟨fun b hb => ?_, fun hb => by cases hb⟩
    obtain rfl := Option.some.inj hb
    exact h
  | raise => exact ⟨fun _ hb => (by cases hb), fun _ => h⟩
  | ran _ ih =>
    obtain ⟨_, rfl, hk⟩ := h.1 _ _ rfl
    exact ih hk
  | raised _ ih => exact ih h.2
  | loop _ ih =>
    obtain ⟨I, hi, hb⟩ := h
    refine ih (Obeys.graft ((hb φ hi).mono ?_ fun _ hx => hx))
    intro o χ ho
    cases o with
    | none => exact ⟨I, ho.1 rfl, hb⟩
    | some x => exact ho.2 x rfl

/-- Runs statements of `N`, each of whose exceptions ends it. -/
def Code.Plain (N : S → Prop) : {α : Type} → Code σ S α → Prop
  | _, .done _ => True
  | _, .raise => False
  | _, .act s k h => N s ∧ (∀ w, Plain N (k w)) ∧ h = .raise
  | _, .loop b k h => Plain N b ∧ (∀ x, Plain N (k x)) ∧ h = .raise

theorem Code.Plain.bind {N : S → Prop} {p : Code σ S β} {f : β → Code σ S α} (hp : p.Plain N) (hf : ∀ b, (f b).Plain N) :
    (p >>= f).Plain N := by
  induction p with
  | done b => exact hf b
  | raise => exact hp.elim
  | act s k h ihk _ =>
    obtain ⟨hs, hk, rfl⟩ := hp
    exact ⟨hs, fun w => ihk w (hk w) hf, rfl⟩
  | loop b k h _ ihk _ =>
    obtain ⟨hb, hk, rfl⟩ := hp
    exact ⟨hb, fun x => ihk x (hk x) hf, rfl⟩

/-- Where every statement answers, such a program does not end with an exception. -/
theorem Code.Plain.returns {N : S → Prop} {p : Code σ S α} {env : List (Did σ S) → S → Option σ} {past tr : List (Did σ S)}
    {r : Option α} (hp : p.Plain N) (hr : p.Runs tr r) (henv : ∀ past s, env past s ≠ none) (hf : Follows env past tr) :
    ∃ a, r = some a := by
  induction hr generalizing past with
  | done a => exact ⟨a, rfl⟩
  | raise => exact hp.elim
  | ran _ ih => exact ih (hp.2.1 _) hf.2
  | raised _ _ => exact absurd hf.1.symm (henv _ _)
  | @loop _ _ b k h _ _ ih =>
    obtain ⟨hb, hk, rfl⟩ := hp
    refine ih (hb.bind fun o => ?_) hf
    cases o with
    | none => exact ⟨hb, hk, rfl⟩
    | some x => exact hk x

theorem Code.Plain.within {N N' : S → Prop} {p : Code σ S α} (hp : p.Plain N) (h : ∀ s, N s → N' s) : p.Within N' := by
  induction p with
  | done => trivial
  | raise => trivial
  | act s k g ihk _ =>
    obtain ⟨hs, hk, rfl⟩ := hp
    exact ⟨h s hs, fun w => ihk w (hk w), trivial⟩
  | loop b k g ihb ihk _ =>
    obtain ⟨hb, hk, rfl⟩ := hp
    exact ⟨ihb hb, fun x => ihk x (hk x), trivial⟩

/-- A program of statements that leave the state as it is, and end the run well if they raise. -/
theorem Code.Plain.ends {N : S → Prop} {p : Code σ S α} (hp : p.Plain N) (hr : ∀ s w, N s → m.ran φ s w = φ)
    (hx : ∀ s, N s → X (m.raised φ s)) (hq : ∀ a, Q a φ) : Ends m p φ Q X := by
  induction p generalizing X with
  | done a => exact hq a
  | raise => exact hp.elim
  | act s k h ihk _ =>
    obtain ⟨hs, hk, rfl⟩ := hp
    refine Ends.act (fun w => ?_) (hx s hs)
    rw [hr s w hs]
    exact ihk w (hk w) hx hq
  | loop b k h ihb ihk _ =>
    obtain ⟨hb, hk, rfl⟩ := hp
    refine ⟨(· = φ), rfl, ?_⟩
    rintro _ rfl
    exact ihb hb hx fun o => ⟨fun _ => rfl, fun x _ => ihk x (hk x) hx hq⟩

theorem Code.Within.andFinally {N : S → Prop} {p : Code σ S α} {f : Code σ S Unit} (hp : p.Within N) (hf : f.Within N) :
    (p.andFinally f).Within N :=
  hp.graft (fun _ => hf.graft (fun _ => trivial) trivial) (hf.graft (fun _ => trivial) trivial)

/-- What every statement of a program keeps, the program keeps, whatever it handles. -/
theorem Code.Within.ends {N : S → Prop} {I : Φ → Prop} {p : Code σ S α} (hp : p.Within N) (hr : ∀ φ s w, I φ → N s → I (m.ran φ s w))
    (hx : ∀ φ s, I φ → N s → I (m.raised φ s)) (hφ : I φ) : Ends m p φ (fun _ => I) I := by
  induction p generalizing φ with
  | done => exact hφ
  | raise => exact hφ
  | act s k h ihk ihh => exact Ends.act (fun w => ihk w (hp.2.1 w) (hr φ s w hφ hp.1)) (ihh hp.2.2 (hx φ s hφ hp.1))
  | loop b k h ihb ihk ihh =>
    refine ⟨I, hφ, fun ψ hψ => (ihb hp.1 hψ).mono ?_ ?_⟩
    · exact fun o χ hχ => ⟨fun _ => hχ, fun x _ => ihk x (hp.2.1 x) hχ⟩
    · exact fun χ hχ => ihh hp.2.2 hχ

/-- A run does only what its program may do. -/
theorem Code.Runs.within {N : S → Prop} {p : Code σ S α} {tr : List (Did σ S)} {r : Option α} (hr : p.Runs tr r) (hp : p.Within N) :
    ∀ d ∈ tr, N d.stmt := by
  have hall : Ends Monitor.history p [] (fun _ l => ∀ d ∈ l, N d.stmt) fun l => ∀ d ∈ l, N d.stmt := by
    refine hp.ends (I := fun l : List (Did σ S) => ∀ d ∈ l, N d.stmt) (fun l s w hl hs => ?_) (fun l s hl hs => ?_) (fun _ h => by cases h)
    · exact List.forall_mem_append.2 ⟨hl, fun d hd => by rw [List.mem_singleton.1 hd]; exact hs⟩
    · exact List.forall_mem_append.2 ⟨hl, fun d hd => by rw [List.mem_singleton.1 hd]; exact hs⟩
  obtain ⟨hq, hx⟩ := hr.ends hall
  rw [Monitor.history_after, List.nil_append] at hq hx
  cases r with
  | none => exact hx rfl
  | some a => exact hq a rfl

/-! ## What follows what -/

section First
variable {P : D → Prop} {a a' b b' c c' : List D} {d d' u u' : D}

/-- The first of a kind is one. -/
theorem first_unique (h : a ++ d :: b = a' ++ d' :: b') (ha : ∀ x ∈ a, ¬ P x) (ha' : ∀ x ∈ a', ¬ P x) (hd : P d) (hd' : P d') :
    a = a' ∧ d = d' ∧ b = b' := by
  induction a generalizing a' with
  | nil =>
    cases a' with
    | nil =>
      cases h
      exact ⟨rfl, rfl, rfl⟩
    | cons x a' =>
      cases h
      exact absurd hd (ha' d (by simp))
  | cons x a ih =>
    cases a' with
    | nil =>
      cases h
      exact absurd hd' (ha d' (by simp))
    | cons y a' =>
      injection h with hx h
      obtain ⟨rfl, rfl, rfl⟩ := ih h (fun z hz => ha z (by simp [hz])) fun z hz => ha' z (by simp [hz])
      exact ⟨by rw [hx], rfl, rfl⟩

/-- Of two of a kind, any two of the kind are those. -/
theorem none_of_two (h : a ++ d :: (b ++ u :: c) = a' ++ d' :: (b' ++ u' :: c')) (ha : ∀ x ∈ a, ¬ P x) (hb : ∀ x ∈ b, ¬ P x)
    (hc : ∀ x ∈ c, ¬ P x) (hd : P d') (hu : P u') : (∀ x ∈ a', ¬ P x) ∧ ∀ x ∈ b', ¬ P x := by
  classical
  have hnone : ∀ l : List D, (∀ x ∈ l, ¬ P x) ↔ l.countP (decide <| P ·) = 0 := fun l => by simp [List.countP_eq_zero]
  have hcount := congrArg (List.countP (decide <| P ·)) h
  rw [hnone] at ha hb hc ⊢
  rw [hnone]
  simp only [List.countP_append, List.countP_cons, ha, hb, hc, hd, hu, decide_true, if_true] at hcount
  split at hcount <;> split at hcount <;> omega

/-- The first two of a kind are two. -/
theorem first_two_unique (h : a ++ d :: (b ++ u :: c) = a' ++ d' :: (b' ++ u' :: c')) (ha : ∀ x ∈ a, ¬ P x) (hb : ∀ x ∈ b, ¬ P x)
    (hc : ∀ x ∈ c, ¬ P x) (hd : P d) (hu : P u) (hd' : P d') (hu' : P u') : a = a' ∧ d = d' ∧ b = b' ∧ u = u' ∧ c = c' := by
  obtain ⟨ha', hb'⟩ := none_of_two h ha hb hc hd' hu'
  obtain ⟨rfl, rfl, hrest⟩ := first_unique h ha ha' hd hd'
  obtain ⟨rfl, rfl, rfl⟩ := first_unique hrest hb hb' hu hu'
  exact ⟨rfl, rfl, rfl, rfl, rfl⟩

end First

section Answered
variable [DecidableEq F] (opens closes : D → Option F)

/-- Whatever is opened is closed later. -/
def Answered (tr : List D) : Prop := ∀ a d b f, tr = a ++ d :: b → opens d = some f → ∃ u ∈ b, closes u = some f

/-- What is still open after `d`. -/
def pending (l : List F) (d : D) : List F := (opens d).toList ++ l.filter (closes d ≠ some ·)

variable {opens closes} {l : List F} {d : D} {f : F}

theorem pending_none (ho : opens d = none) (hc : closes d = none) : pending opens closes l d = l := by
  simp [pending, ho, hc]

theorem pending_open (ho : opens d = some f) (hc : closes d = none) : pending opens closes l d = f :: l := by
  simp [pending, ho, hc]

theorem pending_close (ho : opens d = none) (hc : closes d = some f) : pending opens closes l d = l.filter (· ≠ f) := by
  simp [pending, ho, hc, eq_comm]

theorem mem_pending {l : List F} {tr : List D} {f : F} : f ∈ tr.foldl (pending opens closes) l ↔
    (f ∈ l ∧ ∀ u ∈ tr, closes u ≠ some f) ∨ ∃ a d b, tr = a ++ d :: b ∧ opens d = some f ∧ ∀ u ∈ b, closes u ≠ some f := by
  induction tr generalizing l with
  | nil => simp
  | cons d tr ih =>
    rw [List.foldl_cons, ih]
    have hsplit : (∃ a d' b, d :: tr = a ++ d' :: b ∧ opens d' = some f ∧ ∀ u ∈ b, closes u ≠ some f) ↔
        (opens d = some f ∧ ∀ u ∈ tr, closes u ≠ some f) ∨
          ∃ a d' b, tr = a ++ d' :: b ∧ opens d' = some f ∧ ∀ u ∈ b, closes u ≠ some f := by
      constructor
      · rintro ⟨_ | ⟨x, a⟩, d', b, he, ho, hc⟩
        · cases he
          exact .inl ⟨ho, hc⟩
        · cases he
          exact .inr ⟨a, d', b, rfl, ho, hc⟩
      · rintro (⟨ho, hc⟩ | ⟨a, d', b, rfl, ho, hc⟩)
        · exact ⟨[], d, tr, rfl, ho, hc⟩
        · exact ⟨d :: a, d', b, rfl, ho, hc⟩
    rw [hsplit]
    simp only [pending, List.mem_append, Option.mem_toList, List.mem_filter, decide_eq_true_eq, List.forall_mem_cons]
    rw [or_and_right, and_assoc, or_assoc, or_left_comm]

theorem answered_iff {tr : List D} : Answered opens closes tr ↔ tr.foldl (pending opens closes) [] = [] := by
  rw [List.eq_nil_iff_forall_not_mem]
  simp only [mem_pending, List.not_mem_nil, false_and, false_or]
  constructor
  · rintro h f ⟨a, d, b, he, ho, hc⟩
    obtain ⟨u, hu, hcu⟩ := h a d b f he ho
    exact hc u hu hcu
  · intro h a d b f he ho
    by_contra hn
    exact h f ⟨a, d, b, he, ho, fun u hu hcu => hn ⟨u, hu, hcu⟩⟩

instance (tr : List D) : Decidable (Answered opens closes tr) := decidable_of_iff _ answered_iff.symm

end Answered

section Preceded
variable (needs gives : D → Option F)

/-- Whatever is needed is given before. -/
def Preceded (tr : List D) : Prop := ∀ a d b f, tr = a ++ d :: b → needs d = some f → ∃ u ∈ a, gives u = some f

variable {needs gives} {tr : List D} {d : D}

theorem preceded_nil : Preceded needs gives [] := fun a d b _ h => by cases a <;> cases h

theorem Preceded.snoc (h : Preceded needs gives tr) (hd : ∀ f, needs d = some f → ∃ u ∈ tr, gives u = some f) :
    Preceded needs gives (tr ++ [d]) := by
  intro a e b f he hn
  rcases List.eq_nil_or_concat b with rfl | ⟨b, x, rfl⟩
  · obtain ⟨rfl, hde⟩ := List.append_inj' he rfl
    obtain rfl : d = e := by simpa using hde
    exact hd f hn
  · rw [List.concat_eq_append, ← List.cons_append, ← List.append_assoc] at he
    exact h a e b f (List.append_inj' he rfl).1 hn

end Preceded

section Occurs
variable (P Q : D → Bool)

/-- Something of `Q` is done when something of `P` has been done before (`b`), or has not. -/
def Occurs (b : Bool) (tr : List D) : Prop := ∃ x d y, tr = x ++ d :: y ∧ x.any P = b ∧ Q d = true

/-- Whether `P` has been done, and whether `Q` has occurred. -/
def saw (b : Bool) (s : Bool × Bool) (d : D) : Bool × Bool := (s.1 || P d, s.2 || (s.1 == b && Q d))

variable {P Q}

theorem saw_foldl {b : Bool} {s : Bool × Bool} {tr : List D} : (tr.foldl (saw P Q b) s).2 = true ↔
    s.2 = true ∨ ∃ x d y, tr = x ++ d :: y ∧ (s.1 || x.any P) = b ∧ Q d = true := by
  induction tr generalizing s with
  | nil => simp
  | cons d tr ih =>
    rw [List.foldl_cons, ih]
    have hsplit : (∃ x d' y, d :: tr = x ++ d' :: y ∧ (s.1 || x.any P) = b ∧ Q d' = true) ↔
        (s.1 = b ∧ Q d = true) ∨ ∃ x d' y, tr = x ++ d' :: y ∧ (s.1 || P d || x.any P) = b ∧ Q d' = true := by
      constructor
      · rintro ⟨_ | ⟨z, x⟩, d', y, he, hp, hq⟩
        · cases he
          exact .inl ⟨by simpa using hp, hq⟩
        · cases he
          exact .inr ⟨x, d', y, rfl, by simpa [Bool.or_assoc] using hp, hq⟩
      · rintro (⟨hp, hq⟩ | ⟨x, d', y, rfl, hp, hq⟩)
        · exact ⟨[], d, tr, rfl, by simpa using hp, hq⟩
        · exact ⟨d :: x, d', y, rfl, by simpa [Bool.or_assoc] using hp, hq⟩
    rw [hsplit]
    simp only [saw, Bool.or_eq_true, Bool.and_eq_true, beq_iff_eq, or_assoc]

theorem occurs_iff {b : Bool} {tr : List D} : Occurs P Q b tr ↔ (tr.foldl (saw P Q b) (false, false)).2 = true := by
  simp [saw_foldl, Occurs]

instance (b : Bool) (tr : List D) : Decidable (Occurs P Q b tr) := decidable_of_iff _ occurs_iff.symm

end Occurs

end Threads
