import Mathlib.Logic.Basic
/-!
# Scripts

A script takes one step after the other on a world. What comes of a step is not up to it: it is
done, or it fails, with or without having taken effect, or the script ends with it. Each step
is taken at most once in a run, so that a run is given by what would come of each.

`Triple` is about both ways a script ends: with a result, or before it has one. `Quiet` scripts
leave the world as it is.
-/
namespace Scripts

variable {T R W α β : Type}

/-- What comes of a step. -/
inductive Outcome (R : Type) where
  | ok (reply : R)
  | failed (effective : Bool) (reply : R)
  | stopped (effective : Bool)

/-- The step takes effect. -/
def Outcome.takes : Outcome R → Bool
  | .ok _ => true
  | .failed e _ | .stopped e => e

/-- The script goes on after it. -/
def Outcome.goesOn : Outcome R → Bool
  | .stopped _ => false
  | _ => true

/-- What a script sees of a step. -/
structure Result (R : Type) where
  ok : Bool
  reply : R

def Script (T R W α : Type) := (T → Outcome R) → W → Option α × W

instance : Monad (Script T R W) where
  pure a := fun _ w => (some a, w)
  bind p k := fun env w => match p env w with
    | (some a, w') => k a env w'
    | (none, w') => (none, w')

def step (s : T) (effect : W → W) : Script T R W (Result R) := fun env w =>
  match env s with
  | .ok r => (some ⟨true, r⟩, effect w)
  | .failed e r => (some ⟨false, r⟩, if e then effect w else w)
  | .stopped e => (none, if e then effect w else w)

/-- A step that changes nothing. -/
def look (s : T) : Script T R W (Result R) := step s id

def abort : Script T R W α := fun _ w => (none, w)

def world : Script T R W W := fun _ w => (some w, w)

def check (c : Prop) [Decidable c] : Script T R W Unit := if c then pure () else abort

section Triple
variable {env : T → Outcome R} {w : W} {Q : α → W → Prop} {X : W → Prop}

/-- Started in `w`, the script has a result as `Q` says, or ends without one as `X` says. -/
def Triple (env : T → Outcome R) (w : W) (p : Script T R W α) (Q : α → W → Prop) (X : W → Prop) : Prop :=
  match p env w with
  | (some a, w') => Q a w'
  | (none, w') => X w'

theorem Triple.pure {a : α} (h : Q a w) : Triple env w (pure a) Q X := h

theorem Triple.abort (h : X w) : Triple env w abort Q X := h

theorem Triple.mono {p : Script T R W α} {Q' : α → W → Prop} {X' : W → Prop} (h : Triple env w p Q X) (hq : ∀ a w', Q a w' → Q' a w')
    (hx : ∀ w', X w' → X' w') : Triple env w p Q' X' := by
  unfold Triple at *
  split at h
  · exact hq _ _ h
  · exact hx _ h

theorem Triple.bind {p : Script T R W β} {k : β → Script T R W α} {P : β → W → Prop} (hp : Triple env w p P X)
    (hk : ∀ b w', P b w' → Triple env w' (k b) Q X) : Triple env w (p >>= k) Q X := by
  unfold Triple at *
  show match (match p env w with | (some a, w') => k a env w' | (none, w') => (none, w')) with
    | (some a, w') => Q a w'
    | (none, w') => X w'
  split at hp
  · exact hk _ _ hp
  · exact hp

/-- A step that is seen to be done has taken effect; another one may have. -/
theorem Triple.step {s : T} {effect : W → W} {Q : Result R → W → Prop}
    (hgo : (env s).goesOn = true → ∀ r : Result R, (r.ok = true → (env s).takes = true) → Q r (if (env s).takes then effect w else w))
    (hstop : (env s).goesOn = false → X (if (env s).takes then effect w else w)) : Triple env w (step s effect) Q X := by
  unfold Triple Scripts.step
  cases hs : env s with
  | ok r =>
    rw [hs] at hgo
    exact hgo rfl ⟨true, r⟩ fun _ => rfl
  | failed e r =>
    rw [hs] at hgo
    exact hgo rfl ⟨false, r⟩ nofun
  | stopped e =>
    rw [hs] at hstop
    exact hstop rfl

theorem Triple.look {s : T} {Q : Result R → W → Prop} (hgo : ∀ r, Q r w) (hstop : X w) : Triple env w (look s) Q X :=
  Triple.step (fun _ r _ => by simpa using hgo r) fun _ => by simpa using hstop

theorem Triple.world {Q : W → W → Prop} (h : Q w w) : Triple env w world Q X := h

theorem Triple.check {c : Prop} [Decidable c] {Q : Unit → W → Prop} (hq : c → Q () w) (hx : ¬ c → X w) :
    Triple env w (check c) Q X := by
  unfold Scripts.check
  split
  · rename_i hc
    exact hq hc
  · rename_i hc
    exact hx hc

/-! The same, with the rest of the script. -/

theorem Triple.look_bind {s : T} {k : Result R → Script T R W α} (hk : ∀ r, Triple env w (k r) Q X) (hx : X w) :
    Triple env w (Scripts.look s >>= k) Q X := by
  refine Triple.bind (P := fun _ w' => w' = w) (Triple.look (fun _ => rfl) hx) ?_
  rintro r _ rfl
  exact hk r

theorem Triple.check_bind {c : Prop} [Decidable c] {k : Unit → Script T R W α} (hk : c → Triple env w (k ()) Q X) (hx : ¬ c → X w) :
    Triple env w (Scripts.check c >>= k) Q X := by
  refine Triple.bind (P := fun _ w' => w' = w ∧ c) (Triple.check (fun hc => ⟨rfl, hc⟩) hx) ?_
  rintro _ _ ⟨rfl, hc⟩
  exact hk hc

theorem Triple.world_bind {k : W → Script T R W α} (hk : Triple env w (k w) Q X) : Triple env w (Scripts.world >>= k) Q X := hk

/-- A step of which all that matters holds whether it takes effect or not. -/
theorem Triple.either {s : T} {effect : W → W} {I : W → Prop} (hdone : I (effect w)) (hnot : I w) (hx : ∀ w', I w' → X w') :
    Triple env w (Scripts.step s effect) (fun _ => I) X := by
  have hI : I (if (env s).takes then effect w else w) := by
    split
    · exact hdone
    · exact hnot
  exact Triple.step (fun _ _ _ => hI) fun _ => hx _ hI

/-- What holds either way holds at the end. -/
theorem Triple.last {p : Script T R W α} {I : W → Prop} (h : Triple env w p (fun _ => I) I) : I (p env w).2 := by
  unfold Triple at h
  split at h
  · rename_i hrun
    rw [hrun]
    exact h
  · rename_i hrun
    rw [hrun]
    exact h

end Triple

/-! ## Scripts that change nothing -/

def Quiet (p : Script T R W α) : Prop := ∀ env w, (p env w).2 = w

theorem Quiet.pure (a : α) : Quiet (pure a : Script T R W α) := fun _ _ => rfl

theorem Quiet.abort : Quiet (abort : Script T R W α) := fun _ _ => rfl

theorem Quiet.look (s : T) : Quiet (look s : Script T R W (Result R)) := by
  intro env w
  unfold Scripts.look step
  cases env s <;> simp

theorem Quiet.check (c : Prop) [Decidable c] : Quiet (check c : Script T R W Unit) := by
  unfold Scripts.check
  split
  · exact .pure ()
  · exact .abort

theorem Quiet.ite {c : Prop} [Decidable c] {p q : Script T R W α} (hp : Quiet p) (hq : Quiet q) : Quiet (if c then p else q) := by
  split
  · exact hp
  · exact hq

/-- A quiet script has a result or not, and the world is as it was. -/
theorem Quiet.triple {p : Script T R W α} (h : Quiet p) (env : T → Outcome R) (w : W) :
    Triple env w p (fun a w' => w' = w ∧ (p env w).1 = some a) fun w' => w' = w ∧ (p env w).1 = none := by
  have hw := h env w
  unfold Triple
  rcases hrun : p env w with ⟨_ | a, w'⟩
  · rw [hrun] at hw
    exact ⟨hw, rfl⟩
  · rw [hrun] at hw
    exact ⟨hw, rfl⟩

theorem Quiet.bind {p : Script T R W β} {k : β → Script T R W α} (hp : Quiet p) (hk : ∀ b, Quiet (k b)) : Quiet (p >>= k) := by
  intro env w
  refine Triple.last (I := fun w' => w' = w) (Triple.bind ((hp.triple env w).mono (fun _ _ h => h.1) fun _ h => h.1) ?_)
  rintro b _ rfl
  exact ((hk b).triple env _).mono (fun _ _ h => h.1) fun _ h => h.1

end Scripts
