import Wardence.Lib.Fleet
/-!
# Two clients on one cell

A client reads a cell, and later writes what it computed from it, with nothing
to keep another client out in between. `Cells` is that race with the programs
taken away: two writers, each holding what it read. `Cells.schedule_cases` is
all a schedule can lead to, a serial order or one write over the other, and
`runs_cells` carries it over to a fleet of two.
-/
namespace Txn

open Client

variable {σ S ε ρ : Type}

/-! ## Without programs -/

/-- What a client writes, having read `r`; `none` when it writes nothing. -/
abbrev Writer (ρ : Type) := ρ → Option ρ

/-- The cell after a client that runs alone. -/
def Writer.alone (w : Writer ρ) (r : ρ) : ρ := (w r).getD r

/-- The cell after `w₁`, then `w₂`. -/
def serial (w₁ w₂ : Writer ρ) (r : ρ) : ρ := w₂.alone (w₁.alone r)

/-- The cell after both read it, `w₁` wrote, and `w₂` wrote last. -/
def clobbered (w₁ w₂ : Writer ρ) (r : ρ) : ρ := (w₂ r).getD (w₁.alone r)

/-- Where a client is: before its read, between read and write with the value
it is about to write, or past its write. -/
inductive Phase (ρ : Type) where
  | ready (w : Writer ρ)
  | holding (r : ρ)
  | finished

structure Cells (ρ : Type) where
  val : ρ
  phase : Bool → Phase ρ

namespace Cells

def start (r : ρ) (w : Bool → Writer ρ) : Cells ρ := ⟨r, fun b => .ready (w b)⟩

def move (s : Cells ρ) (b : Bool) : Cells ρ :=
  match s.phase b with
  | .ready w =>
    match w s.val with
    | some r => { s with phase := Function.update s.phase b (.holding r) }
    | none => { s with phase := Function.update s.phase b .finished }
  | .holding r => ⟨r, Function.update s.phase b .finished⟩
  | .finished => s

def runs (s : Cells ρ) (sched : List Bool) : Cells ρ := sched.foldl move s

/-- A client with nothing left to write, whatever it reads. -/
def Spent : Phase ρ → Prop
  | .ready w => ∀ r, w r = none
  | .holding _ => False
  | .finished => True

/-- What the cell is once the client is through. -/
def settle : Phase ρ → ρ → ρ
  | .ready w, r => w.alone r
  | .holding r', _ => r'
  | .finished, r => r

theorem settle_of_spent {p : Phase ρ} (h : Spent p) (r : ρ) : settle p r = r := by
  cases p with
  | ready w => simp [settle, Writer.alone, h r]
  | holding r' => exact h.elim
  | finished => rfl

@[simp] theorem update_not (f : Bool → Phase ρ) (b : Bool) (p : Phase ρ) :
    Function.update f b p (!b) = f (!b) := Function.update_of_ne (by cases b <;> decide) _ _

@[simp] theorem update_not' (f : Bool → Phase ρ) (b : Bool) (p : Phase ρ) :
    Function.update f (!b) p b = f b := Function.update_of_ne (by cases b <;> decide) _ _

/-- One client's move changes only its own phase, and settles what it settles. -/
theorem move_spec (s : Cells ρ) (b : Bool) :
    (s.move b).phase (!b) = s.phase (!b) ∧
      settle ((s.move b).phase b) (s.move b).val = settle (s.phase b) s.val := by
  unfold move
  cases hp : s.phase b with
  | ready w => cases hw : w s.val <;> simp [settle, Writer.alone, hw]
  | holding r => simp [settle]
  | finished => simp [settle, hp]

theorem move_finished {s : Cells ρ} {b : Bool} (h : s.phase b = .finished) : s.move b = s := by
  unfold move
  rw [h]

/-- When one client is through, the other settles the cell. -/
theorem runs_settle {s : Cells ρ} {b : Bool} (h : s.phase b = .finished) (sched : List Bool)
    (hs : Spent ((s.runs sched).phase (!b))) : (s.runs sched).val = settle (s.phase (!b)) s.val := by
  induction sched generalizing s with
  | nil => exact (settle_of_spent hs _).symm
  | cons d sched ih =>
    simp only [runs, List.foldl_cons] at ih hs ⊢
    by_cases hd : d = b
    · subst hd
      rw [move_finished h] at hs ⊢
      exact ih h hs
    · obtain rfl : d = !b := Bool.eq_not.2 hd
      obtain ⟨h1, h2⟩ := s.move_spec (!b)
      rw [Bool.not_not] at h1
      rw [ih (h1.trans h) hs, h2]

/-- The move after its read takes a client past its write. -/
theorem move_second {s : Cells ρ} {b : Bool} (h : ∀ w, s.phase b ≠ .ready w) : (s.move b).phase b = .finished := by
  unfold move
  cases hp : s.phase b with
  | ready w => exact absurd hp (h w)
  | holding r => simp
  | finished => exact hp

/-- A client that has moved has read. -/
theorem move_read (s : Cells ρ) (b : Bool) (w : Writer ρ) : (s.move b).phase b ≠ .ready w := by
  unfold move
  cases hp : s.phase b with
  | ready w' => cases hw : w' s.val <;> simp [hw]
  | holding r => simp
  | finished => simp [hp]

/-- Both clients read before either wrote. -/
def Overlaps : List Bool → Prop
  | b :: d :: _ => d = !b
  | _ => False

instance : (sched : List Bool) → Decidable (Overlaps sched)
  | [] => inferInstanceAs (Decidable False)
  | [_] => inferInstanceAs (Decidable False)
  | b :: d :: _ => inferInstanceAs (Decidable (d = !b))

/-- Of two clients that overlap, the one that writes first. -/
def firstWriter (sched : List Bool) : Bool := (sched.drop 2).headD false

/-- What a client holds after its read. -/
def held : Option ρ → Phase ρ
  | some r => .holding r
  | none => .finished

theorem held_ne_ready (o : Option ρ) (w : Writer ρ) : held o ≠ .ready w := by cases o <;> simp [held]

theorem settle_held (o : Option ρ) (r : ρ) : settle (held o) r = o.getD r := by cases o <;> rfl

theorem spent_held {o : Option ρ} (h : Spent (held o)) : o = none := by
  cases o with
  | none => rfl
  | some r => exact h.elim

/-- A client's first move reads the cell and leaves it alone. -/
theorem move_first {s : Cells ρ} {b : Bool} {w : Writer ρ} (h : s.phase b = .ready w) :
    s.move b = ⟨s.val, Function.update s.phase b (held (w s.val))⟩ := by
  unfold move
  rw [h]
  simp only
  cases w s.val <;> rfl

/-- After both have read, each holds what it would write and nothing is written. -/
theorem both_read (r : ρ) (w : Bool → Writer ρ) (b : Bool) :
    ((start r w).move b).move (!b) = ⟨r, fun c => held (w c r)⟩ := by
  have h1 := move_first (s := start r w) (b := b) rfl
  have h2 : ((start r w).move b).phase (!b) = .ready (w (!b)) := by rw [h1]; exact update_not _ _ _
  rw [move_first h2, h1]
  congr 1
  funext c
  by_cases hc : c = b
  · subst hc; simp [start]
  · obtain rfl : c = !b := Bool.eq_not.2 hc
    simp [start]

/-- From there, whoever moves next writes first. -/
theorem finish_overlapped (r : ρ) (w : Bool → Writer ρ) (rest : List Bool)
    (hs : ∀ b, Spent ((runs ⟨r, fun c => held (w c r)⟩ rest).phase b)) :
    (runs ⟨r, fun c => held (w c r)⟩ rest).val =
      clobbered (w (rest.headD false)) (w (!rest.headD false)) r := by
  cases rest with
  | nil =>
    have h0 : ∀ c, w c r = none := fun c => spent_held (hs c)
    simp [runs, clobbered, Writer.alone, h0]
  | cons x rest =>
    have hover := move_second (s := ⟨r, fun c => held (w c r)⟩) (b := x) (fun w' => held_ne_ready _ w')
    have hspec := move_spec ⟨r, fun c => held (w c r)⟩ x
    have hval : (move ⟨r, fun c => held (w c r)⟩ x).val = (w x).alone r := by
      have := hspec.2
      rwa [hover, settle_held] at this
    have := runs_settle hover rest (hs (!x))
    rw [hspec.1, hval, settle_held] at this
    exact this

/-- A client that moves twice in a row is through before the other begins. -/
theorem finish_serial (r : ρ) (w : Bool → Writer ρ) (b : Bool) (rest : List Bool)
    (hs : ∀ d, Spent (((start r w).runs (b :: b :: rest)).phase d)) :
    ((start r w).runs (b :: b :: rest)).val = serial (w b) (w (!b)) r := by
  have h1 := (start r w).move_spec b
  have h2 := ((start r w).move b).move_spec b
  have hover := move_second ((start r w).move_read b)
  have hval : (((start r w).move b).move b).val = (w b).alone r := by
    have := h2.2
    rwa [h1.2, hover] at this
  have := runs_settle hover rest (hs (!b))
  rw [h2.1, h1.1, hval] at this
  exact this

/-- All a finished schedule can lead to: if the clients overlap, the last writer
overwrites the first; if not, they are serial. -/
theorem schedule_cases (r : ρ) (w : Bool → Writer ρ) (sched : List Bool)
    (hs : ∀ b, Spent (((start r w).runs sched).phase b)) :
    (Overlaps sched → ((start r w).runs sched).val =
      clobbered (w (firstWriter sched)) (w (!firstWriter sched)) r) ∧
    (¬ Overlaps sched → ∃ b, ((start r w).runs sched).val = serial (w b) (w (!b)) r) := by
  match sched with
  | [] =>
    have h0 : ∀ b, w b r = none := fun b => hs b r
    exact ⟨fun h => h.elim, fun _ => ⟨false, by simp [serial, Writer.alone, runs, start, h0]⟩⟩
  -- One move: the other client has none to make.
  | [b] =>
    refine ⟨fun h => h.elim, fun _ => ⟨b, ?_⟩⟩
    have h1 := (start r w).move_spec b
    have hother : ∀ x, w (!b) x = none := by
      have h := hs (!b)
      change Spent (((start r w).move b).phase (!b)) at h
      rw [h1.1] at h
      exact h
    have hval := settle_of_spent (hs b) ((start r w).move b).val
    rw [show ((start r w).runs [b]).val = ((start r w).move b).val from rfl, ← hval]
    refine h1.2.trans ?_
    simp [settle, start, serial, Writer.alone, hother]
  | b :: d :: rest =>
    by_cases hd : d = !b
    -- Both read before either writes.
    · subst hd
      refine ⟨fun _ => ?_, fun h => absurd rfl h⟩
      have hruns : (start r w).runs (b :: (!b) :: rest) = runs ⟨r, fun c => held (w c r)⟩ rest := by
        rw [← both_read r w b]; rfl
      rw [hruns] at hs ⊢
      exact finish_overlapped r w rest hs
    · obtain rfl : d = b := not_not.1 fun h => hd (Bool.eq_not.2 h)
      exact ⟨fun h => absurd h hd, fun _ => ⟨d, finish_serial r w d rest hs⟩⟩

end Cells

/-! ## With programs -/

section Programs
variable [Store σ S ε] (cell : σ → ρ) (G : ρ → Prop)

/-- Never changes the cell. -/
def Quiet (p : Client σ S ε Unit) : Prop :=
  p.All fun s => ∀ x x', Store.app s x = (.ok x' : Except ε σ) → cell x' = cell x

/-- Commits `r` to the cell in one transaction, wherever a cell satisfies `G`, and is quiet after it. -/
def Writes (G : ρ → Prop) (r : ρ) (p : Client σ S ε Unit) : Prop :=
  ∀ v, G (cell v) → ∃ v' ws p', step v p = some (v', ws, p') ∧ cell v' = r ∧ Quiet cell p'

/-- Reads the cell in one step, and then writes what `w` makes of it, or nothing. -/
inductive ReadsThenWrites (w : Writer ρ) : Client σ S ε Unit → Prop
  | quiet {p} : Quiet cell p → (∀ r, w r = none) → ReadsThenWrites w p
  | reads {k} : (∀ x, w (cell x) = none → Quiet cell (k x)) →
      (∀ x r, w (cell x) = some r → Writes cell (fun q => G (cell x) → G q) r (k x)) → ReadsThenWrites w (.read k)

/-- A program is where its phase says, for a cell that now holds `q`. -/
def At (q : ρ) : Phase ρ → Client σ S ε Unit → Prop
  | .ready w, p => ReadsThenWrites cell G w p
  | .holding r, p => Writes cell (fun q' => G q → G q') r p
  | .finished, p => Quiet cell p

variable {cell G} {q q' r : ρ} {w : Writer ρ} {p p' : Client σ S ε Unit}

theorem Path.quiet {v v' : σ} {zs : List S} (h : Path p v zs v' p') (hp : Quiet cell p) :
    cell v' = cell v ∧ Quiet cell p' := by
  induction h with
  | commit => exact ⟨rfl, hp⟩
  | read _ ih => exact ih (hp _)
  | exec ha _ ih =>
    obtain ⟨h1, h2⟩ := ih hp.2
    exact ⟨h1.trans (hp.1 _ _ ha), h2⟩

theorem Quiet.step {x x' : σ} {ws : List S} (hp : Quiet cell p) (h : step x p = some (x', ws, p')) :
    cell x' = cell x ∧ Quiet cell p' := by
  rcases step_cases h with ⟨k, rfl, rfl, -, rfl⟩ | hpath | ⟨hab, rfl, -⟩
  · exact ⟨rfl, hp _⟩
  · exact hpath.quiet hp
  · rcases hab.ended with ⟨a, rfl⟩ | ⟨e, rfl⟩ <;> exact ⟨rfl, trivial⟩

/-- A program writes `r` when its first statement does and its transaction then
commits without touching the cell again. -/
theorem Writes.exec {s : S} {k : Client σ S ε Unit} (hk : Quiet cell k)
    (h : ∀ v, G (cell v) → ∃ u, Store.app s v = (.ok u : Except ε σ) ∧ cell u = r ∧ ∃ zs v' p', Path k u zs v' p') :
    Writes cell G r (.exec s k) := by
  intro v hv
  obtain ⟨u, ha, hu, zs, v', p', hp⟩ := h v hv
  obtain ⟨hc, hq⟩ := hp.quiet hk
  exact ⟨v', s :: zs, p', congrArg some ((Path.exec ha hp).transact v []), hc.trans hu, hq⟩

theorem Quiet.after (hp : Quiet cell p) (x : σ) : cell (after p x) = cell x :=
  (run_keeps (fun y => cell y = cell x) _ (fun _ y _ hs ha hy => (hs y _ ha).trans hy) hp rfl rfl).1

/-- Run alone, such a program leaves in the cell what its writer would. -/
theorem ReadsThenWrites.after (hp : ReadsThenWrites cell G w p) (x : σ) :
    cell (after p x) = w.alone (cell x) := by
  cases hp with
  | quiet hq hnone => rw [hq.after, Writer.alone, hnone]; rfl
  | @reads k hnone hsome =>
    rw [after_step (show step x (.read k) = some (x, [], k x) from rfl), Writer.alone]
    cases hw : w (cell x) with
    | none => rw [(hnone x hw).after]; rfl
    | some r =>
      obtain ⟨v', ws, p', hs, hv, hq⟩ := hsome x r hw x id
      rw [after_step hs, hq.after, hv]; rfl

/-- What a writer holds or may write satisfies `G`. -/
def Good (G : ρ → Prop) : Phase ρ → Prop
  | .ready w => ∀ r r', w r = some r' → G r'
  | .holding r => G r
  | .finished => True

/-- A program stays where it is while the cell moves on within `G`. -/
theorem At.mono {ph : Phase ρ} (h : At cell G q ph p) (hq : G q → G q') : At cell G q' ph p := by
  cases ph with
  | ready w => exact h
  | holding r => exact fun v hv => h v fun hG => hv (hq hG)
  | finished => exact h

/-- The fleet of two and the race without programs are in step. -/
def InStep (cell : σ → ρ) (G : ρ → Prop) (f : Fleet Bool σ S ε Unit) (s : Cells ρ) : Prop :=
  cell f.db = s.val ∧ ∀ b, Good G (s.phase b) ∧ ∃ p, f.procs b = some p ∧ At cell G s.val (s.phase b) p

/-- One client moved to `p'` and `ph`, and the cell to `q'`. -/
theorem InStep.update {f : Fleet Bool σ S ε Unit} {s : Cells ρ} (h : InStep cell G f s) {b : Bool} {x : σ}
    {log : List (Bool × S)} {ph : Phase ρ} (hx : cell x = q') (hq : G s.val → G q') (hg : Good G ph)
    (hp : At cell G q' ph p') :
    InStep cell G ⟨x, Function.update f.procs b (some p'), log⟩ ⟨q', Function.update s.phase b ph⟩ := by
  refine ⟨hx, fun c => ?_⟩
  by_cases hc : c = b
  · subst hc
    simp only [Function.update_self]
    exact ⟨hg, p', rfl, hp⟩
  · simp only [Function.update_of_ne hc]
    obtain ⟨hgc, pc, hpc, hat⟩ := h.2 c
    exact ⟨hgc, pc, hpc, hat.mono hq⟩

/-- A quiet program, whatever its phase becomes, keeps in step. -/
theorem InStep.quiet {f : Fleet Bool σ S ε Unit} {s : Cells ρ} (h : InStep cell G f s) {b : Bool}
    (hp : f.procs b = some p) (hq : Quiet cell p) :
    InStep cell G (f.move (.go b)) ⟨s.val, Function.update s.phase b .finished⟩ := by
  cases hs : step f.db p with
  | some r =>
    obtain ⟨h1, h2⟩ := hq.step hs
    rw [Fleet.move_step hp hs]
    exact h.update (h1.trans h.1) id trivial h2
  | none =>
    rw [Fleet.move_finished hp hs]
    refine ⟨h.1, fun c => ?_⟩
    by_cases hc : c = b
    · subst hc; simp only [Function.update_self]; exact ⟨trivial, p, hp, hq⟩
    · simp only [Function.update_of_ne hc]; exact h.2 c

theorem InStep.move {f : Fleet Bool σ S ε Unit} {s : Cells ρ} (h : InStep cell G f s) (b : Bool) :
    InStep cell G (f.move (.go b)) (s.move b) := by
  obtain ⟨hg, p, hp, hat⟩ := h.2 b
  cases hph : s.phase b with
  | ready w =>
    rw [Cells.move_first hph]
    rw [hph] at hat hg
    cases hat with
    | quiet hq hnone =>
      rw [hnone]
      exact h.quiet hp hq
    | @reads k hnone hsome =>
      rw [Fleet.move_step hp (show step f.db (.read k) = some (f.db, [], k f.db) from rfl)]
      cases hw : w s.val with
      | none => exact h.update h.1 id trivial (hnone _ (by rw [h.1]; exact hw))
      | some r =>
        have hwr := hsome f.db r (by rw [h.1]; exact hw)
        rw [h.1] at hwr
        exact h.update h.1 id (hg _ _ hw) hwr
  -- The write is from the value read, whatever the cell holds by now.
  | holding r =>
    rw [hph] at hat hg
    obtain ⟨v', ws, p', hs, hv, hq⟩ := hat f.db (fun hG => h.1 ▸ hG)
    rw [Fleet.move_step hp hs]
    have hm : s.move b = ⟨r, Function.update s.phase b .finished⟩ := by unfold Cells.move; rw [hph]
    rw [hm]
    exact h.update hv (fun _ => hg) trivial hq
  | finished =>
    rw [hph] at hat
    have hm : s.move b = ⟨s.val, Function.update s.phase b .finished⟩ := by
      rw [Cells.move_finished hph, ← hph, Function.update_eq_self]
    rw [hm]
    exact h.quiet hp hat

/-- Every client of the fleet is over. -/
def Finished {ι : Type} (f : Fleet ι σ S ε Unit) : Prop := ∀ i p, f.procs i = some p → step f.db p = none

theorem InStep.spent {f : Fleet Bool σ S ε Unit} {s : Cells ρ} (h : InStep cell G f s) (hf : Finished f) (b : Bool) :
    Cells.Spent (s.phase b) := by
  obtain ⟨-, p, hp, hat⟩ := h.2 b
  have hstep := hf b p hp
  cases hph : s.phase b with
  | ready w =>
    rw [hph] at hat
    cases hat with
    | quiet _ hnone => exact hnone
    | reads _ _ => simp [step] at hstep
  | holding r =>
    rw [hph] at hat
    obtain ⟨v', ws, p', hs, -⟩ := hat f.db (fun hG => h.1 ▸ hG)
    rw [hstep] at hs
    cases hs
  | finished => trivial

/-- A fleet of two programs that read a cell and then write it leaves in the
cell what the race without programs leaves. -/
theorem runs_cells {x : σ} {ps : Bool → Client σ S ε Unit} {w : Bool → Writer ρ}
    (hps : ∀ b, ReadsThenWrites cell G (w b) (ps b)) (hG : ∀ b r r', w b r = some r' → G r') (sched : List Bool)
    (hf : Finished ((Fleet.init x ps).runs (sched.map .go))) :
    cell ((Fleet.init x ps).runs (sched.map .go)).db = ((Cells.start (cell x) w).runs sched).val ∧
      ∀ b, Cells.Spent (((Cells.start (cell x) w).runs sched).phase b) := by
  have h0 : InStep cell G (Fleet.init x ps) (Cells.start (cell x) w) :=
    ⟨rfl, fun b => ⟨hG b, ps b, rfl, hps b⟩⟩
  have h : InStep cell G ((Fleet.init x ps).runs (sched.map .go)) ((Cells.start (cell x) w).runs sched) := by
    clear hf
    generalize Fleet.init x ps = f at h0
    generalize Cells.start (cell x) w = s at h0
    induction sched generalizing f s with
    | nil => exact h0
    | cons b sched ih => exact ih _ _ (h0.move b)
  exact ⟨h.1, h.spent hf⟩

end Programs
end Txn
