import Mathlib.Algebra.GroupWithZero.Nat
import Wardence.Lib.Fleet
/-!
# Effects behind a guard

A guard is a statement that succeeds at most once in the life of a store: an
`INSERT` of a primary key that nothing deletes. `once`: when every client
executes its effects only after passing the guard, the effects of the whole
fleet are those of one client, whatever the interleaving and the crashes.
-/
namespace Txn

open Client

variable {σ S ε α β ι : Type} {w : S → Nat} {g : S → Bool} {n : Nat}

namespace Client

/-- On every path, the statements executed weigh at most `n` together. -/
def Weighs (w : S → Nat) : Client σ S ε α → Nat → Prop
  | done _ => fun _ => True
  | raise _ => fun _ => True
  | read k => fun n => ∀ x, (k x).Weighs w n
  | exec s k => fun n => w s ≤ n ∧ k.Weighs w (n - w s)
  | commit k => fun n => k.Weighs w n

/-- On every path, nothing weighs before the first guard, and at most `n` after it. -/
def Guarded (g : S → Bool) (w : S → Nat) (n : Nat) : Client σ S ε α → Prop
  | done _ => True
  | raise _ => True
  | read k => ∀ x, (k x).Guarded g w n
  | exec s k => w s = 0 ∧ if g s then k.Weighs w n else k.Guarded g w n
  | commit k => k.Guarded g w n

theorem Weighs.mono {p : Client σ S ε α} {m n : Nat} (h : p.Weighs w m) (hmn : m ≤ n) : p.Weighs w n := by
  induction p generalizing m n with
  | done a => trivial
  | raise e => trivial
  | read k ih => exact fun x => ih x (h x) hmn
  | exec s k ih => exact ⟨Nat.le_trans h.1 hmn, ih h.2 (Nat.sub_le_sub_right hmn _)⟩
  | commit k ih => exact ih h hmn

theorem Weighs.bind {p : Client σ S ε α} {f : α → Client σ S ε β} {m n : Nat} (hp : p.Weighs w m)
    (hf : ∀ a, (f a).Weighs w n) : (p >>= f).Weighs w (m + n) := by
  induction p generalizing m with
  | done a => exact (hf a).mono (Nat.le_add_left _ _)
  | raise e => trivial
  | read k ih => exact fun x => ih x (hp x)
  | exec s k ih =>
    refine ⟨Nat.le_trans hp.1 (Nat.le_add_right _ _), ?_⟩
    rw [Nat.sub_add_comm hp.1]
    exact ih hp.2
  | commit k ih => exact ih hp

/-- A program without weighty statements weighs nothing. -/
theorem Weighs.of_all {p : Client σ S ε α} (h : p.All fun s => w s = 0) : p.Weighs w 0 := by
  induction p with
  | done a => trivial
  | raise e => trivial
  | read k ih => exact fun x => ih x (h x)
  | exec s k ih => exact ⟨Nat.le_of_eq h.1, (ih h.2).mono (Nat.zero_le _)⟩
  | commit k ih => exact ih h

/-- A program that weighs nothing has no weighty statements. -/
theorem Weighs.all {p : Client σ S ε α} (h : p.Weighs w 0) : p.All fun s => w s = 0 := by
  induction p with
  | done a => trivial
  | raise e => trivial
  | read k ih => exact fun x => ih x (h x)
  | exec s k ih => exact ⟨Nat.le_zero.1 h.1, ih (h.2.mono (Nat.sub_le _ _))⟩
  | commit k ih => exact ih h

/-- A program with neither effects nor guards is guarded. -/
theorem Guarded.of_all {p : Client σ S ε α} (h : p.All fun s => w s = 0 ∧ g s = false) : p.Guarded g w n := by
  induction p with
  | done a => trivial
  | raise e => trivial
  | read k ih => exact fun x => ih x (h x)
  | exec s k ih => exact ⟨h.1.1, by rw [if_neg (by simp [h.1.2])]; exact ih h.2⟩
  | commit k ih => exact ih h

theorem Guarded.bind {p : Client σ S ε α} {f : α → Client σ S ε β} (hp : p.All fun s => w s = 0 ∧ g s = false)
    (hf : ∀ a, (f a).Guarded g w n) : (p >>= f).Guarded g w n := by
  induction p with
  | done a => exact hf a
  | raise e => trivial
  | read k ih => exact fun x => ih x (hp x)
  | exec s k ih => exact ⟨hp.1.1, by rw [if_neg (by simp [hp.1.2])]; exact ih hp.2⟩
  | commit k ih => exact ih hp

end Client

/-- The total weight of what a fleet committed. -/
def weight (w : S → Nat) (log : List (ι × S)) : Nat := (log.map fun r => w r.2).sum

theorem weight_append (log : List (ι × S)) (i : ι) (zs : List S) :
    weight w (log ++ zs.map (i, ·)) = weight w log + (zs.map w).sum := by
  simp [weight, List.map_map, Function.comp_def]

section Laws
variable [Store σ S ε]

/-- `g` marks statements that succeed only while the key is absent, and leave it present for good. -/
structure Guard (σ : Type) {S ε : Type} [Store σ S ε] (present : σ → Prop) (g : S → Bool) : Prop where
  fresh : ∀ {s : S} {x x' : σ}, g s = true → Store.app s x = (.ok x' : Except ε σ) → ¬ present x
  opens : ∀ {s : S} {x x' : σ}, g s = true → Store.app s x = (.ok x' : Except ε σ) → present x'
  keeps : ∀ {s : S} {x x' : σ}, Store.app s x = (.ok x' : Except ε σ) → present x → present x'

variable {present : σ → Prop}

theorem Abort.weighs {p p' : Client σ S ε α} {v : σ} (h : Abort p v p') (n : Nat) : p'.Weighs w n := by
  rcases h.ended with ⟨a, rfl⟩ | ⟨e, rfl⟩ <;> trivial

theorem Abort.guarded {p p' : Client σ S ε α} {v : σ} (h : Abort p v p') : p'.Guarded g w n := by
  rcases h.ended with ⟨a, rfl⟩ | ⟨e, rfl⟩ <;> trivial

theorem Path.weighs {p p' : Client σ S ε α} {v v' : σ} {zs : List S} (h : Path p v zs v' p')
    (hp : p.Weighs w n) : (zs.map w).sum ≤ n ∧ p'.Weighs w (n - (zs.map w).sum) := by
  induction h generalizing n with
  | commit => exact ⟨Nat.zero_le _, hp⟩
  | read _ ih => exact ih (hp _)
  | exec _ _ ih =>
    obtain ⟨h1, h2⟩ := ih hp.2
    have hw := hp.1
    simp only [List.map_cons, List.sum_cons]
    exact ⟨by omega, by rwa [← Nat.sub_sub]⟩

theorem Path.keeps (hg : Guard σ present g) {p p' : Client σ S ε α} {v v' : σ} {zs : List S}
    (h : Path p v zs v' p') (hv : present v) : present v' := by
  induction h with
  | commit => exact hv
  | read _ ih => exact ih hv
  | exec ha _ ih => exact ih (hg.keeps ha hv)

/-- Once the key is there, a guarded client cannot pass its guard. -/
theorem Path.guarded_present (hg : Guard σ present g) {p p' : Client σ S ε α} {v v' : σ} {zs : List S}
    (h : Path p v zs v' p') (hp : p.Guarded g w n) (hv : present v) :
    (zs.map w).sum = 0 ∧ p'.Guarded g w n := by
  induction h with
  | commit => exact ⟨rfl, hp⟩
  | read _ ih => exact ih (hp _) hv
  | @exec s _ _ _ _ _ _ ha _ ih =>
    obtain ⟨hs, hk⟩ := hp
    cases hgs : g s with
    | true => exact absurd hv (hg.fresh hgs ha)
    | false =>
      rw [if_neg (by simp [hgs])] at hk
      simpa [hs] using ih hk (hg.keeps ha hv)

/-- A guarded client either stays guarded, or passes its guard and then has `n` to spend. -/
theorem Path.guarded (hg : Guard σ present g) {p p' : Client σ S ε α} {v v' : σ} {zs : List S}
    (h : Path p v zs v' p') (hp : p.Guarded g w n) :
    ((zs.map w).sum = 0 ∧ p'.Guarded g w n) ∨
      (present v' ∧ (zs.map w).sum ≤ n ∧ p'.Weighs w (n - (zs.map w).sum)) := by
  induction h with
  | commit => exact .inl ⟨rfl, hp⟩
  | read _ ih => exact ih (hp _)
  | @exec s _ _ _ _ _ _ ha hk ih =>
    obtain ⟨hs, hc⟩ := hp
    simp only [List.map_cons, List.sum_cons, hs, Nat.zero_add]
    cases hgs : g s with
    | true =>
      rw [if_pos hgs] at hc
      exact .inr ⟨hk.keeps hg (hg.opens hgs ha), hk.weighs hc⟩
    | false =>
      rw [if_neg (by simp [hgs])] at hc
      exact ih hc

/-- Before the guard is passed nothing weighs; after it, one client holds what is left to spend. -/
def Budget (present : σ → Prop) (g : S → Bool) (w : S → Nat) (n : Nat) (f : Fleet ι σ S ε α) : Prop :=
  ((∀ i p, f.procs i = some p → p.Guarded g w n) ∧ weight w f.log = 0) ∨
    (present f.db ∧ ∃ i m, weight w f.log + m ≤ n ∧ (∀ p, f.procs i = some p → p.Weighs w m) ∧
      ∀ j, j ≠ i → ∀ p, f.procs j = some p → p.Guarded g w n)

variable [DecidableEq ι]

omit [Store σ S ε] in
/-- What holds of every client still holds after one of them is replaced by `q`. -/
theorem update_all {P : Client σ S ε α → Prop} {procs : ι → Option (Client σ S ε α)} {i j : ι}
    {q : Option (Client σ S ε α)} (hq : j = i → ∀ p, q = some p → P p) (hj : j ≠ i → ∀ p, procs j = some p → P p) :
    ∀ p, Function.update procs i q j = some p → P p := by
  by_cases h : j = i
  · subst h; rw [Function.update_self]; exact hq rfl
  · rw [Function.update_of_ne h]; exact hj h

omit [Store σ S ε] in
theorem Budget.kill {f : Fleet ι σ S ε α} (h : Budget present g w n f) (i : ι) :
    Budget present g w n { f with procs := Function.update f.procs i none } := by
  rcases h with ⟨hp, h0⟩ | ⟨hx, o, m, hm, ho, hp⟩
  · exact .inl ⟨fun j => update_all (by simp) fun _ => hp j, h0⟩
  · exact .inr ⟨hx, o, m, hm, update_all (by simp) fun _ => ho,
      fun j hj => update_all (by simp) fun _ => hp j hj⟩

theorem Budget.step (hg : Guard σ present g) {f : Fleet ι σ S ε α} (h : Budget present g w n f) {i : ι}
    {p p' : Client σ S ε α} {x : σ} {ws : List S} (hp : f.procs i = some p) (hs : step f.db p = some (x, ws, p')) :
    Budget present g w n ⟨x, Function.update f.procs i (some p'), f.log ++ ws.map (i, ·)⟩ := by
  rcases h with ⟨hall, h0⟩ | ⟨hx, o, m, hm, ho, hall⟩
  · -- the guard has not been passed: at most this step passes it
    have still (hw : (ws.map w).sum = 0) (hp' : p'.Guarded g w n) :
        Budget present g w n ⟨x, Function.update f.procs i (some p'), f.log ++ ws.map (i, ·)⟩ :=
      .inl ⟨fun j => update_all (fun _ q hq => Option.some.inj hq ▸ hp') fun _ => hall j,
        by rw [weight_append, h0, hw]⟩
    have hpg := hall i p hp
    rcases step_cases hs with ⟨k, rfl, rfl, rfl, rfl⟩ | hpath | ⟨hab, rfl, rfl⟩
    · exact still rfl (hpg _)
    · rcases hpath.guarded hg hpg with ⟨hw, hp'⟩ | ⟨hx, hle, hp'⟩
      · exact still hw hp'
      · refine .inr ⟨hx, i, n - (ws.map w).sum, by rw [weight_append]; omega, ?_, ?_⟩
        · exact update_all (fun _ q hq => Option.some.inj hq ▸ hp') (fun h => absurd rfl h)
        · exact fun j hj => update_all (fun h => absurd h hj) fun _ => hall j
    -- an abort commits nothing
    · exact still rfl hab.guarded
  · by_cases hio : i = o
    · -- the client that passed the guard spends
      subst hio
      have spends {m' : Nat} (hm' : weight w f.log + (ws.map w).sum + m' ≤ n) (hx : present x) (hp' : p'.Weighs w m') :
          Budget present g w n ⟨x, Function.update f.procs i (some p'), f.log ++ ws.map (i, ·)⟩ :=
        .inr ⟨hx, i, m', by rw [weight_append]; exact hm',
          update_all (fun _ q hq => Option.some.inj hq ▸ hp') (fun h => absurd rfl h),
          fun j hj => update_all (fun h => absurd h hj) fun _ => hall j hj⟩
      rcases step_cases hs with ⟨k, rfl, rfl, rfl, rfl⟩ | hpath | ⟨hab, rfl, rfl⟩
      · exact spends hm hx (ho _ hp _)
      · obtain ⟨hle, hp'⟩ := hpath.weighs (ho p hp)
        exact spends (by omega) (hpath.keeps hg hx) hp'
      · exact spends hm hx (hab.weighs m)
    · -- any other client is stopped by the key
      have stays (hw : (ws.map w).sum = 0) (hx : present x) (hp' : p'.Guarded g w n) :
          Budget present g w n ⟨x, Function.update f.procs i (some p'), f.log ++ ws.map (i, ·)⟩ :=
        .inr ⟨hx, o, m, by rw [weight_append, hw]; exact hm,
          update_all (fun h => absurd h.symm hio) (fun _ => ho),
          fun j hj => update_all (fun _ q hq => Option.some.inj hq ▸ hp') fun _ => hall j hj⟩
      have hpg := hall i hio p hp
      rcases step_cases hs with ⟨k, rfl, rfl, rfl, rfl⟩ | hpath | ⟨hab, rfl, rfl⟩
      · exact stays rfl hx (hpg _)
      · obtain ⟨hw, hp'⟩ := hpath.guarded_present hg hpg hx
        exact stays hw (hpath.keeps hg hx) hp'
      · exact stays rfl hx hab.guarded

theorem Budget.runs (hg : Guard σ present g) {x : σ} {ps : ι → Client σ S ε α} (hps : ∀ i, (ps i).Guarded g w n)
    (ms : List (Move ι)) : Budget present g w n ((Fleet.init x ps).runs ms) := by
  have h0 : Budget present g w n (Fleet.init x ps) :=
    .inl ⟨fun i p hp => Option.some.inj hp ▸ hps i, rfl⟩
  refine Fleet.runs_inv (I := Budget present g w n) (fun f m hf => ?_) h0 ms
  rcases f.move_cases m with he | ⟨i, -, he⟩ | ⟨i, p, x, ws, p', -, hp, hs, he⟩
  · rwa [he]
  · rw [he]; exact hf.kill i
  · rw [he]; exact hf.step hg hp hs

/-- Whatever the interleaving and the crashes, guarded clients together commit
the weight one of them may spend. -/
theorem once (hg : Guard σ present g) {x : σ} {ps : ι → Client σ S ε α} (hps : ∀ i, (ps i).Guarded g w n)
    (ms : List (Move ι)) : weight w ((Fleet.init x ps).runs ms).log ≤ n := by
  rcases Budget.runs (x := x) hg hps ms with ⟨-, h⟩ | ⟨-, i, m, h, -⟩ <;> omega

/-- While the key is absent, nothing weighty has been committed. -/
theorem weight_absent (hg : Guard σ present g) {x : σ} {ps : ι → Client σ S ε α} (hps : ∀ i, (ps i).Guarded g w n)
    (ms : List (Move ι)) (h : ¬ present ((Fleet.init x ps).runs ms).db) : weight w ((Fleet.init x ps).runs ms).log = 0 := by
  rcases Budget.runs (x := x) hg hps ms with ⟨-, h0⟩ | ⟨hx, -⟩
  · exact h0
  · exact absurd hx h

/-- Where the key is there from the start, nothing weighty is ever committed. -/
theorem weight_present (hg : Guard σ present g) {x : σ} (hx : present x) {ps : ι → Client σ S ε α}
    (hps : ∀ i, (ps i).Guarded g w n) (ms : List (Move ι)) : weight w ((Fleet.init x ps).runs ms).log = 0 := by
  let I (f : Fleet ι σ S ε α) : Prop :=
    present f.db ∧ (∀ i p, f.procs i = some p → p.Guarded g w n) ∧ weight w f.log = 0
  suffices h : I ((Fleet.init x ps).runs ms) from h.2.2
  refine Fleet.runs_inv (fun f m hf => ?_) ⟨hx, fun i p hp => Option.some.inj hp ▸ hps i, rfl⟩ ms
  obtain ⟨hdb, hall, h0⟩ := hf
  rcases f.move_cases m with he | ⟨i, -, he⟩ | ⟨i, p, x', ws, p', -, hp, hs, he⟩ <;> rw [he]
  · exact ⟨hdb, hall, h0⟩
  · exact ⟨hdb, fun j => update_all (by simp) fun _ => hall j, h0⟩
  have stays (hw : (ws.map w).sum = 0) (hx' : present x') (hp' : p'.Guarded g w n) :
      I ⟨x', Function.update f.procs i (some p'), f.log ++ ws.map (i, ·)⟩ :=
    ⟨hx', fun j => update_all (fun _ q hq => Option.some.inj hq ▸ hp') fun _ => hall j, by rw [weight_append, h0, hw]⟩
  rcases step_cases hs with ⟨k, rfl, rfl, rfl, rfl⟩ | hpath | ⟨hab, rfl, rfl⟩
  · exact stays rfl hdb (hall i _ hp _)
  · obtain ⟨hw, hp'⟩ := hpath.guarded_present hg (hall i p hp) hdb
    exact stays hw (hpath.keeps hg hdb) hp'
  · exact stays rfl hdb hab.guarded

/-! ## What only weighty statements change -/

section Views
variable {β : Type} {F : σ → β}

theorem Path.same (hF : ∀ s x x', w s = 0 → Store.app s x = (.ok x' : Except ε σ) → F x' = F x)
    {p p' : Client σ S ε α} {v v' : σ} {zs : List S} (h : Path p v zs v' p') (hz : (zs.map w).sum = 0) : F v' = F v := by
  induction h with
  | commit => rfl
  | read _ ih => exact ih hz
  | exec ha _ ih =>
    simp only [List.map_cons, List.sum_cons, Nat.add_eq_zero_iff] at hz
    rw [ih hz.2, hF _ _ _ hz.1 ha]

/-- A view that no weightless statement changes is the same until something weighty is committed. -/
theorem runs_same (hF : ∀ s x x', w s = 0 → Store.app s x = (.ok x' : Except ε σ) → F x' = F x) {x : σ}
    {ps : ι → Client σ S ε α} {ms : List (Move ι)} (h : weight w ((Fleet.init x ps).runs ms).log = 0) :
    F ((Fleet.init x ps).runs ms).db = F x := by
  refine Fleet.runs_inv (I := fun f => weight w f.log = 0 → F f.db = F x) (fun f m hf => ?_) (fun _ => rfl) ms h
  rcases f.move_cases m with he | ⟨i, -, he⟩ | ⟨i, p, x', ws, p', -, hp, hs, he⟩ <;> rw [he]
  · exact hf
  · exact hf
  intro h
  rw [weight_append, Nat.add_eq_zero_iff] at h
  rcases step_cases hs with ⟨k, rfl, rfl, rfl, rfl⟩ | hpath | ⟨hab, rfl, rfl⟩
  · exact hf h.1
  · exact (hpath.same hF h.2).trans (hf h.1)
  · exact hf h.1

end Views

/-! ## A measure of the store follows the log -/

theorem Path.measure {m : σ → Nat} (h : ∀ s x x', Store.app s x = (.ok x' : Except ε σ) → m x' ≤ m x + w s)
    {p p' : Client σ S ε α} {v v' : σ} {zs : List S} (hp : Path p v zs v' p') :
    m v' ≤ m v + (zs.map w).sum := by
  induction hp with
  | commit => simp
  | read _ ih => exact ih
  | exec ha _ ih =>
    have := h _ _ _ ha
    simp only [List.map_cons, List.sum_cons]
    omega

/-- A measure that no statement raises by more than its weight is bounded by what was committed. -/
theorem runs_measure {m : σ → Nat}
    (h : ∀ s x x', Store.app s x = (.ok x' : Except ε σ) → m x' ≤ m x + w s) (x : σ) (ps : ι → Client σ S ε α)
    (ms : List (Move ι)) :
    m ((Fleet.init x ps).runs ms).db ≤ m x + weight w ((Fleet.init x ps).runs ms).log := by
  refine Fleet.runs_inv (I := fun f => m f.db ≤ m x + weight w f.log) (fun f mv hf => ?_)
    (Nat.le_add_right _ _) ms
  rcases f.move_cases mv with he | ⟨i, -, he⟩ | ⟨i, p, x', ws, p', -, hp, hs, he⟩
  · rwa [he]
  · rw [he]; exact hf
  · rw [he]
    simp only [weight_append]
    rcases step_cases hs with ⟨k, rfl, rfl, rfl, rfl⟩ | hpath | ⟨hab, rfl, rfl⟩
    · simpa using hf
    · have := hpath.measure h
      omega
    · simpa using hf

end Laws
end Txn
