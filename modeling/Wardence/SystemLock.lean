import Wardence.Lib.Lease
import Wardence.Live.Programs
import Mathlib.Order.BooleanAlgebra.Set
/-!
# The system lock of `injector.py`

Every injector takes the one row of `system_lock` before it touches the cluster
and frees it in a `finally`. A lock older than `SYSTEM_LOCK_STALE_S` counts as
left behind by a process that crashed. Any number of injectors run at once; each
may raise or be killed at any point.
-/
namespace Wardence.SystemLock

def SYSTEM_LOCK_STALE_S : Nat := 600
def SYSTEM_LOCK_RETRY_S : Nat := 5
def SYSTEM_LOCK_MAX_WAIT_S : Nat := 30

/-- Who runs `injector.py`: `run_batch_plan.py`, or the wrapper of a live trigger. -/
inductive Caller where
  | batch
  | live (faultClass : String)
  deriving DecidableEq, Repr

/-- How long the caller lets it run. -/
def Caller.timeout : Caller → Option Nat
  | batch => none
  | live c => some ((Live.INJECT_SUBPROCESS_TIMEOUT_S.lookup c).getD Live.DEFAULT_INJECT_SUBPROCESS_TIMEOUT_S)

/-- Where an injector is. -/
inductive Pc where
  /-- `ensure_db` and `_ensure_system_lock_table`. -/
  | connecting
  /-- Before `time.time()`, before the `UPDATE`, and in `time.sleep`. -/
  | trying (waited : Nat)
  | updating (waited now : Nat)
  | sleeping (waited wake : Nat)
  /-- The `UPDATE` took the row; the `try` block is not entered yet. -/
  | acquired
  | injecting
  /-- The `finally` block, up to its `UPDATE`. -/
  | releasing
  /-- Ended, or about to with nothing left to do. -/
  | ended
  deriving DecidableEq, Repr

/-- Between the successful `_acquire_system_lock` and the release. -/
def Pc.inside : Pc → Bool
  | acquired | injecting | releasing => true
  | _ => false

structure Proc where
  holder : String
  caller : Caller
  started : Nat
  pc : Pc
  deriving DecidableEq, Repr

/-- Seconds; `row` is none while `holder` is `NULL`. -/
structure State where
  row : Option (String × Nat)
  clock : Nat
  procs : List Proc
  deriving DecidableEq, Repr

/-- The `UPDATE` of `_acquire_system_lock`; none if it changes no row. -/
def acquireSystemLock (row : Option (String × Nat)) (holder : String) (now : Nat) : Option (String × Nat) :=
  if Lease.takeable row (now - SYSTEM_LOCK_STALE_S) then some (holder, now) else none

/-- The `UPDATE` of `_release_system_lock`. -/
def releaseSystemLock (row : Option (String × Nat)) (holder : String) : Option (String × Nat) := Lease.freed row holder

/-- `acquire_system_lock_or_die`, and then `main`: what one step makes of the row,
and where the process is after it. -/
def Proc.next (p : Proc) (row : Option (String × Nat)) (clock : Nat) : Option (String × Nat) × Pc :=
  match p.pc with
  | .connecting => (row, .trying 0)
  | .trying waited => (row, .updating waited clock)
  | .updating waited now =>
    match acquireSystemLock row p.holder now with
    | some r => (some r, .acquired)
    | none =>
      if SYSTEM_LOCK_MAX_WAIT_S ≤ waited then (row, .ended)
      else (row, .sleeping waited (clock + SYSTEM_LOCK_RETRY_S))
  | .sleeping waited wake => if wake ≤ clock then (row, .trying (waited + SYSTEM_LOCK_RETRY_S)) else (row, p.pc)
  | .acquired => (row, .injecting)
  | .injecting => (row, .releasing)
  | .releasing => (releaseSystemLock row p.holder, .ended)
  | .ended => (row, .ended)

/-- Where an exception leads: out of the `try` block into `finally`, else out of the process. -/
def Pc.raised : Pc → Pc
  | injecting => releasing
  | _ => ended

inductive Move where
  | start (holder : String) (caller : Caller)
  | step (i : Nat)
  | fail (i : Nat)
  | kill (i : Nat)
  | tick (d : Nat)
  deriving DecidableEq, Repr

namespace State

def goTo (st : State) (i : Nat) (pc : Pc) : State := { st with procs := st.procs.modify i ({ · with pc := pc }) }

/-- No two processes have one holder string: it names the pid, the class and the time. -/
def move (st : State) : Move → State
  | .start h c => if st.procs.any (·.holder = h) then st else { st with procs := st.procs ++ [⟨h, c, st.clock, .connecting⟩] }
  | .step i =>
    match st.procs[i]? with
    | some p => { st.goTo i (p.next st.row st.clock).2 with row := (p.next st.row st.clock).1 }
    | none => st
  | .fail i =>
    match st.procs[i]? with
    | some p => st.goTo i p.pc.raised
    | none => st
  | .kill i => st.goTo i .ended
  | .tick d => { st with clock := st.clock + d }

def run (st : State) (ms : List Move) : State := ms.foldl move st

/-- Every move meets `C` in the state it is made in. -/
def Admits (C : State → Move → Prop) : State → List Move → Prop
  | _, [] => True
  | st, m :: ms => C st m ∧ Admits C (st.move m) ms

instance decidableAdmits {C : State → Move → Prop} [∀ st m, Decidable (C st m)] : ∀ st ms, Decidable (Admits C st ms)
  | _, [] => .isTrue trivial
  | st, m :: ms =>
    have : Decidable (Admits C (st.move m) ms) := decidableAdmits (st.move m) ms
    inferInstanceAs (Decidable (C st m ∧ Admits C (st.move m) ms))

/-- At most one injector is between its acquire and its release. -/
def AtMostOne (st : State) : Prop :=
  ∀ (i k : Nat) (p q : Proc), st.procs[i]? = some p → st.procs[k]? = some q → p.pc.inside = true → q.pc.inside = true → i = k

/-- A process in its `finally` frees no lock of another. -/
def FreesOwn (st : State) : Prop :=
  ∀ (i : Nat) (p : Proc) (holder : String) (stamp : Nat), st.procs[i]? = some p → p.pc = .releasing →
    st.row = some (holder, stamp) → holder ≠ p.holder → (st.move (.step i)).row = some (holder, stamp)

/-- The process about to try the lock has its cutoff after the stamp of the
row, while the row's holder is inside. -/
def Steals (st : State) (i : Nat) : Prop :=
  ∃ p ∈ st.procs[i]?, ∃ waited now, p.pc = .updating waited now ∧
    ∃ holder stamp, st.row = some (holder, stamp) ∧ stamp < now - SYSTEM_LOCK_STALE_S ∧
      ∃ q ∈ st.procs, q.holder = holder ∧ q.pc.inside = true

def NoneStolen (st : State) (m : Move) : Prop := ∀ i, m = .step i → ¬ st.Steals i

/-- No caller lets its injector run past its timeout. -/
def Timely (st : State) : Move → Prop
  | .tick d => ∀ p ∈ st.procs, p.pc ≠ .ended → ∀ limit ∈ p.caller.timeout, st.clock + d ≤ p.started + limit
  | _ => True

instance (st : State) (m : Move) : Decidable (st.Timely m) := by unfold Timely; split <;> infer_instance

/-! ## The lock of the library -/

/-- The processes told apart by their holder strings. -/
def lease (st : State) : Lease.State String Nat := ⟨st.row, {h | ∃ p ∈ st.procs, p.holder = h ∧ p.pc.inside = true}⟩

def Distinct (st : State) : Prop :=
  ∀ (i k : Nat) (p q : Proc), st.procs[i]? = some p → st.procs[k]? = some q → p.holder = q.holder → i = k

/-- What a move does to the lock. -/
def act (st : State) : Move → Lease.Act String Nat
  | .step i =>
    match st.procs[i]? with
    | some ⟨h, _, _, .updating _ now⟩ => .take h now (now - SYSTEM_LOCK_STALE_S)
    | some ⟨h, _, _, .releasing⟩ => .free h
    | _ => .other
  | .fail i =>
    match st.procs[i]? with
    | some ⟨_, _, _, .injecting⟩ => .other
    | some p => .die p.holder
    | none => .other
  | .kill i =>
    match st.procs[i]? with
    | some p => .die p.holder
    | none => .other
  | _ => .other

variable {st : State}

theorem getElem?_goTo {i k : Nat} {pc : Pc} :
    (st.goTo i pc).procs[k]? = if i = k then st.procs[k]?.map ({ · with pc := pc }) else st.procs[k]? := by
  simp only [goTo, List.getElem?_modify]
  split <;> simp

/-- Who a process is after one has moved. -/
theorem goTo_some {i k : Nat} {pc : Pc} {q : Proc} (h : (st.goTo i pc).procs[k]? = some q) :
    ∃ p, st.procs[k]? = some p ∧ q.holder = p.holder ∧ q.pc = if i = k then pc else p.pc := by
  rw [getElem?_goTo] at h
  split at h
  · obtain ⟨p, hp, rfl⟩ := Option.map_eq_some_iff.1 h
    exact ⟨p, hp, rfl, (if_pos ‹_›).symm⟩
  · exact ⟨q, h, rfl, (if_neg ‹_›).symm⟩

theorem distinct_goTo (h : st.Distinct) (i : Nat) (pc : Pc) : (st.goTo i pc).Distinct := by
  intro j k p q hj hk hpq
  obtain ⟨p', hp', hp, -⟩ := goTo_some hj
  obtain ⟨q', hq', hq, -⟩ := goTo_some hk
  exact h j k p' q' hp' hq' (by rw [← hp, ← hq, hpq])

theorem distinct_move (h : st.Distinct) (m : Move) : (st.move m).Distinct := by
  cases m with
  | start holder c =>
    simp only [move]
    split
    · exact h
    · rename_i hn
      simp only [List.any_eq_true, decide_eq_true_eq, not_exists, not_and] at hn
      have hnew : ∀ (k : Nat) (q : Proc), (st.procs ++ [⟨holder, c, st.clock, .connecting⟩])[k]? = some q →
          (st.procs[k]? = some q ∧ q.holder ≠ holder) ∨ (k = st.procs.length ∧ q.holder = holder) := by
        intro k q hk
        by_cases hlt : k < st.procs.length
        · rw [List.getElem?_append_left hlt] at hk
          exact .inl ⟨hk, hn q (List.mem_of_getElem? hk)⟩
        · rw [List.getElem?_append_right (Nat.le_of_not_lt hlt), List.getElem?_singleton] at hk
          split at hk
          · cases hk
            exact .inr ⟨by omega, rfl⟩
          · cases hk
      intro j k p q hj hk hpq
      rcases hnew j p hj with ⟨hj, hp⟩ | ⟨rfl, hp⟩ <;> rcases hnew k q hk with ⟨hk, hq⟩ | ⟨rfl, hq⟩
      · exact h j k p q hj hk hpq
      · exact absurd (hpq.trans hq) hp
      · exact absurd (hpq.symm.trans hp) hq
      · rfl
  | step i =>
    simp only [move]
    split
    · exact distinct_goTo h i _
    · exact h
  | fail i =>
    simp only [move]
    split
    · exact distinct_goTo h i _
    · exact h
  | kill i => exact distinct_goTo h i _
  | tick d => exact h

theorem mem_inside {h : String} :
    h ∈ st.lease.inside ↔ ∃ (k : Nat) (q : Proc), st.procs[k]? = some q ∧ q.holder = h ∧ q.pc.inside = true := by
  simp only [lease, Set.mem_ofPred_eq, List.mem_iff_getElem?]
  constructor
  · rintro ⟨q, ⟨k, hk⟩, hq⟩
    exact ⟨k, q, hk, hq⟩
  · rintro ⟨k, q, hk, hq⟩
    exact ⟨q, ⟨k, hk⟩, hq⟩

/-- Who is inside once process `i` goes to `pc`. -/
theorem inside_goTo (hd : st.Distinct) {i : Nat} {p : Proc} (hi : st.procs[i]? = some p) (pc : Pc) :
    (st.goTo i pc).lease.inside =
      if pc.inside = true then insert p.holder st.lease.inside else st.lease.inside \ {p.holder} := by
  have hself : (st.goTo i pc).procs[i]? = some { p with pc := pc } := by rw [getElem?_goTo, if_pos rfl, hi]; rfl
  have hother : ∀ (k : Nat) (q : Proc), st.procs[k]? = some q → q.holder ≠ p.holder → (st.goTo i pc).procs[k]? = some q := by
    intro k q hk hq
    have hik : i ≠ k := by
      rintro rfl
      rw [hi, Option.some.injEq] at hk
      exact hq (by rw [hk])
    rw [getElem?_goTo, if_neg hik, hk]
  have hback : ∀ h, h ≠ p.holder → (h ∈ (st.goTo i pc).lease.inside ↔ h ∈ st.lease.inside) := by
    intro h hh
    rw [mem_inside, mem_inside]
    constructor
    · rintro ⟨k, q, hk, rfl, hin⟩
      obtain ⟨q', hq', he, hpc⟩ := goTo_some hk
      have hik : i ≠ k := by
        rintro rfl
        rw [hi, Option.some.injEq] at hq'
        exact hh (by rw [he, hq'])
      rw [if_neg hik] at hpc
      exact ⟨k, q', hq', he.symm, hpc ▸ hin⟩
    · rintro ⟨k, q, hk, rfl, hin⟩
      exact ⟨k, q, hother k q hk hh, rfl, hin⟩
  have hown : p.holder ∈ (st.goTo i pc).lease.inside ↔ pc.inside = true := by
    rw [mem_inside]
    constructor
    · rintro ⟨k, q, hk, he, hin⟩
      obtain rfl := distinct_goTo hd i pc k i q _ hk hself he
      rw [hself, Option.some.injEq] at hk
      rwa [← hk] at hin
    · intro hin
      exact ⟨i, _, hself, rfl, hin⟩
  ext h
  by_cases hh : h = p.holder
  · subst hh
    rw [hown]
    split <;> simp_all
  · rw [hback h hh]
    split <;> simp [hh]

theorem lease_goTo (hd : st.Distinct) {i : Nat} {p : Proc} (hi : st.procs[i]? = some p) (pc : Pc)
    (row : Option (String × Nat)) : lease { st.goTo i pc with row := row } =
      ⟨row, if pc.inside = true then insert p.holder st.lease.inside else st.lease.inside \ {p.holder}⟩ := by
  rw [← inside_goTo hd hi pc]
  rfl

/-- A process that goes from inside to inside, or from outside to outside. -/
theorem lease_stay (hd : st.Distinct) {i : Nat} {p : Proc} (hi : st.procs[i]? = some p) {pc : Pc}
    (h : pc.inside = p.pc.inside) : (st.goTo i pc).lease = st.lease := by
  have hmem : p.holder ∈ st.lease.inside ↔ p.pc.inside = true := by
    rw [mem_inside]
    constructor
    · rintro ⟨k, q, hk, he, hin⟩
      obtain rfl := hd k i q p hk hi he
      rw [hi, Option.some.injEq] at hk
      exact hk ▸ hin
    · intro hin
      exact ⟨i, p, hi, rfl, hin⟩
  refine (lease_goTo hd hi pc st.row).trans ?_
  rw [h]
  split
  · rw [Set.insert_eq_of_mem (hmem.2 ‹_›)]
    rfl
  · rw [Set.sdiff_singleton_eq_self (fun hx => absurd (hmem.1 hx) ‹_›)]
    rfl

/-- Every move is one action on the lock. -/
theorem lease_move (hd : st.Distinct) (m : Move) : (st.move m).lease = st.lease.act (st.act m) := by
  cases m with
  | start holder c =>
    simp only [move]
    split
    · rfl
    · simp [lease, act, Lease.State.act, Pc.inside]
  | tick d => rfl
  | kill i =>
    cases hi : st.procs[i]? with
    | none =>
      have hsame : st.goTo i .ended = st := by
        simp only [goTo, List.modify_eq_self (List.getElem?_eq_none_iff.1 hi)]
      simp only [move, act, hi, hsame, Lease.State.act]
    | some p =>
      simp only [move, act, hi, Lease.State.act]
      exact lease_goTo hd hi .ended st.row
  | fail i =>
    cases hi : st.procs[i]? with
    | none => simp only [move, act, hi, Lease.State.act]
    | some p =>
      obtain ⟨h, c, t, pc⟩ := p
      simp only [move, act, hi]
      cases pc with
      | injecting => exact lease_stay hd hi rfl
      | _ => exact lease_goTo hd hi .ended st.row
  | step i =>
    cases hi : st.procs[i]? with
    | none => simp only [move, act, hi, Lease.State.act]
    | some p =>
      obtain ⟨h, c, t, pc⟩ := p
      simp only [move, act, hi]
      cases pc with
      | connecting => exact lease_stay hd hi rfl
      | trying waited => exact lease_stay hd hi rfl
      | updating waited now =>
        simp only [Proc.next, acquireSystemLock, Lease.State.act]
        have hl : st.lease.row = st.row := rfl
        by_cases hf : Lease.takeable st.row (now - SYSTEM_LOCK_STALE_S) = true
        · simp only [hf, hl, if_true]
          exact lease_goTo hd hi .acquired _
        · simp only [hf, hl, if_false, Bool.false_eq_true]
          split
          · exact lease_stay hd hi rfl
          · exact lease_stay hd hi rfl
      | sleeping waited wake =>
        simp only [Proc.next, Lease.State.act]
        split
        · exact lease_stay hd hi rfl
        · exact lease_stay hd hi rfl
      | acquired => exact lease_stay hd hi rfl
      | injecting => exact lease_stay hd hi rfl
      | releasing =>
        exact lease_goTo hd hi .ended _
      | ended => exact lease_stay hd hi rfl

def acts (st : State) : List Move → List (Lease.Act String Nat)
  | [] => []
  | m :: ms => st.act m :: (st.move m).acts ms

theorem acts_take (ms : List Move) (n : Nat) : st.acts (ms.take n) = (st.acts ms).take n := by
  induction ms generalizing st n with
  | nil => simp [acts]
  | cons m ms ih =>
    cases n with
    | zero => rfl
    | succ n => simp [acts, ih]

/-- A run of processes is a run of the lock. -/
theorem lease_run (hd : st.Distinct) (ms : List Move) :
    (st.run ms).Distinct ∧ (st.run ms).lease = st.lease.run (st.acts ms) := by
  induction ms generalizing st with
  | nil => exact ⟨hd, rfl⟩
  | cons m ms ih =>
    have h := ih (distinct_move hd m)
    rw [lease_move hd m] at h
    exact h

theorem exclusive_lease (hd : st.Distinct) : st.lease.Exclusive ↔ st.AtMostOne := by
  constructor
  · intro h i k p q hi hk hp hq
    exact hd i k p q hi hk (h _ (mem_inside.2 ⟨i, p, hi, rfl, hp⟩) _ (mem_inside.2 ⟨k, q, hk, rfl, hq⟩))
  · intro h x hx y hy
    obtain ⟨i, p, hi, rfl, hp⟩ := mem_inside.1 hx
    obtain ⟨k, q, hk, rfl, hq⟩ := mem_inside.1 hy
    obtain rfl := h i k p q hi hk hp hq
    rw [hi, Option.some.injEq] at hk
    rw [hk]

/-- To steal is to rob. -/
theorem robs_step (hd : st.Distinct) (i : Nat) : st.lease.Robs (st.act (.step i)) ↔ st.Steals i := by
  constructor
  · intro hr
    simp only [act] at hr
    split at hr
    · rename_i h c t waited now hi
      obtain ⟨hf, k, stamp, hrow, hin, -⟩ := hr
      have hst : stamp < now - SYSTEM_LOCK_STALE_S := by
        have hrow' : st.row = some (k, stamp) := hrow
        simpa [Lease.takeable, lease, hrow'] using hf
      obtain ⟨j, q, hq, hh, hqin⟩ := mem_inside.1 hin
      exact ⟨_, hi, waited, now, rfl, k, stamp, hrow, hst, q, List.mem_of_getElem? hq, hh, hqin⟩
    · exact hr.elim
    · exact hr.elim
  · rintro ⟨⟨h, c, t, pc⟩, hi, waited, now, rfl, k, stamp, hrow, hst, q, hq, hh, hqin⟩
    obtain ⟨j, hj⟩ := List.mem_iff_getElem?.1 hq
    simp only [act, Option.mem_def.1 hi]
    refine ⟨by simpa [Lease.takeable, lease, hrow] using hst, k, stamp, hrow, mem_inside.2 ⟨j, q, hj, hh, hqin⟩, ?_⟩
    -- The process itself is not inside.
    rintro rfl
    obtain rfl := hd j i q _ hj hi hh
    rw [Option.mem_def.1 hi, Option.some.injEq] at hj
    subst hj
    cases hqin

theorem robs_act (hd : st.Distinct) (m : Move) : ¬ st.lease.Robs (st.act m) ↔ st.NoneStolen m := by
  cases m with
  | step i => simp [NoneStolen, robs_step hd i]
  | fail i =>
    have hr : ¬ st.lease.Robs (st.act (.fail i)) := by
      simp only [act]
      split <;> exact id
    simp [NoneStolen, hr]
  | kill i =>
    have hr : ¬ st.lease.Robs (st.act (.kill i)) := by
      simp only [act]
      split <;> exact id
    simp [NoneStolen, hr]
  | start | tick => simp [NoneStolen, act, Lease.State.Robs]

theorem honest_acts (hd : st.Distinct) (ms : List Move) : st.lease.Honest (st.acts ms) ↔ Admits NoneStolen st ms := by
  induction ms generalizing st with
  | nil => exact Iff.rfl
  | cons m ms ih =>
    simp only [acts, Lease.State.Honest, Admits, robs_act hd m, ← lease_move hd m, ih (distinct_move hd m)]

theorem freesOwn : st.FreesOwn := by
  intro i p holder stamp hi hp hrow hne
  obtain ⟨h, c, t, pc⟩ := p
  obtain rfl : pc = .releasing := hp
  simp only [move, hi, Proc.next, releaseSystemLock, hrow, Lease.freed]
  simp [hne]

/-- At most one injector is between its acquire and its release all along, and no
release frees the lock of another, if and only if no process that is still inside
is taken for dead. -/
theorem one_mutation_iff (row : Option (String × Nat)) (clock : Nat) (ms : List Move) :
    (∀ n, ((⟨row, clock, []⟩ : State).run (ms.take n)).AtMostOne ∧ ((⟨row, clock, []⟩ : State).run (ms.take n)).FreesOwn) ↔
      Admits NoneStolen ⟨row, clock, []⟩ ms := by
  have hd : (⟨row, clock, []⟩ : State).Distinct := by simp [Distinct]
  have ho : (⟨row, clock, []⟩ : State).lease.Owned := by simp [Lease.State.Owned, lease]
  have hrun : ∀ n, ((⟨row, clock, []⟩ : State).run (ms.take n)).AtMostOne ↔
      ((⟨row, clock, []⟩ : State).lease.run (((⟨row, clock, []⟩ : State).acts ms).take n)).Exclusive := by
    intro n
    obtain ⟨hd', hl⟩ := lease_run hd (ms.take n)
    rw [← exclusive_lease hd', hl, acts_take]
  rw [← honest_acts hd ms, ← Lease.State.exclusive_iff ho]
  exact forall_congr' fun n => (and_iff_left freesOwn).trans (hrun n)

/-- A cpu-throttling injector that its wrapper still lets run, and a batch run ten
minutes later. -/
def tenMinutes : List Move :=
  .start "pid=1" (.live "cpu-throttling") :: List.replicate 4 (.step 0) ++
    [.tick 650, .start "pid=2" .batch] ++ List.replicate 4 (.step 1)

/-- Both are inside. -/
theorem two_mutations :
    Admits Timely ⟨none, 0, []⟩ tenMinutes ∧ ¬ ((⟨none, 0, []⟩ : State).run tenMinutes).AtMostOne :=
  ⟨by decide, fun h => absurd (h 0 1 _ _ rfl rfl rfl rfl) (by decide)⟩

end State

end Wardence.SystemLock
