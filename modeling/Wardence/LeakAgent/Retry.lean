import Wardence.LeakAgent.DeadMan
/-!
# The target that ran out of memory

`lastFailedTargetMb` keeps `handleAllocate` from setting the failed target again. The
target is still set, and the worker, which does not read the field, goes on with it.
-/
namespace Wardence.LeakAgent.Retry

open Threads hiding State Move
open Code Passes

/-- The loops, what the worker's pass has read, the target whose allocation failed last, and whether the
worker has tried it again. -/
structure Watch where
  st : State World Stmt Loop
  read : List World
  failed : Option Int
  retried : Bool

/-- The worker is about to allocate a chunk. -/
def attempts (st : State World Stmt Loop) : Bool := st.next .worker = some (.allocate .chunk)

/-- The target that the worker remembers as failed. -/
def remembered (st : State World Stmt Loop) : Option Int :=
  match st.next .worker with
  | some (.setNum .lastFailedTargetMb t) => some t
  | _ => none

/-- The target that a command's handler sets; a release sets the other targets next. -/
def handled (cfg : Config) (st : State World Stmt Loop) (i : Loop) : Option Int :=
  match st.next i with
  | some (.setTarget .targetMb x) =>
    if (Passes.move (agent cfg) st (.step i)).next i = some (.setTarget .nativeTargetBytes 0) then none else some x
  | _ => none

/-- What ends a failure: a command with another target, and a release that empties the list. -/
def ends (cfg : Config) (st : State World Stmt Loop) (i : Loop) (t : Int) : Bool :=
  (handled cfg st i).any (· ≠ t) || decide (st.next i = some .clearChunks)

def Watch.move (cfg : Config) (a : Watch) (m : Move Loop Event) : Watch where
  st := Passes.move (agent cfg) a.st m
  read :=
    match m with
    | .start .worker => if (a.st.rest .worker).isNone then [] else a.read
    | .step .worker => a.read ++ [a.st.world]
    | _ => a.read
  failed :=
    match m with
    | .fail .worker => if attempts a.st then remembered (Passes.move (agent cfg) a.st m) else a.failed
    | .step i => a.failed.filter fun t => !ends cfg a.st i t
    | .env (.governor n _ _) => if min n a.st.world.chunks = 0 then none else a.failed
    | _ => a.failed
  retried :=
    match m with
    | .step .worker | .fail .worker => a.retried || (attempts a.st && a.failed.isSome)
    | _ => a.retried

/-- The states of an agent all of whose moves meet `C`. -/
inductive Reached (cfg : Config) (C : Watch → Move Loop Event → Prop) : Watch → Prop
  | start (w : World) : Reached cfg C ⟨⟨w, fun _ => none⟩, [], none, false⟩
  | move {a m} : Reached cfg C a → C a m → Reached cfg C (a.move cfg m)

/-- `effCeilMb`. -/
def ceilingMb (cfg : Config) (wantMb governorCeilingMb : Int) : Int :=
  if 0 < governorCeilingMb then governorCeilingMb
  else max wantMb (if 0 < cfg.growthMbPerSec then cfg.maxMemory / (1024 * 1024) * 97 / 100 else wantMb)

/-- The worker's test, of the five fields in the order in which it reads them: it has a target and is not to
release, there is less than the ceiling, and no abort. -/
def lets (cfg : Config) : List World → Bool
  | [w₁, w₂, w₃, w₄, w₅] =>
    w₁.target .targetMb ≠ 0 ∧ w₂.currentState ≠ .releasing ∧
      w₄.num .allocatedBytes < ceilingMb cfg (w₁.target .targetMb) (w₃.num .governorCeilingMb) * 1024 * 1024 ∧
        w₅.abortAllocation = false
  | _ => false

/-- The worker's test stops it while a failure is outstanding. -/
def Watch.meets (cfg : Config) (a : Watch) : Move Loop Event → Bool
  | .step .worker => !(a.failed.isSome && lets cfg (a.read ++ [a.st.world]))
  | _ => true

/-! ## The worker's pass -/

/-- Where a chunk is allocated, the test was passed; where that fails, it is remembered. -/
def Guarded (cfg : Config) : {α : Type} → List World → Code World Stmt α → Prop
  | _, _, .done _ | _, _, .raise => True
  | _, ws, .act s k h => (s = .allocate .chunk → lets cfg ws = true) ∧
    (h = .raise ∨ ∃ n x k' h', h = .act (.setNum n x) k' h') ∧ (∀ w, Guarded cfg (ws ++ [w]) (k w)) ∧ Guarded cfg ws h
  | _, _, .loop .. => False

section Pass
variable {cfg : Config} {ws : List World} {α β : Type}

theorem guarded_graft {p : Code World Stmt α} {k : α → Code World Stmt β} (hp : Guarded cfg ws p)
    (hk : ∀ a ws', Guarded cfg ws' (k a)) : Guarded cfg ws (p.graft k .raise) := by
  induction p generalizing ws with
  | done a => exact hk a ws
  | raise => trivial
  | act s f h ihf ihh =>
    obtain ⟨hs, hh, hf, hg⟩ := hp
    refine ⟨hs, ?_, fun w => ihf w (hf w) hk, ihh hg hk⟩
    obtain rfl | ⟨n, x, k', h', rfl⟩ := hh
    · exact .inl rfl
    · exact .inr ⟨n, x, _, _, rfl⟩
  | loop => exact hp.elim

/-- A read, and what is made of it. -/
theorem guarded_get {f : World → β} {k : β → Code World Stmt α} (hk : ∀ w, Guarded cfg (ws ++ [w]) (k (f w))) :
    Guarded cfg ws (get f >>= k) :=
  ⟨nofun, .inl rfl, hk, trivial⟩

theorem guarded_stores {ss : List Stmt} (hs : .allocate .chunk ∉ ss) : Guarded cfg ws (stores ss) := by
  induction ss generalizing ws with
  | nil => trivial
  | cons s ss ih =>
    rw [List.mem_cons, not_or] at hs
    exact ⟨fun h => absurd h.symm hs.1, .inl rfl, fun w => ih hs.2, trivial⟩

theorem guarded_stamp (n : Num) : Guarded cfg ws (stamp n) := guarded_get fun _ => guarded_stores (by simp)

theorem guarded_ite {c : Prop} {_ : Decidable c} {p q : Code World Stmt α} (hp : c → Guarded cfg ws p)
    (hq : ¬ c → Guarded cfg ws q) : Guarded cfg ws (if c then p else q) := by
  split
  next h => exact hp h
  next h => exact hq h

theorem guarded_workerState (wantBytes ceilBytes : Int) (atRest : Bool) :
    Guarded cfg ws (workerState cfg wantBytes ceilBytes atRest) := by
  refine guarded_get fun _ => guarded_get fun _ => guarded_ite (fun _ => guarded_stores (by simp)) fun _ => ?_
  refine guarded_ite (fun _ => guarded_stores (by simp)) fun _ => guarded_ite (fun _ => guarded_stores (by simp)) fun _ => ?_
  exact guarded_ite (fun _ => guarded_stores (by simp)) fun _ => trivial

theorem guarded_worker : Guarded cfg [] (workerPass cfg) := by
  refine guarded_get fun w₁ => guarded_get fun w₂ => guarded_ite (fun _ => ?idle) fun hrun => ?run
  case idle =>
    refine guarded_get fun _ => guarded_ite (fun _ => ?_) fun _ => guarded_get fun _ => ?_
    · exact guarded_graft (guarded_stores (by simp)) fun _ _ => guarded_stamp _
    · refine guarded_ite (fun _ => guarded_stamp _) fun _ => ?_
      exact guarded_graft (guarded_stores (by simp)) fun _ _ => guarded_stamp _
  case run =>
    refine guarded_get fun w₃ => guarded_get fun w₄ => guarded_get fun w₅ => guarded_ite (fun htest => ?test) fun _ => ?rest
    case test =>
      refine ⟨fun _ => ?_, .inr ⟨_, _, _, _, rfl⟩, fun w => ?_, ?_⟩
      · rw [not_or] at hrun
        exact decide_eq_true ⟨hrun.2, hrun.1, htest⟩
      · refine guarded_get fun _ => guarded_graft (guarded_stores (by simp)) fun _ _ => ?_
        exact guarded_graft (guarded_stamp _) fun _ _ => guarded_workerState ..
      · exact guarded_graft (guarded_stores (by simp)) fun _ _ => guarded_stamp _
    case rest => exact guarded_graft (guarded_workerState ..) fun _ _ => guarded_stamp _

end Pass

/-! ## Every run -/

section Runs
variable {cfg : Config} {a : Watch} {m : Move Loop Event}

/-- What the moves keep. -/
structure Fresh (cfg : Config) (a : Watch) : Prop where
  rest : ∀ p, a.st.rest .worker = some p → Guarded cfg a.read p
  tried : attempts a.st = true → a.failed = none
  none : a.retried = false

theorem attempts_rest {st : State World Stmt Loop} (h : attempts st = true) :
    ∃ k g, st.rest .worker = some (.act (.allocate .chunk) k g) := by
  replace h : st.next .worker = some (.allocate .chunk) := of_decide_eq_true h
  unfold Passes.State.next at h
  split at h
  next s k g hr =>
    obtain rfl := Option.some.inj h
    exact ⟨k, g, hr⟩
  next => cases h

/-- A worker that is about to allocate a chunk has passed the test. -/
theorem Fresh.lets (h : ∀ p, a.st.rest .worker = some p → Guarded cfg a.read p) (ha : attempts a.st = true) :
    lets cfg a.read = true := by
  obtain ⟨k, g, hr⟩ := attempts_rest ha
  exact (h _ hr).1 rfl

theorem left_some {p q : Code World Stmt Unit} (h : left p = some q) : p = q := by
  cases p with
  | done | raise => cases h
  | act | loop => exact Option.some.inj h

theorem put_rest {st : State World Stmt Loop} {p q : Code World Stmt Unit} (h : (st.put .worker p).rest .worker = some q) :
    p = q := by
  have hput : (st.put .worker p).rest .worker = left p := by simp [Passes.State.put]
  exact left_some (hput.symm.trans h)

/-- The other loops and the environment leave the worker where it is. -/
theorem move_other (hs : m ≠ .start .worker) (hm : m ≠ .step .worker) (hf : m ≠ .fail .worker) :
    (Passes.move (agent cfg) a.st m).rest .worker = a.st.rest .worker := by
  have hput : ∀ (st : State World Stmt Loop) i p, i ≠ .worker → (st.put i p).rest .worker = st.rest .worker :=
    fun st i p hi => Function.update_of_ne hi.symm ..
  cases m with
  | start i =>
    have hi : i ≠ .worker := fun h => hs (congrArg _ h)
    simp only [Passes.move]
    split
    · exact hput _ _ _ hi
    · rfl
  | step i =>
    have hi : i ≠ .worker := fun h => hm (congrArg _ h)
    simp only [Passes.move]
    split
    · exact hput _ _ _ hi
    · exact hput _ _ _ hi
    · rfl
  | fail i =>
    have hi : i ≠ .worker := fun h => hf (congrArg _ h)
    simp only [Passes.move]
    split
    · exact hput _ _ _ hi
    · rfl
  | env e => rfl

/-- They end a failure, and do not make one. -/
theorem other_failed (hf : m ≠ .fail .worker) (h : a.failed = none) : (a.move cfg m).failed = none := by
  cases m with
  | start => exact h
  | step i => exact (congrArg (Option.filter _) h).trans rfl
  | fail i =>
    cases i with
    | worker => exact absurd rfl hf
    | _ => exact h
  | env e =>
    cases e with
    | governor n _ _ =>
      show (if _ then _ else _) = _
      split
      · rfl
      · exact h
    | _ => exact h

/-- What the loop reads, and whether it tries again, is the worker's. -/
theorem other_read (hs : m ≠ .start .worker) (hm : m ≠ .step .worker) (hf : m ≠ .fail .worker) :
    (a.move cfg m).read = a.read ∧ (a.move cfg m).retried = a.retried := by
  cases m with
  | start i | step i | fail i =>
    cases i with
    | worker => contradiction
    | _ => exact ⟨rfl, rfl⟩
  | env e => exact ⟨rfl, rfl⟩

theorem Fresh.other (h : Fresh cfg a) (hs : m ≠ .start .worker) (hm : m ≠ .step .worker) (hf : m ≠ .fail .worker) :
    Fresh cfg (a.move cfg m) := by
  have hrest : (a.move cfg m).st.rest .worker = a.st.rest .worker := move_other hs hm hf
  have ⟨hread, hretried⟩ : (a.move cfg m).read = a.read ∧ (a.move cfg m).retried = a.retried := other_read hs hm hf
  refine ⟨fun p hp => ?_, fun ha => ?_, hretried.trans h.none⟩
  · rw [hread]
    exact h.rest p (hrest.symm.trans hp)
  · refine other_failed hf (h.tried ?_)
    rw [attempts, Passes.State.next, hrest] at ha
    exact ha

theorem Fresh.start (h : Fresh cfg a) : Fresh cfg (a.move cfg (.start .worker)) := by
  have hmove : a.move cfg (.start .worker) =
      ⟨Passes.move (agent cfg) a.st (.start .worker), if (a.st.rest .worker).isNone then [] else a.read, a.failed, a.retried⟩ :=
    rfl
  cases hr : a.st.rest .worker with
  | some p =>
    have hst : Passes.move (agent cfg) a.st (.start .worker) = a.st := by simp [Passes.move, hr]
    rw [hmove, hst, hr]
    exact h
  | none =>
    have hst : Passes.move (agent cfg) a.st (.start .worker) = a.st.put .worker (workerPass cfg) := by
      simp [Passes.move, hr, agent, Loop.pass]
    have hread : (a.move cfg (.start .worker)).read = [] := by
      rw [hmove, hr]
      rfl
    refine ⟨fun p hp => ?_, fun ha => ?_, h.none⟩
    · obtain rfl := put_rest ((congrArg (·.rest .worker) hst).symm.trans hp)
      rw [hread]
      exact guarded_worker
    · obtain ⟨k, g, hk⟩ := attempts_rest ha
      exact absurd (put_rest ((congrArg (·.rest .worker) hst).symm.trans hk)) fun hw => by cases hw

/-- The worker is never at its allocation with the failure outstanding, so it does not try again. -/
theorem Fresh.not_retried (h : Fresh cfg a) : (a.retried || (attempts a.st && a.failed.isSome)) = false := by
  rw [h.none, Bool.false_or, Bool.and_eq_false_imp]
  intro ha
  rw [h.tried ha]
  rfl

theorem Fresh.step (h : Fresh cfg a) (hm : a.meets cfg (.step .worker) = true) : Fresh cfg (a.move cfg (.step .worker)) := by
  have hrest : ∀ p, (a.move cfg (.step .worker)).st.rest .worker = some p → Guarded cfg (a.read ++ [a.st.world]) p := by
    intro p hp
    cases hr : a.st.rest .worker with
    | none =>
      have hst : Passes.move (agent cfg) a.st (.step .worker) = a.st := by simp [Passes.move, hr]
      cases hr.symm.trans ((congrArg (·.rest .worker) hst).symm.trans hp)
    | some q =>
      have hq := h.rest q hr
      cases q with
      | done | raise =>
        have hst : Passes.move (agent cfg) a.st (.step .worker) = a.st := by simp [Passes.move, hr]
        obtain rfl := Option.some.inj (hr.symm.trans ((congrArg (·.rest .worker) hst).symm.trans hp))
        trivial
      | loop => exact hq.elim
      | act s k g =>
        have hst : (Passes.move (agent cfg) a.st (.step .worker)).rest .worker = left (k a.st.world) := by
          simp [Passes.move, hr, State.put]
        obtain rfl := left_some (hst.symm.trans hp)
        exact hq.2.2.1 _
  refine ⟨hrest, fun ha => ?_, h.not_retried⟩
  -- the test was passed, so no failure was outstanding
  have hlets : Retry.lets cfg (a.read ++ [a.st.world]) = true := Fresh.lets (a := a.move cfg (.step .worker)) hrest ha
  rw [Watch.meets, hlets, Bool.and_true, Bool.not_eq_true', Option.isSome_eq_false_iff, Option.isNone_iff_eq_none] at hm
  exact other_failed (fun hf => by cases hf) hm

theorem Fresh.fail (h : Fresh cfg a) : Fresh cfg (a.move cfg (.fail .worker)) := by
  have hrest : ∀ p, (a.move cfg (.fail .worker)).st.rest .worker = some p →
      Guarded cfg a.read p ∧ ∀ k g, p ≠ .act (.allocate .chunk) k g := by
    intro p hp
    cases hr : a.st.rest .worker with
    | none =>
      have hst : Passes.move (agent cfg) a.st (.fail .worker) = a.st := by simp [Passes.move, hr]
      cases hr.symm.trans ((congrArg (·.rest .worker) hst).symm.trans hp)
    | some q =>
      have hq := h.rest q hr
      cases q with
      | done | raise =>
        have hst : Passes.move (agent cfg) a.st (.fail .worker) = a.st := by simp [Passes.move, hr]
        obtain rfl := Option.some.inj (hr.symm.trans ((congrArg (·.rest .worker) hst).symm.trans hp))
        exact ⟨trivial, fun k g hg => by cases hg⟩
      | loop => exact hq.elim
      | act s k g =>
        have hst : (Passes.move (agent cfg) a.st (.fail .worker)).rest .worker = left g := by
          simp [Passes.move, hr, State.put]
        obtain rfl := left_some (hst.symm.trans hp)
        refine ⟨hq.2.2.2, ?_⟩
        rintro k' g' rfl
        obtain hg | ⟨n, x, k'', h', hg⟩ := hq.2.1 <;> cases hg
  refine ⟨fun p hp => (hrest p hp).1, fun ha => ?_, h.not_retried⟩
  obtain ⟨k, g, hr⟩ := attempts_rest ha
  exact absurd rfl ((hrest _ hr).2 k g)

theorem Fresh.move (h : Fresh cfg a) (hm : a.meets cfg m = true) : Fresh cfg (a.move cfg m) := by
  by_cases hs : m = .start .worker
  · subst hs
    exact h.start
  by_cases ht : m = .step .worker
  · subst ht
    exact h.step hm
  by_cases hf : m = .fail .worker
  · subst hf
    exact h.fail
  exact h.other hs ht hf

theorem fresh_reached (h : Reached cfg (fun a m => a.meets cfg m = true) a) : Fresh cfg a := by
  induction h with
  | start w => exact ⟨nofun, nofun, rfl⟩
  | move _ hm ih => exact ih.move hm

/-- A worker that its test stops while the failure is outstanding does not try the target again. -/
theorem failed_not_retried (h : Reached cfg (fun a m => a.meets cfg m = true) a) : a.retried = false := (fresh_reached h).none

end Runs

/-! ## Two runs -/

/-- An agent that has done nothing, with a command in the file. -/
def initial (line : String) : Watch := ⟨(started 2000 line false).st, [], none, false⟩

def plays (a : Watch) (ms : List (Move Loop Event)) : Watch := ms.foldl (Watch.move config) a

/-- Every move meets the condition. -/
def meetsAll (a : Watch) : List (Move Loop Event) → Bool
  | [] => true
  | m :: ms => a.meets config m && meetsAll (a.move config m) ms

theorem reached_plays {ms : List (Move Loop Event)} {a : Watch} (ha : Reached config (fun a m => a.meets config m = true) a)
    (hm : meetsAll a ms = true) : Reached config (fun a m => a.meets config m = true) (plays a ms) := by
  induction ms generalizing a with
  | nil => exact ha
  | cons m ms ih =>
    obtain ⟨h, hms⟩ := Bool.and_eq_true_iff.1 hm
    exact ih (ha.move h) hms

/-- The command is read, and the worker's first chunk of it fails. -/
def outOfMemory : List (Move Loop Event) :=
  passOf .control 20 ++ passOf .worker 5 ++ .fail .worker :: List.replicate 5 (.step .worker)

/-- A release command after the failure: the list was empty, and the worker has nothing to do. -/
def releasedAfter : List (Move Loop Event) :=
  outOfMemory ++ .env (.command (some ⟨["RELEASE"], 3000⟩)) :: passOf .control 30 ++ passOf .worker 10

theorem failed_not_retried_release :
    (plays (initial "ALLOCATE 300 ttl=60") releasedAfter).failed = some 300 ∧
      (plays (initial "ALLOCATE 300 ttl=60") releasedAfter).retried = false :=
  ⟨by decide +kernel, failed_not_retried (reached_plays (.start _) (by decide +kernel))⟩

/-- The worker's next pass allocates for the same target. -/
theorem failed_retried : ¬ ∀ a : Watch, Reached config (fun _ _ => True) a → a.retried = false := by
  intro h
  have hr : ∀ ms a, Reached config (fun _ _ => True) a → Reached config (fun _ _ => True) (plays a ms) := by
    intro ms
    induction ms with
    | nil => exact fun _ ha => ha
    | cons m ms ih => exact fun a ha => ih _ (ha.move trivial)
  have hf := h _ (hr (outOfMemory ++ passOf .worker 6) (initial "ALLOCATE 300 ttl=60") (.start _))
  exact absurd hf (by decide +kernel)

end Wardence.LeakAgent.Retry
