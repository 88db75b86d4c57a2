import Wardence.LeakAgent.Retry
/-!
# The governor

`governorTick` of the watchdog, between whole passes of the worker and whole commands. A
release lowers the ceiling by a step and trims what is retained; the ceiling 0 stands for
none.
-/
namespace Wardence.LeakAgent.Governor

open Threads hiding State Move
open Code Passes

def GOVERNOR_HIGH_STW_PCT : Int := 40
def GOVERNOR_LOW_STW_PCT : Int := 15
def GOVERNOR_ROLLING_WINDOW_MS : Int := 4000
def GOVERNOR_RELEASE_STEP_MB : Int := 10
def GOVERNOR_MIN_MS_BETWEEN_RELEASES : Int := 8000
def GOVERNOR_MIN_STABLE_LOW_MS : Int := 8000

structure Settings extends Config where
  governorPassive : Bool
  governorAbsHeapCeilingMib : Int

/-- What a tick reads of the JVM; a negative `lastPostGcHeapBytes`: there was no collection. -/
structure Reading where
  now : Int
  lastPostGcHeapBytes : Int
  stwPauseMsTotal : Int
  deriving DecidableEq, Repr

structure Gov where
  world : World
  govPrevStwMs : Int

/-- What a tick comes to. -/
inductive Found where
  | noTarget
  | nothing
  | baseline
  | release (absolute : Bool)
  | low
  | between
  deriving DecidableEq, Repr

section Tick
variable (s : Settings) (g : Gov) (r : Reading)

def effectiveCeiling (w : World) : Int := if 0 < w.num .governorCeilingMb then w.num .governorCeilingMb else w.target .targetMb

/-- The last release is long enough ago. -/
def spaced (w : World) : Bool := GOVERNOR_MIN_MS_BETWEEN_RELEASES ≤ r.now - w.num .governorLastReleaseAt

def curPostGcMib : Int := if r.lastPostGcHeapBytes < 0 then -1 else r.lastPostGcHeapBytes / (1024 * 1024)

def stwPct : Int := ((r.stwPauseMsTotal - g.govPrevStwMs) * 100).tdiv (r.now - g.world.num .govPrevStwSampledAt)

def found : Found :=
  if g.world.target .targetMb ≤ 0 then .noTarget
  else if s.governorAbsHeapCeilingMib ≤ curPostGcMib r ∧ spaced r g.world = true then .release true
  else if s.governorPassive then .nothing
  else if g.world.num .govPrevStwSampledAt = 0 then .baseline
  else if r.now - g.world.num .govPrevStwSampledAt < GOVERNOR_ROLLING_WINDOW_MS then .nothing
  else if GOVERNOR_HIGH_STW_PCT ≤ stwPct g r ∧ spaced r g.world = true then .release false
  else if stwPct g r < GOVERNOR_LOW_STW_PCT then .low
  else .between

/-- The loop of `governorTrimTo`: the chunks and `allocatedBytes`. -/
def trimLoop (newCeilingBytes : Int) : ℕ → Int → ℕ × Int
  | 0, allocatedBytes => (0, allocatedBytes)
  | n + 1, allocatedBytes =>
    if newCeilingBytes < allocatedBytes then trimLoop newCeilingBytes n (allocatedBytes - CHUNK_BYTES) else (n + 1, allocatedBytes)

def governorTrimTo (newCeilingMb : Int) (w : World) : World :=
  let x := trimLoop (max 0 newCeilingMb * 1024 * 1024) w.chunks (w.num .allocatedBytes)
  { w with chunks := x.1, num := Function.update w.num .allocatedBytes (max 0 x.2) }

def setNums (w : World) (ns : List (Num × Int)) : World := ns.foldl (fun w n => (Stmt.setNum n.1 n.2).effect w) w

def release (w : World) : World :=
  let newCeiling := max 0 (effectiveCeiling w - GOVERNOR_RELEASE_STEP_MB)
  setNums (governorTrimTo newCeiling w)
    [(.governorCeilingMb, newCeiling), (.governorLastReleaseAt, r.now), (.governorStableLowSinceMs, 0)]

def sampled : Gov := ⟨setNums g.world [(.govPrevStwSampledAt, r.now)], r.stwPauseMsTotal⟩

/-- A sample of few pauses: once they are few for long enough, the ceiling is the target again. -/
def recover (w : World) : World :=
  if w.num .governorStableLowSinceMs = 0 then setNums w [(.governorStableLowSinceMs, r.now)]
  else if GOVERNOR_MIN_STABLE_LOW_MS ≤ r.now - w.num .governorStableLowSinceMs ∧ spaced r w = true ∧
      effectiveCeiling w < w.target .targetMb then
    setNums w [(.governorCeilingMb, w.target .targetMb), (.governorStableLowSinceMs, 0)]
  else w

def governorTick : Gov :=
  match found s g r with
  | .noTarget => { g with world := setNums g.world [(.govPrevStwSampledAt, 0)] }
  | .nothing => g
  | .baseline => sampled g r
  | .release true => { g with world := release r g.world }
  | .release false => { sampled g r with world := release r (sampled g r).world }
  | .low => { sampled g r with world := recover r (sampled g r).world }
  | .between => { sampled g r with world := setNums (sampled g r).world [(.governorStableLowSinceMs, 0)] }

end Tick

/-! ## Calls -/

/-- A tick, a pass of the worker, a command, a release of the watchdog. -/
inductive Call where
  | tick (r : Reading)
  | worker (now : Int) (oom : Bool)
  | handle (now : Int) (c : Command) (mtime : Int)
  | force (r : Reason)

/-- The statements that raise. -/
def fails (oom : Bool) : Stmt → Bool
  | .allocate _ => oom
  | _ => false

def Gov.call (s : Settings) (g : Gov) : Call → Gov
  | .tick r => governorTick s g r
  | .worker now oom => { g with world := (exec Stmt.effect (fails oom) (workerPass s.toConfig) { g.world with now }).1 }
  | .handle now c mtime => { g with world := (exec Stmt.effect (fails false) (handle c mtime) { g.world with now }).1 }
  | .force r => { g with world := (exec Stmt.effect (fails false) (forceRelease r) g.world).1 }

/-- The agent, the ceiling of the last release until it may be passed, the time of the last release for this
target, and the times of the low samples in a row. -/
structure Watch where
  gov : Gov
  cap : Option Int
  releasedAt : Option Int
  lows : List Int

/-- There have been only low samples for long enough. -/
def Watch.recovered (a : Watch) (now : Int) : Bool := a.lows.any fun t => GOVERNOR_MIN_STABLE_LOW_MS ≤ now - t

def Watch.call (s : Settings) (a : Watch) (c : Call) : Watch :=
  let gov := a.gov.call s c
  match c with
  | .tick r =>
    match found s a.gov r with
    | .release _ => ⟨gov, some (max 0 (effectiveCeiling a.gov.world - GOVERNOR_RELEASE_STEP_MB)), some r.now, []⟩
    | .low => ⟨gov, if a.recovered r.now then none else a.cap, a.releasedAt, a.lows ++ [r.now]⟩
    | .between => ⟨gov, a.cap, a.releasedAt, []⟩
    | _ => ⟨gov, a.cap, a.releasedAt, a.lows⟩
  | .worker .. => ⟨gov, a.cap, a.releasedAt, a.lows⟩
  | .handle .. =>
    if gov.world.target .targetMb = a.gov.world.target .targetMb then ⟨gov, a.cap, a.releasedAt, a.lows⟩
    else ⟨gov, none, none, a.lows⟩
  | .force _ => ⟨gov, none, none, a.lows⟩

/-- The agent as it starts. -/
structure Fresh (w : World) : Prop where
  chunks : w.chunks = 0
  num : ∀ n ∈ [Num.allocatedBytes, .governorCeilingMb, .governorLastReleaseAt, .governorStableLowSinceMs, .govPrevStwSampledAt], w.num n = 0
  target : w.target .targetMb = 0

/-- The states after calls that all meet `C`. -/
inductive Reached (s : Settings) (C : Watch → Call → Prop) : Watch → Prop
  | start (w : World) : Fresh w → Reached s C ⟨⟨w, -1⟩, none, none, []⟩
  | call {a c} : Reached s C a → C a c → Reached s C (a.call s c)

def Watch.releases (s : Settings) (a : Watch) (r : Reading) : Prop := ∃ b, found s a.gov r = .release b

/-- A release frees a step and lowers the worker's ceiling by it; the worker stays below; releases are apart. -/
structure Governed (s : Settings) (a : Watch) (c : Call) : Prop where
  freed : ∀ r, c = .tick r → a.releases s r →
    (a.gov.world.chunks - (a.call s c).gov.world.chunks : Int) * CHUNK_BYTES ≤ GOVERNOR_RELEASE_STEP_MB * 1024 * 1024
  lowered : ∀ r, c = .tick r → a.releases s r →
    Retry.ceilingMb s.toConfig ((a.call s c).gov.world.target .targetMb) ((a.call s c).gov.world.num .governorCeilingMb) =
      max 0 (effectiveCeiling a.gov.world - GOVERNOR_RELEASE_STEP_MB)
  held : ∀ now oom cap, c = .worker now oom → a.cap = some cap → a.gov.world.chunks < (a.call s c).gov.world.chunks →
    (a.call s c).gov.world.chunks * CHUNK_BYTES ≤ cap * 1024 * 1024
  apart : ∀ r t, c = .tick r → a.releases s r → a.releasedAt = some t → GOVERNOR_MIN_MS_BETWEEN_RELEASES ≤ r.now - t

/-- A release finds a ceiling of more than a step, and no more retained than that. -/
def Watch.Meets (s : Settings) (a : Watch) (c : Call) : Prop :=
  ∀ r, c = .tick r → a.releases s r →
    GOVERNOR_RELEASE_STEP_MB < effectiveCeiling a.gov.world ∧
      a.gov.world.chunks * CHUNK_BYTES ≤ effectiveCeiling a.gov.world * 1024 * 1024

/-! ## What the other loops leave -/

/-- What is retained and the governor's fields are as they were. -/
structure Rests (w w' : World) : Prop where
  chunks : w'.chunks = w.chunks
  bytes : w'.num .allocatedBytes = w.num .allocatedBytes
  ceiling : w'.num .governorCeilingMb = w.num .governorCeilingMb
  releasedAt : w'.num .governorLastReleaseAt = w.num .governorLastReleaseAt
  low : w'.num .governorStableLowSinceMs = w.num .governorStableLowSinceMs

/-- And so is the target. -/
structure Same (w w' : World) : Prop extends Rests w w' where
  target : w'.target .targetMb = w.target .targetMb

theorem Rests.refl (w : World) : Rests w w := ⟨rfl, rfl, rfl, rfl, rfl⟩

theorem Rests.trans {u v w : World} (h : Rests u v) (h' : Rests v w) : Rests u w :=
  ⟨h'.chunks.trans h.chunks, h'.bytes.trans h.bytes, h'.ceiling.trans h.ceiling, h'.releasedAt.trans h.releasedAt,
    h'.low.trans h.low⟩

theorem Same.refl (w : World) : Same w w := ⟨Rests.refl w, rfl⟩

theorem Same.trans {u v w : World} (h : Same u v) (h' : Same v w) : Same u w :=
  ⟨h.toRests.trans h'.toRests, h'.target.trans h.target⟩

/-- Statements that leave them, the target apart. -/
def Spares : Stmt → Prop
  | .setNum n _ => n ∉ [Num.allocatedBytes, .governorCeilingMb, .governorLastReleaseAt, .governorStableLowSinceMs]
  | .allocate .chunk | .clearChunks => False
  | _ => True

/-- Statements that leave the target as well. -/
def Leaves (s : Stmt) : Prop := Spares s ∧ ∀ x, s ≠ .setTarget .targetMb x

theorem spares_rests {s : Stmt} {w : World} (h : Spares s) : Rests w (s.effect w) := by
  cases s with
  | setNum n x =>
    simp only [Spares, List.mem_cons, List.not_mem_nil, or_false, not_or] at h
    obtain ⟨h₁, h₂, h₃, h₄⟩ := h
    exact ⟨rfl, Function.update_of_ne (Ne.symm h₁) .., Function.update_of_ne (Ne.symm h₂) ..,
      Function.update_of_ne (Ne.symm h₃) .., Function.update_of_ne (Ne.symm h₄) ..⟩
  | allocate x =>
    cases x with
    | chunk => exact h.elim
    | _ => exact ⟨rfl, rfl, rfl, rfl, rfl⟩
  | clearChunks => exact h.elim
  | _ => exact ⟨rfl, rfl, rfl, rfl, rfl⟩

theorem leaves_same {s : Stmt} {w : World} (h : Leaves s) : Same w (s.effect w) := by
  refine ⟨spares_rests h.1, ?_⟩
  cases s with
  | setTarget t x =>
    rcases eq_or_ne t .targetMb with rfl | ht
    · exact absurd rfl (h.2 x)
    · exact Function.update_of_ne (Ne.symm ht) ..
  | allocate x => cases x <;> rfl
  | _ => rfl

section Exec
variable {α : Type} {oom : Bool} {w : World}

abbrev runs (oom : Bool) (p : Routine α) (w : World) : World := (exec Stmt.effect (fails oom) p w).1

theorem runs_rests {p : Routine α} (hp : p.Within Spares) : Rests w (runs oom p w) :=
  exec_frame Rests.refl Rests.trans (fun (s : Stmt) (_ : World) (h : Spares s) => spares_rests h) hp

theorem runs_same {p : Routine α} (hp : p.Within Leaves) : Same w (runs oom p w) :=
  exec_frame Same.refl Same.trans (fun (s : Stmt) (_ : World) (h : Leaves s) => leaves_same h) hp

def after (ss : List Stmt) (w : World) : World := ss.foldl (fun w s => s.effect w) w

theorem runs_stores_bind {ss : List Stmt} {k : Unit → Routine α} (hs : ∀ s ∈ ss, fails oom s = false) :
    runs oom (stores ss >>= k) w = runs oom (k ()) (after ss w) := by
  induction ss generalizing w with
  | nil => rfl
  | cons s ss ih =>
    refine (congrArg Prod.fst (exec_stmt (hs s List.mem_cons_self))).trans ?_
    exact ih fun s' hs' => hs s' (List.mem_cons_of_mem _ hs')

theorem runs_stores {ss : List Stmt} (hs : ∀ s ∈ ss, fails oom s = false) : runs oom (stores ss) w = after ss w := by
  have h := runs_stores_bind (w := w) (k := pure) hs
  rwa [bind_eq, show (pure : Unit → Routine Unit) = done from rfl, graft_self] at h

theorem leaves_read : Leaves .read := ⟨trivial, nofun⟩

/-! ## The worker -/

/-- What a pass of the worker does to what is retained. -/
inductive Worked (cfg : Config) (w w' : World) : Prop
  | same (chunks : w'.chunks = w.chunks) (bytes : w'.num .allocatedBytes = w.num .allocatedBytes)
  | cleared (chunks : w'.chunks = 0) (bytes : w'.num .allocatedBytes = 0)
  | added (chunks : w'.chunks = w.chunks + 1) (bytes : w'.num .allocatedBytes = w.num .allocatedBytes + CHUNK_BYTES)
    (below : w.num .allocatedBytes < Retry.ceilingMb cfg (w.target .targetMb) (w.num .governorCeilingMb) * 1024 * 1024)

/-- The worker leaves the target and the governor's fields. -/
structure Steers (w w' : World) : Prop where
  target : w'.target .targetMb = w.target .targetMb
  ceiling : w'.num .governorCeilingMb = w.num .governorCeilingMb
  releasedAt : w'.num .governorLastReleaseAt = w.num .governorLastReleaseAt
  low : w'.num .governorStableLowSinceMs = w.num .governorStableLowSinceMs

theorem Same.steers {w w' : World} (h : Same w w') : Steers w w' := ⟨h.target, h.ceiling, h.releasedAt, h.low⟩

theorem Same.worked {cfg : Config} {w w' : World} (h : Same w w') : Worked cfg w w' := .same h.chunks h.bytes

/-- A pass, and what only sets its state after it. -/
theorem Worked.then {cfg : Config} {u v x : World} (h : Steers u v ∧ Worked cfg u v) (hs : Same v x) :
    Steers u x ∧ Worked cfg u x := by
  obtain ⟨hst, hw⟩ := h
  refine ⟨⟨hs.target.trans hst.target, hs.ceiling.trans hst.ceiling, hs.releasedAt.trans hst.releasedAt, hs.low.trans hst.low⟩, ?_⟩
  cases hw with
  | same hc hb => exact .same (hs.chunks.trans hc) (hs.bytes.trans hb)
  | cleared hc hb => exact .cleared (hs.chunks.trans hc) (hs.bytes.trans hb)
  | added hc hb hlt => exact .added (hs.chunks.trans hc) (hs.bytes.trans hb) hlt

abbrev Works (cfg : Config) (oom : Bool) (w : World) (p : Routine α) : Prop :=
  Steers w (runs oom p w) ∧ Worked cfg w (runs oom p w)

theorem works_same {cfg : Config} {p : Routine α} (hp : p.Within Leaves) : Works cfg oom w p :=
  ⟨(runs_same hp).steers, (runs_same hp).worked⟩

theorem works_ite {cfg : Config} {c : Prop} {_ : Decidable c} {p q : Routine α} (hp : c → Works cfg oom w p)
    (hq : ¬ c → Works cfg oom w q) : Works cfg oom w (if c then p else q) := by
  split
  next h => exact hp h
  next h => exact hq h

variable (oom w) in
theorem worker_spec (cfg : Config) : Works cfg oom w (workerPass cfg) := by
  have hstamp : (stamp .workerLastProgressAt).Within Leaves := within_stamp leaves_read (by simp [Leaves, Spares])
  show Works cfg oom w (if w.currentState = .releasing ∨ w.target .targetMb = 0 then _ else _)
  refine works_ite (fun _ => ?idle) fun _ => ?run
  case idle =>
    show Works cfg oom w (if 0 < w.num .allocatedBytes then _ else _)
    refine works_ite (fun _ => ?_) fun _ => ?_
    · unfold Works
      rw [runs_stores_bind (by simp [fails])]
      refine Worked.then ⟨⟨?_, ?_, ?_, ?_⟩, .cleared ?_ ?_⟩ (runs_same hstamp) <;> simp [after, Stmt.effect]
    · refine works_same (within_get leaves_read fun _ => Within.ite hstamp ?_)
      exact (within_stores (by simp [Leaves, Spares])).graft (fun _ => hstamp) trivial
  case run =>
    show Works cfg oom w (if w.num .allocatedBytes < Retry.ceilingMb cfg (w.target .targetMb) (w.num .governorCeilingMb) * 1024 * 1024 ∧
      w.abortAllocation = false then _ else _)
    refine works_ite (fun htest => ?_) fun _ => ?_
    · cases oom with
      | true => exact works_same (p := do
          stores [.setNum .lastFailedTargetMb (w.target .targetMb), .setState .errorOom, .setError .other]
          stamp .workerLastProgressAt) ((within_stores (by simp [Leaves, Spares])).graft (fun _ => hstamp) trivial)
      | false =>
        have hadded : Steers w (after [.allocate .chunk, .setNum .allocatedBytes (w.num .allocatedBytes + CHUNK_BYTES),
            .setNum .lastFailedTargetMb (-1)] w) ∧ Worked cfg w (after [.allocate .chunk,
            .setNum .allocatedBytes (w.num .allocatedBytes + CHUNK_BYTES), .setNum .lastFailedTargetMb (-1)] w) := by
          refine ⟨⟨?_, ?_, ?_, ?_⟩, .added ?_ ?_ htest.1⟩ <;> simp [after, Stmt.effect, Site.effect]
        refine Worked.then hadded (runs_same (p := do
          stamp .workerLastProgressAt
          workerState cfg _ _ false) (hstamp.graft (fun _ => within_workerState leaves_read (by simp [Leaves, Spares]) ..) trivial))
    · exact works_same ((within_workerState leaves_read (by simp [Leaves, Spares]) ..).graft (fun _ => hstamp) trivial)

/-! ## Commands -/

/-- What a command does: what is retained stays, and for the same target all of the governor's fields. -/
structure Obeys (w w' : World) : Prop where
  chunks : w'.chunks = w.chunks
  bytes : w'.num .allocatedBytes = w.num .allocatedBytes
  low : w'.num .governorStableLowSinceMs = w.num .governorStableLowSinceMs ∨ w'.num .governorStableLowSinceMs = 0
  same : w'.target .targetMb = w.target .targetMb → Steers w w'

theorem Rests.obeys {w w' : World} (h : Rests w w') : Obeys w w' :=
  ⟨h.chunks, h.bytes, .inl h.low, fun ht => ⟨ht, h.ceiling, h.releasedAt, h.low⟩⟩

/-- First what leaves the target, too. -/
theorem Obeys.after {u v x : World} (hs : Same u v) (h : Obeys v x) : Obeys u x := by
  refine ⟨h.chunks.trans hs.chunks, h.bytes.trans hs.bytes, h.low.imp (·.trans hs.low) id, fun ht => ?_⟩
  have hst := h.same (ht.trans hs.target.symm)
  exact ⟨ht, hst.ceiling.trans hs.ceiling, hst.releasedAt.trans hs.releasedAt, hst.low.trans hs.low⟩

theorem obeys_ite {c : Prop} {_ : Decidable c} {p q : Routine α} (hp : c → Obeys w (runs oom p w))
    (hq : ¬ c → Obeys w (runs oom q w)) : Obeys w (runs oom (if c then p else q) w) := by
  split
  next h => exact hp h
  next h => exact hq h

theorem within_request (r : Reason) : (requestRelease r).Within Spares := within_stores (by simp [zeroTargets, Spares])

theorem obeys_request (r : Reason) : Obeys w (runs oom (requestRelease r) w) := (runs_rests (within_request r)).obeys

theorem after_rests {ss : List Stmt} (hs : ∀ s ∈ ss, Spares s) : Rests w (after ss w) := by
  induction ss generalizing w with
  | nil => exact Rests.refl w
  | cons s ss ih =>
    exact (spares_rests (hs s List.mem_cons_self)).trans (ih fun s' hs' => hs s' (List.mem_cons_of_mem _ hs'))

theorem after_same {ss : List Stmt} (hs : ∀ s ∈ ss, Leaves s) : Same w (after ss w) := by
  induction ss generalizing w with
  | nil => exact Same.refl w
  | cons s ss ih =>
    exact (leaves_same (hs s List.mem_cons_self)).trans (ih fun s' hs' => hs s' (List.mem_cons_of_mem _ hs'))

theorem obeys_stores {ss : List Stmt} {k : Unit → Routine α} (hs : ∀ s ∈ ss, Leaves s) (hf : ∀ s ∈ ss, fails oom s = false)
    (hk : ∀ w, Obeys w (runs oom (k ()) w)) : Obeys w (runs oom (stores ss >>= k) w) := by
  rw [runs_stores_bind hf]
  exact (hk _).after (after_same hs)

/-- A new target. -/
theorem obeys_fresh {u x : World} (hu : Rests w u) (hx : Rests (after freshTarget u) x)
    (hnew : x.target .targetMb ≠ w.target .targetMb) : Obeys w x := by
  have hbytes : (after freshTarget u).num .allocatedBytes = u.num .allocatedBytes := by simp [after, freshTarget, Stmt.effect]
  have hlow : (after freshTarget u).num .governorStableLowSinceMs = 0 := by simp [after, freshTarget, Stmt.effect]
  exact ⟨hx.chunks.trans hu.chunks, (hx.bytes.trans hbytes).trans hu.bytes, .inr (hx.low.trans hlow), fun ht => absurd ht hnew⟩

theorem obeys_allocate (reqMb ttlS mtime : Int) : Obeys w (runs oom (handleAllocate reqMb ttlS mtime) w) := by
  refine obeys_stores (by simp [Leaves, Spares]) (by simp [fails]) fun w => ?_
  show Obeys w (runs oom (if ttlS < ageS w.now mtime then _ else _) w)
  refine obeys_ite (fun _ => obeys_request _) fun _ => ?_
  show Obeys w (runs oom (if reqMb = w.num .lastFailedTargetMb then _ else _) w)
  refine obeys_ite (fun _ => (Rests.refl w).obeys) fun _ => ?_
  show Obeys w (runs oom (stores [.setAbort false, .setTarget .targetMb reqMb] >>= fun _ =>
    if reqMb ≠ w.target .targetMb then stores (freshTarget ++ [.setState .allocating]) else pure ()) w)
  rw [runs_stores_bind (by simp [fails])]
  by_cases hnew : reqMb = w.target .targetMb
  · rw [if_neg (not_not_intro hnew)]
    exact (after_rests (by simp [Spares])).obeys
  · rw [if_pos hnew, runs_stores (by simp [fails, freshTarget])]
    have htarget : Rests w (after [.setAbort false, .setTarget .targetMb reqMb] w) := after_rests (by simp [Spares])
    exact obeys_fresh htarget (spares_rests (s := .setState .allocating) trivial) hnew

theorem obeys_static (staticMb : Int) : Obeys w (runs oom (applyStaticCompanion staticMb) w) := by
  refine obeys_ite (fun _ => (Rests.refl w).obeys) fun _ => ?_
  refine obeys_stores (by simp [Leaves, Spares]) (by simp [fails]) fun w => ?_
  show Obeys w (runs oom (if toInt staticMb ≠ w.target .targetMb then _ else _) w)
  refine obeys_ite (fun hnew => ?_) fun _ => ?_
  · rw [runs_stores_bind (by simp [fails, freshTarget]), runs_stores (by simp [fails])]
    have htarget : Rests (after freshTarget w)
        (after [.setState .allocating, .setTarget .targetMb (toInt staticMb)] (after freshTarget w)) := after_rests (by simp [Spares])
    exact obeys_fresh (Rests.refl w) htarget hnew
  · exact (runs_rests (within_stores (by simp [Spares]))).obeys

variable (oom w) in
theorem handle_spec (c : Command) (mtime : Int) : Obeys w (runs oom (handle c mtime) w) := by
  cases c with
  | empty =>
    have hheld : (anythingHeld >>= fun held => if held then requestRelease .emptyCommandFile else pure ()).Within Spares :=
      (within_any (N := Spares) trivial _).graft (fun held => Within.ite (within_request _) trivial) trivial
    exact (runs_rests hheld).obeys
  | release =>
    show Obeys w (runs oom (if mtime ≠ w.num .lastReleaseCmdMtime then _ else _) w)
    refine obeys_ite (fun _ => ?_) fun _ => (Rests.refl w).obeys
    exact obeys_stores (by simp [Leaves, Spares]) (by simp [fails]) fun w => obeys_request _
  | allocate reqMb ttlS => exact obeys_allocate reqMb ttlS mtime
  | native mb ttlS | refLeak count ttlS | codeLeak count ttlS =>
    refine obeys_stores (by simp [Leaves, Spares]) (by simp [fails]) fun w => ?_
    exact (runs_rests (within_stores (by simp [Spares]))).obeys
  | churn mb holdMs ttlS staticMb dense =>
    refine obeys_stores (by simp [Leaves, Spares]) (by simp [fails]) fun w => ?_
    exact obeys_stores (by simp [Leaves, Spares]) (by simp [fails]) fun w => obeys_static staticMb
  | graph slotsK writesKPerSec edges ttlS staticMb =>
    refine obeys_stores (by simp [Leaves, Spares]) (by simp [fails]) fun w => ?_
    exact obeys_stores (by simp [Leaves, Spares]) (by simp [fails]) fun w => obeys_static staticMb
  | ignored => exact (Rests.refl w).obeys

end Exec

/-! ## Ticks -/

section Ticks
variable {s : Settings} {g : Gov} {r : Reading} {w : World}

/-- What is counted is what is retained. -/
def Counted (w : World) : Prop := w.num .allocatedBytes = w.chunks * CHUNK_BYTES

theorem trimLoop_counted (k n : ℕ) : trimLoop (k * CHUNK_BYTES) n (n * CHUNK_BYTES) = (min n k, (min n k : ℕ) * CHUNK_BYTES) := by
  induction n with
  | zero => simp [trimLoop]
  | succ n ih =>
    have hpos : (0 : Int) < CHUNK_BYTES := by decide
    unfold trimLoop
    split
    next hlt =>
      have hk : (k : Int) < (n + 1 : ℕ) := lt_of_mul_lt_mul_right hlt hpos.le
      have hsub : ((n + 1 : ℕ) : Int) * CHUNK_BYTES - CHUNK_BYTES = n * CHUNK_BYTES := by
        rw [Nat.cast_succ, Int.add_mul, Int.one_mul, Int.add_sub_cancel]
      rw [hsub, ih, min_eq_right (by omega), min_eq_right (by omega)]
    next hle =>
      have hk : ((n + 1 : ℕ) : Int) ≤ k := le_of_mul_le_mul_right (not_lt.1 hle) hpos
      rw [min_eq_left (by omega)]

/-- Chunks to a megabyte. -/
theorem mb_chunks (mb : ℕ) : (mb : Int) * 1024 * 1024 = (4 * mb : ℕ) * CHUNK_BYTES := by
  rw [CHUNK_BYTES]
  push_cast
  omega

theorem trim_chunks (h : Counted w) (mb : ℕ) : (governorTrimTo mb w).chunks = min w.chunks (4 * mb) ∧
    Counted (governorTrimTo mb w) := by
  have htrim : trimLoop (max 0 (mb : Int) * 1024 * 1024) w.chunks (w.num .allocatedBytes) =
      (min w.chunks (4 * mb), (min w.chunks (4 * mb) : ℕ) * CHUNK_BYTES) := by
    rw [max_eq_right (Int.natCast_nonneg mb), mb_chunks, h, trimLoop_counted]
  unfold Counted governorTrimTo
  rw [htrim]
  refine ⟨rfl, ?_⟩
  simp [CHUNK_BYTES]

/-- The new ceiling of a release. -/
def lowered (w : World) : Int := max 0 (effectiveCeiling w - GOVERNOR_RELEASE_STEP_MB)

theorem release_trim : ∃ mb : ℕ, (mb : Int) = lowered w ∧ (release r w).chunks = (governorTrimTo mb w).chunks ∧
    (release r w).num .allocatedBytes = (governorTrimTo mb w).num .allocatedBytes := by
  have hmb : ((lowered w).toNat : Int) = lowered w := Int.toNat_of_nonneg (le_max_left _ _)
  refine ⟨(lowered w).toNat, hmb, ?_, ?_⟩
  · rw [hmb]
    rfl
  · rw [hmb]
    simp [release, lowered, setNums, Stmt.effect]

theorem release_counted (h : Counted w) : Counted (release r w) := by
  obtain ⟨mb, -, hc, hb⟩ := release_trim (r := r) (w := w)
  rw [Counted, hc, hb]
  exact (trim_chunks h mb).2

/-- A release frees what is above the new ceiling. -/
theorem release_freed (h : Counted w) (hceil : w.chunks * CHUNK_BYTES ≤ effectiveCeiling w * 1024 * 1024) :
    (w.chunks - (release r w).chunks : Int) * CHUNK_BYTES ≤ GOVERNOR_RELEASE_STEP_MB * 1024 * 1024 := by
  obtain ⟨mb, hmb, hc, -⟩ := release_trim (r := r) (w := w)
  rw [hc, (trim_chunks h mb).1]
  simp only [lowered, GOVERNOR_RELEASE_STEP_MB, CHUNK_BYTES] at hmb hceil ⊢
  omega

theorem release_fields : (release r w).target .targetMb = w.target .targetMb ∧ (release r w).num .governorCeilingMb = lowered w ∧
    (release r w).num .governorLastReleaseAt = r.now ∧ (release r w).num .governorStableLowSinceMs = 0 := by
  refine ⟨?_, ?_, ?_, ?_⟩ <;> simp [release, lowered, setNums, governorTrimTo, Stmt.effect]

theorem effectiveCeiling_sampled : effectiveCeiling (sampled g r).world = effectiveCeiling g.world := by
  simp [effectiveCeiling, sampled, setNums, Stmt.effect]

theorem sampled_same : Same g.world (sampled g r).world := by
  refine ⟨⟨?_, ?_, ?_, ?_, ?_⟩, ?_⟩ <;> simp [sampled, setNums, Stmt.effect]

theorem found_spaced {b : Bool} (h : found s g r = .release b) :
    GOVERNOR_MIN_MS_BETWEEN_RELEASES ≤ r.now - g.world.num .governorLastReleaseAt := by
  have hsp : spaced r g.world = true := by
    unfold found at h
    split at h
    · cases h
    · split at h
      next habs => exact habs.2
      next =>
        split at h
        · cases h
        · split at h
          · cases h
          · split at h
            · cases h
            · split at h
              next hstw => exact hstw.2
              next =>
                split at h <;> cases h
  exact of_decide_eq_true hsp

/-- A release of the tick, and the fields before it. -/
theorem tick_release {b : Bool} (h : found s g r = .release b) :
    ∃ w, Same g.world w ∧ effectiveCeiling w = effectiveCeiling g.world ∧ (governorTick s g r).world = release r w := by
  unfold governorTick
  rw [h]
  cases b with
  | true => exact ⟨g.world, Same.refl _, rfl, rfl⟩
  | false => exact ⟨_, sampled_same, effectiveCeiling_sampled, rfl⟩

end Ticks

/-! ## Every run -/

section Runs
variable {s : Settings} {a : Watch} {c : Call}

/-- What the calls keep: the ceiling is in force, and the governor remembers what it did. -/
structure Kept (a : Watch) : Prop where
  counted : Counted a.gov.world
  cap : ∀ cap, a.cap = some cap → 0 < a.gov.world.num .governorCeilingMb ∧ a.gov.world.num .governorCeilingMb ≤ cap
  releasedAt : ∀ t, a.releasedAt = some t → a.gov.world.num .governorLastReleaseAt = t
  lows : a.gov.world.num .governorStableLowSinceMs ≠ 0 → a.gov.world.num .governorStableLowSinceMs ∈ a.lows

theorem Same.counted {w w' : World} (h : Same w w') (hc : Counted w) : Counted w' := by
  rw [Counted, h.bytes, h.chunks]
  exact hc

theorem call_gov : (a.call s c).gov = a.gov.call s c := by
  cases c with
  | tick r => cases h : found s a.gov r <;> simp only [Watch.call, h]
  | worker | force => rfl
  | handle =>
    simp only [Watch.call]
    split <;> rfl

/-- Where the shared fields stay. -/
theorem Kept.same (h : Kept a) {g : Gov} (hs : Same a.gov.world g.world) : Kept ⟨g, a.cap, a.releasedAt, a.lows⟩ := by
  refine ⟨hs.counted h.counted, ?_, ?_, ?_⟩
  · rw [hs.ceiling]
    exact h.cap
  · rw [hs.releasedAt]
    exact h.releasedAt
  · rw [hs.low]
    exact h.lows

theorem kept_release {r : Reading} {b : Bool} (h : Kept a) (hf : found s a.gov r = .release b)
    (hm : GOVERNOR_RELEASE_STEP_MB < effectiveCeiling a.gov.world) : Kept (a.call s (.tick r)) := by
  obtain ⟨w, hs, he, hw⟩ := tick_release hf
  have hcall : a.call s (.tick r) = ⟨governorTick s a.gov r, some (lowered a.gov.world), some r.now, []⟩ := by
    simp only [Watch.call, hf, Gov.call]
    rfl
  obtain ⟨-, hceil, hat, hlow⟩ := release_fields (r := r) (w := w)
  have hlowered : lowered w = lowered a.gov.world := by rw [lowered, lowered, he]
  have hpos : 0 < lowered a.gov.world := lt_max_of_lt_right (Int.sub_pos_of_lt hm)
  rw [hcall]
  refine ⟨?_, fun cap hcap => ?_, fun t ht => ?_, fun hne => ?_⟩
  · show Counted (governorTick s a.gov r).world
    rw [hw]
    exact release_counted (Same.counted hs h.counted)
  · obtain rfl := Option.some.inj hcap
    show 0 < (governorTick s a.gov r).world.num _ ∧ (governorTick s a.gov r).world.num _ ≤ _
    rw [hw, hceil, hlowered]
    exact ⟨hpos, le_rfl⟩
  · obtain rfl := Option.some.inj ht
    exact (congrArg (·.num .governorLastReleaseAt) hw).trans hat
  · exact absurd ((congrArg (·.num .governorStableLowSinceMs) hw).trans hlow) hne

theorem kept_low {r : Reading} (h : Kept a) (hf : found s a.gov r = .low) : Kept (a.call s (.tick r)) := by
  have hcall : a.call s (.tick r) =
      ⟨⟨recover r (sampled a.gov r).world, r.stwPauseMsTotal⟩, if a.recovered r.now then none else a.cap, a.releasedAt,
        a.lows ++ [r.now]⟩ := by
    simp only [Watch.call, hf, Gov.call, governorTick]
    rfl
  have hs := sampled_same (g := a.gov) (r := r)
  have hkept := h.same hs
  rw [hcall]
  have hcap : ∀ cap, (if a.recovered r.now then none else a.cap) = some cap → a.recovered r.now = false ∧ a.cap = some cap := by
    intro cap hc
    split at hc
    · cases hc
    next hr => exact ⟨Bool.eq_false_iff.2 hr, hc⟩
  unfold recover
  split
  next =>
    refine ⟨?_, fun cap hc => ?_, fun t ht => ?_, fun _ => ?_⟩
    · simpa [Counted, setNums, Stmt.effect] using hkept.counted
    · simpa [setNums, Stmt.effect] using hkept.cap cap (hcap cap hc).2
    · simpa [setNums, Stmt.effect] using hkept.releasedAt t ht
    · simp [setNums, Stmt.effect]
  next hne =>
    split
    next hrec =>
      -- the time of the first low sample is among those of the row
      have hmem := hkept.lows hne
      have hrecovered : a.recovered r.now = true := List.any_eq_true.2 ⟨_, hmem, decide_eq_true hrec.1⟩
      refine ⟨?_, fun cap hc => ?_, fun t ht => ?_, fun hne' => ?_⟩
      · simpa [Counted, setNums, Stmt.effect] using hkept.counted
      · cases hrecovered.symm.trans (hcap cap hc).1
      · simpa [setNums, Stmt.effect] using hkept.releasedAt t ht
      · simp [setNums, Stmt.effect] at hne'
    next =>
      refine ⟨hkept.counted, fun cap hc => hkept.cap cap (hcap cap hc).2, hkept.releasedAt, fun hne' => ?_⟩
      exact List.mem_append_left _ (hkept.lows hne')

theorem kept_tick (h : Kept a) (r : Reading) (hm : a.Meets s (.tick r)) : Kept (a.call s (.tick r)) := by
  cases hf : found s a.gov r with
  | release b => exact kept_release h hf (hm r rfl ⟨b, hf⟩).1
  | low => exact kept_low h hf
  | noTarget =>
    have hcall : a.call s (.tick r) = ⟨⟨setNums a.gov.world [(.govPrevStwSampledAt, 0)], a.gov.govPrevStwMs⟩, a.cap, a.releasedAt, a.lows⟩ := by
      simp only [Watch.call, hf, Gov.call, governorTick]
    rw [hcall]
    refine h.same ⟨⟨?_, ?_, ?_, ?_, ?_⟩, ?_⟩ <;> simp [setNums, Stmt.effect]
  | nothing =>
    have hcall : a.call s (.tick r) = a := by simp only [Watch.call, hf, Gov.call, governorTick]
    rwa [hcall]
  | baseline =>
    have hcall : a.call s (.tick r) = ⟨sampled a.gov r, a.cap, a.releasedAt, a.lows⟩ := by
      simp only [Watch.call, hf, Gov.call, governorTick]
    rw [hcall]
    exact h.same sampled_same
  | between =>
    have hcall : a.call s (.tick r) =
        ⟨⟨setNums (sampled a.gov r).world [(.governorStableLowSinceMs, 0)], r.stwPauseMsTotal⟩, a.cap, a.releasedAt, []⟩ := by
      simp only [Watch.call, hf, Gov.call, governorTick]
      rfl
    have hkept := h.same (sampled_same (g := a.gov) (r := r))
    rw [hcall]
    refine ⟨?_, fun cap hc => ?_, fun t ht => ?_, fun hne => ?_⟩
    · simpa [Counted, setNums, Stmt.effect] using hkept.counted
    · simpa [setNums, Stmt.effect] using hkept.cap cap hc
    · simpa [setNums, Stmt.effect] using hkept.releasedAt t ht
    · simp [setNums, Stmt.effect] at hne

theorem Worked.counted {cfg : Config} {w w' : World} (h : Worked cfg w w') (hc : Counted w) : Counted w' := by
  unfold Counted at hc ⊢
  cases h with
  | same hn hb => rw [hn, hb, hc]
  | cleared hn hb => rw [hn, hb, Nat.cast_zero, Int.zero_mul]
  | added hn hb => rw [hn, hb, hc, Nat.cast_succ, Int.add_mul, Int.one_mul]

theorem kept_call (h : Kept a) (hm : a.Meets s c) : Kept (a.call s c) := by
  cases c with
  | tick r => exact kept_tick h r hm
  | worker now oom =>
    obtain ⟨hst, hw⟩ := worker_spec oom { a.gov.world with now } s.toConfig
    refine ⟨hw.counted h.counted, fun cap hc => ?_, fun t ht => hst.releasedAt.trans (h.releasedAt t ht), fun hne => ?_⟩
    · rw [show (a.call s (.worker now oom)).gov.world.num .governorCeilingMb = _ from hst.ceiling]
      exact h.cap cap hc
    · rw [show (a.call s (.worker now oom)).gov.world.num .governorStableLowSinceMs = _ from hst.low] at hne ⊢
      exact h.lows hne
  | handle now c mtime =>
    have hob := handle_spec false { a.gov.world with now } c mtime
    have hcounted : Counted (runs false (handle c mtime) { a.gov.world with now }) := by
      rw [Counted, hob.bytes, hob.chunks]
      exact h.counted
    have hlows : ∀ x, x = (runs false (handle c mtime) { a.gov.world with now }).num .governorStableLowSinceMs → x ≠ 0 → x ∈ a.lows := by
      intro x hx hne
      rcases hob.low with hl | hl
      · rw [hx, hl] at hne ⊢
        exact h.lows hne
      · exact absurd (hx.trans hl) hne
    have hcall : a.call s (.handle now c mtime) =
        if (runs false (handle c mtime) { a.gov.world with now }).target .targetMb = a.gov.world.target .targetMb then
          ⟨⟨runs false (handle c mtime) { a.gov.world with now }, a.gov.govPrevStwMs⟩, a.cap, a.releasedAt, a.lows⟩
        else ⟨⟨runs false (handle c mtime) { a.gov.world with now }, a.gov.govPrevStwMs⟩, none, none, a.lows⟩ := rfl
    rw [hcall]
    split
    next ht =>
      have hst := hob.same ht
      refine ⟨hcounted, fun cap hc => ?_, fun t hrel => hst.releasedAt.trans (h.releasedAt t hrel), fun hne => hlows _ rfl hne⟩
      rw [hst.ceiling]
      exact h.cap cap hc
    next => exact ⟨hcounted, fun _ hc => (by cases hc), fun _ ht => (by cases ht), fun hne => hlows _ rfl hne⟩
  | force r =>
    have hforce : runs false (forceRelease r) a.gov.world =
        after ([.clearChunks, .setNum .allocatedBytes 0] ++ zeroTargets ++ [.setAbort true, .setState .watchdogRelease, .setError r])
          a.gov.world := runs_stores (by simp [fails, zeroTargets])
    have hcall : a.call s (.force r) = ⟨⟨runs false (forceRelease r) a.gov.world, a.gov.govPrevStwMs⟩, none, none, a.lows⟩ := rfl
    rw [hcall, hforce]
    refine ⟨?_, fun _ hc => (by cases hc), fun _ ht => (by cases ht), fun hne => ?_⟩
    · simp [Counted, after, zeroTargets, Stmt.effect]
    · have hlows := h.lows
      simp only [after, zeroTargets, List.cons_append, List.nil_append, List.foldl_cons, List.foldl_nil, Stmt.effect, ne_eq,
        reduceCtorEq, not_false_eq_true, Function.update_of_ne] at hne ⊢
      exact hlows hne

theorem kept_reached (h : Reached s (Watch.Meets s) a) : Kept a := by
  induction h with
  | start w hw =>
    refine ⟨?_, nofun, nofun, fun hne => absurd (hw.num _ (by simp)) hne⟩
    have hbytes : w.num .allocatedBytes = 0 := hw.num _ (by simp)
    simp [Counted, hbytes, hw.chunks]
  | call _ hm ih => exact kept_call ih hm

/-- Releases that meet the condition free a step, hold, and are apart. -/
theorem governor_holds (h : Reached s (Watch.Meets s) a) (hm : a.Meets s c) : Governed s a c := by
  have hkept := kept_reached h
  refine ⟨?_, ?_, ?_, ?_⟩
  · rintro r rfl ⟨b, hf⟩
    obtain ⟨w, hs, he, hw⟩ := tick_release hf
    obtain ⟨-, hretained⟩ := hm r rfl ⟨b, hf⟩
    rw [call_gov, show (a.gov.call s (.tick r)).world = release r w from hw, ← hs.chunks]
    refine release_freed (Same.counted hs hkept.counted) ?_
    rw [hs.chunks, he]
    exact hretained
  · rintro r rfl ⟨b, hf⟩
    obtain ⟨w, hs, he, hw⟩ := tick_release hf
    obtain ⟨-, hceil, -, -⟩ := release_fields (r := r) (w := w)
    have hpos : 0 < lowered w := by
      rw [lowered, he]
      exact lt_max_of_lt_right (Int.sub_pos_of_lt (hm r rfl ⟨b, hf⟩).1)
    rw [call_gov, show (a.gov.call s (.tick r)).world = release r w from hw, hceil, Retry.ceilingMb, if_pos hpos, lowered, he]
  · rintro now oom cap rfl hcap hgrown
    obtain ⟨hst, hw⟩ := worker_spec oom { a.gov.world with now } s.toConfig
    obtain ⟨hpos, hle⟩ := hkept.cap cap hcap
    cases hw with
    | same hn hb => exact absurd hn hgrown.ne'
    | cleared hn hb => exact absurd (hn ▸ hgrown : a.gov.world.chunks < 0) (Nat.not_lt_zero _)
    | added hn hb hlt =>
      -- both sides are whole chunks
      have hcounted := hkept.counted
      show ((runs oom (workerPass s.toConfig) { a.gov.world with now }).chunks : Int) * CHUNK_BYTES ≤ _
      rw [hn]
      rw [Retry.ceilingMb, if_pos hpos] at hlt
      replace hlt : a.gov.world.num .allocatedBytes < a.gov.world.num .governorCeilingMb * 1024 * 1024 := hlt
      rw [show a.gov.world.num .allocatedBytes = _ from hcounted] at hlt
      simp only [CHUNK_BYTES] at hlt ⊢
      push_cast
      omega
  · rintro r t rfl ⟨b, hf⟩ ht
    have hsp := found_spaced hf
    rw [hkept.releasedAt t ht] at hsp
    exact hsp

end Runs

/-! ## Two releases -/

def settings : Settings := { config with governorPassive := true, governorAbsHeapCeilingMib := 100 }

def idle : Watch := ⟨⟨(started 0 "" false).st.world, -1⟩, none, none, []⟩

/-- The heap after a collection is at the governor's limit. -/
def full : Reading := ⟨10000, 100 * 1024 * 1024, 0⟩

theorem fresh_idle : Fresh idle.gov.world := ⟨rfl, fun _ _ => rfl, rfl⟩

/-- A target of 30 MB, and its first chunk. -/
def retained : Watch := (idle.call settings (.handle 2000 (.allocate 30 60) 2000)).call settings (.worker 2000 false)

theorem governor_holds_release : Governed settings retained (.tick full) := by
  refine governor_holds (((Reached.start _ fresh_idle).call nofun).call nofun) fun r hr _ => ?_
  obtain rfl := Call.tick.inj hr
  decide +kernel

/-- From a ceiling of 8 MB a release sets the ceiling 0, and the worker has its whole target again. -/
theorem release_lifts : ¬ ∀ a c, Reached settings (fun _ _ => True) a → Governed settings a c := by
  intro h
  have hr := (Reached.start (s := settings) (C := fun _ _ => True) _ fresh_idle).call (c := .handle 2000 (.allocate 8 60) 2000) trivial
  have hrel : (idle.call settings (.handle 2000 (.allocate 8 60) 2000)).releases settings full := ⟨true, by decide +kernel⟩
  exact absurd ((h _ (.tick full) hr).lowered full rfl hrel) (by decide +kernel)

end Wardence.LeakAgent.Governor
