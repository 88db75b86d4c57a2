import Wardence.LeakAgent.Governor
/-!
# A clean status

The status shows `currentState`, `allocatedBytes` and `graphSlots`. The list of chunks is
changed under a lock, `allocatedBytes` after it and without the lock, and the backbone is
dropped by its own loop later.
-/
namespace Wardence.LeakAgent.Status

open Threads hiding State Move
open Code Passes

/-- Where `governorTrimTo` is; it holds the lock all the time. -/
inductive TrimPc where
  | test
  | remove
  | load
  | store (x : Int)
  | clamp
  | clampStore
  deriving DecidableEq, Repr

structure Trim where
  newCeilingBytes : Int
  pc : TrimPc
  deriving DecidableEq, Repr

/-- The loops, the governor's trim, and which loop has changed the list and not yet `allocatedBytes`. -/
structure Sys where
  st : State World Stmt Loop
  trim : Option Trim
  mid : Loop → Bool

/-- A move of a loop or around it, and the watchdog in `governorTick`. -/
inductive Step where
  | base (m : Move Loop Event)
  | trim (newCeilingMb : Int)
  | go
  | ceiling (governorCeilingMb : Int)

def World.bytes (w : World) : Int := w.num .allocatedBytes

def World.setBytes (w : World) (x : Int) : World := { w with num := Function.update w.num .allocatedBytes x }

/-- The next step of a trim. -/
def Trim.go (t : Trim) (w : World) : World × Option Trim :=
  match t.pc with
  | .test => (w, some { t with pc := if t.newCeilingBytes < World.bytes w ∧ 0 < w.chunks then .remove else .clamp })
  | .remove => ({ w with chunks := w.chunks - 1 }, some { t with pc := .load })
  | .load => (w, some { t with pc := .store (World.bytes w) })
  | .store x => (World.setBytes w (x - CHUNK_BYTES), some { t with pc := .test })
  | .clamp => (w, if World.bytes w < 0 then some { t with pc := .clampStore } else none)
  | .clampStore => (World.setBytes w 0, none)

/-- Statements inside the lock. -/
def locks : Stmt → Bool
  | .allocate .chunk | .clearChunks => true
  | _ => false

/-- A statement, and whether `allocatedBytes` is still to follow. -/
def midAfter (s : Stmt) (b : Bool) : Bool :=
  match s with
  | .allocate .chunk | .clearChunks => true
  | .setNum .allocatedBytes _ => false
  | _ => b

def Sys.move (cfg : Config) (a : Sys) : Step → Sys
  | .base (.env (.governor ..)) => a
  | .base (.start i) => if i = .watchdog ∧ a.trim.isSome = true then a else { a with st := Passes.move (agent cfg) a.st (.start i) }
  | .base (.step i) =>
    if a.trim.isSome = true ∧ (a.st.next i).any locks = true then a
    else
      { a with
        st := Passes.move (agent cfg) a.st (.step i)
        mid := Function.update a.mid i (((a.st.next i).map fun s => midAfter s (a.mid i)).getD (a.mid i)) }
  | .base (.fail i) => { a with st := Passes.move (agent cfg) a.st (.fail i), mid := Function.update a.mid i false }
  | .base m => { a with st := Passes.move (agent cfg) a.st m }
  | .trim newCeilingMb =>
    if a.trim = none ∧ (a.st.rest .watchdog).isNone = true then
      { a with trim := some ⟨max 0 newCeilingMb * 1024 * 1024, .test⟩ }
    else a
  | .go =>
    match a.trim with
    | some t => { a with st := { a.st with world := (t.go a.st.world).1 }, trim := (t.go a.st.world).2 }
    | none => a
  | .ceiling mb => { a with st := { a.st with world := (Stmt.setNum .governorCeilingMb mb).effect a.st.world } }

/-- The agent as it starts. -/
structure Fresh (w : World) : Prop where
  bytes : w.num .allocatedBytes = 0
  chunks : w.chunks = 0
  backbone : w.graphBackbone = none

/-- The states of an agent all of whose steps meet `C`. -/
inductive Reached (cfg : Config) (C : Sys → Step → Prop) : Sys → Prop
  | start (w : World) : Fresh w → Reached cfg C ⟨⟨w, fun _ => none⟩, none, fun _ => false⟩
  | move {a m} : Reached cfg C a → C a m → Reached cfg C (a.move cfg m)

def Resting (w : World) : Prop := w.currentState = .idle ∨ w.currentState = .ready

/-- `_is_clean` of the status. -/
def Clean (w : World) : Prop := Resting w ∧ World.bytes w / (1024 * 1024) = 0 ∧ w.target .graphSlots = 0

/-- Between the operations the count is right, and a clean status means that nothing is retained. -/
structure Honest (a : Sys) : Prop where
  counted : (∀ i, a.mid i = false) → a.trim = none → World.bytes a.st.world = a.st.world.chunks * CHUNK_BYTES
  clean : Clean a.st.world → a.st.world.chunks = 0 ∧ a.st.world.graphBackbone = none

/-- The operations on the list do not overlap and are not cut off; no chunk is appended in a resting state;
the backbone is gone before the state rests and the slots are 0, and not built after. -/
structure Sys.Meets (a : Sys) (m : Step) : Prop where
  apart : (∃ i, m = .base (.step i) ∧ (a.st.next i).any locks = true) ∨ (∃ mb, m = .trim mb) → a.trim = none →
    ∀ j, a.mid j = false
  whole : ∀ i, m = .base (.fail i) → a.mid i = false
  append : ∀ i, m = .base (.step i) → a.st.next i = some (.allocate .chunk) → ¬ Resting a.st.world
  rest : ∀ i, m = .base (.step i) → a.st.next i = some (.setState .idle) → a.st.world.target .graphSlots = 0 →
    a.st.world.graphBackbone = none
  drop : ∀ i, m = .base (.step i) → a.st.next i = some (.setTarget .graphSlots 0) → Resting a.st.world →
    a.st.world.graphBackbone = none
  build : ∀ i n, m = .base (.step i) → a.st.next i = some (.allocate (.backbone n)) → Resting a.st.world →
    a.st.world.target .graphSlots ≠ 0

/-! ## The loops' operations -/

/-- Where a loop is in an operation; `empty`: the worker knows that the list is. -/
inductive Op where
  | out
  | appended
  | loaded (x : Int)
  | cleared
  | empty
  deriving DecidableEq, Repr

/-- Leaves the list and its count, and does not come to rest. -/
def Apart : Stmt → Prop
  | .setNum .allocatedBytes _ | .allocate .chunk | .clearChunks | .setState .idle | .setState .ready => False
  | _ => True

/-- What a statement that runs in the world `w` does to the operation; `b`: it is the worker's. -/
inductive After (b : Bool) : Op → Stmt → World → Op → Prop
  | apart {s w} : Apart s → After b .out s w .out
  | append {w} : b = true → After b .out (.allocate .chunk) w .appended
  | clear {w} : After b .out .clearChunks w .cleared
  | known {w} : b = true → World.bytes w ≤ 0 → After b .out .read w .empty
  | load {w} : After b .appended .read w (.loaded (World.bytes w))
  | add {x w} : After b (.loaded x) (.setNum .allocatedBytes (x + CHUNK_BYTES)) w .out
  | zero {w} : After b .cleared (.setNum .allocatedBytes 0) w (if b then .empty else .out)
  | still {s w} : Apart s → After b .empty s w .empty
  | rest {w} : After b .empty (.setState .idle) w .empty

/-- `allocatedBytes` is still to follow. -/
def Op.mid : Op → Bool
  | .appended | .loaded _ | .cleared => true
  | .out | .empty => false

/-- The program keeps to the operations, and is cut off in none. -/
def Steady (b : Bool) : {α : Type} → Op → Code World Stmt α → Prop
  | _, o, .done _ | _, o, .raise => o.mid = false
  | _, o, .act s k h => (o.mid = false → Steady b o h) ∧ ∀ w, ∃ o', After b o s w o' ∧ Steady b o' (k w)
  | _, o, .loop c k h => o = .out ∧ c.Within Apart ∧ (∀ x, Steady b .out (k x)) ∧ Steady b .out h

section Passes
variable {α β : Type} {b : Bool}

/-- A part that leaves the list, and the rest. -/
theorem steady_graft {p : Routine β} {k : β → Routine α} {h : Routine α} (hp : p.Within Apart) (hk : ∀ a, Steady b .out (k a))
    (hh : Steady b .out h) : Steady b .out (p.graft k h) := by
  induction p with
  | done a => exact hk a
  | raise => exact hh
  | act s f g ihf ihg => exact ⟨fun _ => ihg hp.2.2 hk, fun w => ⟨.out, .apart hp.1, ihf w (hp.2.1 w) hk⟩⟩
  | loop c f g _ ihf ihg => exact ⟨rfl, hp.1, fun x => ihf x (hp.2.1 x) hk, ihg hp.2.2 hk⟩

theorem steady_within {p : Routine α} (hp : p.Within Apart) : Steady b .out p := by
  induction p with
  | done | raise => rfl
  | act s f g ihf ihg => exact ⟨fun _ => ihg hp.2.2, fun w => ⟨.out, .apart hp.1, ihf w (hp.2.1 w)⟩⟩
  | loop c f g _ ihf ihg => exact ⟨rfl, hp.1, fun x => ihf x (hp.2.1 x), ihg hp.2.2⟩

theorem within_boundedIo : boundedIo.Within Apart := ⟨trivial, fun _ => trivial, trivial⟩

theorem within_request (r : Reason) : (requestRelease r).Within Apart := within_stores (by simp [zeroTargets, Apart])

/-! ## The loops that leave the list -/

theorem within_static (staticMb : Int) : (applyStaticCompanion staticMb).Within Apart := by
  refine Within.ite trivial (Within.bind (within_stores (by simp [Apart])) fun _ => within_get trivial fun current => ?_)
  have hset : (stores [.setTarget .targetMb (toInt staticMb)]).Within Apart := within_stores (by simp [Apart])
  exact Within.ite (Within.bind (within_stores (by simp [freshTarget, Apart])) fun _ => hset) hset

theorem within_handle (c : Command) (mtime : Int) : (handle c mtime).Within Apart := by
  have hread : ∀ ttlS, (readAt mtime ttlS).Within Apart := fun ttlS => within_stores (by simp [Apart])
  cases c with
  | empty => exact Within.bind (within_any trivial _) fun held => Within.ite (within_request _) trivial
  | release =>
    refine within_get trivial fun last => Within.ite (Within.bind (within_stores (by simp [Apart])) fun _ => within_request _) trivial
  | allocate reqMb ttlS =>
    refine Within.bind (hread ttlS) fun _ => within_get trivial fun now => Within.ite (within_request _) ?_
    refine within_get trivial fun failed => Within.ite trivial (within_get trivial fun current => ?_)
    refine Within.bind (within_stores (by simp [Apart])) fun _ => Within.ite (within_stores (by simp [freshTarget, Apart])) trivial
  | native mb ttlS | refLeak count ttlS | codeLeak count ttlS =>
    exact Within.bind (hread ttlS) fun _ => within_stores (by simp [Apart])
  | churn mb holdMs ttlS staticMb dense =>
    exact Within.bind (hread ttlS) fun _ => Within.bind (within_stores (by simp [Apart])) fun _ => within_static staticMb
  | graph slotsK writesKPerSec edges ttlS staticMb =>
    exact Within.bind (hread ttlS) fun _ => Within.bind (within_stores (by simp [Apart])) fun _ => within_static staticMb
  | ignored => trivial

attribute [local simp] Apart

theorem within_stuck (x : Bool) : (ioStuck x).Within Apart := within_stores (by simp)

theorem within_control (cfg : Config) : (controlPass cfg).Within Apart := by
  refine Within.bind (within_stamp trivial fun _ => trivial) fun _ => Within.bind within_boundedIo fun r => ?_
  cases r with
  | none => exact within_stuck true
  | some w =>
    refine Within.bind (within_stuck false) fun _ => Within.ite ?_ ?_
    · refine within_get trivial fun mtime => Within.ite ⟨trivial, fun _ => trivial, trivial⟩ ?_
      refine Within.bind within_boundedIo fun r => ?_
      cases r.bind (·.file) with
      | none => exact within_stuck true
      | some f => exact within_handle f.command mtime
    · exact Within.bind (within_any trivial _) fun held => within_get trivial fun state => Within.ite (within_request _) trivial

theorem within_native (cfg : Config) : (nativePass cfg).Within Apart := by
  refine within_get trivial fun target => Within.ite (Within.bind (Within.untilSome ?_) fun _ => Within.untilSome ?_) trivial
  · refine within_get trivial fun failed => within_get trivial fun bytes => Within.ite ?_ trivial
    exact ⟨trivial, fun _ => trivial, Within.bind (within_stores (by simp)) fun _ => trivial⟩
  · exact within_get trivial fun bytes => Within.ite (Within.bind (within_stores (by simp)) fun _ => trivial) trivial

theorem within_refLeak : refLeakPass.Within Apart := by
  have hgrow : ∀ target n, (growRefLeak target n).Within Apart := by
    intro target n
    induction n with
    | zero => trivial
    | succ n ih => exact within_get trivial fun count => Within.ite ⟨trivial, fun _ => ih, within_stores (by simp)⟩ trivial
  have hshrink : ∀ target n, (shrinkRefLeak target n).Within Apart := by
    intro target n
    induction n with
    | zero => trivial
    | succ n ih =>
      exact within_get trivial fun count => Within.ite (Within.bind (within_stores (by simp)) fun _ => ih) trivial
  exact within_get trivial fun target => Within.bind (hgrow target _) fun _ => hshrink target _

theorem within_codeLeak : codeLeakPass.Within Apart := by
  have hgrow : ∀ target n, (growCodeLeak target n).Within Apart := by
    intro target n
    induction n with
    | zero => trivial
    | succ n ih => exact within_get trivial fun count => Within.ite ⟨trivial, fun _ => ih, within_stores (by simp)⟩ trivial
  refine within_get trivial fun target => within_get trivial fun count => within_get trivial fun failed => ?_
  exact Within.ite (hgrow _ _) (Within.ite (within_stores (by simp)) trivial)

theorem within_churn : churnPass.Within Apart := by
  have htop : ∀ target n, (topUpChurn target n).Within Apart := by
    intro target n
    induction n with
    | zero => trivial
    | succ n ih => exact within_get trivial fun live => Within.ite ⟨trivial, fun _ => ih, within_stores (by simp)⟩ trivial
  refine within_get trivial fun target => within_get trivial fun holdMs => within_get trivial fun dense =>
    within_get trivial fun now => Within.bind (Within.untilSome (within_get trivial fun head => ?_)) fun _ => htop _ _
  cases head with
  | none => trivial
  | some createdAt => exact Within.ite (Within.bind (within_stores (by simp)) fun _ => trivial) trivial

theorem within_graph : graphPass.Within Apart := by
  have hrewrite : ∀ n, (rewrite n).Within Apart := by
    intro n
    induction n with
    | zero => trivial
    | succ n ih => exact ⟨trivial, fun _ => ih, within_stores (by simp)⟩
  have hstamp : (stamp .graphLastTick).Within Apart := within_stamp trivial fun _ => trivial
  refine within_get trivial fun slots => Within.ite (within_get trivial fun backbone => ?_) (within_get trivial fun backbone => ?_)
  · exact Within.ite (Within.bind (within_stores (by simp)) fun _ => hstamp) hstamp
  · have hrest : (get (·.now) >>= fun now => get (·.num .graphLastTick) >>= fun lastTick => stores [.setNum .graphLastTick now] >>= fun _ =>
        get (·.num .graphWritesPerSec) >>= fun writesPerSec =>
          rewrite (min 200000 (writesPerSec * max 1 (min 200 (now - lastTick)) / 1000)).toNat).Within Apart :=
      within_get trivial fun now => within_get trivial fun lastTick => Within.bind (within_stores (by simp)) fun _ =>
        within_get trivial fun writesPerSec => hrewrite _
    exact Within.ite hrest (Within.bind (within_stores (by simp)) fun _ => hrest)

/-! ## The worker and the watchdog -/

theorem steady_force (r : Reason) : Steady false .out (forceRelease r) := by
  refine ⟨fun _ => rfl, fun _ => ⟨.cleared, .clear, nofun, fun _ => ⟨.out, .zero, steady_within (within_stores ?_)⟩⟩⟩
  simp [zeroTargets, Apart]

theorem steady_get {f : World → β} {k : β → Routine α} (hk : ∀ x, Steady b .out (k x)) : Steady b .out (get f >>= k) :=
  ⟨fun _ => rfl, fun w => ⟨.out, .apart trivial, hk (f w)⟩⟩

theorem steady_ite {c : Prop} {_ : Decidable c} {p q : Routine α} {o : Op} (hp : Steady b o p) (hq : Steady b o q) :
    Steady b o (if c then p else q) := by
  split
  · exact hp
  · exact hq

/-- Only the worker comes to know that the list is empty. -/
theorem After.of_empty {o : Op} {s : Stmt} {w : World} (h : After false o s w .empty) : o = .empty := by
  generalize he : Op.empty = e at h
  cases h with
  | known hb => cases hb
  | still | rest => rfl
  | zero => exact absurd he (by decide)
  | apart | append | clear | load | add => cases he

/-- A part of the watchdog, and the rest. -/
theorem steady_return {p : Routine β} {k : β → Routine α} {o : Op} (hk : ∀ a, Steady false .out (k a)) (ho : o ≠ .empty)
    (h : Steady false o p) : Steady false o (p.graft k .raise) := by
  induction p generalizing o with
  | done a =>
    cases o with
    | out => exact hk a
    | empty => exact absurd rfl ho
    | appended | loaded | cleared => cases h
  | raise => exact h
  | act s f g ihf ihg =>
    refine ⟨fun hm => ihg hk ho (h.1 hm), fun w => ?_⟩
    obtain ⟨o', ha, hs⟩ := h.2 w
    refine ⟨o', ha, ihf w hk ?_ hs⟩
    rintro rfl
    exact ho ha.of_empty
  | loop c f g _ ihf ihg => exact ⟨h.1, h.2.1, fun x => ihf x hk nofun (h.2.2.1 x), ihg hk nofun h.2.2.2⟩

theorem steady_then {p : Routine β} {k : β → Routine α} (hp : Steady false .out p) (hk : ∀ a, Steady false .out (k a)) :
    Steady false .out (p >>= k) :=
  steady_return hk nofun hp

theorem steady_watchdog : Steady false .out watchdogPass := by
  have hflag : ∀ f x, (stores [.setFlag f x]).Within Apart := fun f x => within_stores (by simp)
  refine steady_get fun now => steady_get fun heartbeatAt => steady_get fun controlLastRunAt => steady_get fun workerLastProgressAt => ?_
  refine steady_then ?_ fun _ => steady_then ?_ fun _ => ?_
  · refine steady_get fun state => steady_ite ?_ (steady_within (hflag _ _))
    exact steady_then (steady_within (hflag _ _)) fun _ => steady_force _
  · refine steady_ite ?_ (steady_within (hflag _ _))
    exact steady_then (steady_within (hflag _ _)) fun _ => steady_get fun allocated => steady_ite (steady_force _) (steady_within trivial)
  · refine steady_get fun mtime => steady_ite ?_ (steady_within trivial)
    refine steady_get fun mtime => steady_get fun ttlS => steady_ite ?_ (steady_within trivial)
    exact steady_then (steady_within (within_any trivial _)) fun held => steady_ite (steady_force _) (steady_within trivial)

theorem apart_state (x : Phase) (hi : x ≠ .idle) (hr : x ≠ .ready) : Apart (.setState x) := by
  cases x with
  | idle => exact absurd rfl hi
  | ready => exact absurd rfl hr
  | _ => trivial

/-- The worker's stamp, when it knows that the list is empty. -/
theorem steady_stamp : Steady true .empty (stamp .workerLastProgressAt) :=
  ⟨fun _ => rfl, fun _ => ⟨.empty, .still trivial, fun _ => rfl, fun _ => ⟨.empty, .still trivial, rfl⟩⟩⟩

theorem steady_worker (cfg : Config) : Steady true .out (workerPass cfg) := by
  have hstamp : (stamp .workerLastProgressAt).Within Apart := within_stamp trivial fun _ => trivial
  refine steady_get fun wantMb => steady_get fun state => steady_ite ?idle ?run
  case idle =>
    refine ⟨fun _ => rfl, fun w => ?_⟩
    rcases lt_or_ge 0 (World.bytes w) with hpos | hzero
    · refine ⟨.out, .apart trivial, ?_⟩
      show Steady true .out (if 0 < World.bytes w then _ else _)
      rw [if_pos hpos]
      refine ⟨fun _ => rfl, fun _ => ⟨.cleared, .clear, nofun, fun _ => ⟨.empty, .zero, fun _ => rfl, fun _ => ?_⟩⟩⟩
      exact ⟨.empty, .rest, steady_stamp⟩
    · refine ⟨.empty, .known rfl hzero, ?_⟩
      show Steady true .empty (if 0 < World.bytes w then _ else _)
      rw [if_neg hzero.not_gt]
      refine ⟨fun _ => rfl, fun _ => ⟨.empty, .still trivial, steady_ite steady_stamp ?_⟩⟩
      exact ⟨fun _ => rfl, fun _ => ⟨.empty, .rest, steady_stamp⟩⟩
  case run =>
    refine steady_get fun ceiling => steady_get fun allocated => steady_get fun aborted => steady_ite ?_ ?_
    · refine ⟨fun _ => steady_within (Within.bind (within_stores (by simp)) fun _ => hstamp), fun _ => ?_⟩
      refine ⟨.appended, .append rfl, nofun, fun w => ⟨.loaded (World.bytes w), .load, nofun, fun _ => ⟨.out, .add, ?_⟩⟩⟩
      refine steady_within (p := do
        stores [.setNum .lastFailedTargetMb (-1)]
        stamp .workerLastProgressAt
        workerState cfg _ _ false) ?_
      refine Within.bind (within_stores (by simp)) fun _ => Within.bind hstamp fun _ => within_workerState trivial apart_state ..
    · exact steady_within (Within.bind (within_workerState trivial apart_state ..) fun _ => hstamp)

theorem steady_pass (cfg : Config) (i : Loop) : Steady (i = .worker) .out (i.pass cfg) := by
  cases i with
  | worker => exact steady_worker cfg
  | watchdog => exact steady_watchdog
  | control => exact steady_within (within_control cfg)
  | native => exact steady_within (within_native cfg)
  | refLeak => exact steady_within within_refLeak
  | codeLeak => exact steady_within within_codeLeak
  | churn => exact steady_within within_churn
  | graph => exact steady_within within_graph

end Passes

/-! ## What the steps keep -/

/-- What an operation knows of the world. -/
def Op.Fits (w : World) : Op → Prop
  | .out => True
  | .appended => World.bytes w + CHUNK_BYTES = w.chunks * CHUNK_BYTES
  | .loaded x => x = World.bytes w ∧ World.bytes w + CHUNK_BYTES = w.chunks * CHUNK_BYTES
  | .cleared | .empty => w.chunks = 0

def Trim.Fits (w : World) (t : Trim) : Prop :=
  match t.pc with
  | .test | .clamp => World.bytes w = w.chunks * CHUNK_BYTES
  | .remove => World.bytes w = w.chunks * CHUNK_BYTES ∧ 0 < w.chunks
  | .load => World.bytes w = (w.chunks + 1) * CHUNK_BYTES
  | .store x => x = World.bytes w ∧ World.bytes w = (w.chunks + 1) * CHUNK_BYTES
  | .clampStore => False

/-- The world, and where the loops are in their operations. -/
structure Facts (w : World) (φ : Loop → Op) (mid : Loop → Bool) (trim : Option Trim) : Prop where
  agrees : ∀ i, mid i = (φ i).mid
  one : ∀ i, mid i = true → trim = none ∧ ∀ j, j ≠ i → mid j = false
  fits : ∀ i, (φ i).Fits w
  /-- The other loops do not append. -/
  worker : ∀ i, i ≠ .worker → φ i = .out ∨ φ i = .cleared
  counted : (∀ i, mid i = false) → trim = none → World.bytes w = w.chunks * CHUNK_BYTES
  trimming : ∀ t, trim = some t → t.Fits w
  rest : Resting w → w.chunks = 0
  dropped : Resting w → w.target .graphSlots = 0 → w.graphBackbone = none

section Facts
variable {w w' : World} {φ : Loop → Op} {mid : Loop → Bool} {trim : Option Trim} {i : Loop} {o : Op} {s : Stmt} {t : Trim}

/-- While nothing is in the middle of an operation, a loop's knowledge is at most that the list is empty. -/
theorem Facts.calm (h : Facts w φ mid trim) {j : Loop} (hm : mid j = false) : φ j = .out ∨ φ j = .empty := by
  have hj := (h.agrees j).symm.trans hm
  cases hφ : φ j with
  | out => exact .inl rfl
  | empty => exact .inr rfl
  | appended | loaded | cleared =>
    rw [hφ] at hj
    cases hj

theorem Facts.emptied (h : Facts w φ mid trim) (he : φ .worker = .empty) : w.chunks = 0 := by
  have hf := h.fits .worker
  rwa [he] at hf

theorem Facts.no_mid (h : Facts w φ mid trim) (ht : trim = some t) (j : Loop) : mid j = false := by
  rw [Bool.eq_false_iff]
  intro hj
  cases ht.symm.trans (h.one j hj).1

/-- Worlds that the status and the list do not tell apart. -/
structure Alike (w w' : World) : Prop where
  bytes : World.bytes w' = World.bytes w
  chunks : w'.chunks = w.chunks
  state : w'.currentState = w.currentState
  slots : w'.target .graphSlots = w.target .graphSlots
  backbone : w'.graphBackbone = w.graphBackbone

theorem Op.Fits.congr (hb : World.bytes w' = World.bytes w) (hc : w'.chunks = w.chunks) (h : o.Fits w) : o.Fits w' := by
  cases o with
  | out => trivial
  | appended | loaded =>
    simp only [Op.Fits] at h ⊢
    rw [hb, hc]
    exact h
  | cleared | empty => exact hc.trans h

theorem Trim.Fits.congr (hb : World.bytes w' = World.bytes w) (hc : w'.chunks = w.chunks) (h : t.Fits w) : t.Fits w' := by
  unfold Trim.Fits at h ⊢
  rw [hb, hc]
  exact h

/-- Only the state, the slots and the backbone may change. -/
theorem Facts.world (h : Facts w φ mid trim) (hb : World.bytes w' = World.bytes w) (hc : w'.chunks = w.chunks)
    (hr : Resting w' → w.chunks = 0) (hd : Resting w' → w'.target .graphSlots = 0 → w'.graphBackbone = none) :
    Facts w' φ mid trim :=
  ⟨h.agrees, h.one, fun i => (h.fits i).congr hb hc, h.worker, fun hm ht => by rw [hb, hc]; exact h.counted hm ht,
    fun t ht => (h.trimming t ht).congr hb hc, fun hr' => hc.trans (hr hr'), hd⟩

theorem Facts.alike (h : Facts w φ mid trim) (ha : Alike w w') : Facts w' φ mid trim := by
  have hrest : Resting w' → Resting w := fun hr => by rwa [Resting, ha.state] at hr
  refine h.world ha.bytes ha.chunks (fun hr => h.rest (hrest hr)) fun hr hs => ?_
  rw [ha.backbone]
  exact h.dropped (hrest hr) (ha.slots.symm.trans hs)

theorem bytes_num {n : Num} {x : Int} (hn : n ≠ .allocatedBytes) : World.bytes { w with num := Function.update w.num n x } = World.bytes w :=
  Function.update_of_ne (Ne.symm hn) ..

/-- A statement apart from the list, under the condition on the backbone. -/
theorem Facts.apart (h : Facts w φ mid trim) (hs : Apart s)
    (hdrop : s = .setTarget .graphSlots 0 → Resting w → w.graphBackbone = none)
    (hbuild : ∀ n, s = .allocate (.backbone n) → Resting w → w.target .graphSlots ≠ 0) : Facts (s.effect w) φ mid trim := by
  cases s with
  | setTarget x v =>
    refine h.world rfl rfl h.rest fun hr hv => ?_
    by_cases hx : x = .graphSlots
    · subst hx
      obtain rfl : v = 0 := by simpa [Stmt.effect] using hv
      exact hdrop rfl hr
    · exact h.dropped hr (by simpa [Stmt.effect, Ne.symm hx] using hv)
  | setNum n x =>
    have hn : n ≠ .allocatedBytes := by
      rintro rfl
      exact hs
    exact h.alike ⟨bytes_num hn, rfl, rfl, rfl, rfl⟩
  | setState x =>
    have hrest : ¬ Resting ((Stmt.setState x).effect w) := by
      rintro (rfl | rfl) <;> exact hs
    exact h.world rfl rfl (fun hr => absurd hr hrest) fun hr => absurd hr hrest
  | allocate x =>
    cases x with
    | chunk => exact hs.elim
    | backbone n => exact h.world rfl rfl h.rest fun hr hv => absurd hv (hbuild n rfl hr)
    | held | churn | graphNode => exact h.alike ⟨rfl, rfl, rfl, rfl, rfl⟩
  | clearChunks => exact hs.elim
  | dropBackbone => exact h.world rfl rfl h.rest fun _ _ => rfl
  | read | setFlag | setAbort | setError | drop | dropAll | evict | deleteFile => exact h.alike ⟨rfl, rfl, rfl, rfl, rfl⟩

theorem chunk_pos : (0 : Int) < CHUNK_BYTES := by decide

/-- A worker that reads no bytes sees an empty list. -/
theorem Facts.known (h : Facts w φ mid trim) (hm : mid .worker = false) (hb : World.bytes w ≤ 0) : w.chunks = 0 := by
  have hzero : (w.chunks : Int) * CHUNK_BYTES ≤ 0 → w.chunks = 0 := fun hle => by
    have := Int.nonpos_of_mul_nonpos_left hle chunk_pos
    omega
  by_cases hall : ∀ j, mid j = false
  · cases ht : trim with
    | none => exact hzero ((h.counted hall ht).symm.trans_le hb)
    | some t =>
      -- a trim removes a chunk before it counts it
      have hf := h.trimming t ht
      unfold Trim.Fits at hf
      split at hf
      · exact hzero (hf.symm.trans_le hb)
      · exact hzero (hf.symm.trans_le hb)
      · exact hzero (hf.1.symm.trans_le hb)
      · rw [hf, Int.add_mul, Int.one_mul] at hb
        exact hzero (by have := chunk_pos; omega)
      · rw [hf.2, Int.add_mul, Int.one_mul] at hb
        exact hzero (by have := chunk_pos; omega)
      · exact hf.elim
  · obtain ⟨j, hj⟩ := not_forall.1 hall
    have hne : j ≠ .worker := by
      rintro rfl
      exact hj hm
    rcases h.worker j hne with ho | hc
    · have := h.agrees j
      rw [ho] at this
      exact absurd this hj
    · have := h.fits j
      rwa [hc] at this

theorem Facts.update (h : Facts w φ mid trim) (hm : mid i = false) (ho : o.Fits w) (hmid : o.mid = false)
    (hw : i ≠ .worker → o = .out) : Facts w (Function.update φ i o) mid trim := by
  refine ⟨fun j => ?_, h.one, fun j => ?_, fun j hj => ?_, h.counted, h.trimming, h.rest, h.dropped⟩
  · rcases eq_or_ne j i with rfl | hne
    · rw [Function.update_self, hmid, hm]
    · rw [Function.update_of_ne hne, h.agrees j]
  · rcases eq_or_ne j i with rfl | hne
    · rwa [Function.update_self]
    · rw [Function.update_of_ne hne]
      exact h.fits j
  · rcases eq_or_ne j i with rfl | hne
    · rw [Function.update_self]
      exact .inl (hw hj)
    · rw [Function.update_of_ne hne]
      exact h.worker j hj

/-- A step on the list or its count, while nothing else is in the middle of an operation. -/
theorem Facts.turn (h : Facts w φ mid none) (hothers : ∀ j, j ≠ i → mid j = false) (ho : o.Fits w')
    (hw : i ≠ .worker → o = .out ∨ o = .cleared) (hempty : φ .worker = .empty → w'.chunks = 0)
    (hcount : o.mid = false → World.bytes w' = w'.chunks * CHUNK_BYTES)
    (hrest : Resting w' → w'.chunks = 0) (hdrop : Resting w' → w'.target .graphSlots = 0 → w'.graphBackbone = none) :
    Facts w' (Function.update φ i o) (Function.update mid i o.mid) none := by
  have hcalm : ∀ j, j ≠ i → φ j = .out ∨ φ j = .empty := fun j hj => h.calm (hothers j hj)
  refine ⟨fun j => ?agrees, fun j hj => ⟨rfl, fun k hk => ?one⟩, fun j => ?fits, fun j hj => ?worker, fun hm _ => ?_, nofun, hrest, hdrop⟩
  case agrees =>
    rcases eq_or_ne j i with rfl | hne
    · rw [Function.update_self, Function.update_self]
    · rw [Function.update_of_ne hne, Function.update_of_ne hne]
      exact h.agrees j
  case one =>
    rcases eq_or_ne j i with rfl | hne
    · rw [Function.update_of_ne hk]
      exact hothers k hk
    · rw [Function.update_of_ne hne, hothers j hne] at hj
      cases hj
  case fits =>
    rcases eq_or_ne j i with rfl | hne
    · rwa [Function.update_self]
    · rw [Function.update_of_ne hne]
      rcases hcalm j hne with hj | hj
      · rw [hj]
        trivial
      · rw [hj]
        by_cases hjw : j = .worker
        · subst hjw
          exact hempty hj
        · rcases h.worker j hjw with hx | hx <;> cases hj.symm.trans hx
  case worker =>
    rcases eq_or_ne j i with rfl | hne
    · rw [Function.update_self]
      exact hw hj
    · rw [Function.update_of_ne hne]
      exact h.worker j hj
  · exact hcount (by simpa using hm i)

@[simp] theorem bytes_setNum {x : Int} : World.bytes ((Stmt.setNum .allocatedBytes x).effect w) = x := by
  simp [World.bytes, Stmt.effect]

@[simp] theorem bytes_setBytes {x : Int} : World.bytes (World.setBytes w x) = x := by
  simp [World.bytes, World.setBytes]

theorem midAfter_apart {b : Bool} (hs : Apart s) : midAfter s b = b := by
  cases s with
  | allocate x =>
    cases x with
    | chunk => exact hs.elim
    | _ => rfl
  | setNum n x =>
    cases n with
    | allocatedBytes => exact hs.elim
    | _ => rfl
  | clearChunks => exact hs.elim
  | _ => rfl

/-- A statement of a loop, by where the loop is. -/
theorem Facts.after (h : Facts w φ mid trim) (ha : After (i = .worker) (φ i) s w o)
    (hlock : locks s = true → (∀ j, mid j = false) ∧ trim = none) (happend : s = .allocate .chunk → ¬ Resting w)
    (hrest : s = .setState .idle → w.target .graphSlots = 0 → w.graphBackbone = none)
    (hdrop : s = .setTarget .graphSlots 0 → Resting w → w.graphBackbone = none)
    (hbuild : ∀ n, s = .allocate (.backbone n) → Resting w → w.target .graphSlots ≠ 0) :
    Facts (s.effect w) (Function.update φ i o) (Function.update mid i (midAfter s (mid i))) trim := by
  -- the loop is in the middle of an operation: nothing else is
  have hmid : (φ i).mid = true → trim = none ∧ ∀ j, j ≠ i → mid j = false := fun hm => h.one i ((h.agrees i).trans hm)
  have hfit := h.fits i
  have hsame : ∀ {s : Stmt}, Apart s → Function.update mid i (midAfter s (mid i)) = mid := fun hs => by
    rw [midAfter_apart hs, Function.update_eq_self]
  generalize hφ : φ i = before at ha hmid hfit
  cases ha with
  | apart hs | still hs =>
    rw [hsame hs, Function.update_eq_self_iff.2 hφ.symm]
    exact h.apart hs hdrop hbuild
  | append hi =>
    obtain ⟨hm, rfl⟩ := hlock rfl
    obtain rfl : i = .worker := of_decide_eq_true hi
    have hnot := happend rfl
    refine h.turn (fun j _ => hm j) ?_ (absurd rfl) (fun he => ?_) nofun (fun hr => absurd hr hnot) fun hr => absurd hr hnot
    · show World.bytes w + CHUNK_BYTES = ((w.chunks + 1 : ℕ) : Int) * CHUNK_BYTES
      rw [h.counted hm rfl, Nat.cast_succ, Int.add_mul, Int.one_mul]
    · cases hφ.symm.trans he
  | clear =>
    obtain ⟨hm, rfl⟩ := hlock rfl
    exact h.turn (fun j _ => hm j) rfl (fun _ => .inr rfl) (fun _ => rfl) nofun (fun _ => rfl) h.dropped
  | known hi hb =>
    obtain rfl : i = .worker := of_decide_eq_true hi
    have hm : mid .worker = false := (h.agrees _).trans (congrArg Op.mid hφ)
    rw [hsame (s := .read) trivial]
    exact h.update hm (h.known hm hb) rfl (absurd rfl)
  | load =>
    obtain ⟨rfl, ho⟩ := hmid rfl
    have hm : mid i = true := (h.agrees i).trans (congrArg Op.mid hφ)
    rw [show midAfter .read (mid i) = true from hm]
    refine h.turn ho ⟨rfl, hfit⟩ (fun hi => ?_) h.emptied nofun h.rest h.dropped
    rcases h.worker i hi with hx | hx <;> cases hφ.symm.trans hx
  | add =>
    obtain ⟨rfl, ho⟩ := hmid rfl
    obtain ⟨rfl, hcount⟩ := hfit
    exact h.turn ho trivial (fun _ => .inl rfl) h.emptied (fun _ => bytes_setNum.trans hcount) h.rest h.dropped
  | zero =>
    obtain ⟨rfl, ho⟩ := hmid rfl
    have hcount : World.bytes ((Stmt.setNum .allocatedBytes 0).effect w) = w.chunks * CHUNK_BYTES := by
      rw [bytes_setNum, show w.chunks = 0 from hfit, Nat.cast_zero, Int.zero_mul]
    by_cases hi : i = .worker
    · rw [if_pos (decide_eq_true hi)]
      exact h.turn ho hfit (absurd hi) (fun _ => hfit) (fun _ => hcount) h.rest h.dropped
    · rw [if_neg (by simpa using hi)]
      exact h.turn ho trivial (fun _ => .inl rfl) (fun _ => hfit) (fun _ => hcount) h.rest h.dropped
  | rest =>
    rw [show midAfter (.setState .idle) (mid i) = mid i from rfl, Function.update_eq_self, Function.update_eq_self_iff.2 hφ.symm]
    exact h.world rfl rfl (fun _ => hfit) fun _ => hrest rfl

/-- A step of a trim: nothing is in the middle of an operation, and chunks only go. -/
theorem Facts.trimmed {trim' : Option Trim} (h : Facts w φ mid (some t)) (hc : w'.chunks ≤ w.chunks)
    (hstate : w'.currentState = w.currentState) (hslots : w'.target .graphSlots = w.target .graphSlots)
    (hback : w'.graphBackbone = w.graphBackbone) (ht : ∀ t', trim' = some t' → t'.Fits w')
    (hcount : trim' = none → World.bytes w' = w'.chunks * CHUNK_BYTES) : Facts w' φ mid trim' := by
  have hrest : Resting w' → Resting w := fun hr => by rwa [Resting, hstate] at hr
  have hzero : w.chunks = 0 → w'.chunks = 0 := fun hw => Nat.le_zero.1 (hw ▸ hc)
  refine ⟨h.agrees, fun j hj => ?_, fun j => ?_, h.worker, fun _ => hcount, ht, fun hr => hzero (h.rest (hrest hr)), fun hr hs => ?_⟩
  · rw [h.no_mid rfl j] at hj
    cases hj
  · rcases h.calm (h.no_mid rfl j) with hj | hj
    · rw [hj]
      trivial
    · have hf := h.fits j
      rw [hj] at hf ⊢
      exact hzero hf
  · rw [hback]
    exact h.dropped (hrest hr) (hslots.symm.trans hs)

theorem Facts.go (h : Facts w φ mid (some t)) : Facts (t.go w).1 φ mid (t.go w).2 := by
  have hf := h.trimming t rfl
  obtain ⟨limit, pc⟩ := t
  cases pc with
  | test =>
    refine h.trimmed le_rfl rfl rfl rfl (fun t' ht => ?_) nofun
    obtain rfl := Option.some.inj ht
    by_cases hc : limit < World.bytes w ∧ 0 < w.chunks
    · rw [if_pos hc]
      exact ⟨hf, hc.2⟩
    · rw [if_neg hc]
      exact hf
  | remove =>
    refine h.trimmed (Nat.sub_le ..) rfl rfl rfl (fun t' ht => ?_) nofun
    obtain rfl := Option.some.inj ht
    show World.bytes w = (((w.chunks - 1 : ℕ) : Int) + 1) * CHUNK_BYTES
    rw [hf.1, Nat.cast_sub hf.2, Nat.cast_one, Int.sub_add_cancel]
  | load =>
    refine h.trimmed le_rfl rfl rfl rfl (fun t' ht => ?_) nofun
    obtain rfl := Option.some.inj ht
    exact ⟨rfl, hf⟩
  | store x =>
    refine h.trimmed le_rfl rfl rfl rfl (fun t' ht => ?_) nofun
    obtain rfl := Option.some.inj ht
    obtain ⟨rfl, hb⟩ := hf
    show World.bytes (World.setBytes w (World.bytes w - CHUNK_BYTES)) = w.chunks * CHUNK_BYTES
    rw [bytes_setBytes, hb, Int.add_mul, Int.one_mul, Int.add_sub_cancel]
  | clamp =>
    have hpos : ¬ World.bytes w < 0 := by
      rw [show World.bytes w = w.chunks * CHUNK_BYTES from hf, not_lt]
      exact Int.mul_nonneg (Int.natCast_nonneg _) chunk_pos.le
    have hgo : Trim.go ⟨limit, .clamp⟩ w = (w, none) := congrArg (w, ·) (if_neg hpos)
    rw [hgo]
    exact h.trimmed le_rfl rfl rfl rfl nofun fun _ => hf
  | clampStore => exact hf.elim

end Facts

/-! ## Runs -/

/-- What every state reached satisfies. -/
structure Sys.Inv (a : Sys) (φ : Loop → Op) : Prop where
  facts : Facts a.st.world φ a.mid a.trim
  steady : ∀ i p, a.st.rest i = some p → Steady (i = .worker) (φ i) p
  between : ∀ i, a.st.rest i = none → (φ i).mid = false

section Runs
variable {a : Sys} {φ : Loop → Op} {w' : World} {mid' : Loop → Bool} {trim' : Option Trim} {i : Loop} {o : Op} {cfg : Config}

theorem Steady.unroll {α β : Type} {b : Bool} {o : Op} {c : Routine (Option β)} {k : β → Routine α} {h : Routine α}
    (hs : Steady b o (.loop c k h)) : Steady b .out (c.graft (again (.loop c k h) k) h) := by
  obtain ⟨-, hc, hk, hh⟩ := hs
  refine steady_graft hc (fun x => ?_) hh
  cases x with
  | none => exact ⟨rfl, hc, hk, hh⟩
  | some x => exact hk x

theorem Sys.Inv.world (h : a.Inv φ) (hf : Facts w' φ mid' trim') : Sys.Inv ⟨{ a.st with world := w' }, trim', mid'⟩ φ :=
  ⟨hf, h.steady, h.between⟩

/-- A loop goes on with `p`. -/
theorem Sys.Inv.put (h : a.Inv φ) {p : Routine Unit} (hf : Facts w' (Function.update φ i o) mid' trim')
    (hp : Steady (i = .worker) o p) :
    Sys.Inv ⟨({ a.st with world := w' } : Passes.State World Stmt Loop).put i p, trim', mid'⟩ (Function.update φ i o) := by
  refine ⟨hf, fun j q hq => ?_, fun j hj => ?_⟩
  · rcases eq_or_ne j i with rfl | hne
    · rw [Function.update_self]
      replace hq : left p = some q := by simpa [State.put] using hq
      cases p with
      | done | raise => cases hq
      | act | loop =>
        obtain rfl := Option.some.inj hq
        exact hp
    · rw [Function.update_of_ne hne]
      exact h.steady j q (by simpa [State.put, hne] using hq)
  · rcases eq_or_ne j i with rfl | hne
    · rw [Function.update_self]
      replace hj : left p = none := by simpa [State.put] using hj
      cases p with
      | done | raise => exact hp
      | act | loop => cases hj
    · rw [Function.update_of_ne hne]
      exact h.between j (by simpa [State.put, hne] using hj)

theorem Sys.Inv.start (h : a.Inv φ) (hr : a.st.rest i = none) :
    Sys.Inv { a with st := a.st.put i (i.pass cfg) } (Function.update φ i .out) :=
  h.put (h.facts.update ((h.facts.agrees i).trans (h.between i hr)) trivial rfl fun _ => rfl) (steady_pass cfg i)

theorem Sys.Inv.step (h : a.Inv φ) (hm : a.Meets (.base (.step i))) : ∃ φ', (a.move cfg (.base (.step i))).Inv φ' := by
  simp only [Sys.move]
  split
  · exact ⟨φ, h⟩
  rename_i hfree
  cases hr : a.st.rest i with
  | none =>
    have hn : a.st.next i = none := by rw [Passes.State.next, hr]
    simp only [Passes.move, hr, hn, Option.map_none, Option.getD_none, Function.update_eq_self]
    exact ⟨φ, h⟩
  | some p =>
    have hp := h.steady i p hr
    cases p with
    | done | raise =>
      have hn : a.st.next i = none := by rw [Passes.State.next, hr]
      simp only [Passes.move, hr, hn, Option.map_none, Option.getD_none, Function.update_eq_self]
      exact ⟨φ, h⟩
    | act s k g =>
      have hn : a.st.next i = some s := by rw [Passes.State.next, hr]
      obtain ⟨o, ha, hk⟩ := hp.2 a.st.world
      have hlock : locks s = true → (∀ j, a.mid j = false) ∧ a.trim = none := fun hl => by
        have hany : (a.st.next i).any locks = true := by
          rw [hn]
          exact hl
        have htrim : a.trim = none := by simpa [hany] using hfree
        exact ⟨hm.apart (.inl ⟨i, rfl, hany⟩) htrim, htrim⟩
      have hf := h.facts.after ha hlock
        (fun hs => hm.append i rfl (hn.trans (congrArg some hs))) (fun hs => hm.rest i rfl (hn.trans (congrArg some hs)))
        (fun hs => hm.drop i rfl (hn.trans (congrArg some hs))) fun n hs => hm.build i n rfl (hn.trans (congrArg some hs))
      simp only [Passes.move, hr, hn, Option.map_some, Option.getD_some]
      exact ⟨_, h.put hf hk⟩
    | loop c k g =>
      have hn : a.st.next i = none := by rw [Passes.State.next, hr]
      simp only [Passes.move, hr, hn, Option.map_none, Option.getD_none, Function.update_eq_self]
      have hf : Facts a.st.world (Function.update φ i .out) a.mid a.trim := by
        rw [Function.update_eq_self_iff.2 hp.1.symm]
        exact h.facts
      exact ⟨_, h.put hf hp.unroll⟩

theorem Sys.Inv.fail (h : a.Inv φ) (hm : a.Meets (.base (.fail i))) : ∃ φ', (a.move cfg (.base (.fail i))).Inv φ' := by
  have hmid : a.mid i = false := hm.whole i rfl
  have hsame : Function.update a.mid i false = a.mid := Function.update_eq_self_iff.2 hmid.symm
  simp only [Sys.move, hsame, Passes.move]
  split
  next s k g hr =>
    have hf : Facts a.st.world (Function.update φ i (φ i)) a.mid a.trim := by
      rw [Function.update_eq_self]
      exact h.facts
    exact ⟨_, h.put hf ((h.steady i _ hr).1 ((h.facts.agrees i).symm.trans hmid))⟩
  next => exact ⟨φ, h⟩

theorem Sys.Inv.move {m : Step} (h : a.Inv φ) (hm : a.Meets m) : ∃ φ', (a.move cfg m).Inv φ' := by
  cases m with
  | base m =>
    cases m with
    | start i =>
      simp only [Sys.move]
      split
      · exact ⟨φ, h⟩
      · cases hr : a.st.rest i with
        | none =>
          simp only [Passes.move, hr, Option.isNone_none, if_true]
          exact ⟨_, h.start hr⟩
        | some p =>
          simp only [Passes.move, hr, Option.isNone_some, Bool.false_eq_true, if_false]
          exact ⟨φ, h⟩
    | step i => exact h.step hm
    | fail i => exact h.fail hm
    | env e =>
      cases e with
      | tick | command => exact ⟨φ, h.world (h.facts.alike ⟨rfl, rfl, rfl, rfl, rfl⟩)⟩
      | heartbeat => exact ⟨φ, h.world (h.facts.alike ⟨bytes_num (by decide), rfl, rfl, rfl, rfl⟩)⟩
      | governor => exact ⟨φ, h⟩
  | trim mb =>
    simp only [Sys.move]
    split
    next hc =>
      have htrim : a.trim = none := hc.1
      have hmid := hm.apart (.inr ⟨mb, rfl⟩) htrim
      refine ⟨φ, ⟨?_, h.steady, h.between⟩⟩
      refine { h.facts with one := fun i hi => ?_, counted := fun _ ht => (by cases ht), trimming := fun t ht => ?_ }
      · rw [hmid i] at hi
        cases hi
      · obtain rfl := Option.some.inj ht
        exact h.facts.counted hmid htrim
    next => exact ⟨φ, h⟩
  | go =>
    cases ht : a.trim with
    | none =>
      simp only [Sys.move, ht]
      exact ⟨φ, h⟩
    | some t =>
      have hf := h.facts
      rw [ht] at hf
      simp only [Sys.move, ht]
      exact ⟨φ, h.world hf.go⟩
  | ceiling mb => exact ⟨φ, h.world (h.facts.alike ⟨bytes_num (by decide), rfl, rfl, rfl, rfl⟩)⟩

theorem inv (h : Reached cfg Sys.Meets a) : ∃ φ, a.Inv φ := by
  induction h with
  | start w hw =>
    refine ⟨fun _ => .out, ⟨⟨fun _ => rfl, nofun, fun _ => trivial, fun _ _ => .inl rfl, fun _ _ => ?_, nofun, fun _ => hw.chunks,
      fun _ _ => hw.backbone⟩, nofun, fun _ _ => rfl⟩⟩
    show World.bytes w = w.chunks * CHUNK_BYTES
    rw [World.bytes, hw.bytes, hw.chunks, Nat.cast_zero, Int.zero_mul]
  | move _ hm ih =>
    obtain ⟨φ, h⟩ := ih
    exact h.move hm

end Runs

/-- An agent that has done nothing, with a command in the file. -/
def fresh (line : String) : Sys := ⟨(started 3000 line false).st, none, fun _ => false⟩

def runs (a : Sys) (ms : List Step) : Sys := ms.foldl (Sys.move config) a

def passOf (i : Loop) (n : Nat) : List Step := .base (.start i) :: List.replicate n (.base (.step i))

theorem fresh_reached (C : Sys → Step → Prop) (line : String) : Reached config C (fresh line) := .start _ ⟨rfl, rfl, rfl⟩

/-- A graph is built and released, and the worker comes to rest before the loop that drops the backbone runs. -/
def restsFirst : List Step :=
  passOf .control 30 ++ passOf .graph 20 ++ .base (.env (.command (some ⟨["RELEASE"], 2500⟩))) :: passOf .control 30 ++ passOf .worker 20

/-- Every schedule is allowed. -/
theorem runs_reached {a : Sys} (ha : Reached config (fun _ _ => True) a) (ms : List (Step)) :
    Reached config (fun _ _ => True) (runs a ms) := by
  induction ms generalizing a with
  | nil => exact ha
  | cons m ms ih => exact ih (ha.move trivial)

end Wardence.LeakAgent.Status
