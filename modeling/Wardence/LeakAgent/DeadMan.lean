import Wardence.LeakAgent.Loops
/-!
# The dead-man switch

A command that outlives its ttl is released, and the control loop goes on reading it. Only
`handleAllocate` looks at the ttl: the other commands set their targets again.
-/
namespace Wardence.LeakAgent

open Threads hiding State Move
open Code Passes

/-- The loops, and whether the command in the file has been released for its ttl. -/
structure Agent where
  st : State World Stmt Loop
  released : Bool

/-- The command is one that the agent reads, and it is older than its ttl. -/
def CmdFile.expired (cfg : Config) (f : CmdFile) (now : Int) : Bool :=
  cfg.agentStartMs ≤ f.mtime &&
    match f.command with
    | .allocate _ ttlS | .native _ ttlS | .refLeak _ ttlS | .codeLeak _ ttlS | .churn _ _ ttlS _ _ | .graph _ _ _ ttlS _ =>
      ttlS < ageS now f.mtime
    | _ => false

/-- A loop is about to finish a release of the expired command. -/
def Agent.releases (cfg : Config) (a : Agent) (i : Loop) : Bool :=
  match a.st.world.file with
  | some f => decide (a.st.next i = some (.setError .ttlExpired)) && f.expired cfg a.st.world.now
  | none => false

def Agent.move (cfg : Config) (a : Agent) (m : Move Loop Event) : Agent where
  st := Passes.move (agent cfg) a.st m
  released := match m with
    | .step i => a.released || a.releases cfg i
    | .env (.command _) => false
    | _ => a.released

/-- The states of an agent all of whose moves meet `C`. -/
inductive Reached (cfg : Config) (C : Agent → Move Loop Event → Prop) : Agent → Prop
  | start (w : World) : Reached cfg C ⟨⟨w, fun _ => none⟩, false⟩
  | move {a m} : Reached cfg C a → C a m → Reached cfg C (a.move cfg m)

def Stmt.allocates : Stmt → Prop
  | .allocate _ => True
  | _ => False

/-- After the release all targets are 0, and no loop is about to allocate. -/
def Agent.Off (a : Agent) : Prop :=
  a.released = true → (∀ t, a.st.world.target t = 0) ∧ ∀ i s, a.st.next i = some s → ¬ s.allocates

/-! ## The condition -/

/-- The command sets no target above 0, or its handler looks at the ttl. -/
def Command.harmless : Command → Prop
  | .native mb _ => bytesOf mb = 0
  | .refLeak count _ | .codeLeak count _ => max 0 count = 0
  | .churn mb _ _ staticMb _ => bytesOf mb = 0 ∧ staticMb < 0
  | .graph slotsK _ _ _ staticMb => slotsOf slotsK = 0 ∧ staticMb < 0
  | _ => True

/-- What a release leaves: no target, and the expired command `f` in the file. -/
structure Released (cfg : Config) (f : CmdFile) (w : World) : Prop where
  targets : ∀ t, w.target t = 0
  aborted : w.abortAllocation = true
  file : w.file = some f
  expired : f.expired cfg w.now = true

/-- Allocates, or sets a target above 0. -/
def Stmt.raises : Stmt → Prop
  | .allocate _ => True
  | .setTarget _ x => x ≠ 0
  | _ => False

/-- A move that finishes a release of the expired command `f` finds the command harmless, the targets
at 0, and in no loop's hand a target or a passed check of the ttl from before. -/
def Agent.Meets (cfg : Config) (a : Agent) (m : Move Loop Event) : Prop :=
  ∀ i f, m = .step i → a.releases cfg i = true → a.st.world.file = some f →
    f.command.harmless ∧ Settled Stmt.effect (Released cfg f) Stmt.raises a.st

/-! ## Passes after a release -/

section Passes
variable {cfg : Config} {f : CmdFile} {α β : Type} {Q : α → Prop}

abbrev Calm (cfg : Config) (f : CmdFile) (p : Routine α) (Q : α → Prop) : Prop :=
  Tame Stmt.effect (Released cfg f) Stmt.raises p Q

/-- Statements that leave a release as it is. -/
def Stmt.quiet : Stmt → Prop
  | .setTarget _ x => x = 0
  | .setAbort b => b = true
  | .allocate _ | .deleteFile => False
  | _ => True

theorem Stmt.quiet.released {s : Stmt} (hs : s.quiet) {w : World} (h : Released cfg f w) : Released cfg f (s.effect w) := by
  cases s with
  | setTarget t x =>
    refine ⟨fun t' => ?_, h.aborted, h.file, h.expired⟩
    rcases eq_or_ne t' t with rfl | ht
    · exact (Function.update_self (f := w.target) ..).trans hs
    · exact (Function.update_of_ne ht ..).trans (h.targets t')
  | setAbort b => exact ⟨h.targets, hs, h.file, h.expired⟩
  | allocate | deleteFile => exact hs.elim
  | _ => exact ⟨h.targets, h.aborted, h.file, h.expired⟩

theorem Stmt.quiet.not_raises {s : Stmt} (hs : s.quiet) : ¬ s.raises := by
  cases s with
  | setTarget t x => exact fun hx => hx hs
  | allocate => exact hs.elim
  | _ => exact id

theorem calm_stmt {s : Stmt} (hs : s.quiet) : Calm cfg f (stmt s) (Released cfg f) := Tame.stmt hs.not_raises fun _ => hs.released

theorem calm_stores {ss : List Stmt} (hs : ∀ s ∈ ss, s.quiet) : Calm cfg f (stores ss) fun _ => True := by
  induction ss with
  | nil => trivial
  | cons s ss ih =>
    exact (calm_stmt (hs s List.mem_cons_self)).bind fun _ _ => ih fun s hm => hs s (List.mem_cons_of_mem _ hm)

theorem calm_get (g : World → α) : Calm cfg f (get g) fun a => ∃ w, Released cfg f w ∧ g w = a :=
  (calm_stmt (s := .read) trivial).bind fun w hw => ⟨w, hw, rfl⟩

/-- A part of which nothing is to be known, and the rest. -/
theorem calm_then {p : Routine β} {k : β → Routine α} (hp : Calm cfg f p fun _ => True) (hk : ∀ b, Calm cfg f (k b) Q) :
    Calm cfg f (p >>= k) Q :=
  hp.bind fun b _ => hk b

/-- A read, and the rest. -/
theorem calm_read {g : World → β} {k : β → Routine α} (hk : ∀ w, Released cfg f w → Calm cfg f (k (g w)) Q) :
    Calm cfg f (get g >>= k) Q :=
  (calm_get g).bind fun b hb => by
    obtain ⟨w, hw, rfl⟩ := hb
    exact hk w hw

theorem calm_any (fs : List (World → Bool)) : Calm cfg f (anyOf fs) fun _ => True := by
  induction fs with
  | nil => trivial
  | cons g fs ih =>
    refine calm_read fun w _ => ?_
    split
    · trivial
    · exact ih

theorem calm_ite {c : Prop} {_ : Decidable c} {p q : Routine α} (hp : Calm cfg f p Q) (hq : Calm cfg f q Q) :
    Calm cfg f (if c then p else q) Q := by
  split
  · exact hp
  · exact hq

theorem calm_until {b : Routine (Option α)} (hb : Calm cfg f b fun o => ∀ x, o = some x → Q x) : Calm cfg f (untilSome b) Q :=
  ⟨hb, trivial⟩

theorem calm_io : Calm cfg f boundedIo fun r => ∀ w, r = some w → Released cfg f w :=
  ⟨id, fun w hw => ⟨hw, fun w' hw' => (by cases hw'; exact hw)⟩, fun w hw => by cases hw⟩

theorem calm_stamp (n : Num) : Calm cfg f (stamp n) fun _ => True := by
  refine calm_read fun w _ => calm_stores ?_
  simp [Stmt.quiet]

attribute [local simp] Stmt.quiet

theorem calm_request (r : Reason) : Calm cfg f (requestRelease r) fun _ => True := by
  refine calm_stores ?_
  simp [zeroTargets]

theorem calm_force (r : Reason) : Calm cfg f (forceRelease r) fun _ => True := by
  refine calm_stores ?_
  simp [zeroTargets]

/-! ## The handlers -/

theorem calm_readAt (mtime ttlS : Int) : Calm cfg f (readAt mtime ttlS) fun _ => True := by
  refine calm_stores ?_
  simp

theorem calm_static {staticMb : Int} (h : staticMb < 0) : Calm cfg f (applyStaticCompanion staticMb) fun _ => True := by
  unfold applyStaticCompanion
  rw [if_pos h]
  trivial

/-- One target and other fields. -/
theorem calm_target {t : Target} {x : Int} (hx : x = 0) : Calm cfg f (stores [.setTarget t x]) fun _ => True := by
  refine calm_stores ?_
  simpa using hx

theorem ageS_mono {now now' mtime : Int} (h : now ≤ now') : ageS now mtime ≤ ageS now' mtime :=
  Int.tdiv_le_tdiv (by decide) (by omega)

/-- The expired command is read again. -/
theorem calm_handle (h : f.command.harmless) : Calm cfg f (handle f.command f.mtime) fun _ => True := by
  cases hc : f.command with
  | empty =>
    refine calm_then (calm_any _) fun held => ?_
    split
    · exact calm_request _
    · trivial
  | release =>
    refine calm_read fun w _ => ?_
    split
    · refine calm_then (calm_stores ?_) fun _ => calm_request _
      simp
    · trivial
  | allocate reqMb ttlS =>
    refine calm_then (calm_readAt _ _) fun _ => calm_read fun w hw => ?_
    have hage : ttlS < ageS w.now f.mtime := by
      have he := hw.expired
      rw [CmdFile.expired, hc] at he
      simpa using (Bool.and_eq_true_iff.1 he).2
    rw [if_pos hage]
    exact calm_request _
  | native mb ttlS =>
    rw [hc] at h
    exact calm_then (calm_readAt _ _) fun _ => calm_target h
  | refLeak count ttlS =>
    rw [hc] at h
    exact calm_then (calm_readAt _ _) fun _ => calm_target h
  | codeLeak count ttlS =>
    rw [hc] at h
    exact calm_then (calm_readAt _ _) fun _ => calm_target h
  | churn mb holdMs ttlS staticMb dense =>
    rw [hc] at h
    refine calm_then (calm_readAt _ _) fun _ => calm_then (calm_stores ?_) fun _ => calm_static h.2
    simpa using h.1
  | graph slotsK writes edges ttlS staticMb =>
    rw [hc] at h
    refine calm_then (calm_readAt _ _) fun _ => calm_then (calm_stores ?_) fun _ => calm_static h.2
    simpa using h.1
  | ignored => trivial

/-! ## The loops -/

theorem calm_stuck (b : Bool) : Calm cfg f (ioStuck b) fun _ => True := by
  refine calm_stores ?_
  simp

theorem calm_readCommand (h : f.command.harmless) : Calm cfg f (readCommand cfg) fun _ => True := by
  refine calm_read fun w hw => ?_
  have hstart : cfg.agentStartMs ≤ f.mtime := by simpa using (Bool.and_eq_true_iff.1 hw.expired).1
  rw [hw.file]
  simp only [Option.map_some, Option.getD_some]
  rw [if_neg hstart.not_gt]
  refine calm_io.bind fun r hr => ?_
  cases r with
  | none => exact calm_stuck _
  | some w' =>
    simp only [Option.bind_some, (hr w' rfl).file]
    exact calm_handle h

theorem calm_control (h : f.command.harmless) : Calm cfg f (controlPass cfg) fun _ => True := by
  refine calm_then (calm_stamp _) fun _ => calm_io.bind fun r hr => ?_
  cases r with
  | none => exact calm_stuck _
  | some w =>
    refine calm_then (calm_stuck _) fun _ => ?_
    rw [(hr w rfl).file]
    exact calm_readCommand h

theorem calm_worker : Calm cfg f (workerPass cfg) fun _ => True := by
  refine calm_read fun w hw => calm_read fun w' _ => ?_
  rw [if_pos (.inr (hw.targets _))]
  refine calm_read fun a _ => ?_
  split
  · refine calm_then (calm_stores ?_) fun _ => calm_stamp _
    simp
  · refine calm_read fun b _ => ?_
    split
    · exact calm_stamp _
    · refine calm_then (calm_stores ?_) fun _ => calm_stamp _
      simp

theorem calm_flag (n : Flag) (b : Bool) : Calm cfg f (stores [.setFlag n b]) fun _ => True := by
  refine calm_stores ?_
  simp

theorem calm_watchTtl (now : Int) : Calm cfg f (watchTtl now) fun _ => True := by
  refine calm_read fun _ _ => ?_
  split
  · refine calm_read fun _ _ => calm_read fun _ _ => ?_
    split
    · refine calm_then (calm_any _) fun held => ?_
      split
      · exact calm_force _
      · trivial
    · trivial
  · trivial

theorem calm_watchdog : Calm cfg f watchdogPass fun _ => True := by
  refine calm_read fun _ _ => calm_read fun _ _ => calm_read fun _ _ => calm_read fun _ _ => ?_
  refine calm_then ?_ fun _ => calm_then ?_ fun _ => calm_watchTtl _
  · refine calm_read fun _ _ => ?_
    split
    · exact calm_then (calm_flag _ _) fun _ => calm_force _
    · exact calm_flag _ _
  · unfold watchControl
    split
    · refine calm_then (calm_flag _ _) fun _ => calm_read fun _ _ => ?_
      split
      · exact calm_force _
      · trivial
    · exact calm_flag _ _

theorem nativeAllocatedBytes_nonneg (w : World) : 0 ≤ w.nativeAllocatedBytes :=
  Int.mul_nonneg (Int.natCast_nonneg _) (by simp [NATIVE_CHUNK_BYTES])

theorem churnLiveBytes_nonneg (w : World) : 0 ≤ w.churnLiveBytes := Int.mul_nonneg (Int.natCast_nonneg _) (by simp [CHURN_CHUNK_BYTES])

theorem calm_growNative : Calm cfg f (growNative 0) fun _ => True := by
  refine calm_until (calm_read fun _ _ => calm_read fun w _ => ?_)
  have hpos : 0 < w.nativeAllocatedBytes + NATIVE_CHUNK_BYTES :=
    Int.add_pos_of_nonneg_of_pos (nativeAllocatedBytes_nonneg w) (by simp [NATIVE_CHUNK_BYTES])
  rw [if_neg fun h => h.2.not_gt hpos]
  exact fun x _ => trivial

theorem calm_shrinkNative (target : Int) : Calm cfg f (shrinkNative target) fun _ => True := by
  refine calm_until (calm_read fun w _ => calm_ite (calm_then (calm_stores ?_) fun _ => ?_) fun x _ => trivial)
  · simp
  · exact fun x hx => by cases hx

theorem calm_native : Calm cfg f (nativePass cfg) fun _ => True := by
  refine calm_read fun w hw => ?_
  rw [hw.targets]
  split
  · exact calm_then calm_growNative fun _ => calm_shrinkNative 0
  · trivial

theorem calm_growRefLeak (n : Nat) : Calm cfg f (growRefLeak 0 n) fun _ => True := by
  cases n with
  | zero => trivial
  | succ n =>
    refine calm_read fun w _ => ?_
    rw [if_neg (by omega)]
    trivial

theorem calm_shrinkRefLeak (target : Int) (n : Nat) : Calm cfg f (shrinkRefLeak target n) fun _ => True := by
  induction n with
  | zero => trivial
  | succ n ih =>
    refine calm_read fun w _ => ?_
    split
    · refine calm_then (calm_stores ?_) fun _ => ih
      simp
    · trivial

theorem calm_refLeak : Calm cfg f refLeakPass fun _ => True := by
  refine calm_read fun w hw => ?_
  rw [hw.targets]
  exact calm_then (calm_growRefLeak _) fun _ => calm_shrinkRefLeak _ _

theorem calm_codeLeak : Calm cfg f codeLeakPass fun _ => True := by
  refine calm_read fun w hw => calm_read fun w' _ => calm_read fun w'' _ => ?_
  rw [hw.targets, if_neg (by omega)]
  split
  · refine calm_stores ?_
    simp
  · trivial

theorem calm_topUp (n : Nat) : Calm cfg f (topUpChurn 0 n) fun _ => True := by
  cases n with
  | zero => trivial
  | succ n =>
    refine calm_read fun w _ => ?_
    have hpos : 0 < w.churnLiveBytes + CHURN_CHUNK_BYTES :=
      Int.add_pos_of_nonneg_of_pos (churnLiveBytes_nonneg w) (by simp [CHURN_CHUNK_BYTES])
    rw [if_neg hpos.not_ge]
    trivial

theorem calm_churn : Calm cfg f churnPass fun _ => True := by
  refine calm_read fun w hw => calm_read fun _ _ => calm_read fun _ _ => calm_read fun _ _ => ?_
  rw [hw.targets]
  refine calm_then (calm_until (calm_read fun w' _ => ?_)) fun _ => calm_topUp _
  split
  · exact fun x _ => trivial
  · split
    · refine calm_then (calm_stores ?_) fun _ => ?_
      · simp
      · exact fun x hx => by cases hx
    · exact fun x _ => trivial

theorem calm_graph : Calm cfg f graphPass fun _ => True := by
  refine calm_read fun w hw => ?_
  rw [hw.targets, if_pos le_rfl]
  refine calm_read fun w' _ => ?_
  split
  · refine calm_then (calm_stores ?_) fun _ => calm_stamp _
    simp
  · exact calm_stamp _

theorem calm_pass (h : f.command.harmless) (i : Loop) : Calm cfg f (i.pass cfg) fun _ => True := by
  cases i with
  | control => exact calm_control h
  | worker => exact calm_worker
  | watchdog => exact calm_watchdog
  | native => exact calm_native
  | refLeak => exact calm_refLeak
  | codeLeak => exact calm_codeLeak
  | churn => exact calm_churn
  | graph => exact calm_graph

end Passes

/-! ## Every run -/

section Runs
variable {cfg : Config} {a : Agent}

/-- While the released command is in the file, no loop leaves the release. -/
theorem move_settled {f : CmdFile} {m : Move Loop Event} (hf : f.command.harmless)
    (h : Settled Stmt.effect (Released cfg f) Stmt.raises a.st) (hm : ∀ g, m ≠ .env (.command g)) :
    Settled Stmt.effect (Released cfg f) Stmt.raises (a.move cfg m).st := by
  refine Settled.move (P := agent cfg) h (fun i => calm_pass hf i) m fun e he => ?_
  obtain ⟨ht, ha, hfile, hx⟩ := h.world
  cases e with
  | tick ms =>
    refine ⟨ht, ha, hfile, ?_⟩
    have hmono : ∀ ttlS, ttlS < ageS a.st.world.now f.mtime → ttlS < ageS (a.st.world.now + ms) f.mtime :=
      fun ttlS hlt => hlt.trans_le (ageS_mono (by omega))
    simp only [CmdFile.expired, Bool.and_eq_true, decide_eq_true_eq] at hx ⊢
    refine ⟨hx.1, ?_⟩
    cases hc : f.command <;> simp only [hc, decide_eq_true_eq] at hx ⊢
    all_goals first | exact hmono _ hx.2 | cases hx.2
  | heartbeat => exact ⟨ht, ha, hfile, hx⟩
  | governor => exact ⟨ht, ha, hfile, hx⟩
  | command g => exact absurd he (hm g)

/-- A release is left only with a new command, and entered only by finishing one. -/
theorem released_move {m : Move Loop Event} (hr : (a.move cfg m).released = true) :
    (∀ g, m ≠ .env (.command g)) ∧ (a.released = true ∨ ∃ i, m = .step i ∧ a.releases cfg i = true) := by
  cases m with
  | start | fail => exact ⟨fun _ => nofun, .inl hr⟩
  | step i => exact ⟨fun _ => nofun, (Bool.or_eq_true_iff.1 hr).imp id fun h => ⟨i, rfl, h⟩⟩
  | env e =>
    cases e with
    | command g => exact absurd hr Bool.false_ne_true
    | _ => exact ⟨fun _ => nofun, .inl hr⟩

theorem releases_file {i : Loop} (h : a.releases cfg i = true) : ∃ f, a.st.world.file = some f := by
  cases hf : a.st.world.file with
  | some f => exact ⟨f, rfl⟩
  | none =>
    rw [Agent.releases, hf] at h
    exact absurd h Bool.false_ne_true

theorem settled_reached (h : Reached cfg (Agent.Meets cfg) a) (hr : a.released = true) :
    ∃ f : CmdFile, f.command.harmless ∧ Settled Stmt.effect (Released cfg f) Stmt.raises a.st := by
  induction h with
  | start => exact absurd hr Bool.false_ne_true
  | move _ hm ih =>
    obtain ⟨hkeep, hr | ⟨i, rfl, hi⟩⟩ := released_move hr
    · obtain ⟨f, hf, hs⟩ := ih hr
      exact ⟨f, hf, move_settled hf hs hkeep⟩
    · obtain ⟨f, hfile⟩ := releases_file hi
      obtain ⟨hf, hs⟩ := hm i f rfl hi hfile
      exact ⟨f, hf, move_settled hf hs hkeep⟩

/-- After a release that meets the condition the targets stay 0 and no loop allocates. -/
theorem dead_man_switch (h : Reached cfg (Agent.Meets cfg) a) : a.Off := by
  intro hr
  obtain ⟨f, -, hs⟩ := settled_reached h hr
  refine ⟨hs.world.targets, fun i s hn hal => hs.next hn ?_⟩
  cases s with
  | allocate => trivial
  | _ => exact hal.elim

end Runs

/-! ## Two commands -/

def config : Config := ⟨1000, 0, 0, true⟩

/-- An agent that has done nothing, with a command in the file. -/
def started (now : Int) (line : String) (aborted : Bool) : Agent where
  st :=
    { world :=
        { now, file := some ⟨[line], 2000⟩, target := fun _ => 0, num := fun _ => 0, flag := fun _ => false,
          abortAllocation := aborted, currentState := .ready, lastError := none, chunks := 0, held := fun _ => 0,
          churnRing := [], graphBackbone := none }
      rest := fun _ => none }
  released := false

/-- `n` steps of one loop, from the beginning of a pass. -/
def passOf (i : Loop) (n : Nat) : List (Move Loop Event) := .start i :: List.replicate n (.step i)

def runs (a : Agent) (ms : List (Move Loop Event)) : Agent := ms.foldl (Agent.move config) a

/-- An agent whose leak is over reads the expired command once more. -/
def expired : Agent := started 72000 "ALLOCATE 8 ttl=60" true

theorem expired_settled : Settled Stmt.effect (Released config ⟨["ALLOCATE 8 ttl=60"], 2000⟩) Stmt.raises expired.st :=
  ⟨⟨fun _ => rfl, rfl, rfl, by decide +kernel⟩, fun _ _ h => by cases h⟩

theorem reached_settled {f : CmdFile} {a : Agent} (hf : f.command.harmless) {ms : List (Move Loop Event)}
    (hm : ∀ m ∈ ms, ∀ g, m ≠ .env (.command g)) (h : Reached config (Agent.Meets config) a)
    (hs : Settled Stmt.effect (Released config f) Stmt.raises a.st) : Reached config (Agent.Meets config) (runs a ms) := by
  induction ms generalizing a with
  | nil => exact h
  | cons m ms ih =>
    refine ih (fun m' hm' => hm m' (List.mem_cons_of_mem _ hm')) (h.move ?_) (move_settled hf hs (hm m List.mem_cons_self))
    intro i g _ _ hg
    obtain rfl : f = g := Option.some.inj (hs.world.file.symm.trans hg)
    exact ⟨hf, hs⟩

theorem dead_man_switch_over : (runs expired (passOf .control 30)).released = true ∧ (runs expired (passOf .control 30)).Off := by
  have hc : (⟨["ALLOCATE 8 ttl=60"], 2000⟩ : CmdFile).command = .allocate 8 60 := by decide +kernel
  have hf : (⟨["ALLOCATE 8 ttl=60"], 2000⟩ : CmdFile).command.harmless := by
    rw [hc]
    trivial
  have hm : ∀ m ∈ passOf .control 30, ∀ g, m ≠ .env (.command g) := by simp [passOf]
  exact ⟨by decide +kernel, dead_man_switch (reached_settled hf hm (.start _) expired_settled)⟩

/-- A command of native memory: allocated, released past its ttl, and read again. -/
def nativeAgain : List (Move Loop Event) :=
  passOf .control 20 ++ passOf .native 9 ++ .env (.tick 70000) :: passOf .watchdog 40 ++ passOf .control 20

/-- Every schedule is allowed. -/
theorem runs_reached {a : Agent} (ha : Reached config (fun _ _ => True) a) (ms : List (Move Loop Event)) :
    Reached config (fun _ _ => True) (runs a ms) := by
  induction ms generalizing a with
  | nil => exact ha
  | cons m ms ih => exact ih (ha.move trivial)

theorem native_again : ¬ ∀ a : Agent, Reached config (fun _ _ => True) a → a.Off := by
  intro h
  have hstart : Reached config (fun _ _ => True) (started 2000 "NATIVE 64 ttl=60" false) := .start _
  have hoff := h _ (runs_reached hstart nativeAgain) (by decide +kernel)
  exact absurd (hoff.1 .nativeTargetBytes) (by decide +kernel)

end Wardence.LeakAgent
