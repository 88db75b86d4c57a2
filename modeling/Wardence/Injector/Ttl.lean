import Wardence.Injector.Classes
/-!
# The leak's ttl and its hold

The agent gets `duration_s + 30` seconds with its `GRAPH`. The seconds of the ramp and of
the saturation come out of them before the hold begins.
-/
namespace Wardence.Injector

open Threads Code

/-- `ttl_s`. -/
def Args.ttlS (a : Args) : Int := a.durationS + 30

def isGraph (d : Did Reply Call) : Bool := d.stmt.op = .inject .leak

def isRelease (d : Did Reply Call) : Bool := d.stmt.op = .revert .leak

/-- The seconds a call takes, if it is a sleep. -/
def seconds : Did Reply Call → Nat
  | .ran ⟨.command (.sleep s), _⟩ _ => s
  | _ => 0

def slept (tr : Trace) : Nat := (tr.map seconds).sum

/-- A reading of the status until one shows that the ramp has begun. -/
def rampReading : Did Reply Call → Bool
  | .ran ⟨.read (.leakStatus (.ramp _)), _⟩ _ => true
  | _ => false

/-- A reading that does not show nine tenths of the target. -/
def unsaturated : Did Reply Call → Bool
  | .ran ⟨.read (.leakStatus .saturation), _⟩ x => !x.status.any fun s => MEMORY_LEAK_TARGET_MB * 9 / 10 ≤ s.allocatedMb.toInt
  | _ => false

/-- A tick of a hold that was not stopped before it. -/
def heldTick : Did Reply Call → Bool
  | .ran ⟨.read (.restartCount (some _)), _⟩ _ => true
  | _ => false

/-- At the `RELEASE` the `GRAPH` is no older than its ttl. -/
def Covers (a : Args) (tr : Trace) : Prop :=
  ∀ x g y u z, tr = x ++ g :: (y ++ u :: z) → isGraph g = true → isRelease u = true → (slept y : Int) ≤ a.ttlS

/-! ## Leg by leg -/

/-- A part of a run between `GRAPH` and `RELEASE`, with what it takes and what it reads. -/
structure Leg (l : Trace) (time ramp sat ticks : Nat) : Prop where
  time : slept l = time
  ramp : l.countP rampReading = ramp
  sat : l.countP unsaturated = sat
  ticks : l.countP heldTick = ticks
  between : ∀ d ∈ l, isGraph d = false ∧ isRelease d = false

section Legs
variable {l l' : Trace} {t t' r r' s s' k k' : Nat} {site : Site} {a : Args}

theorem Leg.append (h : Leg l t r s k) (h' : Leg l' t' r' s' k') : Leg (l ++ l') (t + t') (r + r') (s + s') (k + k') :=
  ⟨by simp [slept, ← h.time, ← h'.time], by simp [h.ramp, h'.ramp], by simp [h.sat, h'.sat], by simp [h.ticks, h'.ticks],
    List.forall_mem_append.2 ⟨h.between, h'.between⟩⟩

/-- A call that takes no time and reads nothing that is counted. -/
def Neutral (c : Call) : Prop :=
  match c.op with
  | .inject .leak | .revert .leak | .command (.sleep _) | .read (.leakStatus (.ramp _)) | .read (.leakStatus .saturation)
  | .read (.restartCount (some _)) => False
  | _ => True

theorem Neutral.counts {d : Did Reply Call} (h : Neutral d.stmt) :
    seconds d = 0 ∧ rampReading d = false ∧ unsaturated d = false ∧ heldTick d = false := by
  refine ⟨?_, ?_, ?_, ?_⟩
  · unfold seconds
    split
    · exact h.elim
    · rfl
  · unfold rampReading
    split
    · exact h.elim
    · rfl
  · unfold unsaturated
    split
    · exact h.elim
    · rfl
  · unfold heldTick
    split
    · exact h.elim
    · rfl

/-- Not `GRAPH`, and not `RELEASE`. -/
def Elsewhere (c : Call) : Prop := c.op ≠ .inject .leak ∧ c.op ≠ .revert .leak

theorem Neutral.elsewhere {c : Call} (h : Neutral c) : Elsewhere c := by
  constructor
  · intro he
    simp [Neutral, he] at h
  · intro he
    simp [Neutral, he] at h

theorem elsewhere_of {d : Did Reply Call} (h : Elsewhere d.stmt) : isGraph d = false ∧ isRelease d = false :=
  ⟨decide_eq_false h.1, decide_eq_false h.2⟩

theorem Leg.of_neutral (h : ∀ d ∈ l, Neutral d.stmt) : Leg l 0 0 0 0 where
  time := List.sum_eq_zero (by simpa using fun d hd => (h d hd).counts.1)
  ramp := List.countP_eq_zero.2 fun d hd => by simp [(h d hd).counts.2.1]
  sat := List.countP_eq_zero.2 fun d hd => by simp [(h d hd).counts.2.2.1]
  ticks := List.countP_eq_zero.2 fun d hd => by simp [(h d hd).counts.2.2.2]
  between := fun d hd => elsewhere_of (h d hd).elsewhere

/-- A stretch of neutral calls. -/
theorem runs_neutral {α : Type} {p : Routine α} {o : Option α} (h : p.Runs l o) (hp : p.Within Neutral) : Leg l 0 0 0 0 :=
  .of_neutral (h.within hp)

theorem runs_sleep {n : Nat} (h : (sleep site n).Runs l (some ())) : Leg l n 0 0 0 := by
  obtain ⟨x, l₁, l₂, rfl, h₁, h₂⟩ := h.bind_some
  obtain rfl := h₁.stmt_some
  cases h₂
  exact ⟨by simp [slept, seconds], by simp [rampReading], by simp [unsaturated], by simp [heldTick],
    by simp [isGraph, isRelease, Did.stmt]⟩

theorem runs_ask {q : Read} {x : Reply} (h : (ask site q).Runs l (some x)) : l = [.ran ⟨.read q, site⟩ x] := h.stmt_some

/-- A second for each reading of the ramp. -/
theorem runs_confirmRamp (n : Nat) {b : Bool} (h : (confirmRamp n).Runs l (some b)) : ∃ r, Leg l r r 0 0 := by
  induction n generalizing l with
  | zero =>
    cases h
    exact ⟨0, .of_neutral fun _ h => by cases h⟩
  | succ n ih =>
    obtain ⟨_, l₁, l₂, rfl, h₁, g⟩ := h.bind_some
    obtain ⟨x, l₂, l₃, rfl, h₂, f⟩ := g.bind_some
    obtain rfl := runs_ask h₂
    have hread : Leg [.ran ⟨.read (.leakStatus (.ramp n)), .bare⟩ x] 0 1 0 0 :=
      ⟨by simp [slept, seconds], by simp [rampReading], by simp [unsaturated], by simp [heldTick],
        by simp [isGraph, isRelease, Did.stmt]⟩
    split at f
    · cases f
      exact ⟨1, by simpa using (runs_sleep h₁).append hread⟩
    · obtain ⟨r, hr⟩ := ih f
      exact ⟨r + 1, by simpa [Nat.add_comm] using (runs_sleep h₁).append (hread.append hr)⟩

/-- A second for each reading without saturation. -/
theorem runs_waitForSaturation (n : Nat) (h : (waitForSaturation n).Runs l (some ())) : ∃ s, Leg l s 0 s 0 := by
  induction n generalizing l with
  | zero =>
    cases h
    exact ⟨0, .of_neutral fun _ h => by cases h⟩
  | succ n ih =>
    obtain ⟨x, l₁, l₂, rfl, h₁, g⟩ := h.bind_some
    obtain rfl := runs_ask h₁
    have hread : Leg [.ran ⟨.read (.leakStatus .saturation), .bare⟩ x] 0 0
        (!x.status.any fun s => MEMORY_LEAK_TARGET_MB * 9 / 10 ≤ s.allocatedMb.toInt).toNat 0 :=
      ⟨by simp [slept, seconds], by simp [rampReading], by
        rw [List.countP_singleton, unsaturated]
        cases x.status.any fun s => MEMORY_LEAK_TARGET_MB * 9 / 10 ≤ s.allocatedMb.toInt <;> rfl,
        by simp [heldTick], by simp [isGraph, isRelease, Did.stmt]⟩
    split at g
    next hsat =>
      cases g
      rw [hsat] at hread
      exact ⟨0, hread⟩
    next hsat =>
      rw [Bool.eq_false_iff.2 hsat] at hread
      obtain ⟨_, l₂, l₃, rfl, h₂, f⟩ := g.bind_some
      obtain ⟨s, hs⟩ := ih f
      exact ⟨s + 1, by simpa [Nat.add_comm] using hread.append ((runs_sleep h₂).append hs)⟩

/-- A hold of `k` ticks takes five seconds for each, but no more than it has. -/
theorem runs_leakHold {baseline : Int} (n remaining : Nat) {b : Bool} (hn : remaining ≤ 5 * n)
    (h : (leakHold a baseline n remaining).Runs l (some b)) : ∃ k, Leg l (min (5 * k) remaining) 0 0 k := by
  induction n generalizing l remaining with
  | zero =>
    cases h
    exact ⟨0, by simpa using Leg.of_neutral (l := []) fun _ h => by cases h⟩
  | succ n ih =>
    obtain ⟨stop, l₁, l₂, rfl, h₁, g⟩ := h.bind_some
    have hstop : Leg l₁ 0 0 0 0 := by
      refine runs_neutral h₁ ?_
      unfold stopRequested
      split
      · exact ⟨trivial, fun _ => trivial, trivial⟩
      · trivial
    split at g
    · cases g
      exact ⟨0, by simpa using hstop⟩
    · obtain ⟨_, l₂, l₃, rfl, h₂, f⟩ := g.bind_some
      obtain ⟨now, l₃, l₄, rfl, h₃, e⟩ := f.bind_some
      have htick : Leg l₃ 0 0 0 1 := by
        obtain ⟨x, m₁, m₂, rfl, h₃, h₄⟩ := h₃.bind_some
        obtain rfl := runs_ask h₃
        cases h₄
        exact ⟨by simp [slept, seconds], by simp [rampReading], by simp [unsaturated], by simp [heldTick],
          by simp [isGraph, isRelease, Did.stmt]⟩
      have hone := hstop.append ((runs_sleep h₂).append htick)
      split at e
      · cases e
        exact ⟨1, by simpa [Nat.min_comm] using hone⟩
      · obtain ⟨k, hk⟩ := ih (remaining - 5) (by omega) e
        refine ⟨k + 1, ?_⟩
        have := hone.append hk
        rw [show 0 + (min 5 remaining + 0) + min (5 * k) (remaining - 5) = min (5 * (k + 1)) remaining by omega] at this
        simpa [Nat.add_comm] using this

theorem within_call {op : Op} (h : Neutral ⟨op, site⟩) : (call site op).Within Neutral := ⟨h, fun _ => trivial, trivial⟩

theorem within_command {c : Command} (h : Neutral ⟨.command c, site⟩) : (command site c).Within Neutral :=
  (within_call h).bind fun _ => trivial

theorem within_podName {target : String} : (currentPodName site target).Within Neutral :=
  have hread : (call site (.read (.currentPodName target))).Within Neutral := within_call trivial
  hread.bind fun _ => trivial

theorem within_baseline : (captureMemoryLeakBaseline a).Within Neutral := by
  refine within_podName.bind fun pod => Code.Within.bind ?_ fun fromAgent => ?_
  · split
    · exact (within_call (by exact trivial)).bind fun _ => trivial
    · trivial
  · split
    · exact (within_call (by exact trivial)).bind fun _ => trivial
    · refine (within_call (by exact trivial)).bind fun x => ?_
      split
      · trivial
      · exact (within_call (by exact trivial)).bind fun _ => trivial

/-- The `finally` ends with the `RELEASE`. -/
theorem runs_releaseLeak (h : (releaseLeak a).Runs l (some ())) : ∃ m u, l = m ++ [u] ∧ isRelease u = true ∧ Leg m 0 0 0 0 := by
  obtain ⟨_, l₁, l₂, rfl, h₁, g⟩ := h.bind_some
  obtain ⟨_, l₂, l₃, rfl, h₂, f⟩ := g.bind_some
  obtain ⟨_, l₃, l₄, rfl, h₃, e⟩ := f.bind_some
  obtain ⟨x, l₄, l₅, rfl, h₄, d⟩ := e.bind_some
  obtain rfl := h₄.stmt_some
  cases d
  have hload := runs_neutral h₁ (((within_command (by exact trivial)).bind fun _ => within_command (by exact trivial)).graft (fun _ => trivial)
    ((within_command (by exact trivial)).graft (fun _ => trivial) trivial))
  have hlogs := runs_neutral h₂ ((within_call (by exact trivial)).graft (fun _ => trivial) trivial)
  have hpod := runs_neutral h₃ (within_command (by exact trivial))
  exact ⟨l₁ ++ (l₂ ++ l₃), .ran ⟨.revert .leak, a.leakSite⟩ x, by simp, by simp [isRelease, Did.stmt],
    hload.append (hlogs.append hpod)⟩

theorem runs_leakLoaded {name : String} (h : (leakLoaded a).Runs l (some (some name))) :
    ∃ m u k, l = m ++ [u] ∧ isRelease u = true ∧ Leg m (min (5 * k) a.durationS.toNat) 0 0 k := by
  obtain ⟨burst, l₁, l₂, rfl, h₁, g⟩ := h.bind_some
  split at g
  next =>
    obtain ⟨_, l₂, l₃, rfl, h₂, f⟩ := g.bind_some
    obtain ⟨baseline, l₃, l₄, rfl, h₃, e⟩ := f.bind_some
    obtain ⟨restarted, l₄, l₅, rfl, h₄, d⟩ := e.bind_some
    obtain ⟨l₄, l₆, rfl, h₅, h₆⟩ := h₄.andFinally_some
    have hburst := runs_neutral h₁ (within_call (by exact trivial))
    have hevidence : Leg l₂ 0 0 0 0 := by
      refine runs_neutral h₂ ?_
      unfold writeEvidenceFileOnce onlyIf
      split
      · exact within_command (by exact trivial)
      · trivial
    have hcount := runs_neutral h₃ ((within_call (by exact trivial)).bind fun _ => trivial)
    obtain ⟨k, hhold⟩ := runs_leakHold _ _ (by unfold ticks; omega) h₅
    obtain ⟨m, u, rfl, hu, hm⟩ := runs_releaseLeak h₆
    have hd : l₅ = [] := by
      split at d <;> cases d
      rfl
    subst hd
    refine ⟨l₁ ++ (l₂ ++ (l₃ ++ (l₄ ++ m))), u, k, by simp, hu, ?_⟩
    simpa using hburst.append (hevidence.append (hcount.append (hhold.append hm)))
  next =>
    obtain ⟨_, l₂, l₃, rfl, h₂, f⟩ := g.bind_some
    cases f

/-- An episode that is not aborted: the settling and the baseline, `GRAPH`, the ramp, the saturation, the hold
and the `RELEASE`. -/
theorem runs_injectMemoryLeak {name : String} (hl : a.noLeak = false) (h : (injectMemoryLeak a).Runs l (some (some name))) :
    ∃ x g y u r s k t, l = x ++ g :: (y ++ [u]) ∧ isGraph g = true ∧ isRelease u = true ∧ Leg x t 0 0 0 ∧
      Leg y (r + s + min (5 * k) a.durationS.toNat) r s k := by
  obtain ⟨_, l₁, l₂, rfl, h₁, g⟩ := h.bind_some
  obtain ⟨baseline, l₂, l₃, rfl, h₂, f⟩ := g.bind_some
  have hsettle := runs_sleep h₁
  have hbase := runs_neutral h₂ within_baseline
  split at f
  · cases f
  obtain ⟨pod, l₃, l₄, rfl, h₃, e⟩ := f.bind_some
  have hpod := runs_neutral h₃ within_podName
  split at e
  · cases e
  rw [if_neg (by simp [hl])] at e
  obtain ⟨sent, l₄, l₅, rfl, h₄, d⟩ := e.bind_some
  obtain rfl := h₄.stmt_some
  split at d
  · obtain ⟨confirmed, l₅, l₆, rfl, h₅, c⟩ := d.bind_some
    obtain ⟨r, hr⟩ := runs_confirmRamp _ h₅
    split at c
    · obtain ⟨_, l₆, l₇, rfl, h₆, b⟩ := c.bind_some
      obtain ⟨s, hs⟩ := runs_waitForSaturation _ h₆
      obtain ⟨m, u, k, rfl, hu, hm⟩ := runs_leakLoaded b
      refine ⟨l₁ ++ (l₂ ++ l₃), .ran ⟨.inject .leak, .clean⟩ sent, l₅ ++ (l₆ ++ m), u, r, s, k, _, by simp,
        by simp [isGraph, Did.stmt], hu, hsettle.append (hbase.append hpod), ?_⟩
      simpa [Nat.add_assoc] using hr.append (hs.append hm)
    · cases c
  · cases d

end Legs

theorem counts_of_op {d : Did Reply Call} (h : d.stmt.op = .inject .leak ∨ d.stmt.op = .revert .leak) :
    rampReading d = false ∧ unsaturated d = false ∧ heldTick d = false := by
  refine ⟨?_, ?_, ?_⟩
  · unfold rampReading
    split
    · simp [Did.stmt] at h
    · rfl
  · unfold unsaturated
    split
    · simp [Did.stmt] at h
    · rfl
  · unfold heldTick
    split
    · simp [Did.stmt] at h
    · rfl

/-- The `GRAPH` is no older than its ttl at the `RELEASE` just when the seconds until the ramp was seen and those
without saturation are made up for by the 30 spare ones and by what was cut off the hold. -/
theorem ttl_covers_iff {a : Args} {tr : Trace} {name : String} (hl : a.noLeak = false)
    (h : (injectMemoryLeak a).Runs tr (some (some name))) : Covers a tr ↔
    (tr.countP rampReading + tr.countP unsaturated : Int) ≤
      30 + (a.durationS - min (5 * tr.countP heldTick : Nat) a.durationS.toNat) := by
  obtain ⟨x, g, y, u, r, s, k, t, rfl, hg, hu, hx, hy⟩ := runs_injectMemoryLeak hl h
  have hcg := counts_of_op (.inl (of_decide_eq_true hg))
  have hcu := counts_of_op (.inr (of_decide_eq_true hu))
  have hend : Covers a (x ++ g :: (y ++ [u])) ↔ (slept y : Int) ≤ a.ttlS := by
    refine ⟨fun hc => hc x g y u [] rfl hg hu, fun hs x' g' y' u' z' he hg' hu' => ?_⟩
    have hno : ∀ {l : Trace}, (∀ d ∈ l, isGraph d = false ∧ isRelease d = false) →
        ∀ d ∈ l, ¬ (isGraph d = true ∨ isRelease d = true) := fun hb d hd => by simp [hb d hd]
    obtain ⟨-, -, rfl, -⟩ := first_two_unique he (hno hx.between) (hno hy.between) (c := []) (fun _ h => by cases h)
      (.inl hg) (.inr hu) (.inl hg') (.inr hu')
    exact hs
  rw [hend, hy.time]
  simp only [List.countP_append, List.countP_cons, List.countP_nil, hx.ramp, hx.sat, hx.ticks, hy.ramp, hy.sat, hy.ticks, hcg, hcu,
    Bool.false_eq_true, if_false, Args.ttlS]
  omega

/-! ## With a hold of 180 s -/

def leakArgs : Args := ⟨.memoryLeak, none, none, none, none, 0, false⟩

def onShipping : Reply := { yes with text := some "shipping-1" }

def allocated (mb : Int) : Reply := { yes with status := some ⟨some "ALLOCATING", .number mb, .number 1, .number 48⟩ }

def untilGraph : Trace :=
  [.ran ⟨.command (.sleep MEMORY_LEAK_SETTLE_SECONDS), .clean⟩ yes, .ran ⟨.read (.currentPodName "shipping"), .clean⟩ onShipping,
    .ran ⟨.read (.leakStatus .baseline), .clean⟩ (allocated 0), .ran ⟨.upsertBaseline (48 * 1024), .clean⟩ yes,
    .ran ⟨.read (.currentPodName "shipping"), .clean⟩ onShipping]

/-- The companion grows for `n` seconds after the ramp has begun. -/
def untilRelease (n : Nat) : Trace :=
  ([.ran ⟨.command (.sleep 1), .bare⟩ yes, .ran ⟨.read (.leakStatus (.ramp 9)), .bare⟩ (allocated 6)] : Trace) ++
    ((List.replicate n [.ran ⟨.read (.leakStatus .saturation), .bare⟩ (allocated 77), .ran ⟨.command (.sleep 1), .bare⟩ yes]).flatten : Trace) ++
    ([.ran ⟨.read (.leakStatus .saturation), .bare⟩ (allocated 300), .ran ⟨.command .launchCheckoutLoadBurst, .bare⟩ yes,
      .ran ⟨.read (.restartCount none), .bare⟩ yes] : Trace) ++
    ((List.replicate 36 [.ran ⟨.command (.sleep 5), .tried⟩ yes, .ran ⟨.read (.restartCount (some 0)), .tried⟩ yes]).flatten : Trace) ++
    ([.ran ⟨.command .terminateLoad, .tried⟩ yes, .ran ⟨.command .waitLoad, .tried⟩ yes, .ran ⟨.read .kubectlLogs, .tried⟩ yes,
      .ran ⟨.command (.deletePod "load"), .bare⟩ yes] : Trace)

def leakEpisode (n : Nat) : Trace :=
  untilGraph ++ .ran ⟨.inject .leak, .clean⟩ yes :: (untilRelease n ++ [.ran ⟨.revert .leak, .bare⟩ yes])

theorem ttl_covers_quick : Covers leakArgs (leakEpisode 29) := by
  have hr : (injectMemoryLeak leakArgs).Runs (leakEpisode 29) (some (some "leak-agent")) :=
    Code.runs_play 400 (answers (leakEpisode 29)) (by decide +kernel)
  exact (ttl_covers_iff rfl hr).2 (by decide +kernel)

theorem ttl_expires : ¬ ∀ (a : Args) (tr : Trace) (name : String), a.noLeak = false →
    (injectMemoryLeak a).Runs tr (some (some name)) → Covers a tr := by
  intro h
  have hr : (injectMemoryLeak leakArgs).Runs (leakEpisode 58) (some (some "leak-agent")) :=
    Code.runs_play 400 (answers (leakEpisode 58)) (by decide +kernel)
  have hcovers := h leakArgs (leakEpisode 58) "leak-agent" rfl hr untilGraph (.ran ⟨.inject .leak, .clean⟩ yes) (untilRelease 58)
    (.ran ⟨.revert .leak, .bare⟩ yes) [] rfl rfl rfl
  exact absurd hcovers (by decide +kernel)

end Wardence.Injector
