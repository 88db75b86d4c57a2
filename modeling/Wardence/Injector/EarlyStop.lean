import Mathlib.Order.Monotone.Basic
import Wardence.Injector.Shape
/-!
# The early stop of a crash loop

The wrapper of a live episode confirms its evidence by polls of its own, and may then
stop the hold; the injector verifies the fault once more, against a baseline it reads
anew for each attempt. Both read the cluster at their own instants. `evidence_lasts_iff`:
a stopped hold is verified exactly when the deciding attempt itself sees a restart that its
own baseline does not count, or the backoff.
-/
namespace Wardence.Injector.EarlyStop

open Threads Code

/-- `_evidence_confirmed_now` for a crash loop. -/
def evidenceConfirmedNow (baselineRestarts : Int) : Routine Bool := do
  let now ← restartCount .clean (some baselineRestarts)
  if baselineRestarts < now then pure true else check .clean .crashLoopBackoff

/-! ## One timeline -/

/-- A live hold: what the cluster shows at each instant, and when the two processes look. -/
structure Hold where
  restarts : Nat → Nat
  backoff : Nat → Bool
  clock : Nat → Nat
  /-- What any other call is answered. -/
  others : Nat → Call → Reply
  /-- When the wrapper reads its baseline, and the two readings of each of its polls. -/
  baselineAt : Nat
  polls : List (Nat × Nat)
  stopRequestedAt : Option Nat
  stopFileAt : Option Nat
  /-- When the injector makes its calls. -/
  callAt : Nat → Nat
  grows : Monotone restarts
  forward : Monotone callAt
  passes : ∀ s, ∃ n, ∀ k, n ≤ k → s ≤ clock (callAt k)
  /-- The injector is started after the wrapper has its baseline. -/
  started : baselineAt ≤ callAt 0
  polled : ∀ p ∈ polls, baselineAt ≤ p.1 ∧ p.1 ≤ p.2
  /-- `/trigger/stop-hold` refuses a hold whose evidence no poll has confirmed. -/
  confirmed : ∀ t ∈ stopRequestedAt, ∃ p ∈ polls, p.2 ≤ t ∧ (restarts baselineAt < restarts p.1 ∨ backoff p.2 = true)
  /-- The wrapper writes the stop file after the request. -/
  requested : ∀ t ∈ stopFileAt, ∃ s ∈ stopRequestedAt, s ≤ t

namespace Hold

/-- What a call at instant `t` is answered. -/
def answer (h : Hold) (t : Nat) (c : Call) : Reply :=
  match c.op with
  | .read .time => { h.others t c with now := h.clock t }
  | .read .stopFile => { h.others t c with ok := h.stopFileAt.any (· ≤ t) }
  | .read (.restartCount _) => { h.others t c with value := some (h.restarts t) }
  | .read .crashLoopBackoff => { h.others t c with ok := h.backoff t }
  | _ => h.others t c

/-- The surroundings of a process that makes each call at the instant `time` gives. -/
def envAt (h : Hold) (time : Trace → Nat) (past : Trace) (c : Call) : Option Reply := some (h.answer (time past) c)

/-- The injector's. -/
def env (h : Hold) : Trace → Call → Option Reply := h.envAt fun past => h.callAt past.length

/-- The wrapper's, during a poll. -/
def pollEnv (h : Hold) (p : Nat × Nat) : Trace → Call → Option Reply := h.envAt fun past => if past = [] then p.1 else p.2

/-- An operator has stopped the hold, on confirmed evidence. -/
def Stopped (h : Hold) : Prop := h.stopRequestedAt ≠ none

/-- The `k`-th call shows a restart since `base`, or the backoff. -/
def Shows (h : Hold) (base k : Nat) : Op → Prop
  | .read (.restartCount (some _)) => base < h.restarts (h.callAt k)
  | .read .crashLoopBackoff => h.backoff (h.callAt k) = true
  | _ => False

/-- One of the calls does, the first of them the `k`-th. -/
def Seen (h : Hold) (base : Nat) : Nat → Trace → Prop
  | _, [] => False
  | k, d :: tr => h.Shows base k d.stmt.op ∨ h.Seen base (k + 1) tr

/-- A reading of an attempt's baseline. -/
def IsBaseline (d : Did Reply Call) : Prop := d.stmt.op = .read (.restartCount none)

instance (d : Did Reply Call) : Decidable (IsBaseline d) := inferInstanceAs (Decidable (_ = _))

/-- After the last attempt's baseline, one of the injector's readings shows a restart since, or the backoff. -/
def Kept (h : Hold) : Nat → Trace → Prop
  | _, [] => False
  | k, d :: tr =>
    if IsBaseline d ∧ ∀ d' ∈ tr, ¬ IsBaseline d' then h.Seen (h.restarts (h.callAt k)) (k + 1) tr else h.Kept (k + 1) tr

variable {h : Hold} {base k : Nat} {l l' : Trace} {d : Did Reply Call}

@[simp] theorem seen_nil : h.Seen base k [] ↔ False := Iff.rfl

@[simp] theorem seen_cons : h.Seen base k (d :: l) ↔ h.Shows base k d.stmt.op ∨ h.Seen base (k + 1) l := Iff.rfl

theorem seen_append : h.Seen base k (l ++ l') ↔ h.Seen base k l ∨ h.Seen base (k + l.length) l' := by
  induction l generalizing k with
  | nil => simp
  | cons d l ih => simp only [List.cons_append, seen_cons, ih, List.length_cons, or_assoc, Nat.add_right_comm k 1, Nat.add_assoc]

/-- The attempts before the last one count for nothing. -/
theorem kept_append (hl : ∃ d ∈ l', IsBaseline d) : h.Kept k (l ++ l') ↔ h.Kept (k + l.length) l' := by
  induction l generalizing k with
  | nil => rfl
  | cons d l ih =>
    obtain ⟨d', hd', hb⟩ := hl
    have hmore : ¬ (IsBaseline d ∧ ∀ d' ∈ l ++ l', ¬ IsBaseline d') := fun hn => hn.2 d' (List.mem_append_right l hd') hb
    rw [List.cons_append, Kept, if_neg hmore, ih, List.length_cons, Nat.add_right_comm, Nat.add_assoc]

theorem kept_last (hd : IsBaseline d) (hl : ∀ d' ∈ l, ¬ IsBaseline d') :
    h.Kept k (d :: l) ↔ h.Seen (h.restarts (h.callAt k)) (k + 1) l := by
  rw [Kept, if_pos ⟨hd, hl⟩]

end Hold

/-! ## What the calls see -/

section Seen
variable {h : Hold} {past tr : Trace} {time : Trace → Nat}

/-- A call that answers is answered as its surroundings answer at its instant. -/
theorem answered {s : Call} {w : Reply} (hr : (stmt s : Routine Reply).Runs tr (some w)) (hf : Follows (h.envAt time) past tr) :
    tr = [.ran s w] ∧ w = h.answer (time past) s := by
  obtain rfl := hr.stmt_some
  exact ⟨rfl, Option.some.inj hf.1⟩

theorem restartCount_seen {site : Site} {base : Option Int} {n : Int} (hr : (restartCount site base).Runs tr (some n))
    (hf : Follows (h.envAt time) past tr) :
    (∃ w, tr = [.ran ⟨.read (.restartCount base), site⟩ w]) ∧ n = h.restarts (time past) := by
  obtain ⟨w, l, l', rfl, hl, hl'⟩ := hr.bind_some
  cases hl'
  rw [List.append_nil] at hf ⊢
  obtain ⟨rfl, rfl⟩ := answered hl hf
  exact ⟨⟨_, rfl⟩, rfl⟩

theorem check_seen {site : Site} {r : Read} {b : Bool} (hr : (check site r).Runs tr (some b))
    (hf : Follows (h.envAt time) past tr) :
    (∃ w, tr = [.ran ⟨.read r, site⟩ w]) ∧ b = (h.answer (time past) ⟨.read r, site⟩).ok := by
  obtain ⟨w, l, l', rfl, hl, hl'⟩ := hr.bind_some
  cases hl'
  rw [List.append_nil] at hf ⊢
  obtain ⟨rfl, rfl⟩ := answered hl hf
  exact ⟨⟨_, rfl⟩, rfl⟩

/-- The check both processes make: a restart since the baseline, or else the backoff. -/
theorem evidenceConfirmedNow_cases {base : Nat} {b : Bool} (hr : (evidenceConfirmedNow base).Runs tr (some b))
    (hf : Follows (h.envAt time) past tr) : ∃ w, let d := .ran ⟨.read (.restartCount (some base)), .clean⟩ w
    base < h.restarts (time past) ∧ tr = [d] ∧ b = true ∨
      ¬ base < h.restarts (time past) ∧ ∃ w', tr = [d, .ran ⟨.read .crashLoopBackoff, .clean⟩ w'] ∧ b = h.backoff (time (past ++ [d])) := by
  obtain ⟨now, l, l', rfl, hl, hl'⟩ := hr.bind_some
  obtain ⟨hf, hf'⟩ := follows_append.1 hf
  obtain ⟨⟨w, rfl⟩, rfl⟩ := restartCount_seen hl hf
  refine ⟨w, ?_⟩
  by_cases hlt : base < h.restarts (time past)
  · rw [if_pos (by exact_mod_cast hlt)] at hl'
    cases hl'
    exact .inl ⟨hlt, rfl, rfl⟩
  · rw [if_neg (by exact_mod_cast hlt)] at hl'
    obtain ⟨⟨w', rfl⟩, rfl⟩ := check_seen hl' hf'
    exact .inr ⟨hlt, w', rfl, rfl⟩

/-- A poll of the wrapper confirms the evidence as `Hold.confirmed` has it. -/
theorem poll_iff {p : Nat × Nat} {b : Bool} (hr : (evidenceConfirmedNow (h.restarts h.baselineAt)).Runs tr (some b))
    (hf : Follows (h.pollEnv p) [] tr) :
    b = true ↔ h.restarts h.baselineAt < h.restarts p.1 ∨ h.backoff p.2 = true := by
  obtain ⟨w, ⟨hlt, -, rfl⟩ | ⟨hlt, w', -, rfl⟩⟩ := evidenceConfirmedNow_cases hr hf
  · exact iff_of_true rfl (.inl hlt)
  · exact ⟨.inr, fun h => h.resolve_left hlt⟩

/-- For the injector, the check holds where one of its readings shows something. -/
theorem evidenceConfirmedNow_seen {base : Nat} {b : Bool} (hr : (evidenceConfirmedNow base).Runs tr (some b))
    (hf : Follows h.env past tr) : (b = true ↔ h.Seen base past.length tr) ∧ ∀ d ∈ tr, ¬ Hold.IsBaseline d := by
  obtain ⟨w, ⟨hlt, rfl, rfl⟩ | ⟨hlt, w', rfl, rfl⟩⟩ := evidenceConfirmedNow_cases hr hf
  · exact ⟨by simp [Hold.Shows, Did.stmt, hlt], by simp [Hold.IsBaseline, Did.stmt]⟩
  · exact ⟨by simp [Hold.Shows, Did.stmt, hlt], by simp [Hold.IsBaseline, Did.stmt]⟩

/-- The call looks neither at the restarts nor at the backoff. -/
def Quiet (c : Call) : Prop :=
  match c.op with
  | .read (.restartCount _) | .read .crashLoopBackoff => False
  | _ => True

theorem quiet_unseen (hq : ∀ d ∈ tr, Quiet d.stmt) : (∀ base k, ¬ h.Seen base k tr) ∧ ∀ d ∈ tr, ¬ Hold.IsBaseline d := by
  constructor
  · induction tr with
    | nil =>
      intro base k hs
      exact hs
    | cons d tr ih =>
      obtain ⟨hd, htr⟩ := List.forall_mem_cons.1 hq
      rintro base k (hs | hs)
      · unfold Quiet at hd
        unfold Hold.Shows at hs
        split at hs <;> simp_all
      · exact ih htr base (k + 1) hs
  · intro d hd hb
    have hd := hq d hd
    unfold Quiet at hd
    rw [show d.stmt.op = _ from hb] at hd
    exact hd

theorem quiet_sleep (d : Nat) : (sleep .clean d).Plain Quiet := plain_run trivial

theorem quiet_runCrashLoopInjection (a : Args) : (runCrashLoopInjection a).Plain Quiet := by
  refine (plain_ask trivial).bind fun start => plain_until ((plain_ask trivial).bind fun now => plain_ite ?_ plain_pure)
  have hpod : (currentPodName .clean a.target).Plain Quiet := (plain_ask trivial).bind fun _ => trivial
  refine (plain_stop trivial).bind fun _ => plain_ite plain_pure (hpod.bind fun pod => ?_)
  split
  · exact (plain_run trivial).bind fun _ => (quiet_sleep _).bind fun _ => trivial
  · exact (quiet_sleep _).bind fun _ => trivial

/-- The verification holds where one of its readings shows a restart or the backoff. -/
theorem pollEvery_seen {base poll n : Nat} {b : Bool}
    (hr : (pollEvery .clean poll (evidenceConfirmedNow base) n).Runs tr (some b)) (hf : Follows h.env past tr) :
    (b = true ↔ h.Seen base past.length tr) ∧ ∀ d ∈ tr, ¬ Hold.IsBaseline d := by
  induction n generalizing past tr with
  | zero =>
    cases hr
    exact ⟨by simp, by simp⟩
  | succ n ih =>
    obtain ⟨b', l, l', rfl, hl, hl'⟩ := hr.bind_some
    obtain ⟨hf, hf'⟩ := follows_append.1 hf
    obtain ⟨hseen, hno⟩ := evidenceConfirmedNow_seen hl hf
    cases b' with
    | true =>
      cases hl'
      rw [List.append_nil]
      exact ⟨hseen, hno⟩
    | false =>
      obtain ⟨_, m, m', rfl, hm, hm'⟩ := hl'.bind_some
      obtain ⟨hf1, hf2⟩ := follows_append.1 hf'
      obtain ⟨hq, hq'⟩ := quiet_unseen (h := h) (hm.within ((quiet_sleep poll).within fun _ hc => hc))
      obtain ⟨ihs, ihn⟩ := ih hm' hf2
      refine ⟨?_, List.forall_mem_append.2 ⟨hno, List.forall_mem_append.2 ⟨hq', ihn⟩⟩⟩
      have hfirst : ¬ h.Seen base past.length l := by simpa using hseen
      rw [ihs, Hold.seen_append, Hold.seen_append, or_iff_right hfirst, or_iff_right (hq _ _), List.length_append,
        List.length_append, Nat.add_assoc]

end Seen

/-! ## The deciding attempt -/

theorem crashLoopAttempts_succ (a : Args) (n : Nat) : crashLoopAttempts a (n + 1) = (do
    let baseline ← restartCount .clean none
    let interrupted ← runCrashLoopInjection a
    let verified ← verifyEffect .clean (evidenceConfirmedNow baseline)
    if verified then pure true
    else if interrupted then pure false
    else crashLoopAttempts a n : Routine Bool) := rfl

/-- An attempt begins with a reading of its baseline. -/
theorem attempts_baseline {a : Args} {n : Nat} {tr : Trace} {b : Bool} (hr : (crashLoopAttempts a (n + 1)).Runs tr (some b)) :
    ∃ d ∈ tr, Hold.IsBaseline d := by
  rw [crashLoopAttempts_succ] at hr
  obtain ⟨base, l, m, rfl, hl, -⟩ := hr.bind_some
  obtain ⟨w, l, l', rfl, hl, -⟩ := hl.bind_some
  obtain rfl := hl.stmt_some
  exact ⟨.ran ⟨.read (.restartCount none), .clean⟩ w, by simp, rfl⟩

/-- The injector verifies the fault exactly when one of its readings since the last
attempt's baseline shows a restart since that baseline, or the backoff. -/
theorem attempts_iff {h : Hold} {a : Args} {n : Nat} {past tr : Trace} {b : Bool}
    (hr : (crashLoopAttempts a n).Runs tr (some b)) (hf : Follows h.env past tr) : b = true ↔ h.Kept past.length tr := by
  induction n generalizing past tr with
  | zero =>
    cases hr
    simp [Hold.Kept]
  | succ n ih =>
    rw [crashLoopAttempts_succ] at hr
    obtain ⟨base, l0, m, rfl, h0, hm⟩ := hr.bind_some
    obtain ⟨interrupted, l1, m, rfl, h1, hm⟩ := hm.bind_some
    obtain ⟨verified, l2, l3, rfl, h2, h3⟩ := hm.bind_some
    obtain ⟨f0, hf⟩ := follows_append.1 hf
    obtain ⟨f1, hf⟩ := follows_append.1 hf
    obtain ⟨f2, f3⟩ := follows_append.1 hf
    obtain ⟨⟨w, rfl⟩, rfl⟩ := restartCount_seen h0 f0
    obtain ⟨hq, hq'⟩ := quiet_unseen (h := h) (h1.within ((quiet_runCrashLoopInjection a).within fun _ hc => hc))
    obtain ⟨hseen, hno⟩ := pollEvery_seen h2 f2
    -- Where no other attempt follows, this one's readings decide.
    have decides : h.Kept past.length (.ran ⟨.read (.restartCount none), .clean⟩ w :: (l1 ++ l2)) ↔ verified = true := by
      rw [Hold.kept_last (d := .ran ⟨.read (.restartCount none), .clean⟩ w) rfl (List.forall_mem_append.2 ⟨hq', hno⟩),
        Hold.seen_append, or_iff_right (hq _ _), hseen]
      simp only [List.length_append, List.length_cons, List.length_nil]
    cases verified with
    | true =>
      cases h3
      rw [List.append_nil]
      exact decides.symm
    | false =>
      cases interrupted with
      | true =>
        cases h3
        rw [List.append_nil]
        exact decides.symm
      | false =>
        have h3 : (crashLoopAttempts a n).Runs l3 (some b) := h3
        cases n with
        | zero =>
          cases h3
          rw [List.append_nil]
          exact decides.symm
        | succ n =>
          rw [ih h3 f3, ← List.append_assoc, ← List.append_assoc, Hold.kept_append (attempts_baseline h3)]
          simp only [List.length_append, Nat.add_assoc]

/-- The counter only grows: a restart that a poll has seen, and the deciding attempt's
baseline does not count, is seen by every later reading of that attempt. -/
theorem fresh_restart_kept {h : Hold} {l m m' : Trace} {d e : Did Reply Call} {base : Int} {t : Nat}
    (hd : Hold.IsBaseline d) (hl : ∀ d' ∈ m ++ e :: m', ¬ Hold.IsBaseline d')
    (he : e.stmt.op = .read (.restartCount (some base))) (hfresh : h.restarts (h.callAt l.length) < h.restarts t)
    (hlater : t ≤ h.callAt (l.length + 1 + m.length)) : h.Kept 0 (l ++ d :: (m ++ e :: m')) := by
  rw [Hold.kept_append ⟨d, List.mem_cons_self, hd⟩, Nat.zero_add, Hold.kept_last hd hl, Hold.seen_append, Hold.seen_cons, he]
  exact .inr (.inl (Nat.lt_of_lt_of_le hfresh (h.grows hlater)))

/-! ## Every hold ends -/

section Finishes
variable (h : Hold)

theorem finishes_stmt (s : Call) : (stmt s : Routine Reply).Finishes h.env :=
  Loopless.finishes (show (stmt s : Routine Reply).Loopless from ⟨fun _ => trivial, trivial⟩) h.env

theorem finishes_run (c : Command) : (command .clean c).Finishes h.env := (finishes_stmt h _).bind fun _ => .done _

theorem finishes_check (r : Read) : (check .clean r).Finishes h.env := (finishes_stmt h _).bind fun _ => .done _

theorem finishes_restartCount (base : Option Int) : (restartCount .clean base).Finishes h.env :=
  (finishes_stmt h _).bind fun _ => .done _

/-- The kill loop ends, since time passes. -/
theorem finishes_runCrashLoopInjection (a : Args) : (runCrashLoopInjection a).Finishes h.env := by
  apply Finishes.bind (finishes_stmt h _)
  intro start
  obtain ⟨n, hn⟩ := h.passes (start.now + a.durationS).toNat
  refine Finishes.untilSome (Finishes.bind (finishes_stmt h _) fun now => ?_) n (fun past tr hlen hr hf => ?_) fun tr hr => ?_
  · split
    · apply Finishes.bind
      · unfold stopRequested
        split
        · exact finishes_check h _
        · exact .done _
      intro stop
      split
      · exact .done _
      apply Finishes.bind ((finishes_stmt h _).bind fun _ => .done _)
      intro pod
      split
      · exact (finishes_run h _).bind fun _ => (finishes_run h _).bind fun _ => .done _
      · exact (finishes_run h _).bind fun _ => .done _
    · exact .done _
  -- From then on the clock reads past the end of the hold.
  · obtain ⟨now, l, l', rfl, hl, hl'⟩ := hr.bind_some
    obtain ⟨-, rfl⟩ := answered hl (follows_append.1 hf).1
    have hlate : ¬ ((h.answer (h.callAt past.length) ⟨.read .time, .clean⟩).now : Int) < start.now + a.durationS := by
      have hclock : (start.now + a.durationS).toNat ≤ (h.answer (h.callAt past.length) ⟨.read .time, .clean⟩).now :=
        hn past.length hlen
      omega
    rw [if_neg hlate] at hl'
    cases hl'
  · obtain ⟨now, l, l', rfl, hl, -⟩ := hr.bind_some
    obtain rfl := hl.stmt_some
    simp

theorem finishes_pollEvery (base : Int) (poll n : Nat) : (pollEvery .clean poll (evidenceConfirmedNow base) n).Finishes h.env := by
  induction n with
  | zero => exact .done _
  | succ n ih =>
    apply Finishes.bind
    · apply Finishes.bind (finishes_restartCount h _)
      intro now
      split
      · exact .done _
      · exact finishes_check h _
    · intro confirmed
      split
      · exact .done _
      · exact (finishes_run h _).bind fun _ => ih

theorem finishes_attempts (a : Args) (n : Nat) : (crashLoopAttempts a n).Finishes h.env := by
  induction n with
  | zero => exact .done _
  | succ n ih =>
    rw [crashLoopAttempts_succ]
    apply Finishes.bind (finishes_restartCount h _)
    intro base
    apply Finishes.bind (finishes_runCrashLoopInjection h a)
    intro interrupted
    apply Finishes.bind (finishes_pollEvery h base _ _)
    intro verified
    split
    · exact .done _
    · split
      · exact .done _
      · exact ih

end Finishes

/-- The arguments of a live crash loop. -/
def live : Args := ⟨.crashLoop, some 180, some "ep-1", some "/tmp/stop", none, 0, false⟩

/-- A pod restarts once, at instant `r`; the wrapper has its baseline at 0, polls at 4, and a stop is requested at once. -/
def restarting (r : Nat) (hr : 0 < r ∧ r ≤ 4) : Hold where
  restarts t := if t < r then 0 else 1
  backoff _ := false
  clock t := t
  others _ _ := yes
  baselineAt := 0
  polls := [(4, 4)]
  stopRequestedAt := some 4
  stopFileAt := some 5
  callAt k := k + 2
  grows t t' h := by
    dsimp only
    split <;> split <;> omega
  forward t t' h := Nat.add_le_add_right h 2
  passes s := ⟨s, fun k hk => Nat.le_add_right_of_le hk⟩
  started := Nat.zero_le _
  polled := by simp
  confirmed := by
    rintro t ⟨⟩
    exact ⟨(4, 4), List.mem_cons_self, Nat.le_refl 4, .inl (by rw [if_pos hr.1, if_neg (by omega)]; decide)⟩
  requested := by
    rintro t ⟨⟩
    exact ⟨4, rfl, by decide⟩

end Wardence.Injector.EarlyStop
