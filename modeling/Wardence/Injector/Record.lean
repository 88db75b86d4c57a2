import Wardence.Injector.Shape
/-!
# The row a run leaves

When a run of `main` is over, is the episode's row one that can be scored exactly if
the injection was verified? Three classes write to the row during the injection: in a
batch run that inserts it, before it is known what comes of the injection.
-/
namespace Wardence.Injector

open Threads Code

/-- The upserts during an injection. -/
def Op.writes : Op → Bool
  | .upsertBaseline _ | .upsertProbe _ => true
  | _ => false

/-- A batch run inserts its row during the injection. -/
def Args.inserts (a : Args) : Did Reply Call → Bool
  | .ran c _ => a.episodeId.isNone && c.op.writes
  | .raised _ => false

/-- The calls of `main` itself around the injection, and those whose exceptions the
memory leak's cleanup handles. -/
def Op.spares : Op → Bool
  | .ensureDb _ | .closeConn | .acquireSystemLock | .releaseSystemLock | .recordEpisode _ => true
  | .read .kubectlLogs | .command .terminateLoad | .command .waitLoad | .command .killLoad => true
  | _ => false

namespace Record

/-- The row can be scored. -/
def Scorable (row : Option Row) : Prop := ∃ r, row = some r ∧ r.t0 ≠ none ∧ r.chaosResourceName ≠ none

/-- A batch run has no row, a live run one without time and resource. -/
def Blank (a : Args) (row : Option Row) : Prop :=
  (a.episodeId = none ∧ row = none) ∨ (a.episodeId ≠ none ∧ ∃ r, row = some r ∧ r.t0 = none ∧ r.chaosResourceName = none)

/-- The row tells whether the injection was verified. -/
def GroundTruth (a : Args) (row : Option Row) (verified : Bool) : Prop :=
  (Scorable row ↔ verified = true) ∧ (verified = false → Blank a row)

/-- The inject function was reached and returned a name. -/
def verified (r : Option Exit) : Bool := r.any (·.chaosName.isSome)

instance (row : Option Row) : Decidable (Scorable row) :=
  decidable_of_iff (row.any (fun r => r.t0.isSome && r.chaosResourceName.isSome) = true) (by cases row <;> simp [Scorable, ← Option.isSome_iff_ne_none])

/-! ## The condition -/

/-- After which an injection that writes during itself is not verified: an exception, no
pod, no `GRAPH`, no ramp, no load, or a restart. -/
def aborts : Did Reply Call → Bool
  | .raised c => ¬ c.op.spares
  | .ran ⟨.read (.currentPodName _), _⟩ r => r.text.isNone
  | .ran ⟨.inject .leak, _⟩ r => ¬ r.ok
  | .ran ⟨.read (.leakStatus (.ramp 0)), _⟩ r => ¬ r.status.any (·.ramping)
  | .ran ⟨.command .launchCheckoutLoadBurst, _⟩ r => ¬ r.ok
  | .ran ⟨.read (.restartCount (some b)), _⟩ r => b < r.value.getD 0
  | _ => false

/-- The verified injection is not recorded. -/
def loses : Did Reply Call → Bool
  | .raised ⟨.ensureDb .record, _⟩ | .raised ⟨.recordEpisode _, _⟩ => true
  | _ => false

/-- No injection is aborted once a row of its own has been inserted, and a record that
cannot be written finds such a row. -/
def Kept (a : Args) (tr : Trace) : Prop := ¬ Occurs a.inserts aborts true tr ∧ ¬ Occurs a.inserts loses false tr

/-! ## The monitor -/

structure Track where
  row : Option Row
  inserted : Bool
  aborted : Bool
  lost : Bool

def Track.next (a : Args) (φ : Track) (d : Did Reply Call) : Track :=
  ⟨a.did φ.row d, φ.inserted || a.inserts d, φ.aborted || (φ.inserted == true && aborts d),
    φ.lost || (φ.inserted == false && loses d)⟩

def track (a : Args) : Monitor Reply Call Track where
  start := ⟨a.row, false, false, false⟩
  ran φ c r := φ.next a (.ran c r)
  raised φ c := φ.next a (.raised c)

/-- The run may end here. -/
def Told (a : Args) (v : Bool) (φ : Track) : Prop := GroundTruth a φ.row v ↔ φ.aborted = false ∧ φ.lost = false

section Monitor
variable {a : Args} {φ : Track} {tr : Trace}

theorem track_foldl : tr.foldl (track a).step φ = ⟨tr.foldl a.did φ.row, (tr.foldl (saw a.inserts aborts true) (φ.inserted, φ.aborted)).1,
    (tr.foldl (saw a.inserts aborts true) (φ.inserted, φ.aborted)).2, (tr.foldl (saw a.inserts loses false) (φ.inserted, φ.lost)).2⟩ := by
  induction tr generalizing φ with
  | nil => rfl
  | cons d tr ih =>
    have hstep : (track a).step φ d = φ.next a d := by cases d <;> rfl
    rw [List.foldl_cons, ih, hstep]
    rfl

theorem kept_of_told {p : Routine Exit} {r : Option Exit} (hr : p.Runs tr r)
    (h : Ends (track a) p (track a).start (fun x => Told a x.chaosName.isSome) (Told a false)) :
    GroundTruth a (a.rowAfter tr) (verified r) ↔ Kept a tr := by
  have ht : Told a (verified r) (tr.foldl (track a).step (track a).start) := by
    obtain ⟨h1, h2⟩ := hr.ends h
    cases r with
    | none => exact h2 rfl
    | some x => exact h1 x rfl
  rw [track_foldl] at ht
  rw [Kept, occurs_iff, occurs_iff, Bool.not_eq_true, Bool.not_eq_true]
  exact ht

/-! ## Where a run stands -/

/-- Nothing is recorded and nothing inserted. -/
def Clear (a : Args) (φ : Track) : Prop := φ.inserted = false ∧ φ.aborted = false ∧ φ.lost = false ∧ Blank a φ.row

/-- A row is inserted, and the injection goes on. -/
def Part (φ : Track) : Prop := φ.inserted = true ∧ φ.aborted = false ∧ φ.lost = false ∧ Scorable φ.row

/-- A row is inserted, and the injection aborted. -/
def Spoilt (φ : Track) : Prop := φ.inserted = true ∧ φ.aborted = true ∧ φ.lost = false ∧ Scorable φ.row

def Fine (a : Args) (φ : Track) : Prop := Clear a φ ∨ Part φ
def Failed (a : Args) (φ : Track) : Prop := Clear a φ ∨ Spoilt φ

theorem clear_start : Clear a (track a).start := by
  refine ⟨rfl, rfl, rfl, ?_⟩
  unfold Blank track Args.row
  cases a.episodeId with
  | none => exact .inl ⟨rfl, rfl⟩
  | some e => exact .inr ⟨by simp, _, rfl, rfl, rfl⟩

theorem not_scorable (h : Blank a φ.row) : ¬ Scorable φ.row := by
  rintro ⟨r, hr, ht, -⟩
  obtain ⟨-, hn⟩ | ⟨-, r', hr', ht', -⟩ := h
  · rw [hn] at hr
    cases hr
  · rw [hr', Option.some.injEq] at hr
    exact ht (hr ▸ ht')

theorem Clear.told (h : Clear a φ) : Told a false φ :=
  ⟨fun _ => ⟨h.2.1, h.2.2.1⟩, fun _ => ⟨⟨fun hs => (not_scorable h.2.2.2 hs).elim, fun hv => by cases hv⟩, fun _ => h.2.2.2⟩⟩

theorem Failed.told (h : Failed a φ) : Told a false φ := by
  rcases h with h | h
  · exact h.told
  · refine ⟨fun hg => ?_, fun hn => ?_⟩
    · cases hg.1.1 h.2.2.2
    · rw [h.2.1] at hn
      cases hn.1

theorem did_noDb {c : Call} (h : NoDb c) {d : Did Reply Call} (hd : (∃ r, d = .ran c r) ∨ d = .raised c) :
    φ.next a d = { φ with aborted := φ.aborted || (φ.inserted && aborts d) } := by
  have hrow : ∀ op : Op, op.noDb → a.commit φ.row op = φ.row := by
    intro op hop
    cases op <;> first | rfl | cases hop
  have hins : c.op.writes = false := by
    obtain ⟨op, s⟩ := c
    cases op <;> first | rfl | cases h
  have hlose : loses d = false := by
    rcases hd with ⟨r, rfl⟩ | rfl
    · rfl
    · obtain ⟨op, s⟩ := c
      cases op with
      | ensureDb u => cases u <;> first | rfl | cases h
      | recordEpisode => cases h
      | _ => rfl
  have hdid : a.did φ.row d = φ.row ∧ a.inserts d = false := by
    rcases hd with ⟨r, rfl⟩ | rfl
    · exact ⟨hrow _ h, by simp [Args.inserts, hins]⟩
    · exact ⟨rfl, rfl⟩
  simp only [Track.next, hdid.1, hdid.2, hlose, Bool.and_false, Bool.or_false, beq_true]

theorem Clear.noDb (h : Clear a φ) {c : Call} (hc : NoDb c) {d : Did Reply Call} (hd : (∃ r, d = .ran c r) ∨ d = .raised c) :
    φ.next a d = φ := by
  obtain ⟨row, inserted, aborted, lost⟩ := φ
  obtain ⟨rfl, -⟩ := h
  simp [did_noDb hc hd]

theorem Failed.noDb (h : Failed a φ) {c : Call} (hc : NoDb c) {d : Did Reply Call} (hd : (∃ r, d = .ran c r) ∨ d = .raised c) :
    Failed a (φ.next a d) := by
  rcases h with h | h
  · rw [h.noDb hc hd]
    exact .inl h
  · rw [did_noDb hc hd]
    exact .inr ⟨h.1, by simp [h.2.1], h.2.2⟩

theorem Fine.noDb (h : Fine a φ) {c : Call} (hc : NoDb c) {d : Did Reply Call} (hd : (∃ r, d = .ran c r) ∨ d = .raised c) :
    (aborts d = false → φ.next a d = φ) ∧ (aborts d = true → Failed a (φ.next a d)) := by
  refine ⟨fun hn => ?_, fun ha => ?_⟩
  · rw [did_noDb hc hd, hn, Bool.and_false, Bool.or_false]
  · rcases h with h | h
    · rw [h.noDb hc hd]
      exact .inl h
    · rw [did_noDb hc hd]
      exact .inr ⟨h.1, by simp [ha, h.1], h.2.2⟩

end Monitor

/-! ## What a program keeps -/

section Keeps
variable {a : Args} {φ : Track} {s : Site} {α : Type} {Q : α → Track → Prop}

theorem ends_clear {p : Routine α} (hp : p.Within NoDb) (h : Clear a φ) : Ends (track a) p φ (fun _ => Clear a) (Clear a) := by
  have hkeep : ∀ {ψ c d}, Clear a ψ → NoDb c → (∃ r, d = .ran c r) ∨ d = .raised c → Clear a (ψ.next a d) := by
    intro ψ c d hψ hc hd
    rw [hψ.noDb hc hd]
    exact hψ
  exact hp.ends (fun _ _ r hψ hc => hkeep hψ hc (.inl ⟨r, rfl⟩)) (fun _ _ hψ hc => hkeep hψ hc (.inr rfl)) h

theorem ends_failed {p : Routine α} (hp : p.Within NoDb) (h : Failed a φ) : Ends (track a) p φ (fun _ => Failed a) (Failed a) :=
  hp.ends (fun _ _ r hψ hc => hψ.noDb hc (.inl ⟨r, rfl⟩)) (fun _ _ hψ hc => hψ.noDb hc (.inr rfl)) h

/-- Whatever becomes of the call, the injection goes on. -/
def Spared (c : Call) : Prop := NoDb c ∧ (∀ r, aborts (.ran c r) = false) ∧ aborts (.raised c) = false

/-- It goes on if the call answers, whatever the answer. -/
def Inert (c : Call) : Prop := NoDb c ∧ (∀ r, aborts (.ran c r) = false) ∧ aborts (.raised c) = true

theorem next_noDb {c : Call} (h : NoDb c) {d : Did Reply Call} (hd : (∃ r, d = .ran c r) ∨ d = .raised c) (hn : aborts d = false) :
    φ.next a d = φ := by
  rw [did_noDb h hd, hn, Bool.and_false, Bool.or_false]

theorem ends_spared {p : Routine α} (hp : p.Within Spared) : Ends (track a) p φ (fun _ ψ => ψ = φ) (· = φ) := by
  refine hp.ends (fun ψ c r hψ hc => ?_) (fun ψ c hψ hc => ?_) rfl
  · exact (next_noDb hc.1 (.inl ⟨r, rfl⟩) (hc.2.1 r)).trans hψ
  · exact (next_noDb hc.1 (.inr rfl) hc.2.2).trans hψ

/-- Its exceptions are handled. -/
theorem ends_spares {β : Type} {p : Routine β} {k : β → Routine α} {g : Routine α} {X : Track → Prop} (hp : p.Within Spared)
    (hk : ∀ x, Ends (track a) (k x) φ Q X) (hg : Ends (track a) g φ Q X) : Ends (track a) (p.graft k g) φ Q X := by
  refine Obeys.graft ((ends_spared hp).mono ?_ ?_)
  · rintro x _ rfl
    exact hk x
  · rintro _ rfl
    exact hg

theorem ends_inert {p : Routine α} (hp : p.Plain Inert) (h : Fine a φ) (hq : ∀ x, Q x φ) : Ends (track a) p φ Q (Failed a) :=
  hp.ends (fun _ r hc => next_noDb hc.1 (.inl ⟨r, rfl⟩) (hc.2.1 r)) (fun _ hc => (h.noDb hc.1 (.inr rfl)).2 hc.2.2) hq

/-- A call whose answer decides. -/
theorem ends_decides {op : Op} {Q : Reply → Track → Prop} (hn : NoDb ⟨op, s⟩) (hx : aborts (.raised ⟨op, s⟩) = true) (h : Fine a φ)
    (hf : ∀ r, aborts (.ran ⟨op, s⟩ r) = false → Q r φ) (ha : ∀ r ψ, aborts (.ran ⟨op, s⟩ r) = true → Failed a ψ → Q r ψ) :
    Ends (track a) (call s op) φ Q (Failed a) := by
  refine Ends.stmt (fun r => ?_) ((h.noDb hn (.inr rfl)).2 hx)
  show Q r (φ.next a _)
  obtain ⟨hkeep, hfail⟩ := h.noDb hn (.inl ⟨r, rfl⟩)
  cases hr : aborts (.ran ⟨op, s⟩ r) with
  | false =>
    rw [hkeep hr]
    exact hf r hr
  | true => exact ha r _ hr (hfail hr)

theorem scorable_commit {row : Option Row} {op : Op} (hw : op.writes) (he : row = none) : Scorable (a.commit row op) := by
  subst he
  cases op <;> first | exact ⟨_, rfl, nofun, nofun⟩ | cases hw

theorem blank_commit {row : Option Row} {op : Op} (hw : op.writes) (he : a.episodeId ≠ none) (h : Blank a row) :
    Blank a (a.commit row op) := by
  obtain ⟨hn, -⟩ | ⟨-, r, rfl, ht, hc⟩ := h
  · exact absurd hn he
  · cases op <;> first | exact .inr ⟨he, _, rfl, ht, hc⟩ | cases hw

/-- An upsert inserts the row of a batch run. -/
theorem ends_upsert {op : Op} (hw : op.writes) (h : Clear a φ) : Ends (track a) (call s op) φ (fun _ => Fine a) (Failed a) := by
  obtain ⟨row, inserted, aborted, lost⟩ := φ
  obtain ⟨rfl, rfl, rfl, hb⟩ := h
  have hlose : loses (.raised ⟨op, s⟩) = false := by cases op <;> first | rfl | cases hw
  refine Ends.stmt (fun r => ?_) (.inl ⟨rfl, rfl, by simp [track, Track.next, hlose], hb⟩)
  by_cases he : a.episodeId = none
  · have hnone : row = none := by
      obtain ⟨-, hr⟩ | ⟨hn, -⟩ := hb
      · exact hr
      · exact absurd he hn
    exact .inr ⟨by simp [track, Track.next, Args.inserts, he, hw], rfl, rfl, scorable_commit hw hnone⟩
  · refine .inl ⟨?_, rfl, rfl, blank_commit hw he hb⟩
    simp [track, Track.next, Args.inserts, he]

end Keeps

/-! ## Network -/

section Network
variable {a : Args} {φ : Track} {s : Site} {α : Type}

/-- The injection goes on if the result is `true`, and has inserted nothing if it is not. -/
def Stands (a : Args) (v : Bool) (φ : Track) : Prop := (v = true → Fine a φ) ∧ (v = false → Clear a φ)

theorem Stands.failed {v : Bool} (h : Stands a v φ) (hv : v = false) : Failed a φ := .inl (h.2 hv)

theorem Clear.fine (h : Clear a φ) : Fine a φ := .inl h

theorem Clear.stands {v : Bool} (h : Clear a φ) : Stands a v φ := ⟨fun _ => h.fine, fun _ => h⟩

theorem Fine.stands (h : Fine a φ) : Stands a true φ := ⟨fun _ => h, nofun⟩

/-- What may be done while nothing is inserted; an exception there ends the run. -/
theorem ends_unset {p : Routine α} {Q : α → Track → Prop} (hp : p.Within NoDb) (h : Clear a φ) (hq : ∀ x ψ, Clear a ψ → Q x ψ) :
    Ends (track a) p φ Q (Failed a) :=
  (ends_clear hp h).mono hq fun _ => .inl

theorem inert_revert {f : Fault} : Inert ⟨.revert f, s⟩ := ⟨noDb_undo, fun _ => rfl, rfl⟩

theorem inert_sleep {d : Nat} : Inert ⟨.command (.sleep d), s⟩ := ⟨noDb_call rfl, fun _ => rfl, rfl⟩

theorem inert_stopFile : Inert ⟨.read .stopFile, s⟩ := ⟨noDb_read, fun _ => rfl, rfl⟩

/-- The `finally` that undoes the fault. -/
theorem ends_undoing {v : Bool} {f : Fault} (h : Stands a v φ) :
    Ends (track a) (revert s f) φ (fun _ => Stands a v) (Failed a) := by
  cases v with
  | true => exact ends_inert (plain_revert inert_revert) (h.1 rfl) fun _ => h
  | false => exact ends_unset (noDb_of (plain_revert noDb_undo)) (h.2 rfl) fun _ _ => Clear.stands

theorem ends_andUndo {p : Routine α} {f : Fault} {v : α → Bool}
    (h : Ends (track a) p φ (fun x => Stands a (v x)) (Failed a)) :
    Ends (track a) (p.andFinally (revert s f)) φ (fun x => Stands a (v x)) (Failed a) :=
  Ends.andFinally (h.mono (fun _ _ hs => ends_undoing hs) fun _ hf => ends_failed (noDb_of (plain_revert noDb_undo)) hf)

theorem ends_persistNetworkProbe {probe : Option Probe} (h : Clear a φ) :
    Ends (track a) (persistNetworkProbe s probe) φ (fun _ => Fine a) (Failed a) := by
  unfold persistNetworkProbe
  split
  · exact h.fine
  · exact Ends.bind ((ends_upsert (by rfl) h).mono (fun _ _ hf => hf) fun _ hf => hf)

theorem ends_latencyHold {baseline : Int} (n : Nat) (v : Bool) (h : Stands a v φ) :
    Ends (track a) (latencyHold a baseline n v) φ (fun x => Stands a x.1) (Failed a) := by
  induction n generalizing v φ with
  | zero => exact h
  | succ n ih =>
    cases v with
    | true =>
      have hf := h.1 rfl
      refine Ends.bind (ends_inert (plain_stop inert_stopFile) hf fun stop => ?_)
      split
      · exact h
      · refine Ends.bind (ends_inert (plain_run inert_sleep) hf fun _ => ?_)
        refine Ends.bind (ends_inert (plain_ask ⟨noDb_read, fun _ => rfl, rfl⟩) hf fun during => ?_)
        -- A fault that is verified is not verified again.
        split
        · exact ih true h
        · exact ih true h
    | false =>
      refine Ends.bind (ends_unset (noDb_of (plain_stopRequested has_noDb)) (h.2 rfl) fun stop ψ hψ => ?_)
      split
      · exact hψ.stands
      · refine Ends.bind (ends_unset (noDb_of (plain_sleep has_noDb _)) hψ fun _ ψ hψ => ?_)
        refine Ends.bind (ends_unset (noDb_of (plain_ask noDb_read)) hψ fun during ψ hψ => ?_)
        split
        · refine Ends.bind (Ends.bind (ends_unset (noDb_of (plain_ask noDb_read)) hψ fun probe ψ hψ => ?_))
          refine Ends.bind (ends_unset (noDb_of (plain_writeEvidenceFileOnce has_noDb)) hψ fun _ ψ hψ => ?_)
          exact (ends_persistNetworkProbe hψ).mono (fun _ _ hf => ih true hf.stands) fun _ hf => hf
        · exact ih false hψ.stands

theorem ends_networkLatencyAttempts (n : Nat) (h : Clear a φ) :
    Ends (track a) (networkLatencyAttempts a n) φ (fun x => Stands a x.isSome) (Failed a) := by
  induction n generalizing φ with
  | zero => exact h.stands
  | succ n ih =>
    refine Ends.bind (ends_unset (noDb_of (plain_ask noDb_read)) h fun baseline ψ hψ => ?_)
    refine Ends.bind (ends_unset (noDb_of (plain_chaosNameFrom has_noDb)) hψ fun chaosName ψ hψ => ?_)
    refine Ends.bind (ends_unset noDb_applyManifest hψ fun _ ψ hψ => ?_)
    refine Ends.bind ((ends_andUndo (ends_latencyHold _ false hψ.stands)).mono (fun held ψ hs => ?_) fun _ hf => hf)
    split
    · rename_i hv
      rw [hv] at hs
      exact hs
    · rename_i hv
      have hclear := hs.2 (by simpa using hv)
      split
      · exact hclear.stands
      · exact ih hclear

theorem ends_partitionHold {start : Nat} (h : Clear a φ) :
    Ends (track a) (partitionHold a start) φ (fun x => Stands a x) (Failed a) := by
  refine Ends.bind (ends_unset (noDb_of (plain_sleep has_noDb _)) h fun _ ψ hψ => ?_)
  refine Ends.bind (ends_unset (noDb_of (plain_ask noDb_read)) hψ fun probe ψ hψ => ?_)
  have hrest : ∀ {v ψ}, Stands a v ψ → Ends (track a) (do
      let now ← ask .tried .time
      interruptibleSleep .tried a (a.durationS - (now.now - start))
      pure v : Routine Bool) ψ (fun x => Stands a x) (Failed a) := by
    intro v ψ hs
    cases v with
    | true =>
      refine Ends.bind (ends_inert (plain_ask ⟨noDb_read, fun _ => rfl, rfl⟩) (hs.1 rfl) fun now => ?_)
      refine Ends.bind (ends_inert ?_ (hs.1 rfl) fun _ => hs)
      exact (plain_tick inert_stopFile (fun _ => inert_sleep) _ _).bind fun _ => trivial
    | false =>
      refine Ends.bind (ends_unset (noDb_of (plain_ask noDb_read)) (hs.2 rfl) fun now ψ hψ => ?_)
      exact Ends.bind (ends_unset (noDb_of (plain_interruptibleSleep has_noDb _)) hψ fun _ ψ hψ => hψ.stands)
  refine Ends.bind ((ends_onlyIf (Q := fun _ => Stands a (decide _)) (fun hv => ?_) fun hv => ?_).mono (fun _ _ => hrest) fun _ hf => hf)
  · refine Ends.bind (ends_unset (noDb_of (plain_writeEvidenceFileOnce has_noDb)) hψ fun _ ψ hψ => ?_)
    refine (ends_persistNetworkProbe hψ).mono (fun _ _ hf => ?_) fun _ hf => hf
    exact (decide_eq_true hv).symm ▸ hf.stands
  · exact hψ.stands

theorem ends_networkPartitionAttempts (n : Nat) (h : Clear a φ) :
    Ends (track a) (networkPartitionAttempts a n) φ (fun x => Stands a x.isSome) (Failed a) := by
  induction n generalizing φ with
  | zero => exact h.stands
  | succ n ih =>
    refine Ends.bind (ends_unset (noDb_of (plain_chaosNameFrom has_noDb)) h fun chaosName ψ hψ => ?_)
    refine Ends.bind (ends_unset noDb_applyManifest hψ fun _ ψ hψ => ?_)
    refine Ends.bind (ends_unset (noDb_of (plain_ask noDb_read)) hψ fun start ψ hψ => ?_)
    refine Ends.bind ((ends_andUndo (ends_partitionHold hψ)).mono (fun verified ψ hs => ?_) fun _ hf => hf)
    split
    · rename_i hv
      rw [hv] at hs
      exact hs
    · exact ih (hs.2 (by simpa using ‹¬ verified = true›))

end Network

/-! ## Memory leak -/

section Leak
variable {a : Args} {φ : Track} {s : Site}

/-- The injection goes on if the result is `true`, and is aborted if it is not. -/
def Decided (a : Args) (v : Bool) (φ : Track) : Prop := (v = true → Fine a φ) ∧ (v = false → Failed a φ)

theorem Stands.decided {v : Bool} (h : Stands a v φ) : Decided a v φ := ⟨h.1, h.failed⟩

theorem Fine.decided (h : Fine a φ) : Decided a true φ := ⟨fun _ => h, nofun⟩

theorem Failed.decided (h : Failed a φ) : Decided a false φ := ⟨nofun, fun _ => h⟩

/-- An upsert of what was measured, or none. -/
theorem ends_captureMemoryLeakBaseline (h : Clear a φ) :
    Ends (track a) (captureMemoryLeakBaseline a) φ (fun x => Stands a x.isSome) (Failed a) := by
  have hupsert : ∀ {kb ψ}, Clear a ψ → Ends (track a) (do
      let _ ← call .clean (.upsertBaseline kb)
      pure (some kb) : Routine (Option Int)) ψ (fun x => Stands a x.isSome) (Failed a) :=
    fun hψ => Ends.bind ((ends_upsert (by rfl) hψ).mono (fun _ _ hf => hf.stands) fun _ hf => hf)
  refine Ends.bind (ends_unset (noDb_of (plain_currentPodName has_noDb)) h fun pod ψ hψ => ?_)
  refine Ends.bind (ends_unset (noDb_ite (noDb_of ?_) trivial) hψ fun fromAgent ψ hψ => ?_)
  · exact (plain_ask noDb_read).bind fun _ => trivial
  cases fromAgent with
  | some kb => exact hupsert hψ
  | none =>
    refine Ends.bind (ends_unset (noDb_of (plain_ask noDb_read)) hψ fun x ψ hψ => ?_)
    cases (if x.ok then x.value else none) with
    | none => exact hψ.stands
    | some kb => exact hupsert hψ

/-- The last reading decides. -/
theorem ends_confirmRamp (n : Nat) (h : Fine a φ) :
    Ends (track a) (confirmRamp (n + 1)) φ (fun x => Decided a x) (Failed a) := by
  induction n with
  | zero =>
    refine Ends.bind (ends_inert (plain_run inert_sleep) h fun _ => Ends.bind (ends_decides noDb_read (by rfl) h ?_ ?_))
    · intro r hr
      rw [aborts, decide_eq_false_iff_not, not_not] at hr
      rw [if_pos hr]
      exact h.decided
    · intro r ψ hr hψ
      rw [aborts, decide_eq_true_iff] at hr
      rw [if_neg hr]
      exact hψ.decided
  | succ n ih =>
    refine Ends.bind (ends_inert (plain_run inert_sleep) h fun _ => Ends.bind (ends_inert (plain_ask ⟨noDb_read, fun _ => rfl, rfl⟩) h fun x => ?_))
    split
    · exact h.decided
    · exact ih

theorem inert_waitForSaturation (n : Nat) : (waitForSaturation n).Plain Inert := by
  induction n with
  | zero => trivial
  | succ n ih =>
    refine (plain_ask ⟨noDb_read, fun _ => rfl, rfl⟩).bind fun x => plain_ite plain_pure ?_
    exact (plain_run inert_sleep).bind fun _ => ih

theorem ends_restartCount {b : Int} (h : Fine a φ) :
    Ends (track a) (restartCount s (some b)) φ (fun x => Decided a (decide (x ≤ b))) (Failed a) := by
  refine Ends.bind (ends_decides noDb_read (by rfl) h (fun r hr => ?_) fun r ψ hr hψ => ?_)
  · rw [aborts, decide_eq_false_iff_not, not_lt] at hr
    show Decided a (decide (_ ≤ b)) φ
    rw [decide_eq_true hr]
    exact h.decided
  · rw [aborts, decide_eq_true_iff] at hr
    show Decided a (decide (_ ≤ b)) ψ
    rw [decide_eq_false (not_le.2 hr)]
    exact hψ.decided

theorem ends_leakHold {baseline : Int} (n remaining : Nat) (h : Fine a φ) :
    Ends (track a) (leakHold a baseline n remaining) φ (fun x => Decided a !x) (Failed a) := by
  induction n generalizing φ remaining with
  | zero => exact h.decided
  | succ n ih =>
    refine Ends.bind (ends_inert (plain_stop inert_stopFile) h fun stop => ?_)
    split
    · exact h.decided
    · refine Ends.bind (ends_inert (plain_run inert_sleep) h fun _ => Ends.bind ((ends_restartCount h).mono ?_ fun _ hf => hf))
      intro now ψ hd
      split
      · rename_i hr
        exact (hd.2 (decide_eq_false (not_le.2 hr))).decided
      · rename_i hr
        exact ih _ (hd.1 (decide_eq_true (not_lt.1 hr)))

/-- Calls whose exceptions abort an injection, and whose answers do not. -/
theorem ends_decided {α : Type} {p : Routine α} {v : Bool} (hp : p.Plain Inert) (h : Decided a v φ) :
    Ends (track a) p φ (fun _ => Decided a v) (Failed a) := by
  cases v with
  | true => exact ends_inert hp (h.1 rfl) fun _ => h
  | false => exact (ends_failed (hp.within fun _ hc => hc.1) (h.2 rfl)).mono (fun _ _ => Failed.decided) fun _ hf => hf

/-- What the reaping of the load raises is handled; the rest is an exception like others. -/
theorem ends_releaseLeak {v : Bool} (h : Decided a v φ) :
    Ends (track a) (releaseLeak a) φ (fun _ => Decided a v) (Failed a) := by
  have hrun : ∀ {c : Command}, (Op.command c).spares → (command .tried c).Within Spared := by
    intro c hc
    refine (plain_run ⟨noDb_call rfl, fun r => ?_, ?_⟩).within fun _ h => h
    · cases c <;> first | rfl | cases hc
    · show decide _ = false
      simp [hc]
  -- However the reaping ends, the logs are read, the load's pod is deleted and the agent released.
  refine Ends.bind (ends_spares ((hrun rfl).bind fun _ => hrun rfl) (fun _ => ?_) (ends_spares (hrun rfl) (fun _ => ?_) ?_))
  all_goals refine Ends.bind (ends_spares (plain_ask ⟨noDb_read, fun _ => rfl, rfl⟩ |>.within fun _ h => h) (fun _ => ?_) ?_)
  all_goals refine Ends.bind ((ends_decided (plain_run ⟨noDb_call rfl, fun _ => rfl, rfl⟩) h).mono (fun _ _ hd => ?_) fun _ hf => hf)
  all_goals exact ends_decided (plain_revert inert_revert) hd

theorem ends_leakLoaded (h : Fine a φ) : Ends (track a) (leakLoaded a) φ (fun x => Decided a x.isSome) (Failed a) := by
  refine Ends.bind (ends_decides (noDb_call rfl) (by rfl) h (fun r hr => ?_) fun r ψ hr hψ => ?_)
  · rw [aborts, decide_eq_false_iff_not, not_not] at hr
    rw [if_pos hr]
    refine Ends.bind (ends_inert (plain_onlyIf (plain_run ⟨noDb_call rfl, fun _ => rfl, rfl⟩)) h fun _ => ?_)
    refine Ends.bind (Ends.bind (ends_inert (plain_ask ⟨noDb_read, fun _ => rfl, rfl⟩) h fun count => ?_))
    refine Ends.bind (Ends.andFinally ((ends_leakHold _ _ h).mono (fun restarted ψ hd => ?_) fun ψ hf => ?_))
    · refine (ends_releaseLeak hd).mono (fun _ _ hd => ?_) fun _ hf => hf
      cases restarted <;> exact hd
    · exact (ends_releaseLeak hf.decided).mono (fun _ _ hd => hd.2 rfl) fun _ hf => hf
  · rw [aborts, decide_eq_true_iff] at hr
    rw [if_neg hr]
    exact Ends.bind ((ends_failed (noDb_of (plain_revert noDb_undo)) hψ).mono (fun _ _ => Failed.decided) fun _ hf => hf)

theorem ends_injectMemoryLeak (h : Clear a φ) : Ends (track a) (injectMemoryLeak a) φ (fun x => Decided a x.isSome) (Failed a) := by
  refine Ends.bind (ends_unset (noDb_of (plain_sleep has_noDb _)) h fun _ ψ hψ => ?_)
  refine Ends.bind ((ends_captureMemoryLeakBaseline hψ).mono (fun baseline ψ hs => ?_) fun _ hf => hf)
  cases baseline with
  | none => exact (hs.failed rfl).decided
  | some kb =>
    have hf := hs.1 rfl
    refine Ends.bind (Ends.bind (ends_decides noDb_read (by rfl) hf (fun r hr => ?_) fun r ψ hr hψ => ?_))
    · have hpod : ¬ r.text.isNone := ne_true_of_eq_false hr
      show Ends (track a) (if r.text.isNone then _ else _) _ _ _
      rw [if_neg hpod]
      split
      · exact ends_leakLoaded hf
      · refine Ends.bind (ends_decides (noDb_call rfl) (by rfl) hf (fun r hr => ?_) fun r ψ hr hψ => ?_)
        · rw [aborts, decide_eq_false_iff_not, not_not] at hr
          rw [if_pos hr]
          refine Ends.bind ((ends_confirmRamp 9 hf).mono (fun confirmed ψ hd => ?_) fun _ hf => hf)
          split
          · have hf := hd.1 ‹_›
            exact Ends.bind (ends_inert (inert_waitForSaturation _) hf fun _ => ends_leakLoaded hf)
          · exact (hd.2 (by simpa using ‹¬ confirmed = true›)).decided
        · rw [aborts, decide_eq_true_iff] at hr
          rw [if_neg hr]
          exact hψ.decided
    · have hpod : r.text.isNone := hr
      show Ends (track a) (if r.text.isNone then _ else _) _ _ _
      rw [if_pos hpod]
      exact hψ.decided

end Leak

/-! ## A run of `main` -/

section Main
variable {a : Args} {φ : Track}

theorem ends_branch (h : Clear a φ) : Ends (track a) (branch a) φ (fun x => Decided a x.isSome) (Failed a) := by
  refine Ends.bind (ends_unset noDb_prepare h fun ready ψ hψ => ?_)
  split
  · by_cases hw : a.faultClass.writesDuring
    · unfold injectAndVerify
      cases hc : a.faultClass <;> rw [hc] at hw
      case networkLatency => exact (ends_networkLatencyAttempts _ hψ).mono (fun _ _ => Stands.decided) fun _ hf => hf
      case networkPartition => exact (ends_networkPartitionAttempts _ hψ).mono (fun _ _ => Stands.decided) fun _ hf => hf
      case memoryLeak => exact ends_injectMemoryLeak hψ
      all_goals cases hw
    · exact ends_unset (noDb_injectAndVerify (by simpa using hw)) hψ fun _ _ hχ => hχ.stands.decided
  · exact hψ.stands.decided

/-- The calls of `main` that change nothing. -/
theorem spared_main {op : Op} (h : op ∈ [.ensureDb .lock, .ensureDb .inject, .ensureDb .release, .closeConn, .acquireSystemLock, .releaseSystemLock]) :
    (call .clean op).Within Spared := by
  have hs : Spared ⟨op, .clean⟩ := by
    simp only [List.mem_cons, List.not_mem_nil, or_false] at h
    rcases h with rfl | rfl | rfl | rfl | rfl | rfl <;> exact ⟨noDb_call rfl, fun _ => rfl, rfl⟩
  exact (plain_call hs).within fun _ h => h

theorem Clear.unrecorded (h : Clear a φ) : Told a true { φ with lost := true } := by
  refine ⟨fun hg => ?_, fun hn => ?_⟩
  · exact (not_scorable h.2.2.2 (hg.1.2 rfl)).elim
  · cases hn.2

theorem told_scorable (h : Scorable φ.row) (ha : φ.aborted = false) (hl : φ.lost = false) : Told a true φ :=
  ⟨fun _ => ⟨ha, hl⟩, fun _ => ⟨⟨fun _ => rfl, fun _ => h⟩, nofun⟩⟩

/-- A record that cannot be written is missed exactly where no row has been inserted. -/
theorem Fine.raised {c : Call} (h : Fine a φ) (hl : loses (.raised c) = true) (ha : aborts (.raised c) = false) :
    Told a true (φ.next a (.raised c)) := by
  obtain ⟨row, inserted, aborted, lost⟩ := φ
  rcases h with h | h
  · have hc := h.unrecorded
    obtain ⟨rfl, rfl, rfl, -⟩ := h
    simpa [Track.next, Args.did, Args.inserts, hl] using hc
  · obtain ⟨rfl, rfl, rfl, hs⟩ := h
    exact told_scorable hs (by simp [Track.next, ha]) (by simp [Track.next])

theorem ends_recordVerified {n : String} (h : Fine a φ) :
    Ends (track a) (recordVerified a (some n)) φ (fun _ => Told a true) (Told a true) := by
  have hrec : Ends (track a) (do
      let _ ← call .clean (.recordEpisode n)
      let _ ← call .clean .closeConn : Routine Unit) φ (fun _ => Told a true) (Told a true) := by
    refine Ends.bind (Ends.stmt (fun r => ?_) (h.raised rfl rfl))
    have ht : Told a true (φ.next a (.ran ⟨.recordEpisode n, .clean⟩ r)) := by
      refine told_scorable ⟨_, rfl, nofun, nofun⟩ ?_ ?_
      all_goals rcases h with h | h <;> simp [Track.next, aborts, loses, h.2.1, h.2.2.1]
    exact Ends.bind ((ends_spared (spared_main (by simp))).mono (fun _ _ hψ => hψ ▸ ht) fun _ hψ => hψ ▸ ht)
  refine Ends.bind (ends_onlyIf (fun _ => Ends.bind (Ends.stmt (fun r => ?_) (h.raised rfl rfl))) fun _ => hrec)
  have hsame : φ.next a (.ran ⟨.ensureDb .record, .clean⟩ r) = φ := by
    simp [Track.next, aborts, loses, Args.inserts, Op.writes, Args.did, Args.commit]
  show Ends (track a) _ (φ.next a _) _ _
  rw [hsame]
  exact hrec

theorem ends_releaseSystemLock : Ends (track a) releaseSystemLock φ (fun _ ψ => ψ = φ) (· = φ) :=
  ends_spared ((spared_main (by simp)).bind fun _ => (spared_main (by simp)).bind fun _ => (spared_main (by simp)).bind fun _ => trivial)

theorem ends_acquireSystemLockOrDie (h : Clear a φ) :
    Ends (track a) acquireSystemLockOrDie φ (fun _ => Clear a) (Clear a) := by
  have hc : ∀ {op : Op}, op.noDb → (call .clean op).Within NoDb := fun h => noDb_of (plain_call (noDb_call h))
  have htries : ∀ n, (acquireTries n).Within NoDb := by
    intro n
    induction n with
    | zero => exact (hc rfl).bind fun _ => noDb_ite ((hc rfl).bind fun _ => trivial) trivial
    | succ n ih => exact (hc rfl).bind fun _ => noDb_ite ((noDb_of (plain_sleep has_noDb _)).bind fun _ => ih) trivial
  exact ends_clear ((hc rfl).bind fun _ => (htries _).bind fun _ => (hc rfl).bind fun _ => trivial) h

theorem ends_underLock (h : Clear a φ) :
    Ends (track a) (underLock a) φ (fun x => Told a x.chaosName.isSome) (Told a false) := by
  have hf : ∀ ψ, Failed a ψ → Told a false ψ := fun _ => Failed.told
  refine Ends.bind ((ends_unset (noDb_of (plain_clearStaleOomStickyFlag has_noDb)) h fun _ ψ hψ => ?_).mono (fun _ _ h => h) hf)
  refine Ends.bind ((ends_unset ?_ hψ fun _ ψ hψ => ?_).mono (fun _ _ h => h) hf)
  · exact noDb_of (plain_onlyIf ((plain_call (noDb_call rfl)).bind fun _ => trivial))
  refine Ends.bind ((ends_branch hψ).mono (fun chaosName ψ hd => ?_) hf)
  cases chaosName with
  | none => exact Obeys.graft (hd.2 rfl).told
  | some n => exact Obeys.graft ((ends_recordVerified (hd.1 rfl)).mono (fun _ _ ht => ht) fun _ ht => ht)

theorem ends_main : Ends (track a) (main a) (track a).start (fun x => Told a x.chaosName.isSome) (Told a false) := by
  refine Ends.bind ((ends_acquireSystemLockOrDie clear_start).mono (fun _ ψ hψ => ?_) fun _ hψ => hψ.told)
  -- The release changes nothing, whether it raises or not.
  refine Obeys.graft ((ends_underLock hψ).mono (fun x χ hx => ?_) fun χ hx => ?_)
  · refine Obeys.graft (ends_releaseSystemLock.mono ?_ ?_)
    · rintro _ _ rfl
      exact hx
    · rintro _ rfl
      exact hx
  · refine Obeys.graft (ends_releaseSystemLock.mono ?_ ?_)
    · rintro _ _ rfl
      exact hx
    · rintro _ rfl
      exact hx

/-- When a run of `main` is over, the episode's row is one that can be scored exactly if the
injection was verified, and is as it was if not: exactly in the runs where no injection is
aborted that has inserted a row, and no record is missed but where it has. -/
theorem groundTruth_iff (a : Args) (tr : Trace) (r : Option Exit) (h : (main a).Runs tr r) :
    GroundTruth a (a.rowAfter tr) (verified r) ↔ Kept a tr :=
  kept_of_told h ends_main

/-- A batch run of a class. -/
def batchRun (c : FaultClass) : Args := ⟨c, none, none, none, none, 0, false⟩

/-- The lock is acquired, and there is no sticky flag. -/
def locked : Trace :=
  [.ran ⟨.ensureDb .lock, .clean⟩ yes, .ran ⟨.acquireSystemLock, .clean⟩ yes, .ran ⟨.closeConn, .clean⟩ yes,
    .ran ⟨.read .stickyOom, .clean⟩ yes]

def unlocked : Trace :=
  [.ran ⟨.ensureDb .release, .clean⟩ yes, .ran ⟨.releaseSystemLock, .clean⟩ yes, .ran ⟨.closeConn, .clean⟩ yes]

def rolloutVerified : Trace :=
  locked ++ [.ran ⟨.read .image, .clean⟩ { yes with text := some FRONT_END_IMAGE_BASELINE },
    .ran ⟨.command (.patchImage true), .clean⟩ yes, .ran ⟨.read .imagePullFailing, .clean⟩ yes,
    .ran ⟨.ensureDb .record, .clean⟩ yes, .ran ⟨.recordEpisode "manual-patch", .clean⟩ yes, .ran ⟨.closeConn, .clean⟩ yes] ++ unlocked

theorem rolloutVerified_recorded : (main (batchRun .badRollout)).Runs rolloutVerified (some ⟨some "manual-patch", true⟩) ∧
    GroundTruth (batchRun .badRollout) ((batchRun .badRollout).rowAfter rolloutVerified) true := by
  have hr : (main (batchRun .badRollout)).Runs rolloutVerified (some ⟨some "manual-patch", true⟩) :=
    runs_play 40 [some yes, some yes, some yes, some yes, some { yes with text := some FRONT_END_IMAGE_BASELINE }, some yes, some yes,
      some yes, some yes, some yes, some yes, some yes, some yes] rfl
  exact ⟨hr, (groundTruth_iff _ _ _ hr).2 ⟨by decide, by decide⟩⟩

def pod : Reply := { yes with text := some "shipping-0" }

def idle : Reply := { yes with status := some ⟨some "IDLE", .number 0, .number 0, .number 40⟩ }

/-- The heap's baseline is upserted, and the agent refuses `GRAPH`. -/
def graphRefused : Trace :=
  locked ++ [.ran ⟨.ensureDb .inject, .clean⟩ yes, .ran ⟨.read (.currentPodName "shipping"), .clean⟩ pod,
    .ran ⟨.read (.leakStatus .clean), .clean⟩ idle, .ran ⟨.command (.sleep 35), .clean⟩ yes,
    .ran ⟨.read (.currentPodName "shipping"), .clean⟩ pod, .ran ⟨.read (.leakStatus .baseline), .clean⟩ idle,
    .ran ⟨.upsertBaseline 40960, .clean⟩ yes, .ran ⟨.read (.currentPodName "shipping"), .clean⟩ pod,
    .ran ⟨.inject .leak, .clean⟩ { yes with ok := false }] ++ unlocked

theorem graphRefused_row : (main (batchRun .memoryLeak)).Runs graphRefused (some ⟨none, false⟩) ∧
    Scorable ((batchRun .memoryLeak).rowAfter graphRefused) ∧
    ¬ GroundTruth (batchRun .memoryLeak) ((batchRun .memoryLeak).rowAfter graphRefused) false :=
  ⟨runs_play 40 [some yes, some yes, some yes, some yes, some yes, some pod, some idle, some yes, some pod, some idle, some yes,
      some pod, some { yes with ok := false }, some yes, some yes, some yes] rfl,
    by decide, fun h => (by decide : ¬ (Scorable _ ↔ false = true)) h.1⟩

end Main

end Record

end Wardence.Injector
