import Mathlib.Data.List.Induction
import Wardence.Lib.Calendar
import Wardence.Lib.Table
/-!
# Marks of exhaustion

`provider_exhaustion` of `quota_tracker.py`, with its times as the texts the
table holds. A function that reads the clock twice is given both readings; the
clock does not go back between them.
-/
namespace Wardence.Quota.Marks

open Calendar Keyed

/-! ## The clock -/

/-- An instant whose next midnight is still a `datetime`. -/
structure Clock extends DateTime where
  tomorrow : toDateTime.days + 1 < MAX_DAYS

/-- The readings of one call. -/
structure Reading where
  first : Clock
  second : Clock
  le : first.toDateTime ≤ second.toDateTime

def Reading.During (r : Reading) (t : DateTime) : Prop := r.first.toDateTime ≤ t ∧ t ≤ r.second.toDateTime

/-- The readings of a query, which any instant can be. -/
structure Query where
  first : DateTime
  second : DateTime
  le : first ≤ second

def MINUTE_US : Nat := 60 * 1000000
def PROBE_COOLDOWN_MINUTES : Nat := 15

/-- `_next_utc_midnight`, before it is formatted. -/
def nextUtcMidnight (now : Clock) : DateTime :=
  ⟨(now.days + 1) * DAY_US, Nat.mul_lt_mul_of_pos_right now.tomorrow (by decide)⟩

theorem lt_nextUtcMidnight (now : Clock) : now.micros < (now.days + 1) * DAY_US :=
  Nat.lt_mul_of_div_lt (Nat.lt_succ_self _) (by decide)

/-- `now + timedelta(minutes=PROBE_COOLDOWN_MINUTES)`. -/
def cooldownEnd (now : Clock) : DateTime :=
  ⟨now.micros + PROBE_COOLDOWN_MINUTES * MINUTE_US, by
    have h : PROBE_COOLDOWN_MINUTES * MINUTE_US ≤ DAY_US := by decide
    have h1 := lt_nextUtcMidnight now
    have h2 := Nat.mul_le_mul_right DAY_US now.tomorrow
    rw [Nat.succ_mul] at h2
    omega⟩

@[simp] theorem nextUtcMidnight_micros (now : Clock) : (nextUtcMidnight now).micros = (now.days + 1) * DAY_US := rfl

@[simp] theorem cooldownEnd_micros (now : Clock) :
    (cooldownEnd now).micros = now.micros + PROBE_COOLDOWN_MINUTES * MINUTE_US := rfl

/-- When a mark made at `t0` runs out. -/
def expiry (t0 : Clock) : DateTime := min (cooldownEnd t0) (nextUtcMidnight t0)

/-! ## The table -/

/-- A row of `provider_exhaustion`. -/
structure Row where
  exhaustedUntil : String
  reason : Option String
  nextProbeAt : Option String
  deriving DecidableEq

/-- By provider and model. -/
abbrev Exhaustion := Table (String × String) Row

/-- What `mark_exhausted` writes. The midnight it reads back from its text is the one it wrote. -/
def marked (r : Reading) (reason : String) : Row :=
  { exhaustedUntil := (nextUtcMidnight r.first).isoformat
    reason := some reason
    nextProbeAt := some (min (cooldownEnd r.second) (nextUtcMidnight r.first)).isoformat }

def markExhausted (t : Exhaustion) (provider model reason : String) (r : Reading) : Exhaustion :=
  t.insert (provider, model) (marked r reason)

def clearExhausted (t : Exhaustion) (provider model : String) : Exhaustion := t.erase (provider, model)

def isMarkedExhausted (t : Exhaustion) (provider model : String) (first second : DateTime) : Option String :=
  match t.lookup (provider, model) with
  | none => none
  | some row =>
    if row.nextProbeAt.any (· ≤ first.isoformat) then none
    else if second.isoformat < row.exhaustedUntil then row.reason
    else none

/-! ## Operations in sequence -/

inductive Op where
  | mark (provider model reason : String) (r : Reading)
  | clear (provider model : String)

namespace Op

def key : Op → String × String
  | mark provider model _ _ => (provider, model)
  | clear provider model => (provider, model)

def run (t : Exhaustion) : Op → Exhaustion
  | mark provider model reason r => markExhausted t provider model reason r
  | clear provider model => clearExhausted t provider model

/-- The row an operation leaves under its key. -/
def leaves : Op → Option Row
  | mark _ _ reason r => some (marked r reason)
  | clear _ _ => none

end Op

def runAll (ops : List Op) : Exhaustion := ops.foldl Op.run ∅

/-- The last operation on a key. -/
def latest (k : String × String) (ops : List Op) : Option Op := (ops.filter fun o => o.key = k).getLast?

theorem Op.lookup_run (t : Exhaustion) (o : Op) (k : String × String) :
    (o.run t).lookup k = if k = o.key then o.leaves else t.lookup k := by
  cases o with
  | mark provider model reason r => exact Table.lookup_upsert t (provider, model) k (marked r reason)
  | clear provider model =>
    by_cases h : k = (provider, model)
    · subst h
      simp [run, clearExhausted, key, leaves]
    · simp [run, clearExhausted, key, h, AList.lookup_erase_ne h]

/-- The table holds what the last operation on each key left. -/
theorem lookup_runAll (k : String × String) (ops : List Op) :
    (runAll ops).lookup k = (latest k ops).bind Op.leaves := by
  induction ops using List.reverseRecOn with
  | nil => rfl
  | append_singleton ops o ih =>
    rw [runAll, List.foldl_concat, ← runAll, o.lookup_run, ih]
    by_cases h : k = o.key
    · simp [latest, h]
    · simp [latest, h, Ne.symm h]

/-! ## How long a mark stands -/

/-- Two readings on one day have one next midnight. -/
theorem nextUtcMidnight_of_days {a b : Clock} (h : a.days = b.days) : nextUtcMidnight a = nextUtcMidnight b := by
  unfold nextUtcMidnight
  simp only [h]

/-- An instant of `a`'s day, from `a` on. -/
theorem days_of_lt {a : Clock} {t : DateTime} (h : a.toDateTime ≤ t) (ht : t < nextUtcMidnight a) : t.days = a.days := by
  have h1 : a.days ≤ t.days := Nat.div_le_div_right h
  have h2 : t.days < a.days + 1 := Nat.div_lt_of_lt_mul (by rw [Nat.mul_comm]; exact ht)
  omega

/-- A clock reading a cooldown before the next midnight, where `a` is earlier still. -/
theorem exists_cooldown_before (a : Clock) (h : cooldownEnd a ≤ nextUtcMidnight a) : ∃ t0 : Clock,
    a.toDateTime ≤ t0.toDateTime ∧ t0.toDateTime ≤ nextUtcMidnight a ∧ expiry t0 = nextUtcMidnight a := by
  rw [DateTime.le_iff, cooldownEnd_micros, nextUtcMidnight_micros] at h
  have hpos : 0 < PROBE_COOLDOWN_MINUTES * MINUTE_US := by decide
  have hmid := (nextUtcMidnight a).lt
  rw [nextUtcMidnight_micros] at hmid
  generalize hw : PROBE_COOLDOWN_MINUTES * MINUTE_US = w at h hpos
  let t : DateTime := ⟨(a.days + 1) * DAY_US - w, (Nat.sub_le _ _).trans_lt hmid⟩
  have hle : a.toDateTime ≤ t := by
    rw [DateTime.le_iff]
    exact Nat.le_sub_of_add_le h
  have hlt : t < nextUtcMidnight a := by
    rw [DateTime.lt_iff, nextUtcMidnight_micros]
    exact Nat.sub_lt (by omega) hpos
  have hdays := days_of_lt hle hlt
  refine ⟨⟨t, hdays ▸ a.tomorrow⟩, hle, hlt.le, ?_⟩
  rw [expiry, nextUtcMidnight_of_days (b := a) hdays, min_eq_right]
  rw [DateTime.le_iff, cooldownEnd_micros, nextUtcMidnight_micros, hw]
  exact Nat.le_add_of_sub_le le_rfl

/-- A mark runs out where one made at an instant of the call would. -/
theorem exists_expiry (r : Reading) : ∃ t0 : Clock, r.During t0.toDateTime ∧
    min (cooldownEnd r.second) (nextUtcMidnight r.first) = expiry t0 := by
  rcases lt_or_ge r.second.toDateTime (nextUtcMidnight r.first) with h | h
  · -- No midnight between the readings: the second one decides.
    refine ⟨r.second, ⟨r.le, le_rfl⟩, ?_⟩
    rw [expiry, nextUtcMidnight_of_days (days_of_lt r.le h)]
  · have hpast : nextUtcMidnight r.first ≤ cooldownEnd r.second := by
      rw [DateTime.le_iff] at h ⊢
      rw [cooldownEnd_micros]
      omega
    rw [min_eq_right hpast]
    rcases le_total (nextUtcMidnight r.first) (cooldownEnd r.first) with h1 | h1
    · exact ⟨r.first, ⟨le_rfl, r.le⟩, by rw [expiry, min_eq_right h1]⟩
    · -- The call took longer than the cooldown.
      obtain ⟨t0, hle, hlt, he⟩ := exists_cooldown_before r.first h1
      exact ⟨t0, ⟨hle, hlt.trans h⟩, he.symm⟩

/-- What is answered at `t`, if the last operation is a mark made at `t0`. -/
def standing (t0 : Clock) (reason : String) (t : DateTime) : Option String :=
  if t < expiry t0 then some reason else none

/-- What a query at `t` answers after a key's last operation. A mark made between two readings of the
clock counts from an instant between them. -/
def Answers (t : DateTime) (answer : Option String) : Option Op → Prop
  | some (.mark _ _ reason r) => ∃ t0 : Clock, r.During t0.toDateTime ∧ answer = standing t0 reason t
  | _ => answer = none

theorem isoformat_le {x y : DateTime} : x.isoformat ≤ y.isoformat ↔ x ≤ y := by
  rw [← not_lt, DateTime.isoformat_lt, not_lt]

/-- The texts are compared as the instants would be. -/
theorem isMarkedExhausted_of_marked {t : Exhaustion} {provider model reason : String} {r : Reading}
    (h : t.lookup (provider, model) = some (marked r reason)) (first second : DateTime) :
    isMarkedExhausted t provider model first second =
      if first < min (cooldownEnd r.second) (nextUtcMidnight r.first) ∧ second < nextUtcMidnight r.first then some reason
      else none := by
  simp only [isMarkedExhausted, h, marked, Option.any_some, decide_eq_true_eq, isoformat_le, DateTime.isoformat_lt]
  by_cases h1 : min (cooldownEnd r.second) (nextUtcMidnight r.first) ≤ first
  · rw [if_pos h1, if_neg fun hn => absurd h1 (not_le.2 hn.1)]
  · by_cases h2 : second < nextUtcMidnight r.first
    · rw [if_neg h1, if_pos h2, if_pos ⟨not_le.1 h1, h2⟩]
    · rw [if_neg h1, if_neg h2, if_neg fun hn => h2 hn.2]

/-- The two readings of a query answer as one of them would. -/
theorem exists_query (q : Query) {e m : DateTime} (he : e ≤ m) :
    ∃ t, q.first ≤ t ∧ t ≤ q.second ∧ (q.first < e ∧ q.second < m ↔ t < e) := by
  by_cases hq : q.first < e ∧ q.second < m
  · exact ⟨q.first, le_rfl, q.le, iff_of_true hq hq.1⟩
  · rcases lt_or_ge q.first e with h1 | h1
    · have h2 : m ≤ q.second := not_lt.1 fun h2 => hq ⟨h1, h2⟩
      exact ⟨q.second, q.le, le_rfl, iff_of_false hq (not_lt.2 (he.trans h2))⟩
    · exact ⟨q.first, le_rfl, q.le, iff_of_false hq (not_lt.2 h1)⟩

/-- After any sequence of operations a query reports the reason of a mark just where its key's last
operation is one, and the query's time is before the earlier of the mark's time plus the cooldown and
the next midnight. The texts it compares are in the order of the instants. -/
theorem isMarkedExhausted_spec :
    (∀ x y : DateTime, x.isoformat < y.isoformat ↔ x < y) ∧
    ∀ (ops : List Op) (provider model : String) (q : Query), ∃ t, q.first ≤ t ∧ t ≤ q.second ∧
      Answers t (isMarkedExhausted (runAll ops) provider model q.first q.second) (latest (provider, model) ops) := by
  refine ⟨fun x y => DateTime.isoformat_lt, fun ops provider model q => ?_⟩
  have hrow := lookup_runAll (provider, model) ops
  cases hl : latest (provider, model) ops with
  | none =>
    rw [hl] at hrow
    exact ⟨q.first, le_rfl, q.le, by simp [Answers, isMarkedExhausted, hrow]⟩
  | some o =>
    rw [hl] at hrow
    cases o with
    | clear p m => exact ⟨q.first, le_rfl, q.le, by simp [Answers, isMarkedExhausted, hrow, Op.leaves]⟩
    | mark p m reason r =>
      obtain ⟨t0, hin, he⟩ := exists_expiry r
      obtain ⟨t, h1, h2, hq⟩ := exists_query q (min_le_right (cooldownEnd r.second) (nextUtcMidnight r.first))
      refine ⟨t, h1, h2, t0, hin, ?_⟩
      rw [isMarkedExhausted_of_marked hrow, standing, ← he]
      exact if_congr hq rfl rfl

end Wardence.Quota.Marks
