import Mathlib.Data.List.DropRight
/-!
# Authority earned by a streak

An authority is granted after `n` credits in a row, or by hand, and any
revocation takes it and the whole streak away. `standing` replays the events;
`standing_eq` says what the replay computes: the credits since the last
revocation, plus what a grant by hand made up for.
-/
namespace Streak

inductive Event where
  | credit
  | revoke
  | grant
  deriving DecidableEq, Repr

structure Standing where
  granted : Bool
  streak : Nat
  deriving DecidableEq, Repr

/-- Nothing granted, nothing earned. -/
def Standing.fresh : Standing := ⟨false, 0⟩

def next (n : Nat) (s : Standing) : Event → Standing
  | .credit => ⟨s.granted || decide (n ≤ s.streak + 1), s.streak + 1⟩
  | .revoke => .fresh
  | .grant => if s.granted then s else ⟨true, n⟩

/-- The standing after the events, oldest first. -/
def standing (n : Nat) (evs : List Event) : Standing := evs.foldl (next n) .fresh

/-- The events after the last revocation. -/
def sinceRevoked (evs : List Event) : List Event := evs.rtakeWhile (fun e => decide (e ≠ .revoke))

/-- The credits after the last revocation. -/
def credits (evs : List Event) : Nat := (sinceRevoked evs).count .credit

/-- The credits that stood when authority was first granted by hand. -/
def creditsBefore (seg : List Event) : Nat := (seg.takeWhile (fun e => decide (e ≠ .grant))).count .credit

/-- What a grant by hand made up for: the credits that were missing. -/
def offset (n : Nat) (evs : List Event) : Nat :=
  if .grant ∈ sinceRevoked evs then n - creditsBefore (sinceRevoked evs) else 0

theorem standing_append (n : Nat) (evs : List Event) (e : Event) :
    standing n (evs ++ [e]) = next n (standing n evs) e := by
  simp only [standing, List.foldl_append, List.foldl_cons, List.foldl_nil]

theorem sinceRevoked_append (evs : List Event) (e : Event) :
    sinceRevoked (evs ++ [e]) = if e = .revoke then [] else sinceRevoked evs ++ [e] := by
  unfold sinceRevoked
  rw [List.rtakeWhile_concat]
  by_cases h : e = .revoke <;> simp [h]

theorem creditsBefore_le (seg : List Event) : creditsBefore seg ≤ seg.count .credit :=
  (List.takeWhile_sublist _).count_le _

theorem takeWhile_noGrant {seg : List Event} (h : .grant ∉ seg) :
    seg.takeWhile (fun e => decide (e ≠ .grant)) = seg := by
  rw [List.takeWhile_eq_self_iff]
  intro e he
  simp only [ne_eq, decide_eq_true_eq]
  rintro rfl
  exact h he

theorem creditsBefore_append {seg : List Event} (h : .grant ∈ seg) (e : Event) :
    creditsBefore (seg ++ [e]) = creditsBefore seg := by
  unfold creditsBefore
  rw [List.takeWhile_append, if_neg]
  intro hl
  have hs : seg.takeWhile (fun e => decide (e ≠ .grant)) = seg :=
    (List.takeWhile_prefix _).eq_of_length hl
  have := List.takeWhile_eq_self_iff.1 hs _ h
  simp at this

/-- Without an earlier grant every credit stood before this one. -/
theorem creditsBefore_grant {seg : List Event} (h : .grant ∉ seg) :
    creditsBefore (seg ++ [.grant]) = seg.count .credit := by
  unfold creditsBefore
  rw [List.takeWhile_append, if_pos (by rw [takeWhile_noGrant h]), List.takeWhile_cons_of_neg (by simp),
    List.append_nil]

theorem offset_of_noGrant (n : Nat) {evs : List Event} (h : .grant ∉ evs) : offset n evs = 0 :=
  if_neg fun hg => h ((List.rtakeWhile_suffix _ _).subset hg)

/-! ## One event at a time -/

theorem offset_credit (n : Nat) (evs : List Event) : offset n (evs ++ [.credit]) = offset n evs := by
  unfold offset
  rw [sinceRevoked_append]
  by_cases h : .grant ∈ sinceRevoked evs
  · simp [h, creditsBefore_append h]
  · simp [h]

theorem offset_grant (n : Nat) (evs : List Event) :
    offset n (evs ++ [.grant]) = if .grant ∈ sinceRevoked evs then offset n evs else n - credits evs := by
  unfold offset
  rw [sinceRevoked_append]
  by_cases h : .grant ∈ sinceRevoked evs
  · simp [h, creditsBefore_append h]
  · simp [h, creditsBefore_grant h, credits]

theorem credits_append (evs : List Event) (e : Event) :
    credits (evs ++ [e]) = match e with
      | .credit => credits evs + 1
      | .revoke => 0
      | .grant => credits evs := by
  unfold credits
  rw [sinceRevoked_append]
  cases e <;> simp

/-- A grant by hand brings the streak up to the threshold. -/
theorem granted_of_grant {n : Nat} {evs : List Event} (h : .grant ∈ sinceRevoked evs) :
    n ≤ credits evs + offset n evs := by
  have := creditsBefore_le (sinceRevoked evs)
  simp only [offset, if_pos h, credits]
  omega

/-- The replay holds authority exactly when the streak reaches the threshold,
and its streak is the credits since the last revocation plus the offset of a
grant by hand. -/
theorem standing_eq {n : Nat} (hn : 0 < n) (evs : List Event) :
    standing n evs = ⟨decide (n ≤ credits evs + offset n evs), credits evs + offset n evs⟩ := by
  induction evs using List.reverseRecOn with
  | nil =>
    have h0 : ¬ n ≤ 0 := by omega
    simp [standing, Standing.fresh, credits, offset, sinceRevoked, h0]
  | append_singleton evs e ih =>
    rw [standing_append, ih, credits_append]
    cases e with
    | credit =>
      simp only [next, offset_credit, Standing.mk.injEq, Bool.or_eq_decide, decide_eq_true_eq, decide_eq_decide]
      omega
    | revoke =>
      have h0 : ¬ n ≤ 0 := by omega
      simp [next, Standing.fresh, offset, sinceRevoked_append, h0]
    | grant =>
      rw [offset_grant]
      by_cases h : .grant ∈ sinceRevoked evs
      · simp [next, h, granted_of_grant h]
      · have h0 : offset n evs = 0 := if_neg h
        simp only [next, h0, if_neg h, Nat.add_zero, decide_eq_true_eq]
        split
        · rename_i hc
          simp [Nat.sub_eq_zero_of_le hc, hc]
        · simp only [Standing.mk.injEq, true_eq_decide_iff]
          omega

end Streak
