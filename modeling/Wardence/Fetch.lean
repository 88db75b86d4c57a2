import Wardence.Lib.Double
import Wardence.LogPipeline
/-!
# Pulling a range of lines

Loki drops what is past the limit of a query. `_fetch_range_no_gaps` takes an
answer at the cap for a truncated one, and asks again for each half of the range.
-/
namespace Wardence.LogPipeline

open Windows

def MAX_LINES_PER_CHUNK : Nat := 5000

def MIN_SPLIT_SECONDS : Int := 5

/-- What Loki returns for `start`, `end` and `limit`: streams, each with its lines. -/
abbrev Loki := Int → Int → Nat → List (List Line)

section Code
variable (loki : Loki)

def fetchChunk (startNs endNs : Int) (maxLines : Nat) : List Line :=
  (loki startNs endNs maxLines).flatten.insertionSort fun x y => x.ts ≤ y.ts

/-- `(end_ns - start_ns) / 1e9`, of doubles. -/
def spanS (startNs endNs : Int) : ℚ :=
  (endNs - startNs).sign * Py.toDouble (Py.toDouble (endNs - startNs).natAbs / 1000000000)

/-- A span is compared as if it were exact. -/
theorem spanS_le (startNs endNs : Int) : spanS startNs endNs ≤ MIN_SPLIT_SECONDS ↔ endNs - startNs ≤ 5 * 1000000000 := by
  unfold spanS MIN_SPLIT_SECONDS
  generalize endNs - startNs = d
  rcases le_or_gt d 0 with hd | hd
  · have hs : (d.sign : ℚ) ≤ 0 := by exact_mod_cast Int.sign_nonpos_iff.2 hd
    have hspan := mul_nonpos_of_nonpos_of_nonneg hs (Py.toDouble_nonneg (Py.toDouble d.natAbs / 1000000000))
    exact iff_of_true (hspan.trans (by norm_num)) (by omega)
  obtain ⟨n, rfl⟩ := Int.eq_ofNat_of_zero_le hd.le
  rw [Int.sign_eq_one_of_pos hd, Int.natAbs_natCast, Int.cast_one, one_mul]
  have hfive : Py.toDouble ((5 : ℕ) : ℚ) = (5 : ℕ) := Py.toDouble_nat (by norm_num)
  constructor
  · intro h
    by_contra hn
    -- One nanosecond past the five seconds is already a larger double.
    have hlong : (5000000001 : ℕ) ≤ n := by omega
    have hone : Py.toDouble ((5000000001 : ℕ) : ℚ) ≤ Py.toDouble n := Py.toDouble_mono (by exact_mod_cast hlong)
    rw [Py.toDouble_nat (by norm_num)] at hone
    have hmono : Py.toDouble ((5000000001 : ℕ) / 1000000000 : ℚ) ≤ Py.toDouble (Py.toDouble n / 1000000000) :=
      Py.toDouble_mono (by gcongr)
    have hpast : (5 : ℚ) < Py.toDouble ((5000000001 : ℕ) / 1000000000 : ℚ) := by decide +kernel
    push_cast at h
    exact absurd (hpast.trans_le (hmono.trans h)) (lt_irrefl _)
  · intro h
    have hshort : (n : ℚ) ≤ ((5000000000 : ℕ) : ℚ) := by exact_mod_cast (by omega : n ≤ 5000000000)
    have hnum : Py.toDouble n ≤ ((5000000000 : ℕ) : ℚ) := by
      rw [← Py.toDouble_nat (n := 5000000000) (by norm_num)]
      exact Py.toDouble_mono hshort
    have hquot : Py.toDouble n / 1000000000 ≤ ((5 : ℕ) : ℚ) := by
      rw [div_le_iff₀ (by norm_num)]
      refine hnum.trans ?_
      norm_num
    have := Py.toDouble_mono hquot
    rw [hfive] at this
    push_cast at this ⊢
    exact this

def fetchRangeNoGaps (startNs endNs : Int) : List Line :=
  let lines := fetchChunk loki startNs endNs MAX_LINES_PER_CHUNK
  if lines.length < MAX_LINES_PER_CHUNK ∨ spanS startNs endNs ≤ MIN_SPLIT_SECONDS then lines
  else
    let midNs := startNs + (endNs - startNs) / 2
    fetchRangeNoGaps startNs midNs ++ fetchRangeNoGaps midNs endNs
termination_by (endNs - startNs).toNat
decreasing_by
  all_goals
    rename_i h
    rw [not_or, spanS_le] at h
    omega

end Code

/-! ## Every line -/

/-- What a query may be answered with: of the lines in the half-open range, the oldest, as many as the limit allows. -/
def Answers (log : List Line) (startNs endNs : Int) (limit : Nat) (streams : List (List Line)) : Prop :=
  ∃ rest, (streams.flatten ++ rest).Perm (window (·.ts) log startNs endNs) ∧
    streams.flatten.length = min limit (window (·.ts) log startNs endNs).length ∧
    ∀ x ∈ streams.flatten, ∀ y ∈ rest, x.ts ≤ y.ts

def Loki.Serves (loki : Loki) (log : List Line) : Prop := ∀ a b n, Answers log a b n (loki a b n)

/-- No part of the range that lasts at most five seconds holds as many lines as a query returns. -/
def Sparse (log : List Line) (startNs endNs : Int) : Prop :=
  ∀ a b, startNs ≤ a → b ≤ endNs → b - a ≤ 5 * 1000000000 → (window (·.ts) log a b).length < MAX_LINES_PER_CHUNK

theorem Sparse.mono {log : List Line} {a b a' b' : Int} (h : Sparse log a b) (ha : a ≤ a') (hb : b' ≤ b) : Sparse log a' b' :=
  fun c d hc hd => h c d (ha.trans hc) (hd.trans hb)

section Complete
variable {loki : Loki} {log : List Line} {a b : Int}

theorem fetchChunk_length (n : Nat) (hl : loki.Serves log) :
    (fetchChunk loki a b n).length = min n (window (·.ts) log a b).length := by
  obtain ⟨rest, -, hlen, -⟩ := hl a b n
  rw [fetchChunk, List.length_insertionSort, hlen]

theorem fetchChunk_sorted (n : Nat) : (fetchChunk loki a b n).Pairwise fun x y => x.ts ≤ y.ts := by
  have : IsTrans Line fun x y => x.ts ≤ y.ts := ⟨fun _ _ _ => le_trans⟩
  have : Std.Total fun x y : Line => x.ts ≤ y.ts := ⟨fun _ _ => le_total _ _⟩
  exact List.pairwise_insertionSort _ _

/-- An answer under the cap is not truncated. -/
theorem fetchChunk_pulled {n : Nat} (hl : loki.Serves log) (hn : (window (·.ts) log a b).length < n) :
    Pulled (·.ts) log a b (fetchChunk loki a b n) := by
  obtain ⟨rest, hperm, hlen, -⟩ := hl a b n
  have hrest : rest = [] := by
    have := hperm.length_eq
    rw [List.length_append, hlen, min_eq_right hn.le] at this
    exact List.length_eq_zero_iff.1 (by omega)
  rw [hrest, List.append_nil] at hperm
  exact ⟨(List.perm_insertionSort _ _).trans hperm, fetchChunk_sorted n⟩

theorem fetchRangeNoGaps_pulled (hl : loki.Serves log) (hs : Sparse log a b) : Pulled (·.ts) log a b (fetchRangeNoGaps loki a b) := by
  fun_induction fetchRangeNoGaps loki a b with
  | case1 a b lines h =>
    apply fetchChunk_pulled hl
    rcases h with h | h
    · have hlen := fetchChunk_length MAX_LINES_PER_CHUNK hl (a := a) (b := b)
      change (fetchChunk loki a b MAX_LINES_PER_CHUNK).length < _ at h
      omega
    · exact hs a b le_rfl le_rfl ((spanS_le a b).1 h)
  | case2 a b lines h midNs ihl ihr =>
    rw [not_or, spanS_le] at h
    have hl : a ≤ midNs := by omega
    have hr : midNs ≤ b := by omega
    exact (ihl (hs.mono le_rfl hr)).append (ihr (hs.mono hl le_rfl)) hl hr

/-- The loop over the chunks has ended: further rounds add nothing. -/
theorem fetchChunks_ended (r : Run) {n : Nat} {cursor : Int} (hn : (r.nowNs - cursor).toNat ≤ n) :
    fetchChunks r n cursor = fetchNewLines r cursor := by
  have hstep : ∀ k m cursor, (r.nowNs - cursor).toNat ≤ k → k ≤ m → fetchChunks r m cursor = fetchChunks r k cursor := by
    intro k
    induction k with
    | zero =>
      intro m cursor hk _
      cases m with
      | zero => rfl
      | succ m => exact if_neg (by omega)
    | succ k ih =>
      intro m cursor hk hm
      obtain ⟨m, rfl⟩ : ∃ j, m = j + 1 := ⟨m - 1, by omega⟩
      have hchunk : CHUNK_NS = 900000000000 := by decide
      have hnext := ih m (min (cursor + CHUNK_NS) r.nowNs)
      simp only [fetchChunks]
      split
      next h => rw [hnext (by omega) (by omega)]
      next => rfl
  exact hstep _ n cursor le_rfl hn

theorem gap_free (hl : loki.Serves log) :
    (∀ a b, Sparse log a b → Pulled (·.ts) log a b (fetchRangeNoGaps loki a b)) ∧
    ∀ sinceNs untilNs backfillNs, Sparse log sinceNs untilNs →
      Pulled (·.ts) log sinceNs untilNs (fetchNewLines ⟨untilNs, backfillNs, fetchRangeNoGaps loki⟩ sinceNs) ∧
      ∀ n, (untilNs - sinceNs).toNat ≤ n →
        fetchChunks ⟨untilNs, backfillNs, fetchRangeNoGaps loki⟩ n sinceNs =
          fetchNewLines ⟨untilNs, backfillNs, fetchRangeNoGaps loki⟩ sinceNs := by
  refine ⟨fun a b hs => fetchRangeNoGaps_pulled hl hs, fun sinceNs untilNs backfillNs hs => ⟨?_, fun n hn => fetchChunks_ended _ hn⟩⟩
  refine pull_chunks (r := ⟨untilNs, backfillNs, fetchRangeNoGaps loki⟩) _ _ le_rfl ?_
  intro a b ha hb
  exact (fetchRangeNoGaps_pulled hl (hs.mono ha hb)).perm

end Complete

/-- A Loki that answers a query from `log`, in one stream. -/
def lokiOf (log : List Line) : Loki := fun a b n => [((window (·.ts) log a b).insertionSort fun x y => x.ts ≤ y.ts).take n]

theorem lokiOf_serves (log : List Line) : (lokiOf log).Serves log := by
  intro a b n
  have : IsTrans Line fun x y => x.ts ≤ y.ts := ⟨fun _ _ _ => le_trans⟩
  have : Std.Total fun x y : Line => x.ts ≤ y.ts := ⟨fun _ _ => le_total _ _⟩
  have hsorted := List.pairwise_insertionSort (fun x y : Line => x.ts ≤ y.ts) (window (·.ts) log a b)
  rw [← List.take_append_drop n (List.insertionSort _ _)] at hsorted
  refine ⟨((window (·.ts) log a b).insertionSort fun x y => x.ts ≤ y.ts).drop n, ?_, ?_, ?_⟩
  · rw [lokiOf, List.flatten_singleton, List.take_append_drop]
    exact List.perm_insertionSort _ _
  · rw [lokiOf, List.flatten_singleton, List.length_take, List.length_insertionSort]
  · rw [lokiOf, List.flatten_singleton]
    exact (List.pairwise_append.1 hsorted).2.2

/-- One line in each of `n` seconds. -/
def everySecond (n : Nat) : List Line := (List.range n).map fun i : ℕ => ⟨i * 1000000000, "GET /catalogue"⟩

theorem everySecond_sparse (n : Nat) (x y : Int) : Sparse (everySecond n) x y := by
  intro a b _ _ hab
  let starts := fun i : ℕ => decide (a ≤ (i : Int) * 1000000000 ∧ (i : Int) * 1000000000 < b)
  have hlen : (window (·.ts) (everySecond n) a b).length = ((List.range n).filter starts).length := by
    rw [window, everySecond, List.filter_map, List.length_map]
    rfl
  -- Six seconds start in such a range at most.
  have hsub : (List.range n).filter starts ⊆ List.range' (a / 1000000000).toNat 6 := by
    intro i hi
    obtain ⟨-, hi⟩ := List.mem_filter.1 hi
    have hi : a ≤ (i : Int) * 1000000000 ∧ (i : Int) * 1000000000 < b := of_decide_eq_true hi
    rw [List.mem_range'_1]
    omega
  have := ((List.nodup_range.filter starts).subperm hsub).length_le
  rw [List.length_range'] at this
  rw [hlen]
  exact this.trans_lt (by decide)

theorem gap_free_everySecond :
    Pulled (·.ts) (everySecond 6000) 0 6000000000000 (fetchRangeNoGaps (lokiOf (everySecond 6000)) 0 6000000000000) :=
  (gap_free (lokiOf_serves _)).1 0 6000000000000 (everySecond_sparse 6000 _ _)

end Wardence.LogPipeline
