import Mathlib.Data.List.Dedup
import Mathlib.Data.List.ProdSigma
import Wardence.Lib.Chance
/-!
# Rounds of pairs

`phase_d_generate_sample_rounds.py`: rounds of about half the pairs each. A round carries half
of the round before it forward and then takes what no round has had; the last one takes all
that is left of that.
-/
namespace Wardence.Batch

open Chance

variable {α : Type} [DecidableEq α]

def REAL_CLASSES : List String :=
  ["crash-loop", "oom", "disk-full", "cpu-throttling", "under-provisioned-replicas", "bad-rollout"]
def ALL_CLASSES : List String := REAL_CLASSES ++ ["none"]
def DEFAULT_ROUNDS : ℕ := 4
def ROUND_SIZE_CYCLE : List ℕ := [24, 25]

def buildAllPairs : List (String × String) := ALL_CLASSES.product ALL_CLASSES

/-- The nominal size of a round. -/
def roundSize (roundIdx : ℕ) : ℕ := ROUND_SIZE_CYCLE.getD (roundIdx % ROUND_SIZE_CYCLE.length) 0

/-- Up to `n` of the candidates, none of them twice: a pair that was seen less has more weight. -/
def weightedPick (seenCount : α → ℕ) : ℕ → List α → Draw (List α)
  | 0, _ => return []
  | n + 1, pool => do
    match ← choice pool (pool.map fun p => 1 / (seenCount p + 1)) with
    | none => return []
    | some picked => do
      let picks ← weightedPick seenCount n (pool.erase picked)
      return picked :: picks

/-- What `generate_rounds` keeps between two rounds. -/
structure Rounds (α : Type) where
  seenCount : α → ℕ
  rounds : List (List α)
  coveredEver : List α

section Generate
variable (allPairs : List α)

/-- `list(all_pairs_set - covered_ever)`, in some order. -/
def uncovered (coveredEver : List α) : List α := allPairs.dedup.filter (· ∉ coveredEver)

/-- All that is uncovered, and repeats where there is room. -/
def lastRound (st : Rounds α) (size : ℕ) : Draw (List α) := do
  let stillUncovered ← shuffle (uncovered allPairs st.coveredEver)
  if stillUncovered.length < size then do
    let bonus ← weightedPick st.seenCount (size - stillUncovered.length) (allPairs.filter (· ∉ stillUncovered))
    return stillUncovered ++ bonus
  else return stillUncovered

/-- Half of the round before, then what is uncovered, then repeats. -/
def overlapRound (st : Rounds α) (prevRound : List α) (size : ℕ) : Draw (List α) := do
  let overlapN := size / 2
  let freshN := size - overlapN
  let carriedForward ← sample prevRound (min overlapN prevRound.length)
  let uncoveredNow ← shuffle (uncovered allPairs st.coveredEver)
  let roundPairs := carriedForward ++ uncoveredNow.take freshN
  if roundPairs.length < size then do
    let fallback ← weightedPick st.seenCount (size - roundPairs.length) (allPairs.filter (· ∉ roundPairs))
    return roundPairs ++ fallback
  else return roundPairs

/-- The pairs of round `roundIdx` of `nRounds`. -/
def drawRound (nRounds roundIdx : ℕ) (st : Rounds α) : Draw (List α) :=
  if roundIdx + 1 = nRounds then lastRound allPairs st (roundSize roundIdx)
  else if roundIdx = 0 then weightedPick st.seenCount (roundSize roundIdx) allPairs
  else overlapRound allPairs st (st.rounds.getLastD []) (roundSize roundIdx)

/-- One pass of the loop. -/
def nextRound (nRounds : ℕ) (st : Rounds α) (roundIdx : ℕ) : Draw (Rounds α) := do
  let roundPairs ← drawRound allPairs nRounds roundIdx st
  let shuffled ← shuffle roundPairs
  return ⟨fun p => st.seenCount p + roundPairs.count p, st.rounds ++ [shuffled], st.coveredEver ++ roundPairs⟩

def generateRounds (nRounds : ℕ) : Draw (List (List α)) := do
  let st ← (List.range nRounds).foldlM (nextRound allPairs nRounds) ⟨fun _ => 0, [], []⟩
  return st.rounds

end Generate

/-! ## What the rounds are -/

/-- A round after the rounds before it. -/
structure Fits (allPairs : List α) (nRounds : ℕ) (before : List (List α)) (round : List α) : Prop where
  nodup : round.Nodup
  inside : round ⊆ allPairs
  size : round.length = roundSize before.length ∨ (before.length + 1 = nRounds ∧
    round.length = (allPairs.filter fun p => ∀ r ∈ before, p ∉ r).length ∧ roundSize before.length < round.length)
  shared : before.length + 1 < nRounds → ∀ prev, before.getLast? = some prev →
    roundSize before.length / 2 ≤ (round.filter (· ∈ prev)).length
  covers : before.length + 1 = nRounds → ∀ p ∈ allPairs, p ∈ round ∨ ∃ r ∈ before, p ∈ r

theorem buildAllPairs_nodup : buildAllPairs.Nodup := List.Nodup.product (by decide) (by decide)

theorem roundSize_cases (i : ℕ) : roundSize i = 24 ∨ roundSize i = 25 := by
  have h : i % ROUND_SIZE_CYCLE.length = 0 ∨ i % ROUND_SIZE_CYCLE.length = 1 := Nat.mod_two_eq_zero_or_one i
  rcases h with h | h
  · exact .inl (by rw [roundSize, h]; rfl)
  · exact .inr (by rw [roundSize, h]; rfl)

/-! ## A round -/

theorem weightedPick_subperm (seenCount : α → ℕ) (n : ℕ) (pool : List α) :
    Chance.Always (weightedPick seenCount n pool) fun picks => List.Subperm picks pool ∧ picks.length = min n pool.length := by
  induction n generalizing pool with
  | zero => exact .pure ⟨List.nil_subperm, (Nat.zero_min _).symm⟩
  | succ n ih =>
    rcases eq_or_ne pool [] with rfl | hne
    · exact .bind (choice_nil _) fun _ h => h ▸ .pure ⟨List.nil_subperm, rfl⟩
    · refine .bind (choice_mem _ hne) ?_
      rintro _ ⟨x, hx, rfl⟩
      refine .bind (ih _) fun picks ⟨hsub, hlen⟩ => .pure ⟨?_, ?_⟩
      · exact ((List.subperm_cons _).2 hsub).trans (List.perm_cons_erase hx).symm.subperm
      · have := List.length_pos_of_mem hx
        rw [List.length_cons, hlen, List.length_erase_of_mem hx]
        omega

section Round
variable {allPairs : List α} {size : ℕ}

theorem length_filter_notMem {r : List α} (hn : allPairs.Nodup) (hr : r.Nodup) (hin : r ⊆ allPairs) :
    (allPairs.filter (· ∉ r)).length + r.length = allPairs.length := by
  have hperm : (allPairs.filter (· ∈ r)).Perm r :=
    (List.perm_ext_iff_of_nodup (hn.filter _) hr).2 fun p => by simpa using fun h => hin h
  have hsplit := List.length_eq_length_filter_add (l := allPairs) (decide <| · ∈ r)
  rw [hperm.length_eq] at hsplit
  simp only [decide_not]
  omega

/-- A part of a round, filled up with what is not in it. -/
theorem fill (hn : allPairs.Nodup) {r : List α} (hr : r.Nodup) (hin : r ⊆ allPairs) (hle : r.length ≤ size)
    (hsize : size ≤ allPairs.length) (seenCount : α → ℕ) :
    Chance.Always (weightedPick seenCount (size - r.length) (allPairs.filter (· ∉ r))) fun picks =>
      (r ++ picks).Nodup ∧ r ++ picks ⊆ allPairs ∧ (r ++ picks).length = size := by
  refine (weightedPick_subperm _ _ _).mono fun picks ⟨hsub, hlen⟩ => ⟨?_, ?_, ?_⟩
  · refine List.nodup_append.2 ⟨hr, nodup_of_subperm hsub (hn.filter _), ?_⟩
    rintro p hp _ hq rfl
    exact absurd hp (by simpa using (List.mem_filter.1 (hsub.subset hq)).2)
  · exact List.append_subset.2 ⟨hin, fun p hp => (List.mem_filter.1 (hsub.subset hp)).1⟩
  · have := length_filter_notMem hn hr hin
    rw [List.length_append, hlen]
    omega

/-- A part of a round is filled up where it is too short. -/
theorem filled (hn : allPairs.Nodup) (hlong : 25 ≤ allPairs.length) {r : List α} (hr : r.Nodup) (hin : r ⊆ allPairs) (i : ℕ)
    (seenCount : α → ℕ) :
    Chance.Always (if r.length < roundSize i then do
        let picks ← weightedPick seenCount (roundSize i - r.length) (allPairs.filter (· ∉ r))
        return r ++ picks
      else return r : Draw (List α)) fun round =>
        round.Nodup ∧ round ⊆ allPairs ∧ (round.length = roundSize i ∨ round = r ∧ roundSize i < r.length) ∧ r <+: round := by
  by_cases hroom : r.length < roundSize i
  · rw [if_pos hroom]
    have hsize : roundSize i ≤ allPairs.length := by
      rcases roundSize_cases i with hs | hs <;> omega
    exact .bind (fill hn hr hin hroom.le hsize seenCount) fun picks ⟨hnd, hsub, hfull⟩ =>
      .pure ⟨hnd, hsub, .inl hfull, List.prefix_append r picks⟩
  · rw [if_neg hroom]
    refine .pure ⟨hr, hin, ?_, List.prefix_rfl⟩
    rcases Nat.eq_or_lt_of_le (Nat.le_of_not_lt hroom) with heq | hlt
    · exact .inl heq.symm
    · exact .inr ⟨rfl, hlt⟩

theorem mem_uncovered {coveredEver : List α} {p : α} : p ∈ uncovered allPairs coveredEver ↔ p ∈ allPairs ∧ p ∉ coveredEver := by
  simp [uncovered]

theorem uncovered_nodup (coveredEver : List α) : (uncovered allPairs coveredEver).Nodup := (List.nodup_dedup _).filter _

/-- What is kept between two rounds. -/
structure RoundsKept (allPairs : List α) (nRounds : ℕ) (st : Rounds α) : Prop where
  covered : ∀ p, p ∈ st.coveredEver ↔ ∃ r ∈ st.rounds, p ∈ r
  fits : ∀ before round after, st.rounds = before ++ round :: after → Fits allPairs nRounds before round

variable {nRounds : ℕ} {st : Rounds α}

theorem RoundsKept.uncovered_eq (h : RoundsKept allPairs nRounds st) (hn : allPairs.Nodup) :
    uncovered allPairs st.coveredEver = allPairs.filter fun p => ∀ r ∈ st.rounds, p ∉ r := by
  rw [uncovered, hn.dedup]
  refine List.filter_congr fun p _ => ?_
  rw [decide_eq_decide, h.covered]
  push Not
  rfl

theorem lastRound_fits (h : RoundsKept allPairs nRounds st) (hn : allPairs.Nodup) (hlong : 25 ≤ allPairs.length)
    (hlast : st.rounds.length + 1 = nRounds) :
    Chance.Always (lastRound allPairs st (roundSize st.rounds.length)) (Fits allPairs nRounds st.rounds) := by
  refine .bind (shuffle_perm _) fun still hstill => ?_
  have hnodup : still.Nodup := hstill.nodup_iff.2 (uncovered_nodup _)
  have hin : still ⊆ allPairs := fun p hp => (mem_uncovered.1 (hstill.subset hp)).1
  have hcovers : ∀ p ∈ allPairs, p ∈ still ∨ ∃ r ∈ st.rounds, p ∈ r := by
    intro p hp
    by_cases hc : p ∈ st.coveredEver
    · exact .inr ((h.covered p).1 hc)
    · exact .inl (hstill.symm.subset (mem_uncovered.2 ⟨hp, hc⟩))
  have hlen : still.length = (allPairs.filter fun p => ∀ r ∈ st.rounds, p ∉ r).length := by rw [hstill.length_eq, h.uncovered_eq hn]
  refine (filled hn hlong hnodup hin st.rounds.length st.seenCount).mono fun round ⟨hnd, hsub, hsize, hpart⟩ => ?_
  refine ⟨hnd, hsub, hsize.imp_right ?_, fun hlt => absurd hlast (Nat.ne_of_lt hlt), fun _ p hp => (hcovers p hp).imp_left (hpart.subset ·)⟩
  rintro ⟨rfl, hlt⟩
  exact ⟨hlast, hlen, hlt⟩

theorem firstRound_fits (hn : allPairs.Nodup) (hlong : 25 ≤ allPairs.length) (hmore : 1 < nRounds) (seenCount : α → ℕ) :
    Chance.Always (weightedPick seenCount (roundSize 0) allPairs) (Fits allPairs nRounds []) := by
  have hsize : roundSize 0 ≤ allPairs.length := by
    rcases roundSize_cases 0 with hs | hs <;> omega
  have hfill := fill hn List.nodup_nil (List.nil_subset allPairs) (Nat.zero_le _) hsize seenCount
  simp only [List.length_nil, Nat.sub_zero, List.not_mem_nil, not_false_eq_true, decide_true, List.filter_true, List.nil_append] at hfill
  refine hfill.mono fun picks ⟨hnd, hsub, hlen⟩ => ⟨hnd, hsub, .inl hlen, ?_, ?_⟩
  · intro _ prev hprev
    cases hprev
  · intro hlast
    exact absurd hlast (Nat.ne_of_lt hmore)

theorem overlapRound_fits (h : RoundsKept allPairs nRounds st) (hn : allPairs.Nodup) (hlong : 25 ≤ allPairs.length)
    (hmore : st.rounds.length + 1 < nRounds) (hne : st.rounds ≠ []) :
    Chance.Always (overlapRound allPairs st (st.rounds.getLastD []) (roundSize st.rounds.length)) (Fits allPairs nRounds st.rounds) := by
  obtain ⟨before, prev, hrounds⟩ : ∃ before prev, st.rounds = before ++ [prev] :=
    ⟨_, _, (List.dropLast_append_getLast hne).symm⟩
  have hprev : st.rounds.getLastD [] = prev := by rw [hrounds, List.getLastD_concat]
  have hlast : st.rounds.getLast? = some prev := by rw [hrounds, List.getLast?_concat]
  have hfits := h.fits before prev [] hrounds
  have hlenBefore : before.length + 1 = st.rounds.length := by rw [hrounds, List.length_append, List.length_singleton]
  have hprevLen : prev.length = roundSize before.length := hfits.size.resolve_right fun hlast' => by omega
  rw [hprev]
  refine .bind (sample_subperm _ _) fun carried ⟨hcsub, hclen⟩ => .bind (shuffle_perm _) fun now hnow => ?_
  have hcarried : carried.length = roundSize st.rounds.length / 2 := by
    rcases roundSize_cases before.length with hb | hb <;> rcases roundSize_cases st.rounds.length with hs | hs <;> omega
  have htake : ∀ p ∈ now.take (roundSize st.rounds.length - roundSize st.rounds.length / 2), p ∈ allPairs ∧ p ∉ st.coveredEver :=
    fun p hp => mem_uncovered.1 (hnow.subset (List.mem_of_mem_take hp))
  have hcin : ∀ p ∈ carried, p ∈ prev := fun p hp => hcsub.subset hp
  generalize hr : carried ++ now.take (roundSize st.rounds.length - roundSize st.rounds.length / 2) = r
  have hnodup : r.Nodup := by
    rw [← hr]
    refine List.nodup_append.2 ⟨nodup_of_subperm hcsub hfits.nodup, ((hnow.nodup_iff.2 (uncovered_nodup _)).sublist (List.take_sublist _ _)), ?_⟩
    rintro p hp _ hq rfl
    exact (htake p hq).2 ((h.covered p).2 ⟨prev, by rw [hrounds]; simp, hcin p hp⟩)
  have hin : r ⊆ allPairs := by
    rw [← hr]
    exact List.append_subset.2 ⟨fun p hp => hfits.inside (hcin p hp), fun p hp => (htake p hp).1⟩
  have hle : r.length ≤ roundSize st.rounds.length := by
    rw [← hr, List.length_append, hcarried]
    have := List.length_take_le (roundSize st.rounds.length - roundSize st.rounds.length / 2) now
    omega
  refine (filled hn hlong hnodup hin st.rounds.length st.seenCount).mono fun round ⟨hnd, hsub, hsize, hpart⟩ => ?_
  refine ⟨hnd, hsub, .inl (hsize.resolve_right fun hlonger => absurd hle (Nat.not_le_of_lt hlonger.2)), ?_, ?_⟩
  · intro _ x hx
    cases hlast.symm.trans hx
    have hstart : carried <+: r := hr ▸ List.prefix_append carried _
    have hkept : carried <+: round.filter (· ∈ prev) := by
      have := (hstart.trans hpart).filter (· ∈ prev)
      rwa [List.filter_eq_self.2 fun p hp => decide_eq_true (hcin p hp)] at this
    exact hcarried ▸ hkept.length_le
  · exact fun hl => absurd hl (Nat.ne_of_lt hmore)

theorem drawRound_fits (h : RoundsKept allPairs nRounds st) (hn : allPairs.Nodup) (hlong : 25 ≤ allPairs.length)
    (hlt : st.rounds.length < nRounds) :
    Chance.Always (drawRound allPairs nRounds st.rounds.length st) (Fits allPairs nRounds st.rounds) := by
  unfold drawRound
  by_cases hlast : st.rounds.length + 1 = nRounds
  · rw [if_pos hlast]
    exact lastRound_fits h hn hlong hlast
  · rw [if_neg hlast]
    by_cases hfirst : st.rounds.length = 0
    · rw [if_pos hfirst, hfirst, List.length_eq_zero_iff.1 hfirst]
      exact firstRound_fits hn hlong (by omega) _
    · rw [if_neg hfirst]
      exact overlapRound_fits h hn hlong (by omega) fun hnil => hfirst (List.length_eq_zero_iff.2 hnil)

/-- In another order it is the same round. -/
theorem Fits.perm {before : List (List α)} {round round' : List α} (h : Fits allPairs nRounds before round) (hp : round'.Perm round) :
    Fits allPairs nRounds before round' where
  nodup := hp.nodup_iff.2 h.nodup
  inside _ hmem := h.inside (hp.subset hmem)
  size := by
    rw [hp.length_eq]
    exact h.size
  shared hlt prev hprev := by
    rw [(hp.filter _).length_eq]
    exact h.shared hlt prev hprev
  covers hl p hmem := (h.covers hl p hmem).imp_left fun hr => hp.symm.subset hr

theorem nextRound_kept (h : RoundsKept allPairs nRounds st) (hn : allPairs.Nodup) (hlong : 25 ≤ allPairs.length)
    (hlt : st.rounds.length < nRounds) :
    Chance.Always (nextRound allPairs nRounds st st.rounds.length) fun st' =>
      RoundsKept allPairs nRounds st' ∧ st'.rounds.length = st.rounds.length + 1 := by
  refine .bind (drawRound_fits h hn hlong hlt) fun pairs hpairs => .bind (shuffle_perm pairs) fun shuffled hs => .pure ⟨⟨?_, ?_⟩, ?_⟩
  · intro p
    simp only [List.mem_append, List.mem_singleton, h.covered, hs.mem_iff.symm]
    constructor
    · rintro (⟨r, hr, hp⟩ | hp)
      · exact ⟨r, .inl hr, hp⟩
      · exact ⟨shuffled, .inr rfl, hp⟩
    · rintro ⟨r, hr | rfl, hp⟩
      · exact .inl ⟨r, hr, hp⟩
      · exact .inr hp
  · intro before round after hsplit
    rcases List.eq_nil_or_concat after with rfl | ⟨after, last, rfl⟩
    · obtain ⟨rfl, hround⟩ := List.append_inj' hsplit rfl
      cases hround
      exact hpairs.perm hs
    · rw [List.concat_eq_append, ← List.cons_append, ← List.append_assoc] at hsplit
      exact h.fits before round after (List.append_inj' hsplit rfl).1
  · exact List.length_append

/-- All the rounds, one after the other. -/
theorem rounds_kept (hn : allPairs.Nodup) (hlong : 25 ≤ allPairs.length) (k : ℕ) (hk : k ≤ nRounds) :
    Chance.Always ((List.range k).foldlM (nextRound allPairs nRounds) ⟨fun _ => 0, [], []⟩) fun st =>
      RoundsKept allPairs nRounds st ∧ st.rounds.length = k := by
  induction k with
  | zero => exact .pure ⟨⟨fun p => by simp, fun before _ _ hsplit => by cases before <;> cases hsplit⟩, rfl⟩
  | succ k ih =>
    rw [List.range_succ, List.foldlM_append]
    refine .bind (ih (Nat.le_of_succ_le hk)) fun st ⟨h, hlen⟩ => ?_
    have hnext := nextRound_kept h hn hlong (by omega)
    rw [hlen] at hnext
    simpa using hnext

end Round

/-! ## All the rounds -/

/-- What the rounds of all the pairs are. -/
structure Covering (allPairs : List α) (nRounds : ℕ) (rounds : List (List α)) : Prop where
  count : rounds.length = nRounds
  nodup : ∀ round ∈ rounds, round.Nodup
  union : ∀ p, (∃ round ∈ rounds, p ∈ round) ↔ p ∈ allPairs
  shared : ∀ i prev round, rounds[i]? = some prev → rounds[i + 1]? = some round → i + 2 < nRounds →
    roundSize (i + 1) / 2 ≤ (round.filter (· ∈ prev)).length
  size : ∀ i round, rounds[i]? = some round → round.length = roundSize i ∨
    (i + 1 = nRounds ∧ round.length = (allPairs.filter fun p => ∀ r ∈ rounds.take i, p ∉ r).length ∧ roundSize i < round.length)

/-- A round in its place. -/
theorem RoundsKept.fits_at {allPairs : List α} {nRounds : ℕ} {st : Rounds α} (h : RoundsKept allPairs nRounds st) {i : ℕ} {round : List α}
    (hi : st.rounds[i]? = some round) : Fits allPairs nRounds (st.rounds.take i) round ∧ (st.rounds.take i).length = i := by
  obtain ⟨hlt, rfl⟩ := List.getElem?_eq_some_iff.1 hi
  refine ⟨h.fits _ _ (st.rounds.drop (i + 1)) ?_, List.length_take_of_le hlt.le⟩
  rw [← List.drop_eq_getElem_cons hlt, List.take_append_drop]

theorem RoundsKept.covering {allPairs : List α} {nRounds : ℕ} {st : Rounds α} (h : RoundsKept allPairs nRounds st) (hlen : st.rounds.length = nRounds)
    (hpos : 1 ≤ nRounds) : Covering allPairs nRounds st.rounds where
  count := hlen
  nodup round hround := by
    obtain ⟨i, hi⟩ := List.getElem?_of_mem hround
    exact (h.fits_at hi).1.nodup
  union p := by
    constructor
    · rintro ⟨round, hround, hp⟩
      obtain ⟨i, hi⟩ := List.getElem?_of_mem hround
      exact (h.fits_at hi).1.inside hp
    · intro hp
      have hlast : nRounds - 1 < st.rounds.length := by omega
      obtain ⟨hfits, htake⟩ := h.fits_at (List.getElem?_eq_getElem hlast)
      rcases hfits.covers (by omega) p hp with hin | ⟨r, hr, hin⟩
      · exact ⟨_, List.getElem_mem hlast, hin⟩
      · exact ⟨r, List.mem_of_mem_take hr, hin⟩
  shared i prev round hprev hround hmore := by
    obtain ⟨hfits, htake⟩ := h.fits_at hround
    have hlast : (st.rounds.take (i + 1)).getLast? = some prev := by
      rw [List.getLast?_eq_getElem?, htake, Nat.add_sub_cancel, List.getElem?_take_of_lt (Nat.lt_succ_self i), hprev]
    have := hfits.shared (by omega) prev hlast
    rwa [htake] at this
  size i round hround := by
    obtain ⟨hfits, htake⟩ := h.fits_at hround
    have := hfits.size
    rwa [htake] at this

/-- Whatever is drawn, for every list of pairs that is long enough. -/
theorem rounds_covering {allPairs : List α} {nRounds : ℕ} (hn : allPairs.Nodup) (hlong : 25 ≤ allPairs.length) (hpos : 1 ≤ nRounds)
    (s : Chance.Source) : Covering allPairs nRounds ((generateRounds allPairs nRounds).run s).1 := by
  refine Chance.Always.bind (rounds_kept hn hlong nRounds (Nat.le_refl _)) (fun st ⟨h, hlen⟩ => ?_) s
  exact .pure (h.covering hlen hpos)

/-- The pairs of all the classes, in the default number of rounds. -/
theorem rounds_covering_default :
    Covering buildAllPairs DEFAULT_ROUNDS ((generateRounds buildAllPairs DEFAULT_ROUNDS).run fun n => n).1 :=
  rounds_covering buildAllPairs_nodup (by decide) (by decide) _

end Wardence.Batch
