import Mathlib.Algebra.Order.BigOperators.Group.Finset
import Wardence.Batch.World
import Wardence.Lib.Chance
import Wardence.Lib.Table
/-!
# A shuffled plan

`_build_shuffled_plan` of `run_batch_plan.py`: pairs of two classes, drawn while two have
episodes left, and what is left of the last class in one chunk. A dictionary is a table; the
order of its keys is lost in the draw.
-/
namespace Wardence.Batch

open Keyed Chance

/-- How many episodes of a class are to be run. -/
def budget (counts : Table String Int) (cls : String) : ℕ := ((counts.lookup cls).getD 0).toNat

/-- `{cls: n for cls, n in class_counts.items() if n > 0}` -/
def positive (classCounts : Table String Int) : Table String Int :=
  ⟨classCounts.entries.filter (0 < ·.2), (List.filter_sublist.map _).nodup classCounts.nodupKeys⟩

/-- `remaining[cls] -= 1` -/
def decrement (remaining : Table String Int) (cls : String) : Table String Int := Table.update remaining cls (· - 1)

/-- A class with nothing left is removed. -/
def pop (remaining : Table String Int) (cls : String) : Table String Int :=
  if (remaining.lookup cls).getD 0 ≤ 0 then remaining.erase cls else remaining

/-- One pass of the loop: what remains, and the chunks that are appended. -/
def drawPair (remaining : Table String Int) : Draw (Table String Int × List Item) := do
  let sampled ← sample remaining.keys 2
  let pair ← shuffle sampled
  return (pair.foldl pop (pair.foldl decrement remaining), pair.map (⟨·, 1⟩))

/-- The loop, in at most `fuel` passes, and the rest; `none`: more passes are needed. -/
def drain : ℕ → Table String Int → List Item → Draw (Option (List Item))
  | fuel, remaining, planItems =>
    if remaining.keys.length < 2 then return some (planItems ++ remaining.entries.map fun e => ⟨e.1, e.2.toNat⟩)
    else match fuel with
      | 0 => return none
      | fuel + 1 => do
        let (left, chunks) ← drawPair remaining
        drain fuel left (planItems ++ chunks)

def buildShuffledPlan (fuel : ℕ) (classCounts : Table String Int) : Draw (Option (List Item)) := drain fuel (positive classCounts) []

/-- The targets of a class's chunks, added up. -/
def planned (plan : List Item) (cls : String) : ℕ := ((plan.filter (·.faultClass = cls)).map (·.target)).sum

/-- What a shuffled plan makes of the counts: every chunk before the last is in a pair. -/
structure Shuffled (classCounts : Table String Int) (plan : List Item) : Prop where
  conserved : ∀ cls, planned plan cls = budget classCounts cls
  present : ∀ item ∈ plan, ∃ n, classCounts.lookup item.faultClass = some n ∧ 0 < n
  paired : ∀ i, i + 1 < plan.length → ∃ a b, a ≠ b ∧ plan[2 * (i / 2)]? = some ⟨a, 1⟩ ∧ plan[2 * (i / 2) + 1]? = some ⟨b, 1⟩
  block : ∀ i item, plan[i]? = some item → 1 < item.target → i + 1 = plan.length

/-! ## What is planned -/

theorem planned_append (plan plan' : List Item) (cls : String) : planned (plan ++ plan') cls = planned plan cls + planned plan' cls := by
  rw [planned, List.filter_append, List.map_append, List.sum_append]
  rfl

theorem planned_cons (item : Item) (plan : List Item) (cls : String) :
    planned (item :: plan) cls = (if item.faultClass = cls then item.target else 0) + planned plan cls := by
  rw [planned, List.filter_cons]
  by_cases h : item.faultClass = cls
  · rw [if_pos (decide_eq_true h), if_pos h, List.map_cons, List.sum_cons, planned]
  · rw [if_neg (by simpa using h), if_neg h, Nat.zero_add, planned]

theorem planned_nil (cls : String) : planned [] cls = 0 := rfl

/-! ## A pass -/

/-- Every class that remains has an episode left. -/
def Positive (t : Table String Int) : Prop := ∀ cls n, t.lookup cls = some n → 0 < n

theorem lookup_positive (t : Table String Int) (cls : String) (n : Int) :
    (positive t).lookup cls = some n ↔ t.lookup cls = some n ∧ 0 < n := by
  have hmem : (⟨cls, n⟩ : (_ : String) × Int) ∈ (positive t).entries ↔ ⟨cls, n⟩ ∈ t.entries ∧ 0 < n := by
    simp [positive, List.mem_filter]
  rw [← Option.mem_def, ← Option.mem_def, AList.mem_lookup_iff, AList.mem_lookup_iff]
  exact hmem

theorem budget_positive (t : Table String Int) (cls : String) : budget (positive t) cls = budget t cls := by
  unfold budget
  cases h : t.lookup cls with
  | none =>
    cases h' : (positive t).lookup cls with
    | none => rfl
    | some n => cases h.symm.trans ((lookup_positive t cls n).1 h').1
  | some n =>
    by_cases hn : 0 < n
    · rw [(lookup_positive t cls n).2 ⟨h, hn⟩]
    · cases h' : (positive t).lookup cls with
      | none => exact (Int.toNat_of_nonpos (Int.not_lt.1 hn)).symm
      | some m =>
        obtain ⟨hm, hpos⟩ := (lookup_positive t cls m).1 h'
        cases h.symm.trans hm
        exact absurd hpos hn

section Pass
variable {t : Table String Int} {a b cls : String}

theorem Positive.budget_pos (h : Positive t) (ha : a ∈ t) : 0 < budget t a := by
  obtain ⟨n, hn⟩ := Table.mem_iff_lookup.1 ha
  have := h a n hn
  rw [budget, hn]
  exact Int.lt_toNat.2 this

theorem mem_of_budget (h : 0 < budget t a) : ∃ n, t.lookup a = some n ∧ 0 < n := by
  unfold budget at h
  cases hn : t.lookup a with
  | none =>
    rw [hn] at h
    cases h
  | some n =>
    rw [hn] at h
    exact ⟨n, rfl, Int.lt_toNat.1 h⟩

theorem mem_entries (h : budget t a ≠ 0) : ∃ n, (⟨a, n⟩ : (_ : String) × Int) ∈ t.entries := by
  obtain ⟨n, hn, -⟩ := mem_of_budget (Nat.pos_of_ne_zero h)
  exact ⟨n, AList.mem_lookup_iff.1 hn⟩

theorem lookup_pop (t : Table String Int) (a cls : String) : (pop t a).lookup cls =
    if cls = a then (t.lookup a).filter (0 < ·) else t.lookup cls := by
  unfold pop
  by_cases hc : cls = a
  · subst hc
    rw [if_pos rfl]
    cases hl : t.lookup cls with
    | none => simp
    | some n =>
      by_cases hn : n ≤ 0
      · simp [Option.filter_some, hn, Int.not_lt.2 hn]
      · simp [Option.filter_some, hl, hn, Int.not_le.1 hn]
  · rw [if_neg hc]
    split
    · exact AList.lookup_erase_ne hc
    · rfl

/-- What remains of a class after its episode. -/
def taken (n : Option Int) : Option Int := (n.map (· - 1)).filter (0 < ·)

/-- The pair lose an episode each, and leave when it was their last. -/
theorem lookup_left (hab : a ≠ b) : ([a, b].foldl pop ([a, b].foldl decrement t)).lookup cls =
    if cls = a ∨ cls = b then taken (t.lookup cls) else t.lookup cls := by
  simp only [List.foldl_cons, List.foldl_nil, lookup_pop, decrement, Table.lookup_update]
  by_cases ha : cls = a
  · subst ha
    simp [hab, taken]
  · by_cases hb : cls = b
    · subst hb
      simp [ha, taken]
    · simp [ha, hb]

theorem taken_budget (n : Option Int) : ((taken n).getD 0).toNat = (n.getD 0).toNat - 1 := by
  cases n with
  | none => rfl
  | some n =>
    rw [taken, Option.map_some, Option.filter_some, Option.getD_some]
    split
    · rw [Option.getD_some]
      omega
    · rename_i hn
      simp only [decide_eq_true_eq, Int.not_lt] at hn
      rw [Option.getD_none]
      omega

/-- What a pass does: two classes, a chunk of one episode for each, and each has one less. -/
structure Pass (t left : Table String Int) (a b : String) : Prop where
  distinct : a ≠ b
  first : a ∈ t
  second : b ∈ t
  positive : Positive left
  budget : ∀ cls, budget left cls = budget t cls - if cls = a ∨ cls = b then 1 else 0

theorem drawPair_pass (hp : Positive t) (hlen : 2 ≤ t.keys.length) :
    Chance.Always (drawPair t) fun x => ∃ a b, Pass t x.1 a b ∧ x.2 = [⟨a, 1⟩, ⟨b, 1⟩] := by
  refine .bind (sample_subperm _ 2) fun sampled ⟨hsub, hsampled⟩ => .bind (shuffle_perm sampled) fun pair hpair => .pure ?_
  have htwo : pair.length = 2 := by rw [hpair.length_eq, hsampled, Nat.min_eq_left hlen]
  have hnodup : pair.Nodup := hpair.nodup_iff.2 (nodup_of_subperm hsub t.keys_nodup)
  obtain ⟨a, b, rfl⟩ := List.length_eq_two.1 htwo
  have hab : a ≠ b := by simpa using hnodup
  have hmem : ∀ c ∈ [a, b], c ∈ t := fun c hc => AList.mem_keys.2 (hsub.subset (hpair.subset hc))
  refine ⟨a, b, ⟨hab, hmem a (by simp), hmem b (by simp), fun cls n hn => ?_, fun cls => ?_⟩, rfl⟩
  · rw [lookup_left hab] at hn
    split at hn
    · exact of_decide_eq_true (Option.filter_eq_some_iff.1 hn).2
    · exact hp cls n hn
  · unfold Batch.budget
    rw [lookup_left hab]
    split
    · exact taken_budget _
    · rfl

end Pass

/-! ## The loop -/

def chunksOf (pairs : List (String × String)) : List Item := pairs.flatMap fun p => [⟨p.1, 1⟩, ⟨p.2, 1⟩]

/-- What the loop and the rest make of what remains: pairs, and at most one chunk more. -/
structure Drained (t : Table String Int) (pairs : List (String × String)) (last : List Item) : Prop where
  distinct : ∀ p ∈ pairs, p.1 ≠ p.2
  short : last.length ≤ 1
  planned : ∀ cls, planned (chunksOf pairs ++ last) cls = budget t cls
  present : ∀ item ∈ chunksOf pairs ++ last, 0 < budget t item.faultClass

section Loop
variable {t : Table String Int} {items : List Item}

/-- One class is left, or none. -/
theorem drained_rest (hp : Positive t) (hlen : t.keys.length < 2) : Drained t [] (t.entries.map fun e => ⟨e.1, e.2.toNat⟩) := by
  have hentries : t.entries.length < 2 := by simpa [AList.keys, List.keys] using hlen
  rcases he : t.entries with _ | ⟨⟨c, n⟩, _ | ⟨e, es⟩⟩
  · have hnone : ∀ cls, budget t cls = 0 := by
      intro cls
      by_contra h
      obtain ⟨n, hn⟩ := mem_entries h
      rw [he] at hn
      cases hn
    exact ⟨nofun, Nat.zero_le _, fun cls => (hnone cls).symm, nofun⟩
  · have hlookup : t.lookup c = some n := AList.mem_lookup_iff.2 (by rw [he]; exact .head _)
    have hother : ∀ cls, cls ≠ c → budget t cls = 0 := by
      intro cls hne
      by_contra h
      obtain ⟨m, hm⟩ := mem_entries h
      rw [he, List.mem_singleton] at hm
      cases hm
      exact hne rfl
    have hc : budget t c = n.toNat := by
      rw [budget, hlookup]
      rfl
    refine ⟨nofun, Nat.le_refl _, fun cls => ?_, fun item hitem => ?_⟩
    · rw [chunksOf, List.flatMap_nil, List.nil_append, List.map_singleton, planned_cons, planned_nil, Nat.add_zero]
      split
      · rename_i h
        rw [← h, hc]
      · rename_i h
        exact (hother cls fun h' => h h'.symm).symm
    · rw [List.mem_singleton.1 hitem, hc]
      exact Int.lt_toNat.2 (hp c n hlookup)
  · rw [he, List.length_cons, List.length_cons] at hentries
    omega

/-- A pass before what is drained. -/
theorem Pass.drained {left : Table String Int} {a b : String} {pairs : List (String × String)} {last : List Item} (h : Pass t left a b)
    (hp : Positive t) (hd : Drained left pairs last) : Drained t ((a, b) :: pairs) last := by
  have ha := hp.budget_pos h.first
  have hb := hp.budget_pos h.second
  refine ⟨List.forall_mem_cons.2 ⟨h.distinct, hd.distinct⟩, hd.short, fun cls => ?_, ?_⟩
  · have hrest := hd.planned cls
    rw [h.budget] at hrest
    show Batch.planned (⟨a, 1⟩ :: ⟨b, 1⟩ :: (chunksOf pairs ++ last)) cls = _
    rw [planned_cons, planned_cons, hrest]
    by_cases hca : a = cls
    · subst hca
      simp [h.distinct.symm]
      omega
    · by_cases hcb : b = cls
      · subst hcb
        simp [hca]
        omega
      · simp [hca, hcb, Ne.symm hca, Ne.symm hcb]
  · refine List.forall_mem_cons.2 ⟨ha, List.forall_mem_cons.2 ⟨hb, fun item hitem => ?_⟩⟩
    have := hd.present item hitem
    rw [h.budget] at this
    omega

theorem drain_rest (h : t.keys.length < 2) (fuel : ℕ) :
    drain fuel t items = pure (some (items ++ t.entries.map fun e => ⟨e.1, e.2.toNat⟩)) := by
  unfold drain
  exact if_pos h

theorem drain_pass (h : ¬ t.keys.length < 2) (fuel : ℕ) :
    drain (fuel + 1) t items = drawPair t >>= fun x => drain fuel x.1 (items ++ x.2) := by
  rw [drain, if_neg h]

/-- The loop ends, whatever is drawn: every pass uses up an episode. -/
theorem drain_ends (classes : Finset String) (n : ℕ) (hp : Positive t) (hin : ∀ cls, 0 < budget t cls → cls ∈ classes)
    (hn : ∑ cls ∈ classes, budget t cls ≤ n) (s : Chance.Source) (items : List Item) :
    ∃ pairs last, (∀ fuel, n ≤ fuel → ((drain fuel t items).run s).1 = some (items ++ (chunksOf pairs ++ last))) ∧
      Drained t pairs last := by
  induction n generalizing t items s with
  | zero =>
    by_cases hlen : t.keys.length < 2
    · exact ⟨[], _, fun fuel _ => by rw [drain_rest hlen]; rfl, drained_rest hp hlen⟩
    · obtain ⟨a, b, hpass, -⟩ := drawPair_pass hp (Nat.le_of_not_lt hlen) s
      have hpos := hp.budget_pos hpass.first
      have := Finset.single_le_sum (f := budget t) (fun _ _ => Nat.zero_le _) (hin a hpos)
      omega
  | succ n ih =>
    by_cases hlen : t.keys.length < 2
    · exact ⟨[], _, fun fuel _ => by rw [drain_rest hlen]; rfl, drained_rest hp hlen⟩
    · obtain ⟨a, b, hpass, hchunks⟩ := drawPair_pass hp (Nat.le_of_not_lt hlen) s
      have hle : ∀ cls, budget ((drawPair t).run s).1.1 cls ≤ budget t cls := fun cls => by
        rw [hpass.budget]
        exact Nat.sub_le _ _
      have hpos := hp.budget_pos hpass.first
      have hless : ∑ cls ∈ classes, budget ((drawPair t).run s).1.1 cls < ∑ cls ∈ classes, budget t cls := by
        refine Finset.sum_lt_sum (fun cls _ => hle cls) ⟨a, hin a hpos, ?_⟩
        rw [hpass.budget, if_pos (.inl rfl)]
        omega
      obtain ⟨pairs, last, hrun, hd⟩ := ih hpass.positive (fun cls h => hin cls (Nat.lt_of_lt_of_le h (hle cls)))
        (by omega) ((drawPair t).run s).2 (items ++ [⟨a, 1⟩, ⟨b, 1⟩])
      refine ⟨(a, b) :: pairs, last, fun fuel hfuel => ?_, hpass.drained hp hd⟩
      obtain ⟨fuel, rfl⟩ : ∃ m, fuel = m + 1 := ⟨fuel - 1, by omega⟩
      rw [drain_pass hlen]
      show ((drain fuel ((drawPair t).run s).1.1 (items ++ ((drawPair t).run s).1.2)).run ((drawPair t).run s).2).1 = _
      rw [hchunks, hrun fuel (Nat.le_of_succ_le_succ hfuel), List.append_assoc]
      rfl

end Loop

/-! ## The plan -/

/-- All the episodes that are asked for. -/
def episodes (classCounts : Table String Int) : ℕ := ∑ cls ∈ classCounts.keys.toFinset, budget classCounts cls

theorem length_chunksOf (pairs : List (String × String)) : (chunksOf pairs).length = 2 * pairs.length := by
  induction pairs with
  | nil => rfl
  | cons p ps ih =>
    show ((⟨p.1, 1⟩ : Item) :: ⟨p.2, 1⟩ :: chunksOf ps).length = _
    rw [List.length_cons, List.length_cons, ih, List.length_cons]
    omega

/-- The chunks of a pair stand side by side, the first at an even index. -/
theorem getElem_chunksOf {pairs : List (String × String)} {m : ℕ} {p : String × String} (h : pairs[m]? = some p) :
    (chunksOf pairs)[2 * m]? = some ⟨p.1, 1⟩ ∧ (chunksOf pairs)[2 * m + 1]? = some ⟨p.2, 1⟩ := by
  induction pairs generalizing m with
  | nil => cases h
  | cons q qs ih =>
    cases m with
    | zero =>
      cases h
      exact ⟨rfl, rfl⟩
    | succ m => exact ih h

theorem mem_chunksOf {pairs : List (String × String)} {item : Item} (h : item ∈ chunksOf pairs) : item.target = 1 := by
  obtain ⟨p, -, hp⟩ := List.mem_flatMap.1 h
  rcases List.mem_pair.1 hp with rfl | rfl
  · rfl
  · rfl

theorem Drained.shuffled {classCounts : Table String Int} {pairs : List (String × String)} {last : List Item}
    (h : Drained (positive classCounts) pairs last) : Shuffled classCounts (chunksOf pairs ++ last) where
  conserved cls := (h.planned cls).trans (budget_positive classCounts cls)
  present item hitem := mem_of_budget ((budget_positive classCounts _).symm ▸ h.present item hitem)
  paired i hi := by
    have hshort := h.short
    rw [List.length_append, length_chunksOf] at hi
    have hm : i / 2 < pairs.length := by omega
    obtain ⟨hfirst, hsecond⟩ := getElem_chunksOf (List.getElem?_eq_getElem hm)
    have hlen := length_chunksOf pairs
    refine ⟨_, _, h.distinct _ (List.getElem_mem hm), ?_, ?_⟩
    · rw [List.getElem?_append_left (by omega)]
      exact hfirst
    · rw [List.getElem?_append_left (by omega)]
      exact hsecond
  block i item hitem htarget := by
    have hshort := h.short
    obtain ⟨hi, hget⟩ := List.getElem?_eq_some_iff.1 hitem
    rw [List.length_append] at hi ⊢
    rcases Nat.lt_or_ge i (chunksOf pairs).length with hin | hout
    · rw [List.getElem_append_left hin] at hget
      have := mem_chunksOf (hget ▸ List.getElem_mem hin)
      omega
    · omega

/-- Whatever is drawn, the loop ends with a plan of all that was asked for. -/
theorem shuffled_plan (classCounts : Table String Int) (s : Chance.Source) :
    ∃ plan, (∀ fuel, episodes classCounts ≤ fuel → ((buildShuffledPlan fuel classCounts).run s).1 = some plan) ∧
      Shuffled classCounts plan := by
  have hin : ∀ cls, 0 < budget (positive classCounts) cls → cls ∈ classCounts.keys.toFinset := by
    intro cls h
    rw [budget_positive] at h
    obtain ⟨n, hn, -⟩ := mem_of_budget h
    exact List.mem_toFinset.2 (AList.mem_keys.1 (Table.mem_iff_lookup.2 ⟨n, hn⟩))
  have hsum : ∑ cls ∈ classCounts.keys.toFinset, budget (positive classCounts) cls ≤ episodes classCounts :=
    le_of_eq (Finset.sum_congr rfl fun cls _ => budget_positive classCounts cls)
  obtain ⟨pairs, last, hrun, hd⟩ := drain_ends _ _ (fun cls n hn => ((lookup_positive classCounts cls n).1 hn).2) hin hsum s []
  exact ⟨_, hrun, hd.shuffled⟩

-- drawing the first of what is left: the pairs end when there is a single class, whose rest is one block
example : ((buildShuffledPlan 4 (((∅ : Table String Int).insert "oom" 3).insert "none" 1)).run fun n => n).1 =
    some [⟨"none", 1⟩, ⟨"oom", 1⟩, ⟨"oom", 2⟩] := by decide +kernel

end Wardence.Batch
