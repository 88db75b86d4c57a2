import Wardence.Lib.Steps
import Wardence.Quota.Books
import Wardence.Scorecard
/-!
# What an episode costs

`_update_token_usage` of `run_episodes.py` adds up the calls that are logged for an episode and folds
them into `llm_token_usage.json`, by class and model, from which the publisher takes the averages. Calls
for an episode may still come after that. Sums and quotients are exact before they are rounded, and the
file is always written as a whole.
-/
namespace Wardence.Usage

open Tally Quota

/-- Tokens and Neurons. -/
abbrev Cost := ℕ × ℚ

def modelKey (r : LogRow) : String := r.provider ++ ":" ++ r.model

def cost (r : LogRow) : Cost := (r.tokens, r.neurons)

structure Stats where
  count : ℕ
  totalTokens : ℕ
  avgTokens : ℚ
  minTokens : ℕ
  maxTokens : ℕ
  totalNeurons : ℚ
  avgNeurons : ℚ
  minNeurons : ℚ
  maxNeurons : ℚ

/-- The default of `class_usage.get`. -/
def Stats.fresh (t : Cost) : Stats := ⟨0, 0, 0, t.1, t.1, 0, 0, t.2, t.2⟩

def Stats.add (t : Cost) (s : Stats) : Stats where
  count := s.count + 1
  totalTokens := s.totalTokens + t.1
  avgTokens := (s.totalTokens + t.1 : ℕ) / (s.count + 1 : ℕ)
  minTokens := min s.minTokens t.1
  maxTokens := max s.maxTokens t.1
  totalNeurons := s.totalNeurons + t.2
  avgNeurons := (s.totalNeurons + t.2) / (s.count + 1 : ℕ)
  minNeurons := min s.minNeurons t.2
  maxNeurons := max s.maxNeurons t.2

/-- `llm_token_usage.json`: by class, and by model. -/
abbrev File := List (String × List (String × Stats))

def getEpisodeUsage (w : Quota.World) (e : String) : List LogRow := w.callLog.filter fun r => r.episodeId = some e

def perProviderTotals (rows : List LogRow) : List (String × Cost) := tally modelKey 0 (fun r t => t + cost r) rows

def addEpisode (totals : List (String × Cost)) (classUsage : List (String × Stats)) : List (String × Stats) :=
  totals.foldl (fun u e => bump (.fresh e.2) e.1 (Stats.add e.2) u) classUsage

def updateTokenUsage (w : Quota.World) (file : File) (faultClass : String) : Option String → File
  | none => file
  | some e =>
    let rows := getEpisodeUsage w e
    if rows.isEmpty then file else bump [] faultClass (addEpisode (perProviderTotals rows)) file

/-! ## The publisher -/

structure Efficiency where
  sampleCount : ℕ
  avgTokens : Option ℚ
  avgNeurons : Option ℚ

/-- The entries of a class and model that have cost anything. -/
def cohorts (file : File) : List (String × Stats) :=
  (file.flatMap (·.2)).filter fun e => 0 < e.2.count ∧ ¬(e.2.totalTokens = 0 ∧ e.2.avgNeurons * e.2.count = 0)

def efficiencyOf (t : ℕ × Cost) : Efficiency where
  sampleCount := t.1
  avgTokens := if t.2.1 = 0 then none else some (Scorecard.roundTo 1 (t.2.1 / t.1))
  avgNeurons := if t.2.2 = 0 then none else some (Scorecard.roundTo 2 (t.2.2 / t.1))

def buildModelEfficiency (file : File) : List (String × Efficiency) :=
  let totals := tally Prod.fst (0 : ℕ × Cost)
    (fun e t => t + (e.2.count, e.2.totalTokens, e.2.avgNeurons * (e.2.count : ℚ))) (cohorts file)
  totals.map fun e => (e.1, efficiencyOf e.2)

/-! ## Histories -/

structure State where
  quota : Quota.World := {}
  file : File := []

inductive Event where
  | call (c : Quota.Call)
  /-- An episode of the batch runner is over. -/
  | update (faultClass : String) (episodeId : Option String)

def step (json : Json) (s : State) : Event → State
  | .call c => { s with quota := callOne json s.quota c }
  | .update faultClass e => { s with file := updateTokenUsage s.quota s.file faultClass e }

/-- The state, with an account of what has been folded in (class, model, cost of the episode) and of the logged calls that have not. -/
structure Ledger where
  state : State := {}
  episodes : List (String × String × Cost) := []
  uncounted : List LogRow := []

def Ledger.step (json : Json) (l : Ledger) (ev : Event) : Ledger where
  state := Usage.step json l.state ev
  episodes := match ev with
    | .call _ | .update _ none => l.episodes
    | .update c (some e) => l.episodes ++ (perProviderTotals (getEpisodeUsage l.state.quota e)).map fun t => (c, t)
  uncounted := match ev with
    | .call c => l.uncounted ++ (callOne json l.state.quota c).callLog.drop l.state.quota.callLog.length
    | .update _ none => l.uncounted
    | .update _ (some e) => l.uncounted.filter fun r => r.episodeId ≠ some e

abbrev ledger (json : Json) (events : List Event) : Ledger := Steps.run (Ledger.step json) {} events

theorem ledger_state (json : Json) (events : List Event) : (ledger json events).state = Steps.run (step json) {} events := by
  induction events using List.reverseRecOn with
  | nil => rfl
  | append_singleton events ev ih => rw [ledger, Steps.run_concat, Steps.run_concat, ← ih]; rfl

/-- What an episode of a class has cost with a model, for each episode that has been folded in. -/
def costsOf (episodes : List (String × String × Cost)) (c k : String) : List Cost :=
  (episodes.filter fun x => x.1 = c ∧ x.2.1 = k).map (·.2.2)

/-- The statistics of a list of costs. -/
structure Summary (l : List Cost) (s : Stats) : Prop where
  count : s.count = l.length
  total : (s.totalTokens, s.totalNeurons) = l.sum
  avgTokens : s.avgTokens = (l.map Prod.fst).sum / l.length
  avgNeurons : s.avgNeurons = (l.map Prod.snd).sum / l.length
  minTokens : s.minTokens ∈ l.map Prod.fst ∧ ∀ t ∈ l, s.minTokens ≤ t.1
  maxTokens : s.maxTokens ∈ l.map Prod.fst ∧ ∀ t ∈ l, t.1 ≤ s.maxTokens
  minNeurons : s.minNeurons ∈ l.map Prod.snd ∧ ∀ t ∈ l, s.minNeurons ≤ t.2
  maxNeurons : s.maxNeurons ∈ l.map Prod.snd ∧ ∀ t ∈ l, t.2 ≤ s.maxNeurons

def statsAt (file : File) (c k : String) : Option Stats := (entry [] file c).lookup k

/-! ## The statistics -/

theorem fst_sum (l : List Cost) : l.sum.1 = (l.map Prod.fst).sum := by
  induction l with
  | nil => rfl
  | cons t l ih => rw [List.sum_cons, Prod.fst_add, ih, List.map_cons, List.sum_cons]

theorem snd_sum (l : List Cost) : l.sum.2 = (l.map Prod.snd).sum := by
  induction l with
  | nil => rfl
  | cons t l ih => rw [List.sum_cons, Prod.snd_add, ih, List.map_cons, List.sum_cons]

theorem Summary.first (t : Cost) : Summary [t] ((Stats.fresh t).add t) := by
  constructor <;> simp [Stats.fresh, Stats.add]

theorem Summary.add {l : List Cost} {s : Stats} (h : Summary l s) (t : Cost) : Summary (l ++ [t]) (s.add t) := by
  obtain ⟨hcount, htotal, -, -, hmin, hmax, hminN, hmaxN⟩ := h
  have htokens : s.totalTokens = (l.map Prod.fst).sum := (congrArg Prod.fst htotal).trans (fst_sum l)
  have hneurons : s.totalNeurons = (l.map Prod.snd).sum := (congrArg Prod.snd htotal).trans (snd_sum l)
  have hleast : ∀ {α : Type} [LinearOrder α] (f : Cost → α) {m : α}, m ∈ l.map f ∧ (∀ x ∈ l, m ≤ f x) →
      min m (f t) ∈ (l ++ [t]).map f ∧ ∀ x ∈ l ++ [t], min m (f t) ≤ f x := by
    intro α _ f m ⟨hm, hle⟩
    refine ⟨?_, fun x hx => ?_⟩
    · rw [List.map_append, List.mem_append]
      rcases min_choice m (f t) with h | h
      · exact .inl (by rw [h]; exact hm)
      · exact .inr (by simp [h])
    · rcases List.mem_append.1 hx with hx | hx
      · exact (min_le_left ..).trans (hle x hx)
      · rw [List.mem_singleton.1 hx]
        exact min_le_right ..
  have hgreatest : ∀ {α : Type} [LinearOrder α] (f : Cost → α) {m : α}, m ∈ l.map f ∧ (∀ x ∈ l, f x ≤ m) →
      max m (f t) ∈ (l ++ [t]).map f ∧ ∀ x ∈ l ++ [t], f x ≤ max m (f t) :=
    fun {α} _ f m h => hleast (α := αᵒᵈ) f h
  refine ⟨by simp [Stats.add, hcount], ?_, ?_, ?_, hleast Prod.fst hmin, hgreatest Prod.fst hmax, hleast Prod.snd hminN,
    hgreatest Prod.snd hmaxN⟩
  · rw [List.sum_append, ← htotal]
    simp [Stats.add, Prod.ext_iff]
  · simp [Stats.add, hcount, htokens]
  · simp [Stats.add, hcount, hneurons]

/-! ## Folding an episode in -/

theorem lookup_addEpisode {totals : List (String × Cost)} (hnodup : (keys totals).Nodup) (u : List (String × Stats)) (k : String) :
    (addEpisode totals u).lookup k = match totals.lookup k with
      | none => u.lookup k
      | some t => some (((u.lookup k).getD (.fresh t)).add t) := by
  induction totals generalizing u with
  | nil => rfl
  | cons e totals ih =>
    obtain ⟨k₁, t⟩ := e
    obtain ⟨hmem, hnodup⟩ := List.nodup_cons.1 hnodup
    have hstep : addEpisode ((k₁, t) :: totals) u = addEpisode totals (bump (.fresh t) k₁ (Stats.add t) u) := rfl
    rw [hstep, ih hnodup, lookup_bump]
    by_cases hk : k = k₁
    · subst hk
      rw [lookup_of_not_key hmem, if_pos rfl]
      simp [entry]
    · simp [List.lookup_cons, beq_false_of_ne hk, hk]

theorem nodup_perProviderTotals (rows : List LogRow) : (keys (perProviderTotals rows)).Nodup := nodup_keys_tally _ _ _ _

/-- What the calls of a model add up to. -/
def costOf (rows : List LogRow) (k : String) : Cost := ((rows.filter fun r => modelKey r = k).map cost).sum

theorem entry_perProviderTotals (rows : List LogRow) (k : String) : entry 0 (perProviderTotals rows) k = costOf rows k := by
  rw [perProviderTotals, entry_tally, costOf]
  induction rows.filter (fun r => modelKey r = k) using List.reverseRecOn with
  | nil => rfl
  | append_singleton rows r ih => rw [List.foldl_append, ih, List.map_append, List.sum_append]; simp

theorem costOf_append (a b : List LogRow) (k : String) : costOf (a ++ b) k = costOf a k + costOf b k := by
  simp [costOf]

theorem costsOf_episode (episodes : List (String × String × Cost)) (rows : List LogRow) (faultClass c k : String) :
    costsOf (episodes ++ (perProviderTotals rows).map fun t => (faultClass, t)) c k = costsOf episodes c k ++
      if c = faultClass then ((perProviderTotals rows).lookup k).toList else [] := by
  rw [costsOf, List.filter_append, List.map_append, ← costsOf, ← filter_key (nodup_perProviderTotals rows)]
  congr 1
  generalize perProviderTotals rows = totals
  by_cases hc : c = faultClass
  · subst hc
    rw [if_pos rfl, List.filter_map, List.map_map]
    congr 1
    simp [Function.comp_def]
  · have hne : ¬ faultClass = c := fun h => hc h.symm
    rw [if_neg hc, List.filter_map]
    simp [hne]

/-- The file holds the statistics of what was folded in. -/
def Recorded (file : File) (episodes : List (String × String × Cost)) : Prop :=
  ∀ c k, match statsAt file c k with
    | none => costsOf episodes c k = []
    | some s => Summary (costsOf episodes c k) s

theorem statsAt_update (w : Quota.World) (file : File) (faultClass e c k : String) :
    statsAt (updateTokenUsage w file faultClass (some e)) c k =
      match if c = faultClass then (perProviderTotals (getEpisodeUsage w e)).lookup k else none with
      | none => statsAt file c k
      | some t => some (((statsAt file c k).getD (.fresh t)).add t) := by
  rw [updateTokenUsage]
  split
  next hempty =>
    have hrows := List.isEmpty_iff.1 hempty
    rw [hrows]
    split <;> simp_all [perProviderTotals, tally]
  next =>
    rw [statsAt, entry_bump]
    by_cases hc : c = faultClass
    · subst hc
      rw [if_pos rfl, if_pos rfl, lookup_addEpisode (nodup_perProviderTotals _)]
      rfl
    · rw [if_neg hc, if_neg hc]
      rfl

theorem Recorded.step {json : Json} {l : Ledger} (h : Recorded l.state.file l.episodes) (ev : Event) :
    Recorded (l.step json ev).state.file (l.step json ev).episodes := by
  match ev with
  | .call _ | .update _ none => exact h
  | .update faultClass (some e) =>
    intro c k
    have hck := h c k
    simp only [Ledger.step, Usage.step, statsAt_update, costsOf_episode]
    cases ht : if c = faultClass then (perProviderTotals (getEpisodeUsage l.state.quota e)).lookup k else none with
    | none =>
      have hnil : (if c = faultClass then ((perProviderTotals (getEpisodeUsage l.state.quota e)).lookup k).toList else []) = [] := by
        split at ht
        · rw [if_pos ‹_›, ht]; rfl
        · rw [if_neg ‹_›]
      rw [hnil, List.append_nil]
      exact hck
    | some t =>
      have hone : (if c = faultClass then ((perProviderTotals (getEpisodeUsage l.state.quota e)).lookup k).toList else []) = [t] := by
        split at ht
        · rw [if_pos ‹_›, ht]; rfl
        · cases ht
      rw [hone]
      cases hs : statsAt l.state.file c k with
      | none =>
        rw [hs] at hck
        rw [hck, List.nil_append]
        exact .first t
      | some s =>
        rw [hs] at hck
        exact hck.add t

/-! ## What the file accounts for -/

/-- The costs of a model that the file holds, over all classes. -/
def counted (file : File) (k : String) : Cost :=
  total (fun _ classUsage => total (fun k' s => if k' = k then (s.totalTokens, s.totalNeurons) else 0) classUsage) file

theorem total_addEpisode (totals : List (String × Cost)) (u : List (String × Stats)) (k : String) :
    total (fun k' s => if k' = k then ((s.totalTokens, s.totalNeurons) : Cost) else 0) (addEpisode totals u) =
      total (fun k' s => if k' = k then ((s.totalTokens, s.totalNeurons) : Cost) else 0) u +
        total (fun k' t => if k' = k then t else 0) totals := by
  induction totals generalizing u with
  | nil => simp [addEpisode, total]
  | cons e totals ih =>
    have hstep : addEpisode (e :: totals) u = addEpisode totals (bump (.fresh e.2) e.1 (Stats.add e.2) u) := rfl
    have hcons : total (fun k' t => if k' = k then t else (0 : Cost)) (e :: totals) =
        (if e.1 = k then e.2 else 0) + total (fun k' t => if k' = k then t else 0) totals := rfl
    rw [hstep, ih, hcons, ← add_assoc]
    congr 1
    refine total_bump _ _ _ _ (by simp [Stats.fresh]) fun s => ?_
    by_cases hk : e.1 = k <;> simp [hk, Stats.add, Prod.ext_iff]

theorem total_perProviderTotals (rows : List LogRow) (k : String) :
    total (fun k' t => if k' = k then t else 0) (perProviderTotals rows) = costOf rows k := by
  have hrows : costOf rows k = (rows.map fun r => if modelKey r = k then cost r else 0).sum := by
    rw [costOf]
    induction rows with
    | nil => rfl
    | cons r rows ih => by_cases hk : modelKey r = k <;> simp [hk, ih]
  rw [hrows]
  refine total_tally modelKey 0 (fun r t => t + cost r) rows (fun _ => by simp) fun r t => ?_
  by_cases hk : modelKey r = k <;> simp [hk]

theorem counted_update (w : Quota.World) (file : File) (faultClass e k : String) :
    counted (updateTokenUsage w file faultClass (some e)) k = counted file k + costOf (getEpisodeUsage w e) k := by
  rw [updateTokenUsage]
  split
  next hempty => simp [List.isEmpty_iff.1 hempty, costOf]
  next =>
    rw [← total_perProviderTotals]
    exact total_bump _ _ _ _ rfl fun u => total_addEpisode _ u k

def Event.updated : Event → Option String
  | .call _ => none
  | .update _ e => e

/-- The calls that no update has counted: of an episode that none was for, all that are logged. -/
structure Balanced (updated : List String) (l : Ledger) : Prop where
  balance : ∀ k, counted l.state.file k + costOf l.uncounted k = costOf l.state.quota.callLog k
  waiting : ∀ e, e ∉ updated → l.uncounted.filter (fun r => r.episodeId = some e) = getEpisodeUsage l.state.quota e

theorem callLog_grows (json : Json) (w : Quota.World) (c : Quota.Call) : ∃ rows, (callOne json w c).callLog = w.callLog ++ rows := by
  cases h : w.exhausted c.entry.provider c.entry.model c.checkedAt with
  | true => exact ⟨[], by rw [callOne, if_pos h, List.append_nil]⟩
  | false => exact ⟨_, (callOne_books json h).1⟩

theorem costOf_split (rows : List LogRow) (e k : String) : costOf rows k =
    costOf (rows.filter fun r => r.episodeId = some e) k + costOf (rows.filter fun r => r.episodeId ≠ some e) k := by
  induction rows with
  | nil => simp [costOf]
  | cons r rows ih =>
    have hcons : ∀ rest, costOf (r :: rest) k = costOf [r] k + costOf rest k := fun rest => costOf_append [r] rest k
    by_cases he : r.episodeId = some e
    · have hout : (r :: rows).filter (fun r => r.episodeId ≠ some e) = rows.filter fun r => r.episodeId ≠ some e :=
        List.filter_cons_of_neg (by simp [he])
      rw [List.filter_cons_of_pos (by simp [he]), hout, hcons rows, hcons (rows.filter fun r => r.episodeId = some e), ih, add_assoc]
    · have hin : (r :: rows).filter (fun r => r.episodeId ≠ some e) = r :: rows.filter fun r => r.episodeId ≠ some e :=
        List.filter_cons_of_pos (by simp [he])
      rw [List.filter_cons_of_neg (by simp [he]), hin, hcons rows, hcons (rows.filter fun r => r.episodeId ≠ some e), ih, add_left_comm]

theorem Balanced.step {json : Json} {updated : List String} {l : Ledger} (h : Balanced updated l) {ev : Event}
    (hnew : ∀ e, ev.updated = some e → e ∉ updated) : Balanced (updated ++ ev.updated.toList) (l.step json ev) := by
  obtain ⟨hbalance, hwaiting⟩ := h
  match ev with
  | .call c =>
    obtain ⟨rows, hrows⟩ := callLog_grows json l.state.quota c
    have huncounted : (l.step json (.call c)).uncounted = l.uncounted ++ rows := by
      simp [Ledger.step, hrows]
    refine ⟨fun k => ?_, fun e he => ?_⟩
    · rw [huncounted, costOf_append, ← add_assoc]
      change counted l.state.file k + costOf l.uncounted k + costOf rows k = costOf (callOne json l.state.quota c).callLog k
      rw [hbalance, hrows, costOf_append]
    · rw [huncounted, List.filter_append, hwaiting e fun hin => he (List.mem_append_left _ hin)]
      change _ = (callOne json l.state.quota c).callLog.filter _
      rw [hrows, List.filter_append]
      rfl
  | .update faultClass none => exact ⟨hbalance, fun e he => hwaiting e fun hin => he (List.mem_append_left _ hin)⟩
  | .update faultClass (some e) =>
    have hold := hwaiting e (hnew e rfl)
    refine ⟨fun k => ?_, fun e' he' => ?_⟩
    · change counted (updateTokenUsage l.state.quota l.state.file faultClass (some e)) k +
        costOf (l.uncounted.filter fun r => r.episodeId ≠ some e) k = costOf l.state.quota.callLog k
      rw [counted_update, ← hold, add_assoc, ← costOf_split, hbalance]
    · have hne : e' ≠ e := by
        rintro rfl
        exact he' (by simp [Event.updated])
      change (l.uncounted.filter fun r => r.episodeId ≠ some e).filter _ = _
      rw [List.filter_filter]
      refine Eq.trans (List.filter_congr fun r _ => ?_) (hwaiting e' fun hin => he' (List.mem_append_left _ hin))
      by_cases hr : r.episodeId = some e'
      · simp [hr, hne]
      · simp [hr]

theorem balanced_ledger (json : Json) {events : List Event} (hnodup : (events.filterMap Event.updated).Nodup) :
    Balanced (events.filterMap Event.updated) (ledger json events) := by
  induction events using List.reverseRecOn with
  | nil => exact ⟨fun _ => add_zero 0, fun _ _ => rfl⟩
  | append_singleton events ev ih =>
    rw [List.filterMap_append] at hnodup ⊢
    have hsplit := List.nodup_append.1 hnodup
    have hnew : ∀ e, ev.updated = some e → e ∉ events.filterMap Event.updated := by
      intro e he hin
      exact hsplit.2.2 e hin e (by simp [he]) rfl
    have hone : [ev].filterMap Event.updated = ev.updated.toList := by cases h : ev.updated <;> simp [h]
    rw [hone, ledger, Steps.run_concat]
    exact (ih hsplit.1).step hnew

/-! ## What is published -/

/-- The average gives the total back. -/
def Stats.Exact (s : Stats) : Prop := 0 < s.count ∧ s.avgNeurons * s.count = s.totalNeurons

def Exact (file : File) : Prop := ∀ c ∈ file, ∀ e ∈ c.2, e.2.Exact

theorem Stats.Exact.add (t : Cost) (s : Stats) : (s.add t).Exact := by
  have hpos : ((s.count + 1 : ℕ) : ℚ) ≠ 0 := by positivity
  exact ⟨Nat.succ_pos _, div_mul_cancel₀ _ hpos⟩

theorem Exact.update {w : Quota.World} {file : File} (h : Exact file) (faultClass : String) (e : Option String) :
    Exact (updateTokenUsage w file faultClass e) := by
  cases e with
  | none => exact h
  | some e =>
    have hfold : ∀ (totals : List (String × Cost)) (u : List (String × Stats)),
        (∀ x ∈ u, x.2.Exact) → ∀ x ∈ addEpisode totals u, x.2.Exact := by
      intro totals
      induction totals with
      | nil => exact fun u hu => hu
      | cons t totals ih =>
        exact fun u hu => ih _ (forall_bump (P := fun _ (s : Stats) => s.Exact) _ _ _ _ hu (.add _ _) fun s _ => .add _ s)
    rw [updateTokenUsage]
    split
    · exact h
    · exact forall_bump (P := fun _ (u : List (String × Stats)) => ∀ x ∈ u, x.2.Exact) _ _ _ _ h (hfold _ [] (by simp))
        fun u hu => hfold _ u hu

theorem Exact.step {json : Json} {l : Ledger} (h : Exact l.state.file) (ev : Event) : Exact (l.step json ev).state.file := by
  cases ev with
  | call c => exact h
  | update faultClass e => exact h.update faultClass e

/-- Leaving out what cost nothing loses nothing. -/
theorem entry_cohorts {file : File} (h : Exact file) (k : String) :
    (entry 0 (tally Prod.fst (0 : ℕ × Cost) (fun e t => t + (e.2.count, e.2.totalTokens, e.2.avgNeurons * (e.2.count : ℚ)))
      (cohorts file)) k).2 = counted file k := by
  have hall : ∀ e ∈ file.flatMap (·.2), e.2.Exact := by
    intro e he
    obtain ⟨c, hc, he⟩ := List.mem_flatMap.1 he
    exact h c hc e he
  have hcounted : counted file k =
      ((file.flatMap (·.2)).map fun e => if e.1 = k then ((e.2.totalTokens, e.2.totalNeurons) : Cost) else 0).sum := by
    rw [counted, total]
    clear h hall
    induction file with
    | nil => rfl
    | cons c file ih => rw [List.map_cons, List.sum_cons, ih, List.flatMap_cons, List.map_append, List.sum_append]; rfl
  rw [entry_tally, hcounted, cohorts]
  generalize file.flatMap (·.2) = entries at hall
  have hfold : ∀ (l : List (String × Stats)) (t : ℕ × Cost), (∀ e ∈ l, e.2.Exact) →
      (l.foldl (fun s r => s + (r.2.count, r.2.totalTokens, r.2.avgNeurons * (r.2.count : ℚ))) t).2 =
        t.2 + (l.map fun e => ((e.2.totalTokens, e.2.totalNeurons) : Cost)).sum := by
    intro l
    induction l with
    | nil => simp
    | cons e l ih =>
      intro t he
      rw [List.foldl_cons, ih _ fun e' he' => he e' (.tail _ he'), List.map_cons, List.sum_cons, ← add_assoc, Prod.snd_add,
        (he e (.head _)).2]
  rw [hfold _ _ fun e he => hall e (List.mem_of_mem_filter (List.mem_of_mem_filter he)), Prod.snd_zero, zero_add]
  induction entries with
  | nil => rfl
  | cons e entries ih =>
    obtain ⟨he, hrest⟩ := List.forall_mem_cons.1 hall
    specialize ih hrest
    rw [List.map_cons, List.sum_cons, ← ih]
    by_cases hcost : e.2.totalTokens = 0 ∧ e.2.avgNeurons * e.2.count = 0
    · have hzero : ((e.2.totalTokens, e.2.totalNeurons) : Cost) = 0 := by
        rw [Prod.ext_iff]
        exact ⟨hcost.1, he.2 ▸ hcost.2⟩
      rw [List.filter_cons_of_neg (by simp [he.1, hcost.1, hcost.2]), hzero, ite_self, zero_add]
    · rw [List.filter_cons_of_pos (by simpa [he.1, or_iff_not_imp_left] using hcost)]
      by_cases hk : e.1 = k
      · simp [hk]
      · simp [hk]

theorem round_mean (digits : ℕ) {n : ℕ} (hn : 0 < n) (x : ℚ) : |Scorecard.roundTo digits (x / n) * n - x| ≤ n / (2 * 10 ^ digits) := by
  have hpos : (0 : ℚ) < n := by exact_mod_cast hn
  have heq : Scorecard.roundTo digits (x / n) * n - x = (Scorecard.roundTo digits (x / n) - x / n) * n := by
    field_simp
  rw [heq, abs_mul, abs_of_pos hpos, mul_comm]
  calc (n : ℚ) * |Scorecard.roundTo digits (x / n) - x / n| ≤ n * (1 / (2 * 10 ^ digits)) :=
        mul_le_mul_of_nonneg_left (Scorecard.roundTo_error digits _) hpos.le
    _ = n / (2 * 10 ^ digits) := by ring

/-- A published average, times the number of samples, is what the file holds, as near as it is rounded. -/
theorem published_average {file : File} (h : Exact file) (k : String) :
    match (buildModelEfficiency file).lookup k with
    | none => counted file k = 0
    | some e => |e.avgTokens.getD 0 * e.sampleCount - (counted file k).1| ≤ e.sampleCount / 20 ∧
      |e.avgNeurons.getD 0 * e.sampleCount - (counted file k).2| ≤ e.sampleCount / 200 := by
  rw [buildModelEfficiency, lookup_map fun _ => efficiencyOf, ← entry_cohorts h]
  generalize ht : tally Prod.fst (0 : ℕ × Cost) (fun e t => t + (e.2.count, e.2.totalTokens, e.2.avgNeurons * (e.2.count : ℚ)))
    (cohorts file) = totals
  by_cases hk : k ∈ keys totals
  · rw [lookup_of_key 0 hk, Option.map_some]
    have hpos : 0 < (entry 0 totals k).1 := by
      subst ht
      obtain ⟨e, he, hek⟩ := (mem_keys_tally _ _ _ _ _).1 hk
      rw [entry_tally]
      have hmem : e ∈ (cohorts file).filter fun e => e.1 = k := List.mem_filter.2 ⟨he, by simpa using hek⟩
      have hcount : 0 < e.2.count := (of_decide_eq_true (List.mem_filter.1 he).2).1
      have hmono : ∀ (l : List (String × Stats)) (t : ℕ × Cost), t.1 + (l.map (·.2.count)).sum =
          (l.foldl (fun s r => s + (r.2.count, r.2.totalTokens, r.2.avgNeurons * (r.2.count : ℚ))) t).1 := by
        intro l
        induction l with
        | nil => simp
        | cons e l ih => intro t; rw [List.foldl_cons, ← ih, List.map_cons, List.sum_cons, ← add_assoc]; rfl
      rw [← hmono]
      have := List.single_le_sum (fun _ _ => Nat.zero_le _) _ (List.mem_map_of_mem (f := (·.2.count)) hmem)
      exact Nat.lt_of_lt_of_le hcount (this.trans (Nat.le_add_left _ _))
    generalize entry 0 totals k = t at hpos
    obtain ⟨n, tokens, neurons⟩ := t
    have htokens := round_mean 1 hpos tokens
    have hneurons := round_mean 2 hpos neurons
    norm_num at htokens hneurons
    refine ⟨?_, ?_⟩
    · by_cases hz : tokens = 0
      · simp [efficiencyOf, hz]
        positivity
      · simpa [efficiencyOf, hz] using htokens
    · by_cases hz : neurons = 0
      · simp [efficiencyOf, hz]
        positivity
      · simpa [efficiencyOf, hz] using hneurons
  · rw [lookup_of_not_key hk, entry, lookup_of_not_key hk]
    rfl

def answered (tokens : ℕ) (e : String) : Quota.Call where
  entry := ⟨"deepinfra", "nemotron", .openaiCompat⟩
  checkedAt := 0
  recordedAt := 1
  loggedAt := 1
  keyMissing := false
  first := .response 200 "" (some ⟨.text "", .reported (some tokens) none, false⟩)
  second := .timeout
  dbFails := false
  episodeId := some e

/-- Two turns of an episode and a call for it that comes late, in the background. -/
def lateCall : List Event :=
  [.call (answered 700 "ep-1"), .call (answered 900 "ep-1"), .update "oom" (some "ep-1"), .call (answered 50 "ep-1")]

end Wardence.Usage
