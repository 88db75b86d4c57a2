import Mathlib.Algebra.Order.Floor.Semiring
import Mathlib.Data.Rat.Floor
import Wardence.Lib.Ration
/-!
# Comparison sampling

`_openrouter_should_fire` of `p3_agent.py`: which episodes get a comparison call to
OpenRouter, whose free calls are capped by the day.
-/
namespace Wardence.Sampling

/-- A row of `comparison_sampling_log`. -/
structure Sample where
  episodeId : String
  provider : String
  completedAt : Nat
  deriving DecidableEq, Repr

/-- What the decision reads; `episodes` with its `fault_class`. -/
structure Db where
  episodes : List (String × String)
  comparisonSamplingLog : List Sample
  deriving DecidableEq, Repr

def DAY_S : Nat := 86400

/-- `date(...)`. -/
def date (t : Nat) : Nat := t / DAY_S

/-- The classes of the calls of day `d`: the join of the log with `episodes`. -/
def Db.sampled (db : Db) (d : Nat) : List String :=
  (db.comparisonSamplingLog.filter fun r => r.provider = "openrouter" ∧ date r.completedAt = d).filterMap fun r =>
    db.episodes.lookup r.episodeId

/-- `math.ceil(OPENROUTER_DAILY_CAP / len(FAULT_CLASSES))`. -/
def targetPerClass (classes : List String) (cap : Nat) : Nat := ⌈(cap : ℚ) / classes.length⌉₊

/-- The function, with the roster and the cap it is configured with. -/
def openrouterShouldFire (classes : List String) (cap : Nat) (db : Db) (now : Nat) (episodeId : String) : Bool :=
  match db.episodes.lookup episodeId with
  | none => true
  | some actualClass =>
    let sampled := db.sampled (date now)
    let countsToday := fun c => sampled.count c
    let uncovered := classes.filter (countsToday · = 0)
    let usedToday := sampled.length
    let remainingBudget : Int := cap - usedToday
    if remainingBudget ≤ 0 then false
    else if actualClass ∈ uncovered then true
    else if remainingBudget - uncovered.length ≤ 0 then false
    else countsToday actualClass < targetPerClass classes cap

/-- A decision at `now`, and the row of the call if it fires. -/
def Db.decide (db : Db) (classes : List String) (cap now : Nat) (episodeId : String) : Db :=
  if openrouterShouldFire classes cap db now episodeId then
    { db with comparisonSamplingLog := db.comparisonSamplingLog ++ [⟨episodeId, "openrouter", now⟩] }
  else db

/-- The tables on day `d`, which begins with `start`: episodes come, other providers'
calls are logged, and episodes of the roster are decided, each with its row there. -/
inductive Day (classes : List String) (cap d : Nat) (start : Db) : Db → Prop
  | start : Day classes cap d start start
  | episode {db e c} : Day classes cap d start db → db.episodes.lookup e = none →
    Day classes cap d start { db with episodes := (e, c) :: db.episodes }
  | other {db r} : Day classes cap d start db → r.provider ≠ "openrouter" →
    Day classes cap d start { db with comparisonSamplingLog := db.comparisonSamplingLog ++ [r] }
  | decide {db now e c} : Day classes cap d start db → db.episodes.lookup e = some c → c ∈ classes → date now = d →
    Day classes cap d start (db.decide classes cap now e)

/-- No call has been made on day `d`. -/
def Unsampled (d : Nat) (db : Db) : Prop :=
  ∀ r ∈ db.comparisonSamplingLog, r.provider = "openrouter" → date r.completedAt ≠ d

/-- What the rationing promises of day `d`. -/
structure Rationed (classes : List String) (cap d : Nat) (db : Db) : Prop where
  capped : (db.sampled d).length ≤ cap
  reserve : (classes.filter fun c => (db.sampled d).count c = 0).length ≤ cap - (db.sampled d).length
  first : ∀ e c now, db.episodes.lookup e = some c → c ∈ classes → date now = d → (db.sampled d).count c = 0 →
    openrouterShouldFire classes cap db now e = true
  share : ∀ c ∈ classes, (db.sampled d).count c ≤ ⌈(cap : ℚ) / classes.length⌉₊

/-! ## The decision is the rationing of the library -/

section Day
variable {classes : List String} {cap d now : Nat} {start db : Db} {e c : String}

/-- The rationing of a roster's calls. -/
def plan (classes : List String) (cap : Nat) : Ration.Plan String := ⟨classes, cap, targetPerClass classes cap⟩

theorem shouldFire_eq (he : db.episodes.lookup e = some c) (hd : date now = d) :
    openrouterShouldFire classes cap db now e =
      (plan classes cap).serves (fun c => (db.sampled d).count c) (db.sampled d).length c := by
  subst hd
  unfold openrouterShouldFire Ration.Plan.serves
  simp only [he]
  refine if_congr (by simp only [plan]; omega) rfl (if_congr Iff.rfl rfl (if_congr ?_ rfl rfl))
  simp only [plan, Ration.Plan.uncovered]
  omega

/-- A new episode has no call yet. -/
structure Known (d : Nat) (db : Db) : Prop where
  known : ∀ r ∈ db.comparisonSamplingLog, r.provider = "openrouter" → date r.completedAt = d →
    db.episodes.lookup r.episodeId ≠ none

theorem sampled_episode (hk : Known d db) (he : db.episodes.lookup e = none) :
    Db.sampled { db with episodes := (e, c) :: db.episodes } d = db.sampled d := by
  refine List.filterMap_congr fun r hr => ?_
  obtain ⟨hr, hp⟩ := List.mem_filter.1 hr
  simp only [decide_eq_true_eq] at hp
  have hne : (r.episodeId == e) = false := by
    rw [beq_eq_false_iff_ne]
    rintro rfl
    exact hk.known r hr hp.1 hp.2 he
  rw [List.lookup_cons, hne]

theorem sampled_log (r : Sample) :
    Db.sampled { db with comparisonSamplingLog := db.comparisonSamplingLog ++ [r] } d =
      db.sampled d ++ (if r.provider = "openrouter" ∧ date r.completedAt = d then (db.episodes.lookup r.episodeId).toList else []) := by
  unfold Db.sampled
  rw [List.filter_append, List.filterMap_append]
  congr 1
  by_cases h : r.provider = "openrouter" ∧ date r.completedAt = d
  · rw [if_pos h, List.filter_singleton, decide_eq_true h]
    cases hl : db.episodes.lookup r.episodeId <;> simp [hl]
  · rw [if_neg h, List.filter_singleton, decide_eq_false h]
    rfl

theorem decide_episodes (db : Db) (classes : List String) (cap now : Nat) (e : String) :
    (db.decide classes cap now e).episodes = db.episodes := by
  unfold Db.decide
  split <;> rfl

/-- After every step of the day, every call's episode has its row and the calls are rationed. -/
theorem day_fair (hn : classes.Nodup) (hcap : classes.length ≤ cap) (hs : Unsampled d start) (h : Day classes cap d start db) :
    Known d db ∧ (plan classes cap).Fair (fun c => (db.sampled d).count c) (db.sampled d).length := by
  induction h with
  | start =>
    have hnil : start.sampled d = [] := by
      have hf : (start.comparisonSamplingLog.filter fun r => r.provider = "openrouter" ∧ date r.completedAt = d) = [] := by
        refine List.filter_eq_nil_iff.2 fun r hr hp => ?_
        simp only [decide_eq_true_eq] at hp
        exact hs r hr hp.1 hp.2
      rw [Db.sampled, hf]
      rfl
    refine ⟨⟨fun r hr hp hd => absurd hd (hs r hr hp)⟩, ?_⟩
    rw [hnil]
    exact Ration.Plan.fair_start hcap
  | episode hday he ih =>
    refine ⟨⟨fun r hr hp hd => ?_⟩, ?_⟩
    · rw [List.lookup_cons]
      split
      · simp
      · exact ih.1.known r hr hp hd
    · rw [sampled_episode ih.1 he]
      exact ih.2
  | @other db r hday hr ih =>
    refine ⟨⟨fun r' hr' hp hd => ?_⟩, ?_⟩
    · rcases List.mem_append.1 hr' with hr' | hr'
      · exact ih.1.known r' hr' hp hd
      · obtain rfl := List.mem_singleton.1 hr'
        exact absurd hp hr
    · rw [sampled_log, if_neg fun h => hr h.1, List.append_nil]
      exact ih.2
  | @decide db now e c hday he hc hd ih =>
    unfold Db.decide
    split
    · rename_i hfire
      rw [shouldFire_eq he hd] at hfire
      refine ⟨⟨fun r' hr' hp hd' => ?_⟩, ?_⟩
      · rcases List.mem_append.1 hr' with hr' | hr'
        · exact ih.1.known r' hr' hp hd'
        · obtain rfl := List.mem_singleton.1 hr'
          simp [he]
      · have hpos : 0 < targetPerClass classes cap := by
          have hlen := List.length_pos_of_mem hc
          rw [targetPerClass, Nat.ceil_pos]
          have hc' : (0 : ℚ) < cap := by exact_mod_cast Nat.lt_of_lt_of_le hlen hcap
          have hl' : (0 : ℚ) < classes.length := by exact_mod_cast hlen
          exact div_pos hc' hl'
        rw [sampled_log, if_pos ⟨rfl, hd⟩, he, Option.toList_some, List.length_append, List.length_singleton]
        have hserve := ih.2.serve hn hpos hfire
        refine (congrArg (fun n => (plan classes cap).Fair n _) ?_).mp hserve
        funext x
        rw [List.count_append]
        by_cases hx : x = c
        · subst hx
          simp
        · have hne : ¬ c = x := fun h => hx h.symm
          simp [hx, hne]
    · exact ih

/-- At every moment of the day the budget holds, it covers the classes still without a
call, a class without one gets it, and no class gets more than an even share. -/
theorem openrouter_rationed (hn : classes.Nodup) (hcap : classes.length ≤ cap) (hs : Unsampled d start)
    (h : Day classes cap d start db) : Rationed classes cap d db := by
  obtain ⟨-, hf⟩ := day_fair hn hcap hs h
  have hres : (db.sampled d).length + (classes.filter fun c => (db.sampled d).count c = 0).length ≤ cap := hf.reserve
  refine ⟨by omega, by omega, ?_, hf.share⟩
  intro e c now he hc hd hz
  rw [shouldFire_eq he hd]
  exact Ration.Plan.serves_first hf hc hz

end Day

/-- Two classes, three calls a day: the second episode of the first class leaves the other its call. -/
def twoClasses : Db := ⟨[("e1", "oom"), ("e2", "oom"), ("e3", "none")], []⟩

theorem openrouter_rationed_two :
    Rationed ["oom", "none"] 3 0 (((twoClasses.decide ["oom", "none"] 3 0 "e1").decide ["oom", "none"] 3 0 "e2").decide
      ["oom", "none"] 3 0 "e3") :=
  openrouter_rationed (by decide) (by decide) (show Unsampled 0 twoClasses by simp [Unsampled, twoClasses])
    (.decide (c := "none") (.decide (c := "oom") (.decide (c := "oom") .start rfl (by decide) rfl) (by rw [decide_episodes]; rfl)
      (by decide) rfl) (by rw [decide_episodes, decide_episodes]; rfl) (by decide) rfl)

end Wardence.Sampling
