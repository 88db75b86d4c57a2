import Wardence.Lib.Polyline
import Wardence.Replay.Schedule
/-!
# The phase track

`ExecutionPhaseTrack.jsx`: the nodes above an episode's replay, when each of them is reached, and
how far the line goes. Where a node is drawn is measured on the page: any places will do here.
-/
namespace Wardence.Replay

/-! ## The nodes and their times -/

structure Node where
  label : Js.Text
  status : Js.Text
  icon : Option String := none

/-- What an episode says of its action, besides what is replayed. -/
structure TrackedEpisode extends Episode where
  actionApplied : Bool
  correct : Bool

structure Track where
  nodes : List Node
  times : List ℚ

def START_NODE : Node where
  label := Js.of "START"
  status := Js.of "done"
  icon := some "flag"

def doneOr (ok : Bool) : Js.Text := Js.of (if ok then "done" else "failed")

def findUnit (units : List ReplayUnit) (part : String) : Option ReplayUnit := units.find? (·.part = part)

def findUnits (units : List ReplayUnit) (part : String) : List ReplayUnit := units.filter (·.part = part)

section
-- `String.prototype.toUpperCase`: nothing below depends on what it does to a text
variable (toUpperCase : Js.Text → Js.Text)

/-- `replace(/_/g, " ").toUpperCase()` -/
def labelOf (name : Js.Text) : Js.Text := toUpperCase (name.map fun u => if u = 95 then 32 else u)

def stepNode (s : LogStep) : Node where
  label := labelOf toUpperCase s.step
  status := s.status

/-- The nodes of what was done. -/
def stepNodes (episode : TrackedEpisode) (action : Js.Text) : List Node :=
  match episode.progressLog with
  | none | some [] => [{ label := labelOf toUpperCase action, status := doneOr episode.actionApplied }]
  | some log => log.map (stepNode toUpperCase)

def lastStepIsComplete (steps : List Node) : Bool := steps.getLast?.any (·.label = Js.of "COMPLETE")

/-- The times of a track with steps. -/
def stepTimes (steps : List Node) (first : ReplayUnit) (units : List ReplayUnit) (totalDuration : ℚ)
    (durabilityUnit : Option ReplayUnit) : List ℚ :=
  let firstStart := first.start
  let gateLead := min (3 / 10) (firstStart / 4)
  let stepEnds := steps.zipIdx.map fun (_, i) => (units[i]?.getD (units.getLast?.getD first)).stop
  let scheduleEnd := match durabilityUnit with
    | some unit => unit.stop
    | none => stepEnds.getLast?.getD totalDuration
  if lastStepIsComplete steps then 0 :: max 0 (firstStart - gateLead) :: stepEnds.set (stepEnds.length - 1) scheduleEnd
  else 0 :: max 0 (firstStart - gateLead) :: (stepEnds ++ [scheduleEnd])

def buildTrack (episode : TrackedEpisode) (actionStepUnits : Option (List ReplayUnit)) (totalDuration : Option ℚ)
    (durabilityUnit : Option ReplayUnit) : Track :=
  match episode.scoresActionTaken with
  | none | some [] =>
    { nodes := [START_NODE, { label := Js.of "VERDICT", status := doneOr episode.correct }]
      times := match totalDuration with
        | some total => if total > 0 then [0, total] else [0, 1]
        | none => [0, 1] }
  | some action =>
    let steps := stepNodes toUpperCase episode action
    let nodes := [START_NODE, { label := Js.of "SEMANTIC_VAL", status := Js.of "done" }] ++ steps ++
      if lastStepIsComplete steps then [] else [{ label := Js.of "COMPLETE", status := doneOr episode.actionApplied }]
    let spread := (List.range nodes.length).map fun i => if nodes.length > 1 then (i : ℚ) / (nodes.length - 1) else 0
    { nodes
      times := match actionStepUnits, totalDuration with
        | some (first :: rest), some total => if total > 0 then stepTimes steps first (first :: rest) total durabilityUnit else spread
        | _, _ => spread }

end

/-! ## What is drawn -/

/-- How many times the loop over the segments goes on. -/
def segment : List ℚ → ℚ → ℕ
  | _ :: u :: ts, elapsed => if elapsed ≥ u then segment (u :: ts) elapsed + 1 else 0
  | _, _ => 0

def reachedAt (times : List ℚ) (elapsed : ℚ) : List Bool := times.map (elapsed ≥ ·)

/-- The end of the line at `elapsed`, between the measured places of two nodes. -/
def lineAt (times fracs : List ℚ) (elapsed : ℚ) : ℚ :=
  let i := segment times elapsed
  let segStart := times.getD i 0
  let segEnd := times.getD (i + 1) segStart
  let fracStart := fracs.getD i 0
  let fracEnd := fracs.getD (i + 1) fracStart
  let segProgress := if segEnd > segStart then min 1 (max 0 ((elapsed - segStart) / (segEnd - segStart))) else 1
  fracStart + (fracEnd - fracStart) * segProgress

structure Drawn where
  reachedFlags : List Bool
  currentFrac : ℚ
  lineLeftPct : ℚ
  lineWidthPct : ℚ

def executionPhaseTrack (track : Track) (fracs : Option (List ℚ)) (elapsed totalDuration : Option ℚ) : Drawn :=
  let startFrac := (fracs.bind (·.head?)).getD 0
  let snapshot := (track.nodes.map fun _ => true, (fracs.map (·.getLastD 0)).getD 1)
  let (reachedFlags, currentFrac) := match elapsed, totalDuration with
    | some elapsed, some total =>
      if total ≤ 0 then snapshot
      else (reachedAt track.times elapsed, (fracs.map (lineAt track.times · elapsed)).getD startFrac)
    | _, _ => snapshot
  let lineLeftPct := startFrac * 100
  let lineWidthPct := max 0 ((currentFrac - startFrac) * 100)
  { reachedFlags, currentFrac, lineLeftPct, lineWidthPct := min (100 - lineLeftPct) lineWidthPct }

/-! ## A track that agrees with the schedule -/

/-- What the replay draws at `elapsed`. -/
def replayed (schedule : Schedule) (track : Track) (fracs : List ℚ) (elapsed : ℚ) : Drawn :=
  executionPhaseTrack track (some fracs) (some elapsed) (some schedule.totalDuration)

/-- Where the line ends on the page, in percents of the row. -/
def Drawn.tip (d : Drawn) : ℚ := d.lineLeftPct + d.lineWidthPct

/-- The line goes from the first place towards the last. -/
structure Drawn.On (d : Drawn) (first last : ℚ) : Prop where
  from_first : first ≤ d.currentFrac
  to_last : d.currentFrac ≤ last
  left : d.lineLeftPct = first * 100
  tip : last ≤ 1 → d.tip = d.currentFrac * 100

/-- The track and the schedule tell of the same steps, at the same times; only the last node waits for the end. -/
structure Agrees (toUpperCase : Js.Text → Js.Text) (episode : Episode) (schedule : Schedule) (track : Track) : Prop where
  aligned : track.times.length = track.nodes.length
  starts : track.times.head? = some 0
  sorted : track.times.Pairwise (· ≤ ·)
  ends : track.times.getLast? = some schedule.totalDuration
  step : ∀ k s, (steps episode)[k]? = some s → ∃ unit, (findUnits schedule.units "action-step")[k]? = some unit ∧
    unit.text = some s.line ∧ track.nodes[k + 2]? = some (stepNode toUpperCase s) ∧ (k + 3 < track.nodes.length → ∀ fracs elapsed,
      (replayed schedule track fracs elapsed).reachedFlags[k + 2]? = some true ↔ textProgress (some unit) elapsed = 1)
  typed : ∀ unit ∈ findUnits schedule.units "action-step", ∀ elapsed, textProgress (some unit) elapsed = 1 →
    typedText (some unit) elapsed = unit.text.getD []
  reached : ∀ fracs elapsed, ∃ m,
    (replayed schedule track fracs elapsed).reachedFlags = List.replicate m true ++ List.replicate (track.nodes.length - m) false
  line : ∀ first fracs, (first :: fracs).length = track.nodes.length → (first :: fracs).Pairwise (· ≤ ·) →
    Monotone (fun elapsed => (replayed schedule track (first :: fracs) elapsed).currentFrac) ∧
    Monotone (fun elapsed => (replayed schedule track (first :: fracs) elapsed).tip) ∧
    ∀ elapsed, (replayed schedule track (first :: fracs) elapsed).On first ((first :: fracs).getLast (List.cons_ne_nil _ _))

/-! ### The units of the action -/

theorem push_append (ds es : List Draft) (t : ℚ) : push t (ds ++ es) = push t ds ++ push (t + (ds.map (·.duration)).sum) es := by
  induction ds generalizing t with
  | nil => simp [push]
  | cons d ds ih => simp [push, ih, add_assoc]

theorem push_length (ds : List Draft) (t : ℚ) : (push t ds).length = ds.length := by
  conv => rhs; rw [← push_toDraft ds t, List.length_map]

theorem mem_push {ds : List Draft} {t : ℚ} {u : ReplayUnit} (h : u ∈ push t ds) : u.toDraft ∈ ds := by
  rw [← push_toDraft ds t]
  exact List.mem_map_of_mem h

theorem findUnits_other {ds : List Draft} {part : String} (h : ∀ d ∈ ds, d.part ≠ part) (t : ℚ) : findUnits (push t ds) part = [] := by
  simp only [findUnits, List.filter_eq_nil_iff, decide_eq_true_eq]
  exact fun u hu => h u.toDraft (mem_push hu)

theorem findUnits_own {ds : List Draft} {part : String} (h : ∀ d ∈ ds, d.part = part) (t : ℚ) :
    findUnits (push t ds) part = push t ds := by
  simp only [findUnits, List.filter_eq_self, decide_eq_true_eq]
  exact fun u hu => h u.toDraft (mem_push hu)

theorem findUnits_append (us vs : List ReplayUnit) (part : String) : findUnits (us ++ vs) part = findUnits us part ++ findUnits vs part :=
  List.filter_append ..

theorem findUnit_eq (units : List ReplayUnit) (part : String) : findUnit units part = (findUnits units part).head? :=
  List.head?_filter.symm

/-- The units end one after the other. -/
theorem push_ends (ds : List Draft) (t : ℚ) (h : ∀ d ∈ ds, d.Ok) : ((push t ds).map (·.stop)).Pairwise (· ≤ ·) ∧
    ∀ stop ∈ (push t ds).map (·.stop), t < stop ∧ stop ≤ t + (ds.map (·.duration)).sum := by
  induction ds generalizing t with
  | nil => simp [push]
  | cons d ds ih =>
    have hd := (h d (.head _)).lasts
    obtain ⟨hsorted, hin⟩ := ih (t + d.duration) fun x hx => h x (.tail _ hx)
    have hrest : 0 ≤ (ds.map (·.duration)).sum := by
      apply List.sum_nonneg
      intro q hq
      obtain ⟨x, hx, rfl⟩ := List.mem_map.mp hq
      exact (h x (.tail _ hx)).lasts.le
    simp only [push, List.map_cons, List.pairwise_cons, List.mem_cons, List.sum_cons]
    refine ⟨⟨fun stop hs => (hin stop hs).1.le, hsorted⟩, ?_⟩
    rintro stop (rfl | hs)
    · constructor
      · linarith
      · linarith
    · obtain ⟨hlow, hhigh⟩ := hin stop hs
      constructor
      · linarith
      · linarith

section
variable (episode : Episode) (trustEntry : Option TrustEntry)

/-- What is pushed before the action. -/
def leading : List Draft :=
  [{ id := "header", kind := .instant, duration := HEADER_S, part := "header" }, fading "context" FADE_ONLY_S] ++
    reasoningDrafts episode ++ evidenceDrafts episode

/-- What is pushed between the action and the end. -/
def trailing : List Draft := gateDrafts episode ++ trustDrafts episode trustEntry

theorem drafts_split :
    drafts episode trustEntry = leading episode ++ (actionDrafts episode ++ (trailing episode trustEntry ++ [fading "durability" FADE_ONLY_S])) := by
  simp [drafts, leading, trailing]

/-- Neither of the action nor of the end. -/
def Aside (d : Draft) : Prop := d.part ≠ "action-step" ∧ d.part ≠ "durability"

theorem typing_aside (id : String) {part : String} (text : Option Js.Text) (label : Option String) (data : Option UnitData)
    (h : part ≠ "action-step" ∧ part ≠ "durability") : Aside (typing id part text label data) := h

theorem leading_parts : ∀ d ∈ leading episode, Aside d := by
  intro d hd
  simp only [leading, List.mem_append, List.mem_cons, List.not_mem_nil, or_false] at hd
  rcases hd with ((rfl | rfl) | hd) | hd
  · exact ⟨by decide, by decide⟩
  · exact ⟨by decide, by decide⟩
  · unfold reasoningDrafts at hd
    split at hd
    · simp only [List.mem_append, List.mem_map] at hd
      rcases hd with ⟨x, _, rfl⟩ | ⟨x, _, rfl⟩
      · exact typing_aside _ _ _ _ (by decide)
      · exact typing_aside _ _ _ _ (by decide)
    · obtain ⟨x, _, rfl⟩ := List.mem_map.mp hd
      exact typing_aside _ _ _ _ (by decide)
  · unfold evidenceDrafts at hd
    split at hd
    · cases hd
    · simp only [List.mem_append, List.mem_ite_nil_right, List.mem_singleton] at hd
      rcases hd with ⟨_, rfl⟩ | ⟨_, rfl⟩
      · exact ⟨by decide, by decide⟩
      · exact ⟨by decide, by decide⟩

theorem action_parts : ∀ d ∈ actionDrafts episode, d.part = "action-step" := by
  intro d hd
  unfold actionDrafts at hd
  split at hd
  · cases hd
  · cases hd
  · split at hd
    · cases List.mem_singleton.mp hd
      rfl
    · obtain ⟨x, _, rfl⟩ := List.mem_map.mp hd
      rfl

theorem trailing_parts : ∀ d ∈ trailing episode trustEntry, Aside d := by
  intro d hd
  rcases List.mem_append.mp hd with hd | hd
  · obtain ⟨x, _, rfl⟩ := List.mem_map.mp hd
    exact typing_aside _ _ _ _ (by decide)
  · obtain ⟨x, _, rfl⟩ := List.mem_map.mp hd
    exact typing_aside _ _ _ _ (by decide)

/-- When the action begins. -/
def actionStart : ℚ := ((leading episode).map (·.duration)).sum

theorem actionStepUnits_eq :
    findUnits (buildReplaySchedule episode trustEntry).units "action-step" = push (actionStart episode) (actionDrafts episode) := by
  simp only [buildReplaySchedule, drafts_split, push_append, findUnits_append]
  rw [findUnits_other fun d hd => (leading_parts episode d hd).1, findUnits_own (action_parts episode),
    findUnits_other fun d hd => (trailing_parts episode trustEntry d hd).1, findUnits_other (by decide)]
  simp [actionStart]

/-- The last unit is the one that ends the replay. -/
theorem durabilityUnit_ends : ∃ unit, findUnit (buildReplaySchedule episode trustEntry).units "durability" = some unit ∧
    unit.stop = (buildReplaySchedule episode trustEntry).totalDuration := by
  simp only [findUnit_eq, buildReplaySchedule, drafts_split, push_append, findUnits_append]
  have haction : ∀ d ∈ actionDrafts episode, d.part ≠ "durability" := by
    intro d hd
    rw [action_parts episode d hd]
    decide
  rw [findUnits_other fun d hd => (leading_parts episode d hd).2, findUnits_other haction,
    findUnits_other fun d hd => (trailing_parts episode trustEntry d hd).2, findUnits_own (by decide)]
  refine ⟨_, rfl, ?_⟩
  simp [fading]
  ring

theorem actionStart_nonneg : 0 ≤ actionStart episode := by
  apply List.sum_nonneg
  intro q hq
  obtain ⟨d, hd, rfl⟩ := List.mem_map.mp hq
  refine (drafts_ok episode none d ?_).lasts.le
  rw [drafts_split]
  exact List.mem_append_left _ hd

theorem unit_stop {u : ReplayUnit} (h : u ∈ (buildReplaySchedule episode trustEntry).units) :
    0 < u.stop ∧ u.stop ≤ (buildReplaySchedule episode trustEntry).totalDuration := by
  have hin := (push_ends _ 0 (drafts_ok episode trustEntry)).2 u.stop (List.mem_map_of_mem h)
  simpa [buildReplaySchedule] using hin

theorem totalDuration_pos : 0 < (buildReplaySchedule episode trustEntry).totalDuration := by
  obtain ⟨unit, hfound, hstop⟩ := durabilityUnit_ends episode trustEntry
  rw [← hstop]
  exact (unit_stop episode trustEntry (List.mem_of_find?_eq_some hfound)).1

/-- Each step that was logged has its unit, and the unit types the step's line. -/
theorem step_unit {k : ℕ} {s : LogStep} (h : (steps episode)[k]? = some s) :
    ∃ unit, (push (actionStart episode) (actionDrafts episode))[k]? = some unit ∧ unit.text = some s.line ∧
      unit.start + unit.textStart < unit.stop := by
  have hdrafts : (actionDrafts episode)[k]? =
      some (typing ("action-step-" ++ toString k) "action-step" (some s.line) none (some (.revealCount (k + 1)))) := by
    unfold actionDrafts
    split
    · simp_all [steps]
    · simp_all [steps]
    · split
      · simp_all
      · simp [List.getElem?_zipIdx, h]
  rw [← push_toDraft (actionDrafts episode) (actionStart episode), List.getElem?_map, Option.map_eq_some_iff] at hdrafts
  obtain ⟨unit, hunit, hdraft⟩ := hdrafts
  refine ⟨unit, hunit, by rw [hdraft]; rfl, ?_⟩
  have hlong : FADE_RAMP_S < fadeTypewriterDuration (some s.line) :=
    lt_of_lt_of_le (by norm_num [FADE_ONLY_S, FADE_RAMP_S, GAP_S]) (fadeTypewriterDuration_least (some s.line))
  rw [push_stop _ _ unit (List.mem_of_getElem? hunit), hdraft]
  simpa [typing] using hlong

end

/-- A text is typed to its end exactly from the end of its unit on. -/
theorem textProgress_done {u : ReplayUnit} {x : Js.Text} (hx : u.text = some x) (hne : x ≠ []) (h : u.start + u.textStart < u.stop)
    (elapsed : ℚ) : textProgress (some u) elapsed = 1 ↔ u.stop ≤ elapsed := by
  rw [textProgress_eq, if_neg (by simpa [hx] using hne)]
  constructor
  · intro hone
    by_contra hlate
    have hlate : elapsed < u.stop := lt_of_not_ge hlate
    unfold ramp at hone
    split_ifs at hone
    · cases hone
    · rw [div_eq_one_iff_eq (by linarith)] at hone
      linarith
    · linarith
  · exact ramp_top h

theorem typed_done {u : ReplayUnit} {elapsed : ℚ} (h : textProgress (some u) elapsed = 1) : typedText (some u) elapsed = u.text.getD [] := by
  rw [typed_all, h]
  linarith

theorem LogStep.line_ne (s : LogStep) : s.line ≠ [] := by
  intro h
  simp only [LogStep.line, List.append_eq_nil_iff] at h
  exact absurd h.1.1.2 (by decide)

/-! ### The times of the nodes -/

theorem set_last {α : Type} {l : List α} (h : l ≠ []) (x : α) : l.set (l.length - 1) x = l.dropLast ++ [x] := by
  obtain ⟨init, last, rfl⟩ := (List.eq_nil_or_concat' l).resolve_left h
  simp

/-- When the lines end whose nodes are not moved. -/
def lineEnds (steps : List Node) (units : List ReplayUnit) : List ℚ :=
  if lastStepIsComplete steps then (units.map (·.stop)).dropLast else units.map (·.stop)

theorem lineEnds_prefix (steps : List Node) (units : List ReplayUnit) : lineEnds steps units <+: units.map (·.stop) := by
  unfold lineEnds
  split
  · exact List.dropLast_prefix _
  · exact List.prefix_refl _

theorem stepTimes_eq {steps : List Node} {first : ReplayUnit} {rest : List ReplayUnit} (hlen : steps.length = (first :: rest).length)
    (total : ℚ) (unit : ReplayUnit) : stepTimes steps first (first :: rest) total (some unit) =
      0 :: max 0 (first.start - min (3 / 10) (first.start / 4)) :: (lineEnds steps (first :: rest) ++ [unit.stop]) := by
  have hends : (steps.zipIdx.map fun (_, i) => ((first :: rest)[i]?.getD ((first :: rest).getLast?.getD first)).stop) =
      (first :: rest).map (·.stop) := by
    apply List.ext_getElem
    · simpa using hlen
    · intro i hi hi'
      have hin : i < (first :: rest).length := by simpa using hi'
      simp only [List.getElem_map, List.getElem_zipIdx, Nat.zero_add, List.getElem?_eq_getElem hin, Option.getD_some]
  unfold stepTimes lineEnds
  simp only [hends]
  split
  · rw [set_last (by simp)]
  · rfl

theorem actionDrafts_length (toUpperCase : Js.Text → Js.Text) (episode : TrackedEpisode) {u : UInt16} {us : Js.Text}
    (h : episode.scoresActionTaken = some (u :: us)) :
    (stepNodes toUpperCase episode (u :: us)).length = (actionDrafts episode.toEpisode).length := by
  have hlogged : steps episode.toEpisode = episode.progressLog.getD [] := by simp [steps, h]
  unfold actionDrafts stepNodes
  rw [h, hlogged]
  rcases episode.progressLog with _ | _ | ⟨s, log⟩
  · rfl
  · rfl
  · simp

/-! ### What is reached, and the line -/

/-- Of times that never go down, those that are over come first. -/
theorem reachedAt_prefix {times : List ℚ} (h : times.Pairwise (· ≤ ·)) (elapsed : ℚ) :
    ∃ m, reachedAt times elapsed = List.replicate m true ++ List.replicate (times.length - m) false := by
  induction times with
  | nil => exact ⟨0, rfl⟩
  | cons t times ih =>
    obtain ⟨hfirst, hrest⟩ := List.pairwise_cons.mp h
    by_cases ht : elapsed ≥ t
    · obtain ⟨m, hm⟩ := ih hrest
      refine ⟨m + 1, ?_⟩
      unfold reachedAt at hm ⊢
      simp [ht, hm, List.replicate_succ]
    · refine ⟨0, ?_⟩
      have hlater : ∀ u ∈ times, ¬ u ≤ elapsed := fun u hu hle => ht ((hfirst u hu).trans hle)
      simpa [reachedAt, ht, List.replicate_succ, List.eq_replicate_iff] using fun u hu => lt_of_not_ge (hlater u hu)

/-- The loop finds the segment where the point is. -/
theorem lineAt_eq (elapsed : ℚ) : ∀ {times fracs : List ℚ}, times.length = fracs.length →
    lineAt times fracs elapsed = Polyline.along times fracs elapsed
  | [], [], _ => by simp [lineAt, segment, Polyline.along]
  | [t], [f], _ => by simp [lineAt, segment, Polyline.along]
  | t :: u :: ts, f :: g :: fs, hlen => by
    have ih := lineAt_eq elapsed (Nat.succ.inj hlen)
    unfold Polyline.along
    split
    · rename_i hu
      rw [← ih]
      simp [lineAt, segment, hu]
    · rename_i hu
      simp [lineAt, segment, hu, Polyline.share]

section
variable {schedule : Schedule} {track : Track}

theorem replayed_left (first : ℚ) (fracs : List ℚ) (elapsed : ℚ) :
    (replayed schedule track (first :: fracs) elapsed).lineLeftPct = first * 100 := by
  simp [replayed, executionPhaseTrack]

variable (hpos : 0 < schedule.totalDuration)
include hpos

theorem replayed_reached (fracs : List ℚ) (elapsed : ℚ) :
    (replayed schedule track fracs elapsed).reachedFlags = reachedAt track.times elapsed := by
  simp [replayed, executionPhaseTrack, hpos.not_ge]

theorem replayed_frac (fracs : List ℚ) (elapsed : ℚ) :
    (replayed schedule track fracs elapsed).currentFrac = lineAt track.times fracs elapsed := by
  simp [replayed, executionPhaseTrack, hpos.not_ge]

theorem replayed_tip (first : ℚ) (fracs : List ℚ) (elapsed : ℚ) : (replayed schedule track (first :: fracs) elapsed).tip =
    first * 100 + min (100 - first * 100) (max 0 ((lineAt track.times (first :: fracs) elapsed - first) * 100)) := by
  simp [Drawn.tip, replayed, executionPhaseTrack, hpos.not_ge]

/-- The line is drawn along the places of the nodes. -/
theorem replayed_line (hlen : track.times.length = track.nodes.length) {first : ℚ} {fracs : List ℚ}
    (hcount : (first :: fracs).length = track.nodes.length) (hsorted : (first :: fracs).Pairwise (· ≤ ·)) :
    Monotone (fun elapsed => (replayed schedule track (first :: fracs) elapsed).currentFrac) ∧
    Monotone (fun elapsed => (replayed schedule track (first :: fracs) elapsed).tip) ∧
    ∀ elapsed, (replayed schedule track (first :: fracs) elapsed).On first ((first :: fracs).getLast (List.cons_ne_nil _ _)) := by
  have hline : lineAt track.times (first :: fracs) = Polyline.along track.times (first :: fracs) :=
    funext fun elapsed => lineAt_eq elapsed (hlen.trans hcount.symm)
  have hmono := Polyline.along_mono track.times (first :: fracs) hsorted
  simp only [replayed_frac hpos, replayed_tip hpos, hline]
  refine ⟨hmono, ?_, ?_⟩
  · intro x y hxy
    have hstep : (Polyline.along track.times (first :: fracs) x - first) * 100 ≤ (Polyline.along track.times (first :: fracs) y - first) * 100 := by
      linarith [hmono hxy]
    exact add_le_add_right (min_le_min_left _ (max_le_max_left _ hstep)) _
  · intro elapsed
    obtain ⟨hlow, hhigh⟩ := Polyline.along_bounds track.times first fracs elapsed hsorted
    constructor
    case from_first => simpa only [replayed_frac hpos, hline] using hlow
    case to_last => simpa only [replayed_frac hpos, hline] using hhigh
    case left => exact replayed_left first fracs elapsed
    case tip =>
      intro hrow
      rw [replayed_tip hpos, replayed_frac hpos, hline, max_eq_right (by linarith), min_eq_right (by linarith)]
      ring

end

/-! ### The track of a replay -/

section
variable (toUpperCase : Js.Text → Js.Text) (episode : TrackedEpisode) (trustEntry : Option TrustEntry)

/-- The track the replay builds from its own units. -/
def replayTrack : Track :=
  let schedule := buildReplaySchedule episode.toEpisode trustEntry
  buildTrack toUpperCase episode (some (findUnits schedule.units "action-step")) (some schedule.totalDuration)
    (findUnit schedule.units "durability")

/-- The units of the action. -/
def actionUnits (episode : Episode) : List ReplayUnit := push (actionStart episode) (actionDrafts episode)

theorem actionUnits_in {u : ReplayUnit} (h : u ∈ actionUnits episode.toEpisode) :
    actionStart episode.toEpisode < u.stop ∧ u.stop ≤ (buildReplaySchedule episode.toEpisode trustEntry).totalDuration := by
  constructor
  · refine ((push_ends _ _ fun d hd => ?_).2 u.stop (List.mem_map_of_mem h)).1
    exact actionDrafts_ok episode.toEpisode d hd
  · refine (unit_stop episode.toEpisode trustEntry ?_).2
    rw [actionUnits, ← actionStepUnits_eq episode.toEpisode trustEntry] at h
    exact List.mem_of_mem_filter h

variable {episode} {action : UInt16} {name : Js.Text} (h : episode.scoresActionTaken = some (action :: name))
include h

theorem stepNodes_length : (stepNodes toUpperCase episode (action :: name)).length = (actionUnits episode.toEpisode).length := by
  rw [actionUnits, push_length, actionDrafts_length toUpperCase episode h]

theorem replayTrack_nodes : (replayTrack toUpperCase episode trustEntry).nodes =
    [START_NODE, { label := Js.of "SEMANTIC_VAL", status := Js.of "done" }] ++ stepNodes toUpperCase episode (action :: name) ++
      if lastStepIsComplete (stepNodes toUpperCase episode (action :: name)) then []
      else [{ label := Js.of "COMPLETE", status := doneOr episode.actionApplied }] := by
  simp [replayTrack, buildTrack, h]

/-- The start, the gate, the lines, and the end. -/
theorem replayTrack_times : ∃ gate, 0 ≤ gate ∧ gate ≤ actionStart episode.toEpisode ∧
    (replayTrack toUpperCase episode trustEntry).times =
      0 :: gate :: (lineEnds (stepNodes toUpperCase episode (action :: name)) (actionUnits episode.toEpisode) ++
        [(buildReplaySchedule episode.toEpisode trustEntry).totalDuration]) := by
  have hstart := actionStart_nonneg episode.toEpisode
  have hlen := stepNodes_length toUpperCase h
  have hfirst : ∃ first rest, actionUnits episode.toEpisode = first :: rest ∧ first.start = actionStart episode.toEpisode := by
    unfold actionUnits actionDrafts
    rw [h]
    dsimp only
    split
    · exact ⟨_, _, rfl, rfl⟩
    · rename_i hne
      obtain ⟨s, log, hs⟩ := List.exists_cons_of_ne_nil hne
      rw [hs]
      exact ⟨_, _, rfl, rfl⟩
  obtain ⟨first, rest, hunits, hat⟩ := hfirst
  obtain ⟨unit, hfound, hstop⟩ := durabilityUnit_ends episode.toEpisode trustEntry
  refine ⟨max 0 (first.start - min (3 / 10) (first.start / 4)), le_max_left _ _, ?_, ?_⟩
  · have hlead : 0 ≤ min (3 / 10) (first.start / 4) := le_min (by norm_num) (by linarith)
    exact max_le hstart (by linarith)
  · have hpos := totalDuration_pos episode.toEpisode trustEntry
    rw [hunits] at hlen ⊢
    simp only [replayTrack, buildTrack, h, actionStepUnits_eq, hfound]
    rw [← actionUnits, hunits]
    simp only [hpos, if_true, gt_iff_lt]
    rw [stepTimes_eq hlen, hstop]

theorem lineEnds_length : (replayTrack toUpperCase episode trustEntry).nodes.length =
    (lineEnds (stepNodes toUpperCase episode (action :: name)) (actionUnits episode.toEpisode)).length + 3 := by
  have hlen := stepNodes_length toUpperCase h
  have hsome : (stepNodes toUpperCase episode (action :: name)).length ≠ 0 := by
    unfold stepNodes
    split <;> simp_all
  rw [replayTrack_nodes toUpperCase trustEntry h]
  unfold lineEnds
  split
  · simp only [List.length_append, List.length_cons, List.length_nil, List.length_dropLast, List.length_map]
    omega
  · simp only [List.length_append, List.length_cons, List.length_nil, List.length_map]
    omega

theorem replayTrack_sorted : (replayTrack toUpperCase episode trustEntry).times.Pairwise (· ≤ ·) := by
  obtain ⟨gate, hgate, hstart, htimes⟩ := replayTrack_times toUpperCase trustEntry h
  have hopens := lineEnds_prefix (stepNodes toUpperCase episode (action :: name)) (actionUnits episode.toEpisode)
  have hin : ∀ stop ∈ lineEnds (stepNodes toUpperCase episode (action :: name)) (actionUnits episode.toEpisode),
      actionStart episode.toEpisode < stop ∧ stop ≤ (buildReplaySchedule episode.toEpisode trustEntry).totalDuration := by
    intro stop hs
    obtain ⟨u, hu, rfl⟩ := List.mem_map.mp (hopens.subset hs)
    exact actionUnits_in episode trustEntry hu
  have hends := (push_ends _ (actionStart episode.toEpisode) (actionDrafts_ok episode.toEpisode)).1
  have htotal : actionStart episode.toEpisode ≤ (buildReplaySchedule episode.toEpisode trustEntry).totalDuration := by
    obtain ⟨u, hu⟩ : ∃ u, u ∈ actionUnits episode.toEpisode := by
      apply List.exists_mem_of_length_pos
      rw [← stepNodes_length toUpperCase h]
      unfold stepNodes
      split <;> simp_all [List.length_pos_iff]
    exact (actionUnits_in episode trustEntry hu).1.le.trans (actionUnits_in episode trustEntry hu).2
  have hlater : ∀ time ∈ lineEnds (stepNodes toUpperCase episode (action :: name)) (actionUnits episode.toEpisode) ++
      [(buildReplaySchedule episode.toEpisode trustEntry).totalDuration], actionStart episode.toEpisode ≤ time := by
    simp only [List.mem_append, List.mem_singleton]
    rintro time (hs | rfl)
    · exact (hin time hs).1.le
    · exact htotal
  rw [htimes, List.pairwise_cons, List.pairwise_cons, List.pairwise_append]
  refine ⟨?_, fun time ht => hstart.trans (hlater time ht), hends.sublist hopens.sublist, List.pairwise_singleton _ _, ?_⟩
  · simp only [List.mem_cons]
    rintro time (rfl | ht)
    · exact hgate
    · exact (hgate.trans hstart).trans (hlater time ht)
  · simp only [List.mem_singleton]
    rintro stop hs time rfl
    exact (hin stop hs).2

/-- A node of a logged step that is not the last one is reached when its line is typed. -/
theorem replayTrack_step {k : ℕ} {s : LogStep} (hs : (steps episode.toEpisode)[k]? = some s) :
    ∃ unit, (actionUnits episode.toEpisode)[k]? = some unit ∧ unit.text = some s.line ∧
      (replayTrack toUpperCase episode trustEntry).nodes[k + 2]? = some (stepNode toUpperCase s) ∧
      (k + 3 < (replayTrack toUpperCase episode trustEntry).nodes.length → ∀ elapsed,
        (reachedAt (replayTrack toUpperCase episode trustEntry).times elapsed)[k + 2]? = some true ↔ textProgress (some unit) elapsed = 1) := by
  obtain ⟨unit, hunit, htext, hroom⟩ := step_unit episode.toEpisode hs
  have hlog : stepNodes toUpperCase episode (action :: name) = (steps episode.toEpisode).map (stepNode toUpperCase) := by
    unfold stepNodes
    simp only [steps, h] at hs ⊢
    rcases hp : episode.progressLog with _ | _ | ⟨first, log⟩
    · simp [hp] at hs
    · simp [hp] at hs
    · rfl
  refine ⟨unit, hunit, htext, ?_, ?_⟩
  · have hnode : (stepNodes toUpperCase episode (action :: name))[k]? = some (stepNode toUpperCase s) := by
      rw [hlog, List.getElem?_map, hs]
      rfl
    rw [replayTrack_nodes toUpperCase trustEntry h, List.append_assoc, List.getElem?_append_right (by simp)]
    rw [show k + 2 - ([START_NODE, { label := Js.of "SEMANTIC_VAL", status := Js.of "done" }] : List Node).length = k by simp]
    exact List.getElem?_append_left (List.getElem?_eq_some_iff.mp hnode).1 ▸ hnode
  · intro hlast elapsed
    obtain ⟨gate, _, _, htimes⟩ := replayTrack_times toUpperCase trustEntry h
    rw [lineEnds_length toUpperCase trustEntry h] at hlast
    have hk : k < (lineEnds (stepNodes toUpperCase episode (action :: name)) (actionUnits episode.toEpisode)).length := by omega
    have hend : (lineEnds (stepNodes toUpperCase episode (action :: name)) (actionUnits episode.toEpisode))[k]? = some unit.stop := by
      obtain ⟨rest, hrest⟩ := lineEnds_prefix (stepNodes toUpperCase episode (action :: name)) (actionUnits episode.toEpisode)
      have hat : ((actionUnits episode.toEpisode).map (·.stop))[k]? = some unit.stop := by
        rw [List.getElem?_map, show (actionUnits episode.toEpisode)[k]? = some unit from hunit]
        rfl
      rw [← hrest, List.getElem?_append_left hk] at hat
      exact hat
    rw [textProgress_done htext s.line_ne hroom, htimes, reachedAt, List.getElem?_map, List.getElem?_cons_succ,
      List.getElem?_cons_succ, List.getElem?_append_left hk, hend]
    simp

omit h

theorem steps_idle (hidle : ¬ ∃ action name, episode.scoresActionTaken = some (action :: name)) : steps episode.toEpisode = [] := by
  unfold steps
  split
  · rfl
  · rfl
  · rename_i action hne hsome
    obtain ⟨u, us, rfl⟩ := List.exists_cons_of_ne_nil hne
    exact absurd ⟨u, us, hsome⟩ hidle

theorem replayTrack_idle (hidle : ¬ ∃ action name, episode.scoresActionTaken = some (action :: name)) :
    replayTrack toUpperCase episode trustEntry =
      { nodes := [START_NODE, { label := Js.of "VERDICT", status := doneOr episode.correct }]
        times := [0, (buildReplaySchedule episode.toEpisode trustEntry).totalDuration] } := by
  unfold replayTrack buildTrack
  split
  · simp [totalDuration_pos]
  · simp [totalDuration_pos]
  · rename_i action hne hsome
    obtain ⟨u, us, rfl⟩ := List.exists_cons_of_ne_nil hne
    exact absurd ⟨u, us, hsome⟩ hidle

end

/-- The track of every episode agrees with its replay. -/
theorem track_agrees (toUpperCase : Js.Text → Js.Text) (episode : TrackedEpisode) (trustEntry : Option TrustEntry) :
    Agrees toUpperCase episode.toEpisode (buildReplaySchedule episode.toEpisode trustEntry)
      (replayTrack toUpperCase episode trustEntry) := by
  have hpos := totalDuration_pos episode.toEpisode trustEntry
  by_cases hacted : ∃ action name, episode.scoresActionTaken = some (action :: name)
  · obtain ⟨action, name, h⟩ := hacted
    obtain ⟨gate, _, _, htimes⟩ := replayTrack_times toUpperCase trustEntry h
    have hsorted := replayTrack_sorted toUpperCase trustEntry h
    have haligned : (replayTrack toUpperCase episode trustEntry).times.length =
        (replayTrack toUpperCase episode trustEntry).nodes.length := by
      rw [lineEnds_length toUpperCase trustEntry h, htimes]
      simp
    constructor
    case aligned => exact haligned
    case starts => rw [htimes]; rfl
    case sorted => exact hsorted
    case ends =>
      rw [htimes, ← List.cons_append, ← List.cons_append]
      exact List.getLast?_concat
    case step =>
      intro k s hs
      simp only [actionStepUnits_eq, replayed_reached hpos]
      obtain ⟨unit, hunit, htext, hnode, hreached⟩ := replayTrack_step toUpperCase trustEntry h hs
      exact ⟨unit, hunit, htext, hnode, fun hlast _ => hreached hlast⟩
    case typed => exact fun unit _ elapsed hdone => typed_done hdone
    case reached =>
      intro fracs elapsed
      rw [replayed_reached hpos, ← haligned]
      exact reachedAt_prefix hsorted elapsed
    case line => exact fun first fracs hcount hplaces => replayed_line hpos haligned hcount hplaces
  · -- nothing was done: only the start and the verdict
    have htrack := replayTrack_idle toUpperCase trustEntry hacted
    constructor
    case aligned => rw [htrack]; rfl
    case starts => rw [htrack]; rfl
    case sorted => rw [htrack]; simpa using hpos.le
    case ends => rw [htrack]; rfl
    case step =>
      intro k s hs
      rw [steps_idle hacted] at hs
      cases hs
    case typed => exact fun unit _ elapsed hdone => typed_done hdone
    case reached =>
      intro fracs elapsed
      rw [replayed_reached hpos, htrack]
      exact reachedAt_prefix (by simpa using hpos.le) elapsed
    case line => exact fun first fracs hcount hplaces => replayed_line hpos (by rw [htrack]; rfl) hcount hplaces

end Wardence.Replay
