import Wardence.Detector
import Wardence.Lib.Double
import Wardence.TrackB.Hmm
/-!
# The control chart, offline and live

`track_b_hmm_spc_features.py` records a row for each bucket of 60 seconds, and
`spc_ewma_cusum_monitor.py` reads the channels out of the rows; `_score_spc` computes the
channels' values again, of a live window. Seconds are exact.
-/
namespace Wardence.TrackB

open Detector

def BUCKET_SECONDS : Int := 60

/-- A row of `<service>_spc_vectors.jsonl`. -/
structure SpcRow where
  bucketStartS : Int
  counts : List (String × ℕ)
  totalEvents : ℕ
  meanGapS : Option ℚ
  maxGapS : Option ℚ
  deriving DecidableEq

/-- `round(x, 4)` -/
def round4 (x : ℚ) : ℚ := Py.roundHalfEven (x * 10000) / 10000

/-- The seconds between one time and the next. -/
def gapsS (times : List Int) : List ℚ := times.zipWith (fun a b => ((b - a : Int) : ℚ) / 1000000000) times.tail

/-- The times of a bucket's events, in order. -/
def sortedTimes (entries : List (Int × ℕ)) : List Int :=
  (entries.mergeSort fun a b => decide (a.1 < b.1 ∨ a.1 = b.1 ∧ a.2 ≤ b.2)).map (·.1)

/-- The row of a bucket. -/
def spcRow (realTemplateIds : List ℕ) (bucketIdx : Int) (entries : List (Int × ℕ)) : SpcRow where
  bucketStartS := bucketIdx * BUCKET_SECONDS
  counts := realTemplateIds.map fun tid => (toString tid, entries.countP (·.2 = tid))
  totalEvents := entries.length
  meanGapS := if gapsS (sortedTimes entries) = [] then none else some (round4 (mean (gapsS (sortedTimes entries))))
  maxGapS := (gapsS (sortedTimes entries)).max?.map round4

def bucketIdx (tsNs : Int) : Int := tsNs.tdiv 1000000000 / BUCKET_SECONDS

/-- What was kept of a bucket. -/
def bucket (events : List Event) (idx : Int) : List (Int × ℕ) :=
  (events.filter fun e => bucketIdx e.ts = idx).map fun e => (e.ts, e.templateId)

/-- `none`: there are no events. -/
def buildSpcVectors (events : List Event) (realTemplateIds : List ℕ) : Option (List SpcRow) := do
  let firstBucket ← (events.map fun e => bucketIdx e.ts).min?
  let lastBucket ← (events.map fun e => bucketIdx e.ts).max?
  pure ((List.range (lastBucket + 1 - firstBucket).toNat).map fun i : ℕ =>
    spcRow realTemplateIds (firstBucket + i) (bucket events (firstBucket + i)))

/-! ## The channels -/

/-- The name of a template's channel. -/
def countName (tid : String) : String := "count[" ++ tid ++ "]"

/-- What a row says of each channel. -/
def SpcRow.channels (row : SpcRow) : List (String × Option ℚ) :=
  row.counts.map (fun c => (countName c.1, some (c.2 : ℚ))) ++ [("total_events", some (row.totalEvents : ℚ)), ("mean_gap_s", row.meanGapS)]

def channelNames (realTemplateIds : List ℕ) : List String :=
  realTemplateIds.map (fun tid => countName (toString tid)) ++ ["total_events", "mean_gap_s"]

/-- A gap that is missing is the last one there was. -/
def fillGaps : ℚ → List (Option ℚ) → List ℚ
  | _, [] => []
  | lastReal, g :: gs => g.getD lastReal :: fillGaps (g.getD lastReal) gs

/-- `none`: there is no row, or a row lacks a template. -/
def extractChannels (rows : List SpcRow) : Option (List (String × List ℚ)) := do
  let row ← rows.head?
  let templateIds := (row.counts.map (·.1)).mergeSort (fun a b => decide (a ≤ b))
  let counts ← templateIds.mapM fun tid =>
    (rows.mapM fun r : SpcRow => r.counts.lookup tid).map fun ns => (countName tid, ns.map fun n : ℕ => (n : ℚ))
  pure (counts ++ [("total_events", rows.map fun r => (r.totalEvents : ℚ)), ("mean_gap_s", fillGaps 0 (rows.map (·.meanGapS)))])

/-- `_load_spc`: the limits of a channel's first four fifths, when these are not constant. -/
def loadSpc (limits : List ℚ → Option Baseline) (rows : List SpcRow) : Option (List (String × Baseline)) :=
  (extractChannels rows).map fun channels =>
    channels.filterMap fun c => (limits (c.2.take (rows.length * 4 / 5))).map fun b => (c.1, b)

/-- A service's limits, of channels that the rows have. -/
structure ServiceBaseline (realTemplateIds : List ℕ) where
  limits : List (String × Baseline)
  nodup : (limits.map (·.1)).Nodup
  known : ∀ b ∈ limits, b.1 ∈ channelNames realTemplateIds

def Outside (limits : Baseline) (value : ℚ) : Prop := limits.upper < value ∨ value < limits.lower

instance (limits : Baseline) (value : ℚ) : Decidable (Outside limits value) := instDecidableOr

/-- The live check flags the channel. -/
def Flagged (d : Detection) (name : String) : Prop :=
  ∃ isAnomalous eventsUsed channels c, d = .spc isAnomalous eventsUsed channels ∧ (name, c) ∈ channels ∧ c.flagged = true

def Anomalous (d : Detection) : Prop := ∃ eventsUsed channels, d = .spc true eventsUsed channels

section
variable {ids : List ℕ}

/-- The live check of a bucket's events says what the bucket's row says. -/
structure Agrees (baseline : ServiceBaseline ids) (service : String) (events : List Event) (row : SpcRow) : Prop where
  flagged : ∀ b ∈ baseline.limits, Flagged (scoreSpc baseline.limits service events) b.1 ↔
    ∃ value, (b.1, some value) ∈ row.channels ∧ Outside b.2 value
  anomalous : Anomalous (scoreSpc baseline.limits service events) ↔ ∃ b ∈ baseline.limits, Flagged (scoreSpc baseline.limits service events) b.1
  silent : withoutNoise service events = [] → ∀ limits, ("total_events", limits) ∈ baseline.limits → 0 < limits.lower →
    Anomalous (scoreSpc baseline.limits service events)

/-- The row that is recorded for a bucket with these events. -/
def rowOf (ids : List ℕ) (service : String) (idx : Int) (events : List Event) : SpcRow :=
  spcRow ids idx ((withoutNoise service events).map fun e => (e.ts, e.templateId))

/-- The mean gap, as it is recorded. -/
def recordedGap (events : List Event) : ℚ := round4 (mean (gapsS (sortedTimes (events.map fun e => (e.ts, e.templateId)))))

/-- A silent bucket is within the limits, and no limit of `mean_gap_s` lies between the mean gap and the one recorded. -/
structure Comparable (baseline : ServiceBaseline ids) (service : String) (events : List Event) : Prop where
  silent : withoutNoise service events = [] → ∀ b ∈ baseline.limits, b.1 ≠ "mean_gap_s" → ¬ Outside b.2 0
  gap : 2 ≤ (withoutNoise service events).length → ∀ limits, ("mean_gap_s", limits) ∈ baseline.limits →
    (Outside limits (mean (gapsS ((withoutNoise service events).map (·.ts)))) ↔ Outside limits (recordedGap (withoutNoise service events)))

end

/-! ### Values -/

theorem gapsS_eq_nil (times : List Int) : gapsS times = [] ↔ times.length < 2 := by
  rcases times with _ | ⟨a, _ | ⟨b, rest⟩⟩
  · simp [gapsS]
  · simp [gapsS]
  · simp [gapsS]

theorem length_sortedTimes (entries : List (Int × ℕ)) : (sortedTimes entries).length = entries.length := by
  rw [sortedTimes, List.length_map, List.length_mergeSort]

theorem countName_toList (tid : String) : (countName tid).toList = "count[".toList ++ (tid.toList ++ [']']) := by
  simp [countName]

theorem countName_inj {s t : String} (h : countName s = countName t) : s = t := by
  have hlists := congrArg String.toList h
  rw [countName_toList, countName_toList] at hlists
  exact String.toList_inj.mp (List.append_cancel_right (List.append_cancel_left hlists))

theorem countName_ne_total (tid : String) : countName tid ≠ "total_events" := by
  intro h
  have hhead := congrArg (fun s => s.toList.head?) h
  simp [countName_toList] at hhead

theorem countName_ne_gap (tid : String) : countName tid ≠ "mean_gap_s" := by
  intro h
  have hhead := congrArg (fun s => s.toList.head?) h
  simp [countName_toList] at hhead

theorem toString_inj {m n : ℕ} (h : toString m = toString n) : m = n := by
  have hdigits : Nat.toDigits 10 m = Nat.toDigits 10 n := String.ofList_injective h
  calc m = Nat.ofDigitChars 10 (Nat.toDigits 10 m) 0 := Nat.ofDigitChars_ten_toDigits.symm
    _ = Nat.ofDigitChars 10 (Nat.toDigits 10 n) 0 := by rw [hdigits]
    _ = n := Nat.ofDigitChars_ten_toDigits

variable (events : List Event)

theorem channelValue_total : channelValue events "total_events" = some (events.length : ℚ) := if_pos rfl

theorem channelValue_gap : channelValue events "mean_gap_s" =
    if events.length < 2 then none else some (mean (gapsS (events.map (·.ts)))) := by
  rw [channelValue, if_neg (by decide), if_pos rfl, gapsS, ← List.map_tail, List.zipWith_map]

theorem channelValue_count (tid : ℕ) : channelValue events (countName (toString tid)) = some ((events.countP (·.templateId = tid) : ℕ) : ℚ) := by
  have hpre : "count[".toList.isPrefixOf (countName (toString tid)).toList = true := by
    rw [countName_toList]
    simp
  have hname : String.ofList ((countName (toString tid)).toList.drop 6).dropLast = toString tid := by
    rw [countName_toList]
    simp
    rfl
  rw [channelValue, if_neg (countName_ne_total _), if_neg (countName_ne_gap _), if_pos hpre, hname]
  congr 3
  funext e
  exact decide_eq_decide.mpr ⟨toString_inj, congrArg _⟩

/-! ### Rows and live values -/

section
variable (ids : List ℕ) (service : String) (idx : Int)

/-- A channel other than the gap has the value that is recorded. -/
theorem recorded_value {name : String} (h : name ∈ channelNames ids) (hgap : name ≠ "mean_gap_s") (value : ℚ) :
    (name, some value) ∈ (rowOf ids service idx events).channels ↔ channelValue (withoutNoise service events) name = some value := by
  simp only [channelNames, List.mem_append, List.mem_map, List.mem_cons, List.not_mem_nil, or_false] at h
  simp only [SpcRow.channels, rowOf, spcRow, List.map_map, List.mem_append, List.mem_map, List.mem_cons, List.not_mem_nil, or_false,
    Function.comp_apply, Prod.mk.injEq]
  rcases h with ⟨tid, htid, rfl⟩ | rfl | rfl
  · rw [channelValue_count]
    constructor
    · rintro (⟨tid', _, hname, hvalue⟩ | ⟨hname, _⟩ | ⟨hname, _⟩)
      · cases toString_inj (countName_inj hname)
        rw [← hvalue, List.countP_map]
        rfl
      · exact absurd hname (countName_ne_total _)
      · exact absurd hname (countName_ne_gap _)
    · intro hvalue
      refine .inl ⟨tid, htid, rfl, ?_⟩
      rw [← hvalue, List.countP_map]
      rfl
  · rw [channelValue_total]
    constructor
    · rintro (⟨tid', _, hname, _⟩ | ⟨_, hvalue⟩ | ⟨hname, _⟩)
      · exact absurd hname (countName_ne_total _)
      · rw [hvalue, List.length_map]
      · exact absurd hname (by decide)
    · intro hvalue
      exact .inr (.inl ⟨rfl, by rw [← hvalue, List.length_map]⟩)
  · exact absurd rfl hgap

theorem recorded_gap (value : ℚ) : ("mean_gap_s", some value) ∈ (rowOf ids service idx events).channels ↔
    2 ≤ (withoutNoise service events).length ∧ value = recordedGap (withoutNoise service events) := by
  have hlength : gapsS (sortedTimes ((withoutNoise service events).map fun e => (e.ts, e.templateId))) = [] ↔
      (withoutNoise service events).length < 2 := by
    rw [gapsS_eq_nil, length_sortedTimes, List.length_map]
  simp only [SpcRow.channels, rowOf, spcRow, List.mem_append, List.mem_map, List.mem_cons, List.not_mem_nil, or_false, Prod.mk.injEq,
    hlength, recordedGap]
  constructor
  · rintro (⟨c, _, hname, _⟩ | ⟨hname, _⟩ | ⟨_, hvalue⟩)
    · exact absurd hname (countName_ne_gap _)
    · exact absurd hname (by decide)
    · split_ifs at hvalue with h
      exact ⟨Nat.not_lt.mp h, Option.some.inj hvalue⟩
  · rintro ⟨h, rfl⟩
    exact .inr (.inr ⟨trivial, (if_neg (Nat.not_lt.mpr h)).symm⟩)

end

/-! ### Flags -/

theorem not_flagged (pulled required : ℕ) (name : String) : ¬ Flagged (.insufficientData pulled required) name := by
  rintro ⟨_, _, _, _, h, _⟩
  cases h

theorem not_anomalous (pulled required : ℕ) : ¬ Anomalous (.insufficientData pulled required) := by
  rintro ⟨_, _, h⟩
  cases h

section
variable {ids : List ℕ} (baseline : ServiceBaseline ids) {service : String} {events}

theorem scoreSpc_silent (h : withoutNoise service events = []) : scoreSpc baseline.limits service events = .insufficientData 0 1 :=
  if_pos h

/-- The channels of a live window. -/
def liveChannels (limits : List (String × Baseline)) (events : List Event) : List (String × Channel) :=
  limits.filterMap fun b => (channelValue events b.1).map fun value =>
    (b.1, ⟨value, b.2, b.2.upper < value ∨ value < b.2.lower⟩)

theorem scoreSpc_channels (h : withoutNoise service events ≠ []) : scoreSpc baseline.limits service events =
    .spc ((liveChannels baseline.limits (withoutNoise service events)).any (·.2.flagged)) (withoutNoise service events).length
      (liveChannels baseline.limits (withoutNoise service events)) :=
  if_neg h

theorem mem_liveChannels {limits : List (String × Baseline)} {events : List Event} {name : String} {c : Channel} :
    (name, c) ∈ liveChannels limits events ↔ ∃ b, (name, b) ∈ limits ∧ ∃ value, channelValue events name = some value ∧
      c = ⟨value, b, b.upper < value ∨ value < b.lower⟩ := by
  rw [liveChannels, List.mem_filterMap]
  constructor
  · rintro ⟨⟨n, b⟩, hb, h⟩
    obtain ⟨value, hvalue, heq⟩ := Option.map_eq_some_iff.mp h
    cases heq
    exact ⟨b, hb, value, hvalue, rfl⟩
  · rintro ⟨b, hb, value, hvalue, rfl⟩
    exact ⟨(name, b), hb, by rw [hvalue]; rfl⟩

/-- A window that is not silent: what is flagged is what lies outside. -/
theorem flagged_iff (h : withoutNoise service events ≠ []) {b : String × Baseline} (hb : b ∈ baseline.limits) :
    Flagged (scoreSpc baseline.limits service events) b.1 ↔
      ∃ value, channelValue (withoutNoise service events) b.1 = some value ∧ Outside b.2 value := by
  rw [scoreSpc_channels baseline h]
  constructor
  · rintro ⟨_, _, _, c, heq, hc, hflag⟩
    cases heq
    obtain ⟨limits, hlimits, value, hvalue, rfl⟩ := mem_liveChannels.mp hc
    -- a channel has one pair of limits
    have hsame : (b.1, limits) = b := List.inj_on_of_nodup_map baseline.nodup hlimits hb rfl
    rw [← hsame]
    exact ⟨value, hvalue, of_decide_eq_true hflag⟩
  · rintro ⟨value, hvalue, hout⟩
    exact ⟨_, _, _, _, rfl, mem_liveChannels.mpr ⟨b.2, hb, value, hvalue, rfl⟩, decide_eq_true hout⟩

theorem anomalous_iff : Anomalous (scoreSpc baseline.limits service events) ↔
    ∃ b ∈ baseline.limits, Flagged (scoreSpc baseline.limits service events) b.1 := by
  by_cases h : withoutNoise service events = []
  · rw [scoreSpc_silent baseline h]
    exact iff_of_false (not_anomalous 0 1) fun ⟨b, _, hb⟩ => not_flagged 0 1 b.1 hb
  · rw [scoreSpc_channels baseline h]
    constructor
    · rintro ⟨n, channels, heq⟩
      obtain ⟨hany, _, _⟩ := Detection.spc.inj heq
      obtain ⟨⟨name, c⟩, hc, hflag⟩ := List.any_eq_true.mp hany
      obtain ⟨limits, hlimits, _⟩ := mem_liveChannels.mp hc
      exact ⟨(name, limits), hlimits, _, _, _, c, rfl, hc, hflag⟩
    · rintro ⟨b, _, _, _, _, c, heq, hc, hflag⟩
      cases heq
      exact ⟨_, _, congrArg₂ (fun a c => Detection.spc a _ c) (List.any_eq_true.mpr ⟨_, hc, hflag⟩) rfl⟩

/-- In a silent window everything but the gap is zero. -/
theorem channelValue_nil {name : String} (h : name ∈ channelNames ids) (hgap : name ≠ "mean_gap_s") : channelValue [] name = some 0 := by
  simp only [channelNames, List.mem_append, List.mem_map, List.mem_cons, List.not_mem_nil, or_false] at h
  rcases h with ⟨tid, _, rfl⟩ | rfl | rfl
  · rw [channelValue_count]
    rfl
  · rw [channelValue_total]
    rfl
  · exact absurd rfl hgap

theorem live_gap (h : withoutNoise service events ≠ []) {limits : Baseline} (hb : ("mean_gap_s", limits) ∈ baseline.limits) :
    Flagged (scoreSpc baseline.limits service events) "mean_gap_s" ↔ 2 ≤ (withoutNoise service events).length ∧
      Outside limits (mean (gapsS ((withoutNoise service events).map (·.ts)))) := by
  rw [flagged_iff baseline h hb, channelValue_gap]
  split_ifs with htwo
  · exact iff_of_false (fun ⟨_, hv, _⟩ => by cases hv) fun h => absurd h.1 (Nat.not_le.mpr htwo)
  · constructor
    · rintro ⟨value, hvalue, hout⟩
      cases hvalue
      exact ⟨Nat.not_lt.mp htwo, hout⟩
    · rintro ⟨_, hout⟩
      exact ⟨_, rfl, hout⟩

section
variable (idx : Int)

theorem offline_gap (limits : Baseline) : (∃ value, ("mean_gap_s", some value) ∈ (rowOf ids service idx events).channels ∧ Outside limits value) ↔
    2 ≤ (withoutNoise service events).length ∧ Outside limits (recordedGap (withoutNoise service events)) := by
  simp only [recorded_gap]
  constructor
  · rintro ⟨value, ⟨htwo, rfl⟩, hout⟩
    exact ⟨htwo, hout⟩
  · rintro ⟨htwo, hout⟩
    exact ⟨_, ⟨htwo, rfl⟩, hout⟩

/-- What the live check and the row say of a channel other than the gap differs at most when the window is silent. -/
theorem channel_agrees {b : String × Baseline} (hb : b ∈ baseline.limits) (hgap : b.1 ≠ "mean_gap_s") :
    (Flagged (scoreSpc baseline.limits service events) b.1 ↔
      ∃ value, (b.1, some value) ∈ (rowOf ids service idx events).channels ∧ Outside b.2 value) ↔
    (withoutNoise service events = [] → ¬ Outside b.2 0) := by
  simp only [recorded_value events ids service idx (baseline.known b hb) hgap]
  by_cases h : withoutNoise service events = []
  · have hlive : ¬ Flagged (scoreSpc baseline.limits service events) b.1 := by
      rw [scoreSpc_silent baseline h]
      exact not_flagged 0 1 b.1
    rw [h, channelValue_nil (baseline.known b hb) hgap]
    simp [hlive]
  · exact iff_of_true (flagged_iff baseline h hb) (absurd · h)

theorem gap_agrees {limits : Baseline} (hb : ("mean_gap_s", limits) ∈ baseline.limits) :
    (Flagged (scoreSpc baseline.limits service events) "mean_gap_s" ↔
      ∃ value, ("mean_gap_s", some value) ∈ (rowOf ids service idx events).channels ∧ Outside limits value) ↔
    (2 ≤ (withoutNoise service events).length → (Outside limits (mean (gapsS ((withoutNoise service events).map (·.ts)))) ↔
      Outside limits (recordedGap (withoutNoise service events)))) := by
  rw [offline_gap]
  by_cases h : withoutNoise service events = []
  · rw [scoreSpc_silent baseline h, h]
    simp [not_flagged]
  · rw [live_gap baseline h hb]
    exact and_congr_right_iff

/-- The live check agrees with the row exactly when a silent bucket is within the limits and the gap's rounding does not matter. -/
theorem agrees_iff : Agrees baseline service events (rowOf ids service idx events) ↔ Comparable baseline service events := by
  constructor
  · intro h
    constructor
    case silent => exact fun hempty b hb hgap => (channel_agrees baseline idx hb hgap).mp (h.flagged b hb) hempty
    case gap => exact fun htwo limits hb => (gap_agrees baseline idx hb).mp (h.flagged _ hb) htwo
  · intro h
    constructor
    case flagged =>
      intro b hb
      by_cases hgap : b.1 = "mean_gap_s"
      · obtain ⟨name, limits⟩ := b
        cases hgap
        exact (gap_agrees baseline idx hb).mpr fun htwo => h.gap htwo limits hb
      · exact (channel_agrees baseline idx hb hgap).mpr fun hempty => h.silent hempty b hb hgap
    case anomalous => exact anomalous_iff baseline
    case silent =>
      intro hempty limits hb hlower
      exact absurd (.inr hlower) (h.silent hempty ("total_events", limits) hb (show "total_events" ≠ "mean_gap_s" by decide))

end

end

/-- A silent bucket where there are always four events or more. -/
theorem silent_unseen : ¬ @Agrees [1] ⟨[("total_events", ⟨12, 4⟩)], by decide, by decide⟩ "catalogue" []
    (rowOf [1] "catalogue" 0 []) := by
  intro h
  obtain ⟨_, _, hanomalous⟩ := h.silent rfl ⟨12, 4⟩ (.head _) (by norm_num)
  cases hanomalous

/-! ### The rows and the limits that are loaded -/

theorem bucket_withoutNoise (stream : List Event) (service : String) (idx : Int) :
    bucket (withoutNoise service stream) idx =
      (withoutNoise service (stream.filter fun e => bucketIdx e.ts = idx)).map fun e => (e.ts, e.templateId) := by
  rw [bucket, withoutNoise, withoutNoise, List.filter_comm]

section Rows
variable {stream : List Event} {service : String} {ids : List ℕ} {rows : List SpcRow}

theorem rows_range (h : buildSpcVectors (withoutNoise service stream) ids = some rows) :
    ∃ first last, ((withoutNoise service stream).map fun e => bucketIdx e.ts).min? = some first ∧
      ((withoutNoise service stream).map fun e => bucketIdx e.ts).max? = some last ∧
      rows = (List.range (last + 1 - first).toNat).map fun i : ℕ =>
        rowOf ids service (first + i) (stream.filter fun e => bucketIdx e.ts = first + i) := by
  unfold buildSpcVectors at h
  cases hmin : ((withoutNoise service stream).map fun e => bucketIdx e.ts).min? with
  | none => simp [hmin] at h
  | some first =>
    cases hmax : ((withoutNoise service stream).map fun e => bucketIdx e.ts).max? with
    | none => simp [hmin, hmax] at h
    | some last =>
      refine ⟨first, last, rfl, rfl, ?_⟩
      simp only [hmin, hmax, Option.bind_eq_bind, Option.bind_some, Option.pure_def, Option.some.injEq] at h
      rw [← h]
      simp only [bucket_withoutNoise, rowOf]

/-- Each row is the row of its bucket's events. -/
theorem row_of_bucket (h : buildSpcVectors (withoutNoise service stream) ids = some rows) {row : SpcRow} (hrow : row ∈ rows) :
    ∃ idx, row = rowOf ids service idx (stream.filter fun e => bucketIdx e.ts = idx) := by
  obtain ⟨first, last, _, _, rfl⟩ := rows_range h
  obtain ⟨i, _, rfl⟩ := List.mem_map.mp hrow
  exact ⟨first + i, rfl⟩

/-- There is a row for each bucket between two events, also for a silent one. -/
theorem row_of_every_bucket (h : buildSpcVectors (withoutNoise service stream) ids = some rows) {e e' : Event}
    (he : e ∈ withoutNoise service stream) (he' : e' ∈ withoutNoise service stream) {idx : Int}
    (hl : bucketIdx e.ts ≤ idx) (hu : idx ≤ bucketIdx e'.ts) :
    rowOf ids service idx (stream.filter fun e => bucketIdx e.ts = idx) ∈ rows := by
  obtain ⟨first, last, hmin, hmax, rfl⟩ := rows_range h
  have hfirst : first ≤ bucketIdx e.ts := (List.min?_eq_some_iff.mp hmin).2 _ (List.mem_map_of_mem he)
  have hlast : bucketIdx e'.ts ≤ last := (List.max?_eq_some_iff.mp hmax).2 _ (List.mem_map_of_mem he')
  have hidx : first + ((idx - first).toNat : Int) = idx := by omega
  have hrange : (idx - first).toNat < (last + 1 - first).toNat := (Int.toNat_lt_toNat (by omega)).mpr (by omega)
  refine List.mem_map.mpr ⟨(idx - first).toNat, List.mem_range.mpr hrange, ?_⟩
  rw [hidx]

theorem mapM_fst {α β γ : Type} (f : α → Option (β × γ)) (g : α → β) (hf : ∀ a b, f a = some b → b.1 = g a) :
    ∀ {as : List α} {bs : List (β × γ)}, as.mapM f = some bs → bs.map (·.1) = as.map g
  | [], bs, h => by
    cases h
    rfl
  | a :: as, bs, h => by
    rw [List.mapM_cons] at h
    obtain ⟨b, hb, h⟩ := Option.bind_eq_some_iff.mp h
    obtain ⟨bs', hbs, h⟩ := Option.bind_eq_some_iff.mp h
    cases h
    rw [List.map_cons, List.map_cons, hf a b hb, mapM_fst f g hf hbs]

/-- The channels are those of the templates, whatever the rows hold. -/
theorem extractChannels_names (h : buildSpcVectors (withoutNoise service stream) ids = some rows) {channels : List (String × List ℚ)}
    (hc : extractChannels rows = some channels) : (channels.map (·.1)).Perm (channelNames ids) := by
  obtain ⟨row, hrow, hc⟩ := Option.bind_eq_some_iff.mp hc
  obtain ⟨counts, hcounts, hc⟩ := Option.bind_eq_some_iff.mp hc
  cases hc
  obtain ⟨idx, hidx⟩ := row_of_bucket h (List.mem_of_mem_head? hrow)
  have hnames := mapM_fst _ countName (fun tid b hb => by
    obtain ⟨ns, _, hb⟩ := Option.map_eq_some_iff.mp hb
    rw [← hb]) hcounts
  rw [List.map_append, hnames, channelNames]
  apply List.Perm.append_right
  rw [hidx, rowOf, spcRow, List.map_map]
  exact ((List.mergeSort_perm _ _).map countName).trans (by rw [List.map_map]; rfl)

theorem channelNames_nodup (hids : ids.Nodup) : (channelNames ids).Nodup := by
  have hcounts : (ids.map fun tid => countName (toString tid)).Nodup := hids.map fun _ _ h => toString_inj (countName_inj h)
  refine List.nodup_append.mpr ⟨hcounts, by decide, ?_⟩
  rintro _ hx _ hy rfl
  obtain ⟨tid, _, hname⟩ := List.mem_map.mp hx
  rcases List.mem_cons.mp hy with rfl | hy
  · exact countName_ne_total _ hname
  · cases List.mem_singleton.mp hy
    exact countName_ne_gap _ hname

theorem filterMap_names {α β : Type} (f : String × α → Option β) (l : List (String × α)) :
    ((l.filterMap fun c => (f c).map fun b => (c.1, b)).map (·.1)).Sublist (l.map (·.1)) := by
  induction l with
  | nil => exact .slnil
  | cons c l ih =>
    cases hf : f c with
    | none =>
      rw [List.filterMap_cons_none (by rw [hf]; rfl)]
      exact ih.cons _
    | some b =>
      rw [List.filterMap_cons_some (by rw [hf]; rfl)]
      exact ih.cons_cons _

/-- What is loaded of a track's rows is a service's baseline. -/
theorem loadSpc_baseline (hids : ids.Nodup) (h : buildSpcVectors (withoutNoise service stream) ids = some rows)
    (limits : List ℚ → Option Baseline) {loaded : List (String × Baseline)} (hl : loadSpc limits rows = some loaded) :
    ∃ baseline : ServiceBaseline ids, baseline.limits = loaded := by
  obtain ⟨channels, hc, rfl⟩ := Option.map_eq_some_iff.mp hl
  have hperm := extractChannels_names h hc
  have hsub := filterMap_names (fun c => limits (c.2.take (rows.length * 4 / 5))) channels
  exact ⟨⟨_, hsub.nodup (hperm.nodup_iff.mpr (channelNames_nodup hids)),
    fun b hb => hperm.mem_iff.mp (hsub.subset (List.mem_map_of_mem hb))⟩, rfl⟩

end Rows

end Wardence.TrackB
