import Mathlib.Data.List.Sort
import Mathlib.Logic.Function.Basic
import Wardence.Lib.Window
/-!
# The log-sequence pipeline

`log_sequence_pipeline.py`: each run pulls a service's new lines from Loki, mines
their templates and appends them to the service's stream; the stream, the miner's
snapshot and the watermark reach the disk one after the other. Times are nanoseconds.
The miner is a parameter.
-/
namespace Wardence.LogPipeline

open Windows

/-- A log line in Loki. -/
structure Line where
  ts : Int
  text : String
  deriving DecidableEq, Repr

/-- drain3's miner. -/
structure Miner (μ : Type) where
  fresh : μ
  addLogMessage : μ → String → μ × Nat × String

/-- A record of the stream; the file has the line's time and the template. -/
structure Event where
  line : Line
  templateId : Nat
  template : String
  deriving DecidableEq, Repr

/-- What stands in the stream file: records, and records that were cut off. -/
inductive Piece where
  | event (e : Event)
  | torn (e : Event)
  deriving DecidableEq, Repr

/-- The files of a service, and its entry of `watermarks.json`. -/
structure Disk (μ : Type) where
  stream : List Piece := []
  snapshot : Option μ := none
  watermark : Option Int := none

inductive Effect (μ : Type) where
  | write (e : Event)
  | close
  | saveState (m : μ)
  | saveWatermark (ts : Int)

def CHUNK_NS : Int := 15 * 60 * 1000000000

/-- What a run is given: the time, the seed window, and what Loki returns for a range. -/
structure Run where
  nowNs : Int
  backfillNs : Int
  fetchRange : Int → Int → List Line

/-- `fetch_new_lines`, from `cursor` on, for at most `n` chunks. -/
def fetchChunks (r : Run) : Nat → Int → List Line
  | 0, _ => []
  | n + 1, cursor =>
    if cursor < r.nowNs then
      let chunkEnd := min (cursor + CHUNK_NS) r.nowNs
      (r.fetchRange cursor chunkEnd).insertionSort (fun x y => x.ts ≤ y.ts) ++ fetchChunks r n chunkEnd
    else []

def fetchNewLines (r : Run) (sinceNs : Int) : List Line := fetchChunks r (r.nowNs - sinceNs).toNat sinceNs

section Miner
variable {μ : Type} (mi : Miner μ)

/-- The lines through the miner: its state afterwards, and their events. -/
def mine (m : μ) : List Line → μ × List Event
  | [] => (m, [])
  | l :: ls =>
    let result := mi.addLogMessage m l.text
    let rest := mine result.1 ls
    (rest.1, ⟨l, result.2.1, result.2.2⟩ :: rest.2)

/-- `since_ns`. -/
def Disk.since (d : Disk μ) (r : Run) : Int := d.watermark.getD (r.nowNs - r.backfillNs)

/-- What follows the loop: the watermark goes one past the last event, or to the run's time. -/
def saves (nowNs : Int) (m : μ) (new : List Event) : List (Effect μ) :=
  match new.getLast? with
  | some last => [.saveState m, .saveWatermark (last.line.ts + 1)]
  | none => [.saveWatermark nowNs]

/-- `process_service`: what it does to the disk, in order. -/
def processService (d : Disk μ) (r : Run) : List (Effect μ) :=
  let mined := mine mi (d.snapshot.getD mi.fresh) (fetchNewLines r (d.since r))
  mined.2.map .write ++ .close :: saves r.nowNs mined.1 mined.2

/-- The events that were written. -/
def written (es : List (Effect μ)) : List Event := es.filterMap fun
  | .write e => some e
  | _ => none

def closed (es : List (Effect μ)) : Bool := es.any fun
  | .close => true
  | _ => false

/-- The saves. -/
def Disk.saved (d : Disk μ) (es : List (Effect μ)) : Disk μ := es.foldl (fun d => fun
  | .saveState m => { d with snapshot := some m }
  | .saveWatermark ts => { d with watermark := some ts }
  | _ => d) d

/-- How a run is stopped: after `done` of its effects; if the stream was still open, with only the
first `kept` events in the file, and the next one cut off. drain3 also saves on its own. -/
structure Stop (μ : Type) where
  done : Nat
  kept : Nat
  cut : Bool
  snapshot : Option μ

/-- What is in the file of the events written before the stop. -/
def Stop.pieces (s : Stop μ) (es : List Event) : List Piece :=
  (es.take s.kept).map .event ++ if s.cut then (es[s.kept]?).toList.map .torn else []

def Disk.stopped (d : Disk μ) (r : Run) (s : Stop μ) : Disk μ :=
  let es := (processService mi d r).take s.done
  let d' := { d with snapshot := s.snapshot }.saved es
  { d' with stream := d.stream ++ if closed es then (written es).map .event else s.pieces (written es) }

def Disk.run (d : Disk μ) (r : Run) : Disk μ :=
  let es := processService mi d r
  { d.saved es with stream := d.stream ++ (written es).map .event }

end Miner

/-! ## Histories -/

/-- A service: its files, the first seed point, and the end of the last completed run. -/
structure Service (μ : Type) where
  disk : Disk μ := {}
  seed : Option Int := none
  ended : Option Int := none

section History
variable {μ : Type} (mi : Miner μ) (log : List Line)

/-- Each range fetch returns every line of its half-open range. -/
def Run.Complete (r : Run) : Prop := ∀ a b, b ≤ r.nowNs → (r.fetchRange a b).Perm (window (·.ts) log a b)

/-- Where a run starts well: its time is not before a line that is already past the watermark, and
without a watermark it misses no line since the first seed point. -/
structure Service.Ready (v : Service μ) (r : Run) : Prop where
  clock : ∀ w, v.disk.watermark = some w → window (·.ts) log r.nowNs w = []
  seeded : v.disk.watermark = none → ∀ p, v.seed = some p → window (·.ts) log p (v.disk.since r) = []

/-- The run is stopped before its last effect, and before a line of its range is in the file. -/
structure Service.Harmless (v : Service μ) (r : Run) (s : Stop μ) : Prop where
  early : s.done < (processService mi v.disk r).length
  empty : window (·.ts) log (v.disk.since r) r.nowNs = [] ∨
    s.done ≤ (fetchNewLines r (v.disk.since r)).length ∧ s.kept = 0 ∧ s.cut = false

def Service.completed (v : Service μ) (r : Run) : Service μ :=
  ⟨v.disk.run mi r, some (v.seed.getD (v.disk.since r)), some r.nowNs⟩

def Service.stopped (v : Service μ) (r : Run) (s : Stop μ) : Service μ :=
  { v with disk := v.disk.stopped mi r s, seed := some (v.seed.getD (v.disk.since r)) }

/-- The condition on a run (`none`: it completes). -/
def Service.Meets (v : Service μ) (r : Run) : Option (Stop μ) → Prop
  | none => v.Ready log r
  | some s => v.Ready log r ∧ v.Harmless mi log r s

/-- The services, each with its lines, after runs of which each meets `C`. -/
inductive Reached (C : List Line → Service μ → Run → Option (Stop μ) → Prop) (logs : String → List Line) :
    (String → Service μ) → Prop
  | start : Reached C logs fun _ => {}
  | completed {v name r} : Reached C logs v → r.Complete (logs name) → C (logs name) (v name) r none →
    Reached C logs (Function.update v name ((v name).completed mi r))
  | stopped {v name r s} : Reached C logs v → r.Complete (logs name) → C (logs name) (v name) r (some s) →
    Reached C logs (Function.update v name ((v name).stopped mi r s))

/-- The events of a stream file. -/
def events (ps : List Piece) : List Event := ps.filterMap fun
  | .event e => some e
  | .torn _ => none

/-- The lines of a stream file. -/
def lines (ps : List Piece) : List Line := (events ps).map (·.line)

/-- Each line from the first seed point to the end of the last completed run is in the stream exactly
as often as it was logged, in order, and the watermark is past no line that is not there. -/
structure Service.Exact (v : Service μ) : Prop where
  once : ∀ p e l, v.seed = some p → v.ended = some e → p ≤ l.ts → l.ts < e → (lines v.disk.stream).count l = log.count l
  ordered : (lines v.disk.stream).Pairwise fun x y => x.ts ≤ y.ts
  reached : ∀ p w l, v.seed = some p → v.disk.watermark = some w → l ∈ log → p ≤ l.ts → l.ts < w → l ∈ lines v.disk.stream

end History

/-! ## One run -/

section Run
variable {μ : Type} {mi : Miner μ} {log : List Line} {d : Disk μ} {r : Run} {since : Int}

abbrev Pull (log : List Line) (a b : Int) (ls : List Line) : Prop := Pulled (·.ts) log a b ls

/-- A loop is complete when its ranges are. -/
theorem pull_chunks (n : Nat) (cursor : Int) (hn : (r.nowNs - cursor).toNat ≤ n)
    (hc : ∀ a b, cursor ≤ a → b ≤ r.nowNs → (r.fetchRange a b).Perm (window (·.ts) log a b)) :
    Pull log cursor r.nowNs (fetchChunks r n cursor) := by
  induction n generalizing cursor with
  | zero => exact .nil (window_empty (by omega))
  | succ n ih =>
    unfold fetchChunks
    split
    case isTrue h =>
      have hs : (r.fetchRange cursor (min (cursor + CHUNK_NS) r.nowNs)).Perm _ := hc _ _ le_rfl (min_le_right _ _)
      have hchunk : CHUNK_NS = 900000000000 := by decide
      have hle : cursor ≤ min (cursor + CHUNK_NS) r.nowNs := by omega
      have hrest := ih (min (cursor + CHUNK_NS) r.nowNs) (by omega) fun a b ha hb => hc a b (hle.trans ha) hb
      refine Pulled.append ⟨(List.perm_insertionSort _ _).trans hs, ?_⟩ hrest hle (min_le_right _ _)
      have : IsTrans Line fun x y => x.ts ≤ y.ts := ⟨fun _ _ _ => le_trans⟩
      have : Std.Total fun x y : Line => x.ts ≤ y.ts := ⟨fun _ _ => le_total _ _⟩
      exact List.pairwise_insertionSort _ _
    case isFalse h => exact .nil (window_empty (by omega))

theorem pull_new (hc : r.Complete log) : Pull log since r.nowNs (fetchNewLines r since) :=
  pull_chunks _ _ le_rfl fun a b _ hb => hc a b hb

theorem mine_lines (m : μ) (ls : List Line) : (mine mi m ls).2.map (·.line) = ls := by
  induction ls generalizing m with
  | nil => rfl
  | cons l ls ih => simp [mine, ih]

theorem lines_append (ps qs : List Piece) : lines (ps ++ qs) = lines ps ++ lines qs := by simp [lines, events]

theorem lines_events (es : List Event) : lines (es.map .event) = es.map (·.line) := by
  induction es with
  | nil => rfl
  | cons e es ih => simp [lines, events]

theorem lines_pieces (s : Stop μ) (es : List Event) : lines (s.pieces es) = (es.take s.kept).map (·.line) := by
  have hcut : lines (if s.cut then (es[s.kept]?).toList.map .torn else []) = [] := by
    split
    · cases es[s.kept]? <;> rfl
    · rfl
  rw [Stop.pieces, lines_append, lines_events, hcut, List.append_nil]

/-- The events of the run's lines. -/
def new (mi : Miner μ) (d : Disk μ) (r : Run) : List Event :=
  (mine mi (d.snapshot.getD mi.fresh) (fetchNewLines r (d.since r))).2

theorem new_lines (mi : Miner μ) (d : Disk μ) (r : Run) : (new mi d r).map (·.line) = fetchNewLines r (d.since r) := mine_lines _ _

theorem new_length : (new mi d r).length = (fetchNewLines r (d.since r)).length := by
  rw [← new_lines mi, List.length_map]

theorem written_writes (es : List Event) : written (es.map (.write (μ := μ))) = es := by simp [written]

theorem closed_writes (es : List Event) : closed (es.map (.write (μ := μ))) = false := by simp [closed]

/-- The writes among the first `k` effects. -/
theorem written_take (mi : Miner μ) (d : Disk μ) (r : Run) (k : Nat) : written ((processService mi d r).take k) = (new mi d r).take k := by
  have hs : ∀ (m : μ) (es : List Event) (j : Nat), written ((.close :: saves r.nowNs m es).take j) = [] := by
    intro m es j
    apply List.filterMap_eq_nil_iff.2
    intro e he
    have he := List.mem_of_mem_take he
    unfold saves at he
    split at he <;> simp at he <;> rcases he with rfl | rfl | rfl <;> rfl
  simp only [processService, List.take_append, ← List.map_take]
  rw [written, List.filterMap_append, ← written, ← written, written_writes, hs, List.append_nil]
  rfl

theorem closed_take (k : Nat) : closed ((processService mi d r).take k) = decide ((new mi d r).length < k) := by
  simp only [processService, List.take_append, ← List.map_take, List.length_map]
  rw [closed, List.any_append, ← closed, ← closed, closed_writes, Bool.false_or]
  show closed (List.take (k - (new mi d r).length) _) = _
  cases hk : k - (new mi d r).length with
  | zero => simpa [closed] using Nat.sub_eq_zero_iff_le.1 hk
  | succ j => simpa [closed] using Nat.lt_of_sub_eq_succ hk

/-- Where the watermark goes. -/
def target (d : Disk μ) (r : Run) : Int :=
  match (fetchNewLines r (d.since r)).getLast? with
  | some last => last.ts + 1
  | none => r.nowNs

/-- The watermark is saved last. -/
theorem processService_eq (mi : Miner μ) (d : Disk μ) (r : Run) : ∃ es : List (Effect μ), processService mi d r = es ++ [.saveWatermark (target d r)] ∧
    ∀ e ∈ es, ∀ ts, e ≠ .saveWatermark ts := by
  have hlast : target d r = match (new mi d r).getLast? with
      | some last => last.line.ts + 1
      | none => r.nowNs := by
    rw [target, ← new_lines mi, List.getLast?_map]
    cases (new mi d r).getLast? <;> rfl
  rw [hlast]
  have hsplit : ∃ m, processService mi d r = (new mi d r).map .write ++ .close :: saves r.nowNs m (new mi d r) := ⟨_, rfl⟩
  obtain ⟨m, hm⟩ := hsplit
  rw [hm]
  unfold saves
  cases (new mi d r).getLast? with
  | none => exact ⟨(new mi d r).map .write ++ [.close], by simp, by rintro _ he _ rfl; simp at he⟩
  | some last => exact ⟨(new mi d r).map .write ++ [.close, .saveState m], by simp, by rintro _ he _ rfl; simp at he⟩

theorem saved_keeps {es : List (Effect μ)} (h : ∀ e ∈ es, ∀ ts, e ≠ .saveWatermark ts) (d : Disk μ) :
    (d.saved es).watermark = d.watermark := by
  induction es generalizing d with
  | nil => rfl
  | cons e es ih =>
    rw [Disk.saved, List.foldl_cons, ← Disk.saved, ih fun e he => h e (List.mem_cons_of_mem _ he)]
    cases e with
    | saveWatermark ts => exact absurd rfl (h _ List.mem_cons_self ts)
    | _ => rfl

theorem saved_take {k : Nat} (hk : k < (processService mi d r).length) (d' : Disk μ) :
    (d'.saved ((processService mi d r).take k)).watermark = d'.watermark := by
  obtain ⟨es, he, hes⟩ := processService_eq mi d r
  rw [he, List.length_append, List.length_singleton] at hk
  rw [he, List.take_append_of_le_length (by omega)]
  exact saved_keeps (fun e hm => hes e (List.mem_of_mem_take hm)) d'

theorem run_watermark : (d.run mi r).watermark = some (target d r) := by
  obtain ⟨es, he, hes⟩ := processService_eq mi d r
  show (d.saved (processService mi d r)).watermark = _
  rw [he, Disk.saved, List.foldl_append]
  rfl

theorem run_lines : lines (d.run mi r).stream = lines d.stream ++ fetchNewLines r (d.since r) := by
  show lines (d.stream ++ (written (processService mi d r)).map .event) = _
  have hall := written_take mi d r (processService mi d r).length
  rw [List.take_length, List.take_of_length_le (by simp [processService, new])] at hall
  rw [lines_append, lines_events, hall, new_lines]

theorem stopped_watermark {s : Stop μ} (hs : s.done < (processService mi d r).length) :
    (d.stopped mi r s).watermark = d.watermark :=
  saved_take hs { d with snapshot := s.snapshot }

/-- What a stopped run adds: the first lines of its range. -/
theorem stopped_lines (mi : Miner μ) (d : Disk μ) (r : Run) (s : Stop μ) : ∃ n, lines (d.stopped mi r s).stream =
    lines d.stream ++ (fetchNewLines r (d.since r)).take n := by
  show ∃ n, lines (d.stream ++ if closed ((processService mi d r).take s.done) then
    (written ((processService mi d r).take s.done)).map .event else s.pieces (written ((processService mi d r).take s.done))) = _
  rw [lines_append, written_take]
  split
  · exact ⟨s.done, by rw [lines_events, List.map_take, new_lines]⟩
  · exact ⟨min s.kept s.done, by rw [lines_pieces, List.take_take, List.map_take, new_lines]⟩

/-- A harmless stop leaves the stream as it was. -/
theorem stopped_stream {s : Stop μ} (h : s.done ≤ (fetchNewLines r (d.since r)).length ∧ s.kept = 0 ∧ s.cut = false ∨
    fetchNewLines r (d.since r) = []) : (d.stopped mi r s).stream = d.stream := by
  show d.stream ++ (if closed ((processService mi d r).take s.done) then _ else _) = _
  rw [closed_take, written_take, List.append_right_eq_self]
  rcases h with ⟨hd, hk, hc⟩ | hn
  · rw [if_neg (by rw [new_length]; simpa using hd), Stop.pieces, hk, hc]
    rfl
  · have hnew : new mi d r = [] := List.length_eq_zero_iff.1 (by rw [new_length, hn]; rfl)
    simp [hnew, Stop.pieces]

/-- A run's lines end before the watermark it saves, and none follow them before its time. -/
theorem target_spec (hc : r.Complete log) (hs : d.since r ≤ r.nowNs) :
    d.since r ≤ target d r ∧ Pull log (d.since r) (target d r) (fetchNewLines r (d.since r)) ∧
      window (·.ts) log (target d r) r.nowNs = [] := by
  have hp : Pull log (d.since r) r.nowNs (fetchNewLines r (d.since r)) := pull_new hc
  unfold target
  rcases List.eq_nil_or_concat (fetchNewLines r (d.since r)) with hn | ⟨ls, last, hn⟩
  · simp only [hn, List.getLast?_nil]
    rw [hn] at hp
    exact ⟨hs, hp, window_empty le_rfl⟩
  · have hlast : last ∈ fetchNewLines r (d.since r) := by simp [hn]
    have hmax : ∀ l ∈ fetchNewLines r (d.since r), l.ts ≤ last.ts := by
      intro l hl
      have hsorted := hp.sorted
      rw [hn, List.concat_eq_append] at hl hsorted
      rcases List.mem_append.1 hl with hl | hl
      · exact (List.pairwise_append.1 hsorted).2.2 l hl last (List.mem_singleton_self _)
      · rw [List.mem_singleton.1 hl]
    have hrest : window (·.ts) log (last.ts + 1) r.nowNs = [] := by
      refine List.eq_nil_iff_forall_not_mem.2 fun l hl => ?_
      obtain ⟨hm, ha, hb⟩ := mem_window.1 hl
      have := hmax l (hp.perm.mem_iff.2 (mem_window.2 ⟨hm, by have := (hp.mem hlast).2.1; omega, hb⟩))
      omega
    obtain ⟨-, ha, hb⟩ := hp.mem hlast
    rw [hn, List.concat_eq_append] at hp ⊢
    simp only [List.getLast?_append, List.getLast?_singleton, Option.some_or]
    exact ⟨by omega, hp.shrink (by omega) (by omega) hrest, hrest⟩

/-- A run that would start after its own time finds nothing. -/
theorem target_back (hc : r.Complete log) (hs : r.nowNs < d.since r) :
    fetchNewLines r (d.since r) = [] ∧ target d r = r.nowNs := by
  have hp : Pull log (d.since r) r.nowNs (fetchNewLines r (d.since r)) := pull_new hc
  have hn : fetchNewLines r (d.since r) = [] := by
    have hperm := hp.perm
    rw [window_empty hs.le] at hperm
    exact hperm.eq_nil
  exact ⟨hn, by simp [target, hn]⟩

end Run

/-! ## Every history -/

section Reached
variable {μ : Type} {mi : Miner μ} {log : List Line} {v : Service μ} {r : Run}

/-- What holds between the runs of a service. -/
inductive Service.Inv (log : List Line) (v : Service μ) : Prop
  | fresh (hs : v.disk.stream = []) (hw : v.disk.watermark = none) (he : v.ended = none)
  | resumed (b p w e : Int) (hp : v.seed = some p) (hw : v.disk.watermark = some w) (he : v.ended = some e) (hb : b ≤ p)
    (hpull : b ≤ w ∧ Pull log b w (lines v.disk.stream)) (hrest : window (·.ts) log w e = [])

/-- The first run that completes: nothing was missed since the first seed point `p`. -/
theorem inv_first (hc : r.Complete log) {p : Int} (hp : p = v.disk.since r ∨ window (·.ts) log p (v.disk.since r) = []) : ∃ b, b ≤ p ∧ b ≤ target v.disk r ∧
      Pull log b (target v.disk r) (fetchNewLines r (v.disk.since r)) ∧ window (·.ts) log (target v.disk r) r.nowNs = [] := by
  rcases le_or_gt (v.disk.since r) r.nowNs with hle | hlt
  · obtain ⟨ht, hpull, hrest⟩ := target_spec hc hle
    rcases le_or_gt (v.disk.since r) p with hsp | hps
    · exact ⟨_, hsp, ht, hpull, hrest⟩
    · have hmissed : window (·.ts) log p (v.disk.since r) = [] := hp.resolve_left hps.ne
      exact ⟨p, le_rfl, hps.le.trans ht, (Pulled.nil hmissed).append hpull hps.le ht, hrest⟩
  · obtain ⟨hn, ht⟩ := target_back hc hlt
    rw [hn, ht]
    rcases le_or_gt r.nowNs p with hnp | hpn
    · exact ⟨_, hnp, le_rfl, .nil (window_empty le_rfl), window_empty le_rfl⟩
    · have hmissed : window (·.ts) log p (v.disk.since r) = [] := hp.resolve_left (hpn.trans hlt).ne
      exact ⟨p, le_rfl, hpn.le, .nil (window_mono hmissed le_rfl hlt.le), window_empty le_rfl⟩

theorem inv_completed (hi : v.Inv log) (hc : r.Complete log) (hr : v.Ready log r) : (v.completed mi r).Inv log := by
  have htarget : (v.completed mi r).disk.watermark = some (target v.disk r) := run_watermark
  have hlines : lines (v.completed mi r).disk.stream = lines v.disk.stream ++ fetchNewLines r (v.disk.since r) := run_lines
  cases hi with
  | fresh hs hw he =>
    have hp : v.seed.getD (v.disk.since r) = v.disk.since r ∨
        window (·.ts) log (v.seed.getD (v.disk.since r)) (v.disk.since r) = [] := by
      cases hseed : v.seed with
      | none => exact .inl rfl
      | some p => exact .inr (hr.seeded hw p hseed)
    obtain ⟨b, hb, hbt, hpull, hrest⟩ := inv_first hc hp
    rw [hs] at hlines
    exact .resumed b _ _ _ rfl htarget rfl hb ⟨hbt, hlines ▸ hpull⟩ hrest
  | resumed b p w e hp hw he hb hpull hrest =>
    obtain ⟨hbw, hpull⟩ := hpull
    have hsince : v.disk.since r = w := by rw [Disk.since, hw]; rfl
    have hseed : (v.completed mi r).seed = some p := by simp [Service.completed, hp]
    rcases le_or_gt w r.nowNs with hle | hlt
    · obtain ⟨ht, hnew, hrest⟩ := target_spec (d := v.disk) hc (hsince ▸ hle)
      rw [hsince] at ht hnew hlines
      exact .resumed b p _ _ hseed htarget rfl hb ⟨hbw.trans ht, hlines ▸ hpull.append hnew hbw ht⟩ hrest
    · -- the clock went back, to where no line is missed
      obtain ⟨hn, ht⟩ := target_back (d := v.disk) hc (hsince ▸ hlt)
      rw [hn, List.append_nil] at hlines
      rw [ht] at htarget
      have hback : window (·.ts) log r.nowNs w = [] := hr.clock w hw
      rcases le_or_gt b r.nowNs with hbn | hnb
      · exact .resumed b p _ _ hseed htarget rfl hb ⟨hbn, hlines ▸ hpull.shrink hbn hlt.le hback⟩ (window_empty le_rfl)
      · have hnil : lines v.disk.stream = [] := by
          have hperm := hpull.perm
          rw [window_mono hback hnb.le le_rfl] at hperm
          exact hperm.eq_nil
        rw [hnil] at hlines
        exact .resumed r.nowNs p _ _ hseed htarget rfl (hnb.le.trans hb)
          ⟨le_rfl, hlines ▸ Pulled.nil (window_empty le_rfl)⟩ (window_empty le_rfl)

theorem inv_stopped {s : Stop μ} (hi : v.Inv log) (hc : r.Complete log) (hh : v.Harmless mi log r s) :
    (v.stopped mi r s).Inv log := by
  have hstream : (v.stopped mi r s).disk.stream = v.disk.stream := by
    refine stopped_stream (hh.empty.symm.imp id fun hn => ?_)
    have hp : Pull log (v.disk.since r) r.nowNs (fetchNewLines r (v.disk.since r)) := pull_new hc
    have hperm := hp.perm
    rw [hn] at hperm
    exact hperm.eq_nil
  have hwatermark : (v.stopped mi r s).disk.watermark = v.disk.watermark := stopped_watermark hh.early
  cases hi with
  | fresh hs hw he => exact .fresh (hstream.trans hs) (hwatermark.trans hw) he
  | resumed b p w e hp hw he hb hpull hrest =>
    have hseed : (v.stopped mi r s).seed = some p := by simp [Service.stopped, hp]
    exact .resumed b p w e hseed (hwatermark.trans hw) he hb (hstream ▸ hpull) hrest

theorem inv_reached {logs : String → List Line} {v : String → Service μ} (h : Reached mi (Service.Meets mi) logs v)
    (name : String) : (v name).Inv (logs name) := by
  induction h with
  | start => exact .fresh rfl rfl rfl
  | @completed v n r _ hc hr ih =>
    by_cases hn : name = n
    · subst hn
      rw [Function.update_self]
      exact inv_completed ih hc hr
    · rw [Function.update_of_ne hn]
      exact ih
  | @stopped v n r s _ hc hh ih =>
    by_cases hn : name = n
    · subst hn
      rw [Function.update_self]
      exact inv_stopped ih hc hh.2
    · rw [Function.update_of_ne hn]
      exact ih

/-- The stream may hold more, of what the watermark has not passed. -/
theorem exact_more {v' : Service μ} {xs : List Line} (hi : v.Inv log) (hseed : ∀ p, v.seed = some p → v'.seed = some p)
    (hw' : v'.disk.watermark = v.disk.watermark) (he' : v'.ended = v.ended)
    (hl : lines v'.disk.stream = lines v.disk.stream ++ xs)
    (hxs : ∀ x ∈ xs, x ∈ log ∧ ∀ w, v.disk.watermark = some w → w ≤ x.ts)
    (hsorted : xs.Pairwise fun x y => x.ts ≤ y.ts) : v'.Exact log := by
  cases hi with
  | fresh hs hw he =>
    rw [hs] at hl
    refine ⟨fun p e l _ hv => ?_, hl ▸ hsorted, fun p w l _ hv => ?_⟩
    · rw [he', he] at hv
      cases hv
    · rw [hw', hw] at hv
      cases hv
  | resumed b p w e hp hw he hb hpull hrest =>
    obtain ⟨-, hpull⟩ := hpull
    refine ⟨fun p' e' l hp' hv hle hlt => ?_, ?_, fun p' w' l hp' hv hm hle hlt => ?_⟩
    · obtain rfl : p = p' := Option.some.inj ((hseed p hp).symm.trans hp')
      obtain rfl : e = e' := Option.some.inj (he.symm.trans (he'.symm.trans hv))
      rw [hl, List.count_append]
      rcases lt_or_ge l.ts w with hlw | hwl
      · have hx : l ∉ xs := fun hx => absurd ((hxs l hx).2 w hw) hlw.not_ge
        rw [hpull.count (hb.trans hle) hlw, List.count_eq_zero_of_not_mem hx, Nat.add_zero]
      · -- the last completed run saw no line here
        have hlog : l ∉ log := fun hm => List.eq_nil_iff_forall_not_mem.1 hrest l (mem_window.2 ⟨hm, hwl, hlt⟩)
        rw [List.count_eq_zero_of_not_mem hlog, List.count_eq_zero_of_not_mem fun hx => hlog (hpull.mem hx).1,
          List.count_eq_zero_of_not_mem fun hx => hlog (hxs l hx).1]
    · rw [hl]
      exact List.pairwise_append.2 ⟨hpull.sorted, hsorted, fun x hx y hy => (hpull.mem hx).2.2.le.trans ((hxs y hy).2 w hw)⟩
    · obtain rfl : p = p' := Option.some.inj ((hseed p hp).symm.trans hp')
      obtain rfl : w = w' := Option.some.inj (hw.symm.trans (hw'.symm.trans hv))
      rw [hl]
      exact List.mem_append_left _ (hpull.perm.mem_iff.2 (mem_window.2 ⟨hm, hb.trans hle, hlt⟩))

theorem Service.Inv.exact (hi : v.Inv log) : v.Exact log :=
  exact_more hi (fun _ hp => hp) rfl rfl (List.append_nil _).symm (fun _ hx => by cases hx) .nil

/-- A run under way has appended lines that the watermark has not passed. -/
theorem Service.Inv.stopped_exact {s : Stop μ} (hi : v.Inv log) (hc : r.Complete log)
    (hs : s.done < (processService mi v.disk r).length) : (v.stopped mi r s).Exact log := by
  obtain ⟨n, hl⟩ := stopped_lines mi v.disk r s
  have hp : Pull log (v.disk.since r) r.nowNs (fetchNewLines r (v.disk.since r)) := pull_new hc
  refine exact_more hi (fun p hp => by simp [Service.stopped, hp]) (stopped_watermark hs) rfl hl (fun x hx => ?_)
    (hp.sorted.sublist (List.take_sublist n _))
  obtain ⟨hm, hle, -⟩ := hp.mem (List.mem_of_mem_take hx)
  refine ⟨hm, fun w hw => ?_⟩
  rwa [Disk.since, hw] at hle

/-- Runs that are stopped only where it is harmless ingest each line once; also a run under way does. -/
theorem ingested_once {logs : String → List Line} {v : String → Service μ} (h : Reached mi (Service.Meets mi) logs v)
    (name : String) : (v name).Exact (logs name) ∧ ∀ r s, r.Complete (logs name) → s.done < (processService mi (v name).disk r).length →
      ((v name).stopped mi r s).Exact (logs name) :=
  ⟨(inv_reached h name).exact, fun _ _ hc hs => (inv_reached h name).stopped_exact hc hs⟩

end Reached

/-- Each text is its own template. -/
def verbatim : Miner Unit := ⟨(), fun _ text => ((), 0, text)⟩

def order : Line := ⟨5, "order placed"⟩

/-- Loki has one line. -/
def oneLine : String → List Line := fun _ => [order]

/-- A run at time `t` that goes back to the beginning. -/
def runAt (t : Int) : Run := ⟨t, t, fun a b => window (·.ts) [order] a b⟩

theorem ingested_once_one : ∃ v : String → Service Unit, Reached verbatim (Service.Meets verbatim) oneLine v ∧
    (v "orders").Exact (oneLine "orders") ∧ lines (v "orders").disk.stream = [order] := by
  have h : Reached verbatim (Service.Meets verbatim) oneLine
      (Function.update (fun _ => {}) "orders" (Service.completed verbatim {} (runAt 10))) :=
    .completed .start (fun _ _ _ => .refl _) ⟨fun _ hw => (by cases hw), fun _ _ hp => (by cases hp)⟩
  exact ⟨_, h, (ingested_once h "orders").1, by decide +kernel⟩

/-- The stream is written, the watermark is not. -/
def beforeWatermark : Stop Unit := ⟨2, 1, false, none⟩

/-- The run is stopped before it saves the watermark, and the next one appends the line again. -/
theorem ingested_twice : ¬ ∀ (logs : String → List Line) (v : String → Service Unit),
    Reached verbatim (fun _ _ _ _ => True) logs v → ∀ name, (v name).Exact (logs name) := by
  intro hall
  have h₁ : Reached verbatim (fun _ _ _ _ => True) oneLine
      (Function.update (fun _ => {}) "orders" (Service.stopped verbatim {} (runAt 10) beforeWatermark)) :=
    .stopped .start (fun _ _ _ => .refl _) trivial
  have h₂ : Reached verbatim (fun _ _ _ _ => True) oneLine _ :=
    @Reached.completed _ _ _ _ _ "orders" (runAt 20) h₁ (fun _ _ _ => .refl _) trivial
  have hc := (hall _ _ h₂ "orders").once 0 20 order (by decide +kernel) (by decide +kernel) (by decide) (by decide)
  exact absurd hc (by decide +kernel)

end Wardence.LogPipeline
