import Mathlib.Data.Rat.Floor
import Mathlib.Tactic.Linarith
import Mathlib.Tactic.Positivity
import Wardence.Replay.Transcript
/-!
# The replay of an episode

`replaySchedule.js`: the units of an episode's replay, one after the other, and what is seen of
each at a position of the playhead. Seconds are exact. Objects have their own keys only.
-/
namespace Wardence.Replay

open Py (Json)

def CHARS_PER_SECOND : ℚ := 20
def MIN_TYPEWRITER_S : ℚ := 11 / 10
def HEADER_S : ℚ := 8 / 10
def FADE_RAMP_S : ℚ := 9 / 10
def GAP_S : ℚ := 7 / 10
def FADE_ONLY_S : ℚ := FADE_RAMP_S + GAP_S
def EVIDENCE_FADE_S : ℚ := FADE_RAMP_S + 26 / 10

def typewriterDuration (text : Js.Text) : ℚ := max MIN_TYPEWRITER_S (text.length / CHARS_PER_SECOND)

def fadeTypewriterDuration : Option Js.Text → ℚ
  | none | some [] => FADE_ONLY_S
  | some text => FADE_RAMP_S + typewriterDuration text + GAP_S

/-! ## Reasoning -/

/-- What of a separator is still to be passed over. -/
inductive Skip where
  | nothing
  | spaces
  | newlines
  deriving DecidableEq

/-- `split(/(?<=[.!])\s+|\n+/)`, with the unit before the rest, and the part so far. -/
def splitSentences : Skip → Option UInt16 → Js.Text → Js.Text → List Js.Text
  | _, _, part, [] => [part]
  | skip, prev, part, u :: us =>
    if skip = .spaces ∧ Js.isSpace u ∨ skip = .newlines ∧ u = 10 then splitSentences skip (some u) part us
    else if (prev = some 46 ∨ prev = some 33) ∧ Js.isSpace u then part :: splitSentences .spaces (some u) [] us
    else if u = 10 then part :: splitSentences .newlines (some u) [] us
    else splitSentences .nothing (some u) (part ++ [u]) us

def splitReasoning (text : Option Js.Text) : List Js.Text :=
  (((splitSentences .nothing none [] (text.getD [])).map Js.trim).filter (· ≠ [])).take 2

/-! ## The episode -/

/-- A step of `action_result.progress_log`. -/
structure LogStep where
  step : Js.Text
  status : Js.Text
  detail : Option Js.Text

structure Episode where
  transcript : Option (List Js.Text)
  reasoning : Option Js.Text
  toolOutput : Option (List (String × Json))
  predictedClass : Option String
  scoresActionTaken : Option Js.Text
  progressLog : Option (List LogStep)
  /-- The reason of `gate_substitution`. -/
  gateSubstitution : Option (Option Js.Text)
  dimensionABefore : Option String

/-- An entry of the trust ladder. -/
structure TrustEntry where
  faultClass : String
  tier : String
  state : String
  streak : Option Nat

/-- The `body` of `computeTrustContext`. -/
def trustBody (entry : TrustEntry) (episode : Episode) : Js.Text :=
  if entry.tier ≠ "auto-fix" then
    Js.of (entry.faultClass ++ " has no safe, bounded ops-level fix — the system is designed to correctly withhold autonomy here " ++
      "rather than attempt one. Diagnosis only, by design.")
  else if episode.dimensionABefore.getD entry.state = "can_act" then
    Js.of ("This class has earned autonomous fix rights (" ++ (entry.streak.map toString).getD "null" ++ " consecutive correct outcome" ++
      (if entry.streak = some 1 then "" else "s") ++ ") — a wrong or unsafe result here would demote it back to report-only.")
  else
    Js.of ("This class is capable of an autonomous fix but hasn't yet earned the right to act on its own — every real outcome here " ++
      "is still being measured toward that.")

def FAULT_CLASS_RELEVANT_FIELDS : List (String × List String) :=
  [("oom", ["peak_memory_mib", "oom_pods"]), ("crash-loop", ["crashlooping_pods"]), ("disk-full", ["evicted_pods"]),
    ("bad-rollout", ["front_end_image_pull_failing"]), ("init-failure", ["payment_stuck_not_ready"]),
    ("session-cart-failure", ["session_db_replicas_hit_zero"]), ("network-partition", ["combined_throughput_bps"]),
    ("network-latency", ["p95_latency_ms"]), ("memory-leak", ["peak_memory_mib"]),
    ("connection-pool-exhaustion", ["peak_threads_connected"]), ("cpu-throttling", ["cpu_throttle_periods_increase"]),
    ("under-provisioned-replicas", ["current_replicas"])]

/-- The keys of a tool's output that hold something. -/
def presentKeys (toolOutput : List (String × Json)) : List String :=
  toolOutput.filterMap fun (k, v) => match v with
    | .null => none
    | _ => some k

/-- The line of a step. -/
def LogStep.line (s : LogStep) : Js.Text :=
  s.step ++ Js.of ": " ++ s.status ++
    match s.detail with
    | none | some [] => []
    | some detail => Js.of " (" ++ detail ++ Js.of ")"

/-! ## The units -/

inductive Kind where
  | instant
  | fade
  | fadeTypewriter
  deriving DecidableEq

inductive UnitData where
  | turn (turn : Nat) (action : Js.Text)
  | revealCount (n : Nat)

/-- What `push` is given. -/
structure Draft where
  id : String
  kind : Kind
  duration : ℚ
  textStart : ℚ := 0
  part : String
  text : Option Js.Text := none
  label : Option String := none
  data : Option UnitData := none

structure ReplayUnit extends Draft where
  start : ℚ
  stop : ℚ

/-- A fade over the whole unit. -/
def fading (id : String) (duration : ℚ) : Draft where
  id
  kind := .fade
  duration
  part := id

/-- A fade, and then the text. -/
def typing (id part : String) (text : Option Js.Text) (label : Option String) (data : Option UnitData) : Draft where
  id
  kind := .fadeTypewriter
  duration := fadeTypewriterDuration text
  textStart := FADE_RAMP_S
  part
  text
  label
  data

/-- `text || null` -/
def orNull : Js.Text → Option Js.Text
  | [] => none
  | text => some text

section Drafts
variable (episode : Episode)

/-- The turns, when the episode has a transcript. -/
def turns : Option (List Turn) :=
  match episode.transcript with
  | none | some [] => none
  | some lines => some (parseTranscriptTurns lines)

def decision : Option Js.Text := orNull (Js.trim (episode.reasoning.getD []))

def reasoningDrafts : List Draft :=
  match turns episode with
  | some turns =>
    (turns.zipIdx.map fun (turn, i) =>
      typing ("turn-" ++ toString i) "reasoning-turn" turn.resultText none (some (.turn turn.turn turn.action))) ++
    (decision episode).toList.map fun text => typing "decision" "reasoning-decision" (some text) none none
  | none =>
    (splitReasoning episode.reasoning).zipIdx.map fun (s, i) =>
      typing ("sentence-" ++ toString i) "reasoning-sentence" (some s) (some (if i = 0 then "OBSERVATION" else "HYPOTHESIS")) none

def evidenceDrafts : List Draft :=
  match episode.toolOutput with
  | none => []
  | some toolOutput =>
    let relevantKeys := (episode.predictedClass.bind (FAULT_CLASS_RELEVANT_FIELDS.lookup ·)).getD []
    (if (presentKeys toolOutput).any (· ∈ relevantKeys) then [fading "evidence-primary" EVIDENCE_FADE_S] else []) ++
      if (presentKeys toolOutput).any (· ∉ relevantKeys) then [fading "evidence-secondary" EVIDENCE_FADE_S] else []

/-- The steps that were logged, when an action was taken. -/
def steps : List LogStep :=
  match episode.scoresActionTaken with
  | none | some [] => []
  | some _ => episode.progressLog.getD []

def actionDrafts : List Draft :=
  match episode.scoresActionTaken with
  | none | some [] => []
  | some _ =>
    match steps episode with
    | [] => [{ fading "action-step-0" FADE_ONLY_S with part := "action-step", data := some (.revealCount 1) }]
    | steps => steps.zipIdx.map fun (s, i) =>
        typing ("action-step-" ++ toString i) "action-step" (some s.line) none (some (.revealCount (i + 1)))

def gateDrafts : List Draft :=
  episode.gateSubstitution.toList.map fun reason => typing "gate-substitution" "gate-substitution" (orNull (reason.getD [])) none none

def trustDrafts (trustEntry : Option TrustEntry) : List Draft :=
  trustEntry.toList.map fun entry => typing "trust-context" "trust-context" (orNull (trustBody entry episode)) none none

/-- What `buildReplaySchedule` pushes, in order. -/
def drafts (trustEntry : Option TrustEntry) : List Draft :=
  [{ id := "header", kind := .instant, duration := HEADER_S, part := "header" }, fading "context" FADE_ONLY_S] ++
    reasoningDrafts episode ++ evidenceDrafts episode ++ actionDrafts episode ++ gateDrafts episode ++ trustDrafts episode trustEntry ++
    [fading "durability" FADE_ONLY_S]

end Drafts

structure Schedule where
  units : List ReplayUnit
  totalDuration : ℚ

/-- The pushes, from `t` on. -/
def push : ℚ → List Draft → List ReplayUnit
  | _, [] => []
  | t, d :: ds => { d with start := t, stop := t + d.duration } :: push (t + d.duration) ds

def buildReplaySchedule (episode : Episode) (trustEntry : Option TrustEntry) : Schedule where
  units := push 0 (drafts episode trustEntry)
  totalDuration := ((drafts episode trustEntry).map (·.duration)).sum

/-! ## What is seen -/

def fadeProgress (unit : Option ReplayUnit) (elapsed : ℚ) : ℚ :=
  match unit with
  | none => 0
  | some unit =>
    if unit.kind = .instant then 1
    else
      let leadTime := if unit.kind = .fadeTypewriter then unit.textStart else FADE_RAMP_S
      if elapsed ≤ unit.start then 0
      else if elapsed ≥ unit.start + leadTime then 1
      else if leadTime > 0 then (elapsed - unit.start) / leadTime else 1

def textProgress (unit : Option ReplayUnit) (elapsed : ℚ) : ℚ :=
  match unit with
  | none => 0
  | some unit =>
    match unit.text with
    | none | some [] => 0
    | some _ =>
      let textStartAbs := unit.start + unit.textStart
      if elapsed ≤ textStartAbs then 0
      else if elapsed ≥ unit.stop then 1
      else if unit.stop - textStartAbs > 0 then (elapsed - textStartAbs) / (unit.stop - textStartAbs) else 1

/-- `Math.round` -/
def round (q : ℚ) : Int := ⌊q + 1 / 2⌋

def typedText (unit : Option ReplayUnit) (elapsed : ℚ) : Js.Text :=
  match unit.bind (·.text) with
  | none => []
  | some text => text.take (round (text.length * textProgress unit elapsed)).toNat

/-! ## A well-formed replay -/

/-- The units lie one after the other from `t` to `finish`. -/
def Tiles : ℚ → List ReplayUnit → ℚ → Prop
  | t, [], finish => t = finish
  | t, u :: us, finish => u.start = t ∧ u.start < u.stop ∧ Tiles u.stop us finish

def Progress (f : ℚ → ℚ) : Prop := Monotone f ∧ ∀ t, 0 ≤ f t ∧ f t ≤ 1

/-- The unit is all there from `GAP_S` before its end on. -/
def Settled (u : ReplayUnit) : Prop :=
  u.kind ≠ .instant → ∀ t, u.stop - GAP_S ≤ t → fadeProgress (some u) t = 1 ∧ typedText (some u) t = u.text.getD []

structure WellFormed (s : Schedule) : Prop where
  tiles : Tiles 0 s.units s.totalDuration
  fade : ∀ u ∈ s.units, Progress (fadeProgress (some u))
  text : ∀ u ∈ s.units, Progress (textProgress (some u))
  typed : ∀ u ∈ s.units, ∀ t, typedText (some u) t <+: u.text.getD [] ∧ ∀ t', t ≤ t' → typedText (some u) t <+: typedText (some u) t'
  settled : ∀ u ∈ s.units, Settled u

/-! ### The schedule -/

/-- What each `push` keeps to. -/
structure Draft.Ok (d : Draft) : Prop where
  lasts : 0 < d.duration
  fade : d.kind = .fade → FADE_ONLY_S ≤ d.duration
  typing : d.kind = .fadeTypewriter → d.textStart = FADE_RAMP_S ∧ d.duration = fadeTypewriterDuration d.text
  silent : d.kind ≠ .fadeTypewriter → d.text = none

theorem typewriterDuration_pos (text : Js.Text) : MIN_TYPEWRITER_S ≤ typewriterDuration text := le_max_left ..

theorem fadeTypewriterDuration_least (text : Option Js.Text) : FADE_ONLY_S ≤ fadeTypewriterDuration text := by
  match text with
  | none | some [] => exact le_refl _
  | some (u :: us) =>
    have h := typewriterDuration_pos (u :: us)
    simp only [fadeTypewriterDuration, FADE_ONLY_S, MIN_TYPEWRITER_S] at *
    linarith

theorem fade_only_pos : (0 : ℚ) < FADE_ONLY_S := by norm_num [FADE_ONLY_S, FADE_RAMP_S, GAP_S]

theorem fading_ok (id : String) {duration : ℚ} (h : FADE_ONLY_S ≤ duration) : (fading id duration).Ok where
  lasts := lt_of_lt_of_le fade_only_pos h
  fade _ := h
  typing h := by cases h
  silent _ := rfl

theorem typing_ok (id part : String) (text : Option Js.Text) (label : Option String) (data : Option UnitData) :
    (typing id part text label data).Ok where
  lasts := lt_of_lt_of_le fade_only_pos (fadeTypewriterDuration_least text)
  fade h := by cases h
  typing _ := ⟨rfl, rfl⟩
  silent h := absurd rfl h

section Drafts
variable (episode : Episode)

theorem reasoningDrafts_ok : ∀ d ∈ reasoningDrafts episode, d.Ok := by
  intro d hd
  unfold reasoningDrafts at hd
  split at hd
  · simp only [List.mem_append, List.mem_map] at hd
    rcases hd with ⟨x, _, rfl⟩ | ⟨x, _, rfl⟩
    · apply typing_ok
    · apply typing_ok
  · obtain ⟨x, _, rfl⟩ := List.mem_map.mp hd
    apply typing_ok

theorem evidenceDrafts_ok : ∀ d ∈ evidenceDrafts episode, d.Ok := by
  intro d hd
  have hlong : FADE_ONLY_S ≤ EVIDENCE_FADE_S := by norm_num [FADE_ONLY_S, EVIDENCE_FADE_S, FADE_RAMP_S, GAP_S]
  unfold evidenceDrafts at hd
  split at hd
  · cases hd
  · simp only [List.mem_append, List.mem_ite_nil_right, List.mem_singleton] at hd
    rcases hd with ⟨_, rfl⟩ | ⟨_, rfl⟩
    · exact fading_ok _ hlong
    · exact fading_ok _ hlong

theorem actionDrafts_ok : ∀ d ∈ actionDrafts episode, d.Ok := by
  intro d hd
  unfold actionDrafts at hd
  split at hd
  · cases hd
  · cases hd
  · split at hd
    · cases List.mem_singleton.mp hd
      exact { fading_ok "action-step-0" (le_refl FADE_ONLY_S) with }
    · obtain ⟨x, _, rfl⟩ := List.mem_map.mp hd
      apply typing_ok

theorem drafts_ok (trustEntry : Option TrustEntry) : ∀ d ∈ drafts episode trustEntry, d.Ok := by
  intro d hd
  simp only [drafts, List.mem_append] at hd
  rcases hd with (((((hd | hd) | hd) | hd) | hd) | hd) | hd
  · rcases List.mem_cons.mp hd with rfl | hd
    · exact ⟨by norm_num [HEADER_S], nofun, nofun, fun _ => rfl⟩
    · cases List.mem_singleton.mp hd
      exact fading_ok _ (le_refl _)
  · exact reasoningDrafts_ok episode d hd
  · exact evidenceDrafts_ok episode d hd
  · exact actionDrafts_ok episode d hd
  · obtain ⟨x, _, rfl⟩ := List.mem_map.mp hd
    apply typing_ok
  · obtain ⟨x, _, rfl⟩ := List.mem_map.mp hd
    apply typing_ok
  · cases List.mem_singleton.mp hd
    exact fading_ok _ (le_refl _)

end Drafts

/-- The pushes tile the time they take. -/
theorem push_tiles : ∀ (ds : List Draft) (t : ℚ), (∀ d ∈ ds, d.Ok) → Tiles t (push t ds) (t + (ds.map (·.duration)).sum)
  | [], t, _ => by simp [push, Tiles]
  | d :: ds, t, h => by
    have hd := (h d (.head _)).lasts
    have hr := push_tiles ds (t + d.duration) fun x hx => h x (.tail _ hx)
    refine ⟨rfl, ?_, ?_⟩
    · change t < t + d.duration
      linarith
    · simpa [add_assoc] using hr

theorem push_toDraft (ds : List Draft) (t : ℚ) : (push t ds).map (·.toDraft) = ds := by
  induction ds generalizing t with
  | nil => rfl
  | cons d ds ih => simp [push, ih]

theorem push_stop (ds : List Draft) (t : ℚ) : ∀ u ∈ push t ds, u.stop = u.start + u.duration := by
  induction ds generalizing t with
  | nil => intro u hu; cases hu
  | cons d ds ih =>
    intro u hu
    rcases List.mem_cons.mp hu with rfl | hu
    · rfl
    · exact ih _ u hu

/-! ### What is seen -/

/-- From 0 at `a` to 1 at `b`. -/
def ramp (a b x : ℚ) : ℚ := if x ≤ a then 0 else if x ≥ b then 1 else if b - a > 0 then (x - a) / (b - a) else 1

theorem ramp_nonneg (a b x : ℚ) : 0 ≤ ramp a b x := by
  unfold ramp
  split_ifs with h₁ h₂ h₃
  · exact le_refl _
  · exact zero_le_one
  · exact div_nonneg (by linarith) h₃.le
  · exact zero_le_one

theorem ramp_le_one (a b x : ℚ) : ramp a b x ≤ 1 := by
  unfold ramp
  split_ifs with h₁ h₂ h₃
  · exact zero_le_one
  · exact le_refl _
  · exact (div_le_one h₃).mpr (by linarith)
  · exact le_refl _

theorem ramp_monotone (a b : ℚ) : Monotone (ramp a b) := by
  intro x y hxy
  by_cases hx : x ≤ a
  · rw [show ramp a b x = 0 from if_pos hx]
    exact ramp_nonneg a b y
  by_cases hy : y ≥ b
  · rw [show ramp a b y = 1 by rw [ramp, if_neg (by linarith), if_pos hy]]
    exact ramp_le_one a b x
  · have hab : b - a > 0 := by linarith
    rw [ramp, ramp, if_neg hx, if_neg (by linarith), if_pos hab, if_neg (by linarith), if_neg hy, if_pos hab]
    exact div_le_div_of_nonneg_right (by linarith) hab.le

theorem ramp_progress (a b : ℚ) : Progress (ramp a b) := ⟨ramp_monotone a b, fun t => ⟨ramp_nonneg a b t, ramp_le_one a b t⟩⟩

theorem const_progress {c : ℚ} (h₀ : 0 ≤ c) (h₁ : c ≤ 1) : Progress fun _ => c := ⟨monotone_const, fun _ => ⟨h₀, h₁⟩⟩

theorem fadeProgress_eq (u : ReplayUnit) : fadeProgress (some u) =
    if u.kind = .instant then fun _ => 1
    else ramp u.start (u.start + if u.kind = .fadeTypewriter then u.textStart else FADE_RAMP_S) := by
  funext t
  split_ifs <;> simp_all [fadeProgress, ramp]

theorem textProgress_eq (u : ReplayUnit) : textProgress (some u) =
    if u.text.getD [] = [] then fun _ => 0 else ramp (u.start + u.textStart) u.stop := by
  funext t
  unfold textProgress
  rcases h : u.text with _ | _ | ⟨c, cs⟩
  · simp [h]
  · simp [h]
  · simp [h, ramp]

theorem fade_progress (u : ReplayUnit) : Progress (fadeProgress (some u)) := by
  rw [fadeProgress_eq]
  split_ifs
  · exact const_progress zero_le_one (le_refl _)
  · apply ramp_progress
  · apply ramp_progress

theorem text_progress (u : ReplayUnit) : Progress (textProgress (some u)) := by
  rw [textProgress_eq]
  split_ifs
  · exact const_progress (le_refl _) zero_le_one
  · apply ramp_progress

theorem typedText_eq (u : ReplayUnit) (t : ℚ) :
    typedText (some u) t = (u.text.getD []).take (round ((u.text.getD []).length * textProgress (some u) t)).toNat := by
  unfold typedText
  rcases h : u.text with _ | text
  · simp [h]
  · simp [h]

theorem typedText_opens (u : ReplayUnit) (t : ℚ) : typedText (some u) t <+: u.text.getD [] := by
  rw [typedText_eq]
  apply List.take_prefix

theorem typedText_grows (u : ReplayUnit) {t t' : ℚ} (h : t ≤ t') : typedText (some u) t <+: typedText (some u) t' := by
  rw [typedText_eq, typedText_eq]
  apply List.take_prefix_take_left
  apply Int.toNat_le_toNat
  apply Int.floor_le_floor
  have hp := (text_progress u).1 h
  have hn : (0 : ℚ) ≤ (u.text.getD []).length := Nat.cast_nonneg _
  have := mul_le_mul_of_nonneg_left hp hn
  linarith

theorem ramp_top {a b t : ℚ} (h : a < b) (ht : b ≤ t) : ramp a b t = 1 := by
  rw [ramp, if_neg (by linarith), if_pos ht]

/-- A unit is faded in when its ramp is over. -/
theorem fadeProgress_top {u : ReplayUnit} (h : u.kind = .fadeTypewriter → u.textStart = FADE_RAMP_S) {t : ℚ}
    (ht : u.start + FADE_RAMP_S ≤ t) : fadeProgress (some u) t = 1 := by
  have hr : u.start < u.start + FADE_RAMP_S := by norm_num [FADE_RAMP_S]
  rw [fadeProgress_eq]
  split_ifs with h₁ h₂
  · rfl
  · rw [h h₂]
    exact ramp_top hr ht
  · exact ramp_top hr ht

/-- How much of a text is typed `GAP_S` before the end, when it is typed until the end. -/
theorem textProgress_gap {u : ReplayUnit} {x : Js.Text} (hx : u.text = some x) (hne : x ≠ []) (hs : u.textStart = FADE_RAMP_S)
    (hd : u.stop = u.start + fadeTypewriterDuration u.text) :
    textProgress (some u) (u.stop - GAP_S) = typewriterDuration x / (typewriterDuration x + GAP_S) := by
  have hpos := typewriterDuration_pos x
  have hdur : fadeTypewriterDuration u.text = FADE_RAMP_S + typewriterDuration x + GAP_S := by
    obtain ⟨c, cs, rfl⟩ := List.exists_cons_of_ne_nil hne
    rw [hx, fadeTypewriterDuration]
    simp
  have htime : 0 < typewriterDuration x := lt_of_lt_of_le (by norm_num [MIN_TYPEWRITER_S]) hpos
  have hgap : 0 < GAP_S := by norm_num [GAP_S]
  rw [textProgress_eq, if_neg (by simpa [hx] using hne), hs, hd, hdur, ramp, if_neg (by linarith), if_neg (by linarith),
    if_pos (by linarith)]
  congr 1 <;> ring

/-- The gap is over before half a character is left exactly for a single character. -/
theorem typed_gap {x : Js.Text} (hne : x ≠ []) :
    (x.length : ℚ) - 1 / 2 ≤ x.length * (typewriterDuration x / (typewriterDuration x + GAP_S)) ↔ x.length ≤ 1 := by
  have hn : (1 : ℚ) ≤ x.length := by exact_mod_cast List.length_pos_iff.mpr hne
  have hpos := typewriterDuration_pos x
  simp only [MIN_TYPEWRITER_S] at hpos
  rw [← mul_div_assoc, le_div_iff₀ (by simp only [GAP_S]; linarith)]
  constructor
  · intro h
    by_contra hlong
    have hlong : (2 : ℚ) ≤ x.length := by exact_mod_cast Nat.lt_of_not_le hlong
    have hmax : typewriterDuration x < 14 / 10 * x.length - GAP_S := by
      apply max_lt <;> norm_num [MIN_TYPEWRITER_S, CHARS_PER_SECOND, GAP_S] <;> linarith
    simp only [GAP_S] at *
    nlinarith
  · intro h
    have hone : (x.length : ℚ) = 1 := le_antisymm (by exact_mod_cast h) hn
    simp only [GAP_S, hone]
    linarith

theorem typed_all (u : ReplayUnit) (t : ℚ) : typedText (some u) t = u.text.getD [] ↔
    ((u.text.getD []).length : ℚ) - 1 / 2 ≤ (u.text.getD []).length * textProgress (some u) t := by
  have hnonneg : 0 ≤ ⌊(u.text.getD []).length * textProgress (some u) t + 1 / 2⌋ := by
    apply Int.floor_nonneg.mpr
    have := mul_nonneg (Nat.cast_nonneg (u.text.getD []).length) ((text_progress u).2 t).1
    linarith
  rw [typedText_eq, List.take_eq_self_iff, round]
  constructor
  · intro h
    have hle : ((u.text.getD []).length : Int) ≤ ⌊(u.text.getD []).length * textProgress (some u) t + 1 / 2⌋ := by omega
    have := Int.le_floor.mp hle
    push_cast at this
    linarith
  · intro h
    have hle : ((u.text.getD []).length : Int) ≤ ⌊(u.text.getD []).length * textProgress (some u) t + 1 / 2⌋ := by
      apply Int.le_floor.mpr
      push_cast
      linarith
    omega

/-- A unit that is typed until its end has its gap exactly when its text is at most one character. -/
theorem settled_typing {u : ReplayUnit} (hk : u.kind = .fadeTypewriter) (hs : u.textStart = FADE_RAMP_S)
    (hd : u.stop = u.start + fadeTypewriterDuration u.text) : Settled u ↔ ∀ x, u.text = some x → x.length ≤ 1 := by
  have hleast := fadeTypewriterDuration_least u.text
  have hfade : ∀ t, u.stop - GAP_S ≤ t → fadeProgress (some u) t = 1 := by
    intro t ht
    apply fadeProgress_top fun _ => hs
    simp only [FADE_ONLY_S] at hleast
    linarith
  constructor
  · intro h x hx
    by_cases hne : x = []
    · simp [hne]
    have htyped := (h (by simp [hk]) (u.stop - GAP_S) (le_refl _)).2
    rw [typed_all, textProgress_gap hx hne hs hd, hx] at htyped
    exact (typed_gap hne).mp htyped
  · intro h _ t ht
    refine ⟨hfade t ht, ?_⟩
    rcases hx : u.text with _ | x
    · simp [typedText, hx]
    by_cases hne : x = []
    · simp [typedText, hx, hne]
    -- what is typed does not shrink after the gap has begun
    have hgap := (typed_gap hne).mpr (h x hx)
    have hgrows := mul_le_mul_of_nonneg_left ((text_progress u).1 ht) (Nat.cast_nonneg x.length)
    rw [textProgress_gap hx hne hs hd] at hgrows
    have htyped := (typed_all u t).mpr (by rw [hx]; exact hgap.trans hgrows)
    rwa [hx] at htyped

theorem settled_fade {u : ReplayUnit} (hk : u.kind ≠ .fadeTypewriter) (hn : u.text = none) (hd : u.stop = u.start + u.duration)
    (hf : u.kind = .fade → FADE_ONLY_S ≤ u.duration) : Settled u := by
  intro hi t ht
  have hlong : FADE_ONLY_S ≤ u.duration := hf (by cases h : u.kind <;> simp_all)
  refine ⟨fadeProgress_top (fun h => absurd h hk) ?_, by simp [typedText, hn]⟩
  simp only [FADE_ONLY_S] at hlong
  linarith

theorem settled_iff {u : ReplayUnit} (hok : u.toDraft.Ok) (hd : u.stop = u.start + u.duration) :
    Settled u ↔ ∀ x, u.text = some x → x.length ≤ 1 := by
  by_cases hk : u.kind = .fadeTypewriter
  · obtain ⟨hs, hdur⟩ := hok.typing hk
    exact settled_typing hk hs (by rw [hd, hdur])
  · have hn := hok.silent hk
    exact iff_of_true (settled_fade hk hn hd hok.fade) (by simp [hn])

/-! ### The texts -/

/-- Every text that is typed in an episode's replay. -/
def typedTexts (episode : Episode) (trustEntry : Option TrustEntry) : List Js.Text :=
  (match turns episode with
    | some turns => turns.filterMap (·.resultText) ++ (decision episode).toList
    | none => splitReasoning episode.reasoning) ++
    (steps episode).map LogStep.line ++ episode.gateSubstitution.toList.filterMap (fun reason => orNull (reason.getD [])) ++
    trustEntry.toList.filterMap fun entry => orNull (trustBody entry episode)

theorem filterMap_zipIdx {α β : Type} (f : α → Option β) (l : List α) : l.zipIdx.filterMap (fun p => f p.1) = l.filterMap f := by
  conv => rhs; rw [← List.zipIdx_map_fst 0 l, List.filterMap_map]
  rfl

theorem reasoning_texts (episode : Episode) : (reasoningDrafts episode).filterMap (·.text) =
    match turns episode with
    | some turns => turns.filterMap (·.resultText) ++ (decision episode).toList
    | none => splitReasoning episode.reasoning := by
  unfold reasoningDrafts
  split
  · rename_i turns hturns
    rw [List.filterMap_append, List.filterMap_map, List.filterMap_map]
    congr 1
    · exact filterMap_zipIdx (·.resultText) turns
    · exact List.filterMap_some
  · rw [List.filterMap_map]
    exact (filterMap_zipIdx some _).trans List.filterMap_some

theorem action_texts (episode : Episode) : (actionDrafts episode).filterMap (·.text) = (steps episode).map LogStep.line := by
  unfold actionDrafts
  split
  · simp_all [steps]
  · simp_all [steps]
  · split
    · simp_all [fading]
    · rw [List.filterMap_map]
      exact (filterMap_zipIdx (fun s : LogStep => some s.line) _).trans (List.filterMap_eq_map ▸ rfl)

theorem evidence_texts (episode : Episode) : (evidenceDrafts episode).filterMap (·.text) = [] := by
  unfold evidenceDrafts
  split
  · rfl
  · simp only [List.filterMap_append]
    split_ifs <;> rfl

theorem drafts_texts (episode : Episode) (trustEntry : Option TrustEntry) :
    (drafts episode trustEntry).filterMap (·.text) = typedTexts episode trustEntry := by
  simp only [drafts, typedTexts, List.filterMap_append, reasoning_texts, evidence_texts, action_texts, gateDrafts, trustDrafts,
    List.filterMap_map]
  simp [fading, typing, Function.comp_def]

section
variable (episode : Episode) (trustEntry : Option TrustEntry)

/-- The texts are those of the units. -/
theorem mem_typedTexts (x : Js.Text) :
    x ∈ typedTexts episode trustEntry ↔ ∃ u ∈ (buildReplaySchedule episode trustEntry).units, u.text = some x := by
  rw [← drafts_texts, ← push_toDraft (drafts episode trustEntry) 0, List.filterMap_map, List.mem_filterMap]
  rfl

theorem unit_settled : ∀ u ∈ (buildReplaySchedule episode trustEntry).units, Settled u ↔ ∀ x, u.text = some x → x.length ≤ 1 := by
  intro u hu
  have hdraft : u.toDraft ∈ drafts episode trustEntry := push_toDraft (drafts episode trustEntry) 0 ▸ List.mem_map_of_mem hu
  exact settled_iff (drafts_ok episode trustEntry _ hdraft) (push_stop (drafts episode trustEntry) 0 u hu)

theorem short_of_wellFormed (h : WellFormed (buildReplaySchedule episode trustEntry)) :
    ∀ x ∈ typedTexts episode trustEntry, x.length ≤ 1 := by
  intro x hx
  obtain ⟨u, hu, hux⟩ := (mem_typedTexts episode trustEntry x).mp hx
  exact (unit_settled episode trustEntry u hu).mp (h.settled u hu) x hux

end

/-- The replay tiles, fades and types as it should for every episode; the pause after a unit is kept exactly when no text
that is typed has two characters or more, for the typing goes on until the unit ends. -/
theorem wellFormed_iff (episode : Episode) (trustEntry : Option TrustEntry) :
    WellFormed (buildReplaySchedule episode trustEntry) ↔ ∀ x ∈ typedTexts episode trustEntry, x.length ≤ 1 := by
  constructor
  · exact short_of_wellFormed episode trustEntry
  · intro h
    constructor
    case tiles => simpa [buildReplaySchedule] using push_tiles (drafts episode trustEntry) 0 (drafts_ok episode trustEntry)
    case fade => exact fun u _ => fade_progress u
    case text => exact fun u _ => text_progress u
    case typed => exact fun u _ t => ⟨typedText_opens u t, fun t' ht => typedText_grows u ht⟩
    case settled =>
      intro u hu
      exact (unit_settled episode trustEntry u hu).mpr fun x hx => h x ((mem_typedTexts episode trustEntry x).mpr ⟨u, hu, hx⟩)

/-- An episode with a sentence of reasoning, and nothing else. -/
def oneSentence : Episode where
  transcript := none
  reasoning := some (Js.of "A pod was OOMKilled.")
  toolOutput := none
  predictedClass := none
  scoresActionTaken := none
  progressLog := none
  gateSubstitution := none
  dimensionABefore := none

theorem oneSentence_unsettled : ¬ WellFormed (buildReplaySchedule oneSentence none) := by
  intro h
  have hmem : Js.of "A pod was OOMKilled." ∈ typedTexts oneSentence none := by decide
  have hlength := short_of_wellFormed oneSentence none h _ hmem
  exact absurd hlength (by decide)

end Wardence.Replay
