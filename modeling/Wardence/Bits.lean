import Mathlib.Data.List.Sort
import Wardence.Failures
import Wardence.Publisher
/-!
# The published bits

`_recent_bits` of `publish_to_r2.py` shows a class's last outcomes, the same way
in all three dimensions: a correct one whose fix flapped is a `flap`. An episode
whose fix flapped has no correct outcome in Dimension A, so no flap is shown
where flaps are meant to be, and only where they are not.
-/
namespace Wardence.Bits

open Keyed Txn Client Dispatch Episodes Failures

inductive Bit where
  | correct
  | incorrect
  | flap
  deriving DecidableEq, Repr

def BIT_HISTORY_LEN : Nat := 12

/-! ## `_recent_bits` -/

/-- The snapshot of the episode says `flapped`. -/
def flapped (z : Db) (e : String) : Bool := (z.episodeSnapshots.lookup e).any fun n => n.durabilityVerdict = some .flapped

section Rows
variable {τ : Type}

/-- `SELECT ... ORDER BY recorded_at DESC LIMIT ?`, turned round. The clock, and the order it leaves open between rows
of one second, are in `recordedAt`, which has a number for every row. -/
def recentRows (recordedAt : Nat → Nat) (c : String) (h : List (HistoryRow τ)) : List (HistoryRow τ) :=
  let newest := (h.zipIdx.filter fun row => row.1.faultClass = c).insertionSort fun a b => recordedAt b.2 ≤ recordedAt a.2
  (newest.take BIT_HISTORY_LEN).reverse.map (·.1)

theorem mem_of_recentRows {recordedAt : Nat → Nat} {c : String} {h : List (HistoryRow τ)} {row : HistoryRow τ}
    (hrow : row ∈ recentRows recordedAt c h) : row ∈ h := by
  obtain ⟨⟨row', i⟩, hmem, rfl⟩ := List.mem_map.1 hrow
  have hsorted := List.mem_of_mem_take (List.mem_reverse.1 hmem)
  have hfilter := (List.mem_insertionSort _).1 hsorted
  exact List.fst_mem_of_mem_zipIdx (List.mem_of_mem_filter hfilter)

/-- The bit of a row. -/
def bit (z : Db) (row : HistoryRow τ) : Bit :=
  if row.correct = false then .incorrect
  else if (truthy row.episodeId).any (flapped z) then .flap
  else .correct

def recentBits (recordedAt : Nat → Nat) (z : Db) (c : String) (h : List (HistoryRow τ)) : List Bit :=
  (recentRows recordedAt c h).map (bit z)
end Rows

/-- The `recent` of a class's three dimensions. -/
structure Recent where
  a : List Bit
  b : List Bit
  c : List Bit

def recent (recordedAt : Dimension → Nat → Nat) (z : Db) (c : String) : Recent where
  a := if HasPolicy c then recentBits (recordedAt .a) z c z.trustHistory else []
  b := recentBits (recordedAt .b) z c z.diagnoserModeHistory
  c := recentBits (recordedAt .c) z c z.actionTrustHistory

/-! ## What the bits are to say -/

/-- Dimension A's bit of an episode: a flap, or else the recorded outcome. -/
structure Tells (z : Db) (e : String) (outcome : Bool) (b : Bit) : Prop where
  flap : b = .flap ↔ flapped z e = true
  correct : b = .correct ↔ outcome = true
  incorrect : b = .incorrect ↔ flapped z e = false ∧ outcome = false

/-- The other dimensions' bit. -/
def outcomeBit (correct : Bool) : Bit := if correct then .correct else .incorrect

/-- The published bits say what they are to say. -/
structure Right (recordedAt : Dimension → Nat → Nat) (z : Db) (c : String) : Prop where
  a : HasPolicy c → (recentRows (recordedAt .a) c z.trustHistory).Forall₂
    (fun row b => ∀ e, row.episodeId = some e → Tells z e row.correct b) (recent recordedAt z c).a
  b : (recent recordedAt z c).b = (recentRows (recordedAt .b) c z.diagnoserModeHistory).map fun row => outcomeBit row.correct
  c : (recent recordedAt z c).c = (recentRows (recordedAt .c) c z.actionTrustHistory).map fun row => outcomeBit row.correct

/-- No episode of the rows shown flapped; in Dimensions B and C, none of those with a correct outcome. -/
structure Unflapped (recordedAt : Dimension → Nat → Nat) (z : Db) (c : String) : Prop where
  a : HasPolicy c → ∀ row ∈ recentRows (recordedAt .a) c z.trustHistory, ∀ e, row.episodeId = some e → flapped z e = false
  b : ∀ row ∈ recentRows (recordedAt .b) c z.diagnoserModeHistory, row.correct = true →
    ∀ e, truthy row.episodeId = some e → flapped z e = false
  c : ∀ row ∈ recentRows (recordedAt .c) c z.actionTrustHistory, row.correct = true →
    ∀ e, truthy row.episodeId = some e → flapped z e = false

section Rows
variable {τ : Type} {z : Db}

theorem bit_outcome_iff (row : HistoryRow τ) : bit z row = outcomeBit row.correct ↔
    (row.correct = true → ∀ e, truthy row.episodeId = some e → flapped z e = false) := by
  unfold bit outcomeBit
  cases row.correct with
  | false => simp
  | true => cases truthy row.episodeId <;> simp

theorem any_flapped {id : Option String} (h : ∀ e, id = some e → flapped z e = false) : (truthy id).any (flapped z) = false := by
  cases hid : truthy id with
  | none => rfl
  | some e => exact h e (Option.filter_eq_some_iff.1 hid).1

/-- Dimension A's bit is never right for an episode that flapped, and always for another. -/
theorem bit_tells_iff {row : HistoryRow τ} {e : String} (he : row.episodeId = some e) :
    Tells z e row.correct (bit z row) ↔ flapped z e = false := by
  constructor
  · intro h
    by_contra hf
    have hf : flapped z e = true := by simpa using hf
    have hflap := h.flap.2 hf
    have hcorrect : row.correct = true := by
      by_contra hc
      rw [bit, if_pos (by simpa using hc)] at hflap
      cases hflap
    rw [h.correct.2 hcorrect] at hflap
    cases hflap
  · intro h
    have hany : (truthy row.episodeId).any (flapped z) = false := any_flapped fun e' he' => by
      rwa [← Option.some.inj (he.symm.trans he')]
    cases hc : row.correct <;> exact ⟨by simp [bit, hc, hany, h], by simp [bit, hc, hany], by simp [bit, hc, hany, h]⟩

theorem forall₂_bits {rows : List (HistoryRow τ)} {R : HistoryRow τ → Bit → Prop} :
    rows.Forall₂ R (rows.map (bit z)) ↔ ∀ row ∈ rows, R row (bit z row) := by
  rw [List.forall₂_map_right_iff, List.forall₂_same]
end Rows

/-- The bits of any database are right exactly where no flap is behind them. -/
theorem right_iff (recordedAt : Dimension → Nat → Nat) (z : Db) (c : String) :
    Right recordedAt z c ↔ Unflapped recordedAt z c := by
  have others {τ : Type} (rows : List (HistoryRow τ)) : rows.map (bit z) = rows.map (fun row => outcomeBit row.correct) ↔
      ∀ row ∈ rows, row.correct = true → ∀ e, truthy row.episodeId = some e → flapped z e = false := by
    rw [List.map_inj_left]
    exact forall₂_congr fun row _ => bit_outcome_iff row
  have first (hp : HasPolicy c) : (recentRows (recordedAt .a) c z.trustHistory).Forall₂
      (fun row b => ∀ e, row.episodeId = some e → Tells z e row.correct b) (recent recordedAt z c).a ↔
      ∀ row ∈ recentRows (recordedAt .a) c z.trustHistory, ∀ e, row.episodeId = some e → flapped z e = false := by
    simp only [recent, if_pos hp, recentBits, forall₂_bits]
    exact forall₂_congr fun row _ => forall₂_congr fun e he => bit_tells_iff he
  exact ⟨fun h => ⟨fun hp => (first hp).1 (h.a hp), (others _).1 h.b, (others _).1 h.c⟩,
    fun h => ⟨fun hp => (first hp).2 (h.a hp), (others _).2 h.b, (others _).2 h.c⟩⟩

/-! ## What the scorer makes possible -/

/-- A statement for episode `e` by which it succeeds in Dimension A, or by which its fix is found to flap. -/
def settles (e : String) : Stmt → Nat
  | .insertTrustHistory h => if h.episodeId = some e ∧ h.correct = true then 1 else 0
  | .insertSnapshot e' n => if e' = e ∧ n.durabilityVerdict = some .flapped then 1 else 0
  | _ => 0

/-- The second kind. -/
def flaps (e : String) : Stmt → Nat
  | .insertSnapshot e' n => if e' = e ∧ n.durabilityVerdict = some .flapped then 1 else 0
  | _ => 0

/-- The successes of an episode in Dimension A, and its flap. -/
def settled (e : String) (z : Db) : Nat :=
  (z.trustHistory.countP fun h => h.episodeId = some e ∧ h.correct = true) + (flapped z e).toNat

theorem flapped_insertSnapshot (x : Db) (e e' : String) (n : SnapshotRow) :
    (flapped { x with episodeSnapshots := x.episodeSnapshots.insert e' n } e).toNat ≤
      (flapped x e).toNat + if e' = e ∧ n.durabilityVerdict = some .flapped then 1 else 0 := by
  unfold flapped
  by_cases he : e' = e
  · subst he
    by_cases hv : n.durabilityVerdict = some .flapped <;> simp [AList.lookup_insert, hv]
  · simp [AList.lookup_insert_ne (Ne.symm he), he]

theorem settled_app (e : String) (s : Stmt) (x x' : Db) (h : s.app x = .ok x') : settled e x' ≤ settled e x + settles e s := by
  cases s with
  | insertScores e' r => obtain ⟨-, rfl⟩ := app_insertScores h; exact Nat.le_refl _
  | insertSnapshot e' n =>
    obtain ⟨-, rfl⟩ := app_insertSnapshot h
    have := flapped_insertSnapshot x e e' n
    simp only [settled, settles]
    omega
  | insertTrustHistory row =>
    cases h
    have hf : flapped { x with trustHistory := x.trustHistory ++ [row] } e = flapped x e := rfl
    simp only [settled, settles, hf, List.countP_append, List.countP_singleton, decide_eq_true_eq]
    omega
  | _ => cases h; exact Nat.le_refl _

theorem flapped_app (e : String) (s : Stmt) (x x' : Db) (h : s.app x = .ok x') :
    (flapped x' e).toNat ≤ (flapped x e).toNat + flaps e s := by
  cases s with
  | insertScores e' r => obtain ⟨-, rfl⟩ := app_insertScores h; exact Nat.le_refl _
  | insertSnapshot e' n => obtain ⟨-, rfl⟩ := app_insertSnapshot h; exact flapped_insertSnapshot x e e' n
  | _ => cases h; exact Nat.le_refl _

theorem settles_owner {e : String} {s : Stmt} (h : owner s ≠ some e) (hn : snapshots e s = false) : settles e s = 0 := by
  cases s with
  | insertTrustHistory row => exact if_neg fun hrow => h hrow.1
  | insertSnapshot e' n => exact if_neg fun he => of_decide_eq_false hn he.1
  | _ => rfl

theorem flaps_other {e : String} {s : Stmt} (h : snapshots e s = false) : flaps e s = 0 := by
  cases s with
  | insertSnapshot e' n => exact if_neg fun he => of_decide_eq_false h he.1
  | _ => rfl

/-- An outcome in Dimension A succeeds once, or not at all. -/
theorem outcome_settles (c e : String) (correct : Bool) :
    (recordOutcome c correct (some e)).Weighs (settles e) correct.toNat := by
  unfold recordOutcome
  split
  · trivial
  · intro x
    cases correct <;> exact ⟨by simp [settles], by simp [settles], trivial⟩

/-- One run finds a flap or records a success for an episode, not both. -/
theorem scorer_settles (x : Run) (e : String) : (main x).Guarded (scores e) (settles e) 1 := by
  refine main_guarded_judged (fun s => settles_owner) fun ep r predicted j hj => ?_
  have weighs (a : Nat) (hA : ∀ f, ∀ correct ∈ j.trustCorrect, (recordOutcome f correct (some e)).Weighs (settles e) a) :
      (recordTrust x e ep r predicted j).Weighs (settles e) a := by
    refine recordTrust_weighs_judged (b := 0) (c := 0) (fun s hs => ?_) hA (diagnoserOutcome_weighs (by simp [settles]))
      (actionOutcome_weighs (by simp [settles])) x ep r predicted
    cases s <;> first | exact hs.elim | rfl
  by_cases hflap : (snapshotRow r j).durabilityVerdict = some .flapped
  -- After a flap the outcome is a failure.
  · obtain ⟨v, hv, hv'⟩ := Option.map_eq_some_iff.1 hflap
    have hfail := (hj v hv).2 hv'
    simp only [settles, hflap, and_self, if_true]
    refine ⟨Nat.le_refl _, weighs 0 fun f correct hc => ?_⟩
    obtain rfl := Option.some.inj (hfail.symm.trans hc)
    exact outcome_settles f e false
  · simp only [settles, hflap, and_false, if_false]
    exact ⟨Nat.zero_le _, weighs 1 fun f correct _ => (outcome_settles f e correct).mono (Bool.toNat_le correct)⟩

/-- A run whose watch never flaps finds no flap. -/
theorem scorer_flaps {x : Run} (hx : ∀ c, (x.watch c).1 ≠ .flapped) (e : String) : (main x).Guarded (scores e) (flaps e) 0 := by
  refine main_guarded_judged (fun s _ => flaps_other) fun ep r predicted j hj => ?_
  have hno : (snapshotRow r j).durabilityVerdict ≠ some .flapped := by
    intro hflap
    obtain ⟨v, hv, hv'⟩ := Option.map_eq_some_iff.1 hflap
    rw [(hj v hv).1] at hv'
    exact hx _ hv'
  simp only [flaps, hno, and_false, if_false]
  refine ⟨Nat.le_refl _, recordTrust_weighs (a := 0) (b := 0) (c := 0) (fun s hs => ?_) (outcome_weighs (by simp [flaps]))
    (diagnoserOutcome_weighs (by simp [flaps])) (actionOutcome_weighs (by simp [flaps])) x ep r predicted j⟩
  cases s <;> first | exact hs.elim | rfl

/-- An operator has nothing to do with an episode. -/
theorem manual_guarded {w : Stmt → Nat} {e : String} {n : Nat} (hw : ∀ s, owner s ≠ some e → snapshots e s = false → w s = 0)
    (c : String) : (promote c).Guarded (scores e) w n ∧ (demote c).Guarded (scores e) w n := by
  have manual (s : Stmt) (hs : Stmt.OfOutcome c none s) : w s = 0 ∧ scores e s = false := by
    refine ⟨hw s ?_ ?_, ?_⟩ <;> cases s <;> first | exact hs.elim | rfl | simp [owner, hs.1]
  exact ⟨.of_all ((promote_all c).mono manual), .of_all ((demote_all c).mono manual)⟩

/-- `x` before the first episode is scored. -/
def unheard (x : Db) : Db :=
  { x with scores := ∅, episodeSnapshots := ∅, trustHistory := [], diagnoserModeHistory := [], actionTrustHistory := [] }

section Runs
variable {ι : Type} [DecidableEq ι]

/-- What the parties make of it, in some interleaving, each killed at some point. -/
def reached (x : Db) (ps : ι → Party) (ms : List (Move ι)) : Db :=
  ((Fleet.init (unheard x) fun i => (ps i).program).runs ms).db

theorem settled_reached (x : Db) (ps : ι → Party) (ms : List (Move ι)) (e : String) : settled e (reached x ps ms) ≤ 1 := by
  have guarded (p : Party) : p.program.Guarded (scores e) (settles e) 1 := by
    cases p with
    | scorer x => exact scorer_settles x e
    | promote c => exact (manual_guarded (fun s => settles_owner) c).1
    | demote c => exact (manual_guarded (fun s => settles_owner) c).2
  have hdb := runs_measure (settled_app e) (unheard x) (fun i => (ps i).program) ms
  have hlog := once (x := unheard x) (scores_guard e) (fun i => guarded (ps i)) ms
  have h0 : settled e (unheard x) = 0 := rfl
  unfold reached
  omega

/-- An episode whose fix flapped has no success in Dimension A. -/
theorem incorrect_of_flapped {x : Db} {ps : ι → Party} {ms : List (Move ι)} {e : String}
    (hf : flapped (reached x ps ms) e = true) {row : HistoryRow TrustLevel} (hrow : row ∈ (reached x ps ms).trustHistory)
    (he : row.episodeId = some e) : row.correct = false := by
  have hle := settled_reached x ps ms e
  simp only [settled, hf, Bool.toNat_true] at hle
  have hzero : (reached x ps ms).trustHistory.countP (fun h => h.episodeId = some e ∧ h.correct = true) = 0 := by omega
  have hno := List.countP_eq_zero.1 hzero row hrow
  simpa [he] using hno

/-- Where no scorer's watch flaps, no episode has. -/
theorem unflapped_reached {ps : ι → Party} (hps : ∀ i x, ps i = .scorer x → ∀ c, (x.watch c).1 ≠ .flapped) (x : Db)
    (ms : List (Move ι)) (e : String) : flapped (reached x ps ms) e = false := by
  have guarded (i : ι) : (ps i).program.Guarded (scores e) (flaps e) 0 := by
    cases hp : ps i with
    | scorer x => exact scorer_flaps (hps i x hp) e
    | promote c => exact (manual_guarded (fun s _ => flaps_other) c).1
    | demote c => exact (manual_guarded (fun s _ => flaps_other) c).2
  have hdb := runs_measure (flapped_app e) (unheard x) (fun i => (ps i).program) ms
  have hlog := once (x := unheard x) (scores_guard e) guarded ms
  have h0 : (flapped (unheard x) e).toNat = 0 := rfl
  have : (flapped (reached x ps ms) e).toNat = 0 := by
    unfold reached
    omega
  simpa using this

/-- Whatever scorers and operators have made of a database: its bits are right exactly where no flap is behind them.
Dimension A never shows one, and if no fix ever flaps all is right. -/
theorem bits_right_iff (x : Db) (ps : ι → Party) (ms : List (Move ι)) (recordedAt : Dimension → Nat → Nat) (c : String) :
    (Right recordedAt (reached x ps ms) c ↔ Unflapped recordedAt (reached x ps ms) c) ∧
    Bit.flap ∉ (recent recordedAt (reached x ps ms) c).a ∧
    ((∀ i y, ps i = .scorer y → ∀ c, (y.watch c).1 ≠ .flapped) → Right recordedAt (reached x ps ms) c) := by
  refine ⟨right_iff _ _ _, fun hflap => ?_, fun hps => (right_iff _ _ _).2 ?_⟩
  · unfold recent at hflap
    by_cases hp : HasPolicy c
    · simp only [if_pos hp] at hflap
      obtain ⟨row, hrow, hbit⟩ := List.mem_map.1 hflap
      unfold bit at hbit
      split at hbit
      · cases hbit
      · rename_i hcorrect
        split at hbit
        · rename_i hany
          obtain ⟨e, he, hf⟩ := (Option.any_eq_true _ _).1 hany
          exact hcorrect (incorrect_of_flapped hf (mem_of_recentRows hrow) (Option.filter_eq_some_iff.1 he).1)
        · cases hbit
    · simp only [if_neg hp, List.not_mem_nil] at hflap
  · have hno := unflapped_reached hps x ms
    exact ⟨fun _ row _ e _ => hno e, fun row _ _ e _ => hno e, fun row _ _ e _ => hno e⟩
end Runs

/-! ## A fix that flaps -/

/-- The LLM and the stub agree on the crash-loop of `ep-1`, whose restart is then watched. -/
def watched (v : Durability) : Run :=
  { scoring (handle (replying .failure) ⟨"crash-loop", none, none⟩
      ⟨.diagnosed, some "crash-loop", none, none, some "gemini", some "gemini-3-flash-preview", some .primary⟩ none) with
    watch := fun _ => (v, 40) }

/-- The database once that run is over. -/
def restarted (v : Durability) : Db := reached crashed (fun _ : Unit => .scorer (watched v)) (List.replicate 20 (.go ()))

/-- It was the right diagnosis, and the fix did not hold: Dimension A shows a plain failure, Dimension B a flap. -/
theorem flap_misplaced : (recent (fun _ i => i) (restarted .flapped) "crash-loop").a = [.incorrect] ∧
    (recent (fun _ i => i) (restarted .flapped) "crash-loop").b = [.flap] ∧
    ¬ Right (fun _ i => i) (restarted .flapped) "crash-loop" := by
  have hb : (recent (fun _ i => i) (restarted .flapped) "crash-loop").b = [.flap] := by decide +kernel
  refine ⟨by decide +kernel, hb, fun h => ?_⟩
  have hflap : Bit.flap ∈ (recent (fun _ i => i) (restarted .flapped) "crash-loop").b := by simp [hb]
  rw [h.b] at hflap
  obtain ⟨row, -, hrow⟩ := List.mem_map.1 hflap
  unfold outcomeBit at hrow
  split at hrow <;> cases hrow

/-- With a fix that holds, all is right. -/
theorem bits_right_confirmed : Right (fun _ i => i) (restarted .confirmed) "crash-loop" := by
  refine (bits_right_iff crashed (fun _ : Unit => .scorer (watched .confirmed)) _ _ "crash-loop").2.2 fun i y hy c => ?_
  obtain rfl := Party.scorer.inj hy
  exact (by decide : Durability.confirmed ≠ .flapped)

end Wardence.Bits
