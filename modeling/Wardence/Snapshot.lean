import Wardence.Effects
import Wardence.Lib.JsonText
/-!
# Snapshots of a class's trust

`snapshot_restore_trust_state.py`: the three ladders of a class are written to a JSON file before a
risky test, and set from the file after it. Each of the three is committed on its own. A file that the
script did not write is refused as a whole.
-/
namespace Wardence

open Keyed Txn Client JsonText
open Js (Text of)

/-! ## The file -/

def TrustLevel.name : TrustLevel → String
  | .reportOnly => "report_only"
  | .canAct => "can_act"
  | .demoted => "demoted"

def DiagMode.name : DiagMode → String
  | .stub => "stub"
  | .llm => "llm"

def ActionTrust.name : ActionTrust → String
  | .deterministicFallback => "deterministic_fallback"
  | .llmCanAct => "llm_can_act"

/-- What a snapshot holds of a class. -/
structure TrustSnapshot where
  faultClass : String
  takenAt : String
  dimensionA : Rung TrustLevel
  dimensionB : Rung DiagMode
  dimensionC : Rung ActionTrust
  deriving DecidableEq

/-- A ladder's row, as `get_*` returns it. -/
def rungDict (faultClass stateKey state : String) (streak : Nat) : Value :=
  .obj [(of "fault_class", .str (of faultClass)), (of stateKey, .str (of state)), (of "streak", .num streak)]

def TrustSnapshot.data (s : TrustSnapshot) : Value :=
  .obj [(of "fault_class", .str (of s.faultClass)), (of "taken_at", .str (of s.takenAt)),
    (of "dimension_a", rungDict s.faultClass "state" s.dimensionA.state.name s.dimensionA.streak),
    (of "dimension_b", rungDict s.faultClass "mode" s.dimensionB.state.name s.dimensionB.streak),
    (of "dimension_c", rungDict s.faultClass "state" s.dimensionC.state.name s.dimensionC.streak)]

/-- The blanks of `json.dumps(data, indent=2)`. -/
def indented : Layout :=
  ⟨fun d => '\n' :: List.replicate (2 * d) ' ', fun d => '\n' :: List.replicate (2 * d) ' ',
    fun d c hc => by
      rcases List.mem_cons.1 hc with rfl | hc
      · decide
      · rw [List.eq_of_mem_replicate hc]
        decide,
    fun d c hc => by
      rcases List.mem_cons.1 hc with rfl | hc
      · decide
      · rw [List.eq_of_mem_replicate hc]
        decide⟩

/-- `json.dumps(data, indent=2)` -/
def TrustSnapshot.text (s : TrustSnapshot) : List Char := print indented 0 s.data

def strAt (v : Value) (k : String) : Option Text :=
  match v.get k with
  | some (.str t) => some t
  | _ => none

def stringAt (v : Value) (k : String) : Option String := (strAt v k).map fun t => String.ofList (chars t)

def streakAt (v : Value) : Option Nat :=
  match v.get "streak" with
  | some (.num (.ofNat n)) => some n
  | _ => none

/-- A ladder's row of the file; the check of `manual_set_*` is made against the names of all states. -/
def rungAt {τ : Type} (states : List τ) (name : τ → String) (data : Value) (k stateKey : String) : Option (Rung τ) := do
  let row ← data.get k
  let state ← states.find? fun s => strAt row stateKey = some (of (name s))
  let streak ← streakAt row
  some ⟨state, streak⟩

/-- What `restore` reads in a file. -/
def TrustSnapshot.ofText (text : List Char) : Option TrustSnapshot := do
  let data ← read text
  some {
    faultClass := ← stringAt data "fault_class"
    takenAt := ← stringAt data "taken_at"
    dimensionA := ← rungAt [.reportOnly, .canAct, .demoted] TrustLevel.name data "dimension_a" "state"
    dimensionB := ← rungAt [.stub, .llm] DiagMode.name data "dimension_b" "mode"
    dimensionC := ← rungAt [.deterministicFallback, .llmCanAct] ActionTrust.name data "dimension_c" "state" }

/-! ## The script -/

def manualSetDiagnoserMode (c : String) (mode : DiagMode) (streak : Nat) : Prog Unit := upsertDiagnoserMode none c ⟨mode, streak⟩

def manualSetActionTrust (c : String) (state : ActionTrust) (streak : Nat) : Prog Unit := upsertActionTrust none c ⟨state, streak⟩

def snapshot (faultClass takenAt : String) : Prog (List Char) := do
  -- `ensure_trust_tables` and `ensure_llm_trust_tables`
  commitNow
  commitNow
  let a ← getTrustState faultClass
  let b ← getDiagnoserMode faultClass
  let c ← getActionTrust faultClass
  pure (TrustSnapshot.text ⟨faultClass, takenAt, a, b, c⟩)

def restore (file : List Char) : Prog Unit :=
  match TrustSnapshot.ofText file with
  | none => throw (.valueError "")
  | some data => do
    commitNow
    commitNow
    manualSetState data.faultClass data.dimensionA.state data.dimensionA.streak
    manualSetDiagnoserMode data.faultClass data.dimensionB.state data.dimensionB.streak
    manualSetActionTrust data.faultClass data.dimensionC.state data.dimensionC.streak

/-! ## The file reads back -/

theorem rungAt_dict {τ : Type} {states : List τ} {name : τ → String} {r : Rung τ} {data : Value}
    {k stateKey c : String} (hdata : data.get k = some (rungDict c stateKey (name r.state) r.streak)) (hmem : r.state ∈ states)
    (hname : ∀ s ∈ states, of (name s) = of (name r.state) → s = r.state) (hkey : stateKey = "state" ∨ stateKey = "mode") :
    rungAt states name data k stateKey = some r := by
  have hkeys : of "fault_class" ≠ of "state" ∧ of "fault_class" ≠ of "mode" ∧ of "streak" ≠ of "state" ∧ of "streak" ≠ of "mode" ∧
      of "fault_class" ≠ of "streak" := by decide
  obtain ⟨h1, h2, h3, h4, h5⟩ := hkeys
  have hstate : strAt (rungDict c stateKey (name r.state) r.streak) stateKey = some (of (name r.state)) := by
    rcases hkey with rfl | rfl
    · simp [strAt, rungDict, Value.get, h3]
    · simp [strAt, rungDict, Value.get, h4]
  have hstreak : streakAt (rungDict c stateKey (name r.state) r.streak) = some r.streak := by
    simp [streakAt, rungDict, Value.get]
  have hfind : states.find? (fun s => strAt (rungDict c stateKey (name r.state) r.streak) stateKey = some (of (name s))) =
      some r.state := by
    cases hf : states.find? fun s => strAt (rungDict c stateKey (name r.state) r.streak) stateKey = some (of (name s)) with
    | none =>
      have := List.find?_eq_none.1 hf r.state hmem
      simp [hstate] at this
    | some s =>
      have hs := List.find?_some hf
      rw [hstate, decide_eq_true_eq, Option.some.injEq] at hs
      rw [hname s (List.mem_of_find?_eq_some hf) hs.symm]
  simp only [rungAt, hdata, Option.bind_eq_bind, Option.bind_some, hfind, hstreak]

theorem stringAt_of {v : Value} {k s : String} (h : v.get k = some (.str (of s))) : stringAt v k = some s := by
  rw [stringAt, strAt, h, Option.map_some, chars_of, String.ofList_toList]

/-- What was written is what is read, whatever the class is called. -/
theorem ofText_text (s : TrustSnapshot) : TrustSnapshot.ofText s.text = some s := by
  have hkeys : (["fault_class", "taken_at", "dimension_a", "dimension_b", "dimension_c"].map of).Nodup := by decide
  have hnames : (([.reportOnly, .canAct, .demoted] : List TrustLevel).map fun t => of t.name).Nodup ∧
      (([.stub, .llm] : List DiagMode).map fun t => of t.name).Nodup ∧
      (([.deterministicFallback, .llmCanAct] : List ActionTrust).map fun t => of t.name).Nodup := by decide
  simp only [List.map_cons, List.map_nil, List.nodup_cons, List.mem_cons, List.not_mem_nil, or_false, not_or, List.nodup_nil, and_true,
    not_false_eq_true] at hkeys
  obtain ⟨⟨h1, h2, h3, h4⟩, ⟨h5, h6, h7⟩, ⟨h8, h9⟩, h10⟩ := hkeys
  have hclass : s.data.get "fault_class" = some (.str (of s.faultClass)) := by
    simp [TrustSnapshot.data, Value.get, Ne.symm h1, Ne.symm h2, Ne.symm h3, Ne.symm h4]
  have htaken : s.data.get "taken_at" = some (.str (of s.takenAt)) := by
    simp [TrustSnapshot.data, Value.get, Ne.symm h5, Ne.symm h6, Ne.symm h7]
  have ha : rungAt [.reportOnly, .canAct, .demoted] TrustLevel.name s.data "dimension_a" "state" = some s.dimensionA := by
    refine rungAt_dict (c := s.faultClass) ?_ ?_ (fun t ht he => List.inj_on_of_nodup_map hnames.1 ht ?_ he) (.inl rfl)
    · simp [TrustSnapshot.data, Value.get, Ne.symm h8, Ne.symm h9]
    · cases s.dimensionA.state <;> simp
    · cases s.dimensionA.state <;> simp
  have hb : rungAt [.stub, .llm] DiagMode.name s.data "dimension_b" "mode" = some s.dimensionB := by
    refine rungAt_dict (c := s.faultClass) ?_ ?_ (fun t ht he => List.inj_on_of_nodup_map hnames.2.1 ht ?_ he) (.inr rfl)
    · simp [TrustSnapshot.data, Value.get, Ne.symm h10]
    · cases s.dimensionB.state <;> simp
    · cases s.dimensionB.state <;> simp
  have hc : rungAt [.deterministicFallback, .llmCanAct] ActionTrust.name s.data "dimension_c" "state" = some s.dimensionC := by
    refine rungAt_dict (c := s.faultClass) ?_ ?_ (fun t ht he => List.inj_on_of_nodup_map hnames.2.2 ht ?_ he) (.inl rfl)
    · simp [TrustSnapshot.data, Value.get]
    · cases s.dimensionC.state <;> simp
    · cases s.dimensionC.state <;> simp
  rw [TrustSnapshot.ofText, TrustSnapshot.text, read_print]
  simp only [Option.bind_eq_bind, Option.bind_some, stringAt_of hclass, stringAt_of htaken, ha, hb, hc]

/-! ## Restoring -/

/-- The first `n` of the three ladders of a class are set from a snapshot. -/
def Db.restored (x : Db) (s : TrustSnapshot) (n : Nat) : Db :=
  { x with
    trustState := if 1 ≤ n then x.trustState.insert s.faultClass s.dimensionA else x.trustState
    diagnoserMode := if 2 ≤ n then x.diagnoserMode.insert s.faultClass s.dimensionB else x.diagnoserMode
    actionTrust := if 3 ≤ n then x.actionTrust.insert s.faultClass s.dimensionC else x.actionTrust }

theorem restored_rows (x : Db) (s : TrustSnapshot) (n : Nat) (c : String) :
    (x.restored s n).trust c = (if 1 ≤ n ∧ c = s.faultClass then s.dimensionA else x.trust c) ∧
      (x.restored s n).diag c = (if 2 ≤ n ∧ c = s.faultClass then s.dimensionB else x.diag c) ∧
      (x.restored s n).action c = (if 3 ≤ n ∧ c = s.faultClass then s.dimensionC else x.action c) := by
  refine ⟨?_, ?_, ?_⟩
  · by_cases hn : 1 ≤ n
    · simpa [Db.restored, hn, Db.trust] using trust_insert x s.faultClass c s.dimensionA
    · simp [Db.restored, hn, Db.trust]
  · by_cases hn : 2 ≤ n
    · simpa [Db.restored, hn, Db.diag] using diag_insert x s.faultClass c s.dimensionB
    · simp [Db.restored, hn, Db.diag]
  · by_cases hn : 3 ≤ n
    · simpa [Db.restored, hn, Db.action] using action_insert x s.faultClass c s.dimensionC
    · simp [Db.restored, hn, Db.action]

theorem run_snapshot (c takenAt : String) (x : Db) :
    run (snapshot c takenAt) (.idle x) = (.ok (TrustSnapshot.text ⟨c, takenAt, x.trust c, x.diag c, x.action c⟩), .idle x) := rfl

theorem commits_restore (s : TrustSnapshot) (x : Db) :
    commits (restore s.text) (.idle x) = [x, x, x.restored s 1, x.restored s 2, x.restored s 3] ∧
      run (restore s.text) (.idle x) = (.ok (), .idle (x.restored s 3)) := by
  rw [restore, ofText_text]
  exact ⟨rfl, rfl⟩

theorem stop_restore (s : TrustSnapshot) (x : Db) (n : Nat) : ∃ k ≤ 3, stop n (restore s.text) (.idle x) = x.restored s k := by
  have hmem := List.mem_of_getElem? (stop_eq n (restore s.text) (.idle x))
  rw [(commits_restore s x).1] at hmem
  simp only [Conn.idle_committed, List.mem_cons, List.not_mem_nil, or_false] at hmem
  rcases hmem with h | h | h | h | h | h
  · exact ⟨0, by omega, h⟩
  · exact ⟨0, by omega, h⟩
  · exact ⟨0, by omega, h⟩
  · exact ⟨1, by omega, h⟩
  · exact ⟨2, by omega, h⟩
  · exact ⟨3, by omega, h⟩

/-- A snapshot that is restored, however much has happened to the database since. Run to its end the script sets the three ladders of
the class to what they were, so that a new snapshot is the same file, and changes nothing else: no other class, and no history. Killed,
it has set the first few of the three. -/
theorem restore_snapshot (c takenAt : String) (x y : Db) : ∃ file, run (snapshot c takenAt) (.idle x) = (.ok file, .idle x) ∧
    (run (restore file) (.idle y)).1 = .ok () ∧
    (∀ d, (after (restore file) y).trust d = (if d = c then x.trust c else y.trust d) ∧
      (after (restore file) y).diag d = (if d = c then x.diag c else y.diag d) ∧
      (after (restore file) y).action d = (if d = c then x.action c else y.action d)) ∧
    ((after (restore file) y).trustHistory = y.trustHistory ∧ (after (restore file) y).diagnoserModeHistory = y.diagnoserModeHistory ∧
      (after (restore file) y).actionTrustHistory = y.actionTrustHistory) ∧
    (run (snapshot c takenAt) (.idle (after (restore file) y))).1 = .ok file ∧
    ∀ n, ∃ k ≤ 3, stop n (restore file) (.idle y) = y.restored ⟨c, takenAt, x.trust c, x.diag c, x.action c⟩ k := by
  refine ⟨_, run_snapshot c takenAt x, ?_⟩
  generalize hs : (⟨c, takenAt, x.trust c, x.diag c, x.action c⟩ : TrustSnapshot) = s
  have hafter : after (restore s.text) y = y.restored s 3 := by rw [after, (commits_restore s y).2]; rfl
  have hrows : ∀ d, (y.restored s 3).trust d = (if d = c then x.trust c else y.trust d) ∧
      (y.restored s 3).diag d = (if d = c then x.diag c else y.diag d) ∧
      (y.restored s 3).action d = (if d = c then x.action c else y.action d) := by
    intro d
    have := restored_rows y s 3 d
    simpa [← hs] using this
  rw [hafter]
  refine ⟨by rw [(commits_restore s y).2], hrows, ⟨rfl, rfl, rfl⟩, ?_, stop_restore s y⟩
  obtain ⟨ha, hb, hc⟩ := hrows c
  rw [if_pos rfl] at ha hb hc
  rw [run_snapshot, ha, hb, hc, hs]

end Wardence
