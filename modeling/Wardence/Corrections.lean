import Mathlib.Data.List.Induction
import Wardence.Lib.Client
import Wardence.Lib.Steps
import Wardence.Lib.Table
/-!
# The Phase E corrections

`phase_e_apply_corrections.py`: reviewed verdicts are corrected in `scores`, with what they were beside
them. The script may be run again, also dry, and may be killed in any run; the scorers go on inserting
rows. What it prints is left out.
-/
namespace Wardence.Corrections

open Txn Client Keyed

/-! ## The script -/

/-- What the script reads and writes of a row of `scores`. -/
@[ext]
structure Score where
  correct : Int
  trustCorrect : Option Int
  actionApplied : Option Int
  phaseEStatus : Option String
  phaseENote : Option String
  originalCorrect : Option Int
  originalTrustCorrect : Option Int
  deriving DecidableEq

/-- The table `scores`, and which of the columns of the script it has. -/
structure Db where
  columns : List String
  scores : Table String Score

inductive Err where
  | noSuchColumn
  | duplicateColumn
  deriving DecidableEq

inductive Stmt where
  | addColumn (col : String)
  | reclassify (epId : String) (row : Score) (newTrustCorrect : Option Int) (reason : String)
  | exclude (epId : String) (reason : String)

def NEW_COLS : List String := ["phase_e_status", "phase_e_note", "original_correct", "original_trust_correct"]

/-- The row as the `UPDATE` of a reclassification leaves it. -/
def Score.reclassified (r row : Score) (newTrustCorrect : Option Int) (reason : String) : Score :=
  { r with
    originalCorrect := some row.correct
    originalTrustCorrect := row.trustCorrect
    correct := 1
    trustCorrect := newTrustCorrect
    phaseEStatus := some "reclassified"
    phaseENote := some reason }

def Score.excluded (r : Score) (reason : String) : Score := { r with phaseEStatus := some "excluded", phaseENote := some reason }

instance : Store Db Stmt Err where
  app s x :=
    match s with
    | .addColumn col => if col ∈ x.columns then .error .duplicateColumn else .ok { x with columns := x.columns ++ [col] }
    | .reclassify epId row trust reason =>
      if NEW_COLS ⊆ x.columns then .ok { x with scores := x.scores.update epId (·.reclassified row trust reason) }
      else .error .noSuchColumn
    | .exclude epId reason =>
      if "phase_e_status" ∈ x.columns ∧ "phase_e_note" ∈ x.columns then
        .ok { x with scores := x.scores.update epId (·.excluded reason) }
      else .error .noSuchColumn

abbrev Script := Client Db Stmt Err

/-- `ALTER TABLE scores ADD COLUMN`; outside a transaction it is committed at once. -/
def addColumnUnless (existingCols : List String) (col : String) : Script PUnit :=
  if col ∈ existingCols then done () else do
    execute (.addColumn col)
    commitNow

def ensurePhaseEColumns : Script Unit := do
  let existingCols ← select (·.columns)
  forM NEW_COLS (addColumnUnless existingCols)
  commitNow

/-- `SELECT .., phase_e_status FROM scores WHERE episode_id = ?` -/
def fetchRow (epId : String) : Script (Option Score) := do
  let row ← select fun x => if "phase_e_status" ∈ x.columns then some (x.scores.lookup epId) else none
  match row with
  | some row => done row
  | none => throw .noSuchColumn

/-- `1 if row["action_applied"] else row["trust_correct"]` -/
def newTrustCorrect (row : Score) : Option Int := if row.actionApplied.any (· ≠ 0) then some 1 else row.trustCorrect

/-- A pass of a loop: an episode that has been scored, and not corrected yet. -/
def correctOne (apply : Bool) (epId : String) (update : Score → Stmt) : Script Unit := do
  match ← fetchRow epId with
  | none => done ()
  | some row =>
    if row.phaseEStatus.isSome then done ()
    else if apply then execute (update row)
    else done ()

/-- A pass of the loop over `RECLASSIFY`. -/
def reclassifyOne (apply : Bool) (entry : String × String) : Script Unit :=
  correctOne apply entry.1 fun row => .reclassify entry.1 row (newTrustCorrect row) entry.2

/-- A pass of the loop over `EXCLUDE`. -/
def excludeOne (apply : Bool) (entry : String × String) : Script Unit := correctOne apply entry.1 fun _ => .exclude entry.1 entry.2

/-- The entries of `RECLASSIFY` and `EXCLUDE`, each with its reason. -/
structure Lists where
  RECLASSIFY : List (String × String)
  EXCLUDE : List (String × String)

/-- The two loops of `main`. -/
def correct (ls : Lists) (apply : Bool) : Script Unit := do
  forM ls.RECLASSIFY (reclassifyOne apply)
  forM ls.EXCLUDE (excludeOne apply)

def main (ls : Lists) (apply : Bool) : Script Unit := do
  ensurePhaseEColumns
  correct ls apply
  if apply then commitNow else done ()

/-! ## What comes of a row -/

/-- A row that a scorer has inserted and nobody has corrected. -/
def Score.Fresh (r : Score) : Prop :=
  r.phaseEStatus = none ∧ r.phaseENote = none ∧ r.originalCorrect = none ∧ r.originalTrustCorrect = none

instance (r : Score) : Decidable r.Fresh := inferInstanceAs (Decidable (_ ∧ _))

/-- A pass over one entry, on the row of an episode. -/
def correctRow (f : String → Score → Score) (epId : String) (r : Score) (entry : String × String) : Score :=
  if entry.1 = epId ∧ r.phaseEStatus = none then f entry.2 r else r

def reclassifyRow : String → Score → String × String → Score :=
  correctRow fun reason r => r.reclassified r (newTrustCorrect r) reason

def excludeRow : String → Score → String × String → Score := correctRow fun reason r => r.excluded reason

/-- The row as the reviewed lists have it. -/
def Lists.settle (ls : Lists) (epId : String) (r : Score) : Score :=
  ls.EXCLUDE.foldl (excludeRow epId) (ls.RECLASSIFY.foldl (reclassifyRow epId) r)

/-- The verdict a row had before it was corrected. -/
def Score.undo (r : Score) : Score :=
  { r with
    correct := r.originalCorrect.getD r.correct
    trustCorrect := if r.originalCorrect.isSome then r.originalTrustCorrect else r.trustCorrect
    phaseEStatus := none
    phaseENote := none
    originalCorrect := none
    originalTrustCorrect := none }

theorem correctRow_settled (f : String → Score → Score) {epId : String} {r : Score} (h : r.phaseEStatus.isSome)
    (l : List (String × String)) : l.foldl (correctRow f epId) r = r := by
  induction l with
  | nil => rfl
  | cons e l ih =>
    have hne : r.phaseEStatus ≠ none := Option.isSome_iff_ne_none.1 h
    rw [List.foldl_cons, correctRow, if_neg fun hc => hne hc.2, ih]

/-- One entry at most takes effect. -/
theorem correctRow_cases {f : String → Score → Score} (hf : ∀ reason r, (f reason r).phaseEStatus.isSome) (epId : String) (r : Score)
    (l : List (String × String)) : l.foldl (correctRow f epId) r = r ∨ ∃ reason, l.foldl (correctRow f epId) r = f reason r := by
  induction l with
  | nil => exact .inl rfl
  | cons e l ih =>
    rw [List.foldl_cons, correctRow]
    split
    · exact .inr ⟨e.2, correctRow_settled f (hf _ _) l⟩
    · exact ih

theorem settle_cases (ls : Lists) (epId : String) (r : Score) :
    ls.settle epId r = r ∨ (∃ reason, ls.settle epId r = r.reclassified r (newTrustCorrect r) reason) ∨
      ∃ reason, ls.settle epId r = r.excluded reason := by
  rw [Lists.settle, reclassifyRow, excludeRow]
  rcases correctRow_cases (f := fun reason r => r.reclassified r (newTrustCorrect r) reason) (fun _ _ => rfl) epId r ls.RECLASSIFY
    with hr | ⟨reason, hr⟩
  · rw [hr]
    rcases correctRow_cases (f := fun reason r => r.excluded reason) (fun _ _ => rfl) epId r ls.EXCLUDE with he | ⟨reason, he⟩
    · exact .inl he
    · exact .inr (.inr ⟨reason, he⟩)
  · rw [hr, correctRow_settled]
    · exact .inr (.inl ⟨reason, rfl⟩)
    · rfl

theorem settle_settled (ls : Lists) (epId : String) {r : Score} (h : r.phaseEStatus.isSome) : ls.settle epId r = r := by
  rw [Lists.settle, reclassifyRow, excludeRow, correctRow_settled _ h, correctRow_settled _ h]

theorem undo_fresh {r : Score} (h : r.Fresh) : r.undo = r := by
  obtain ⟨h1, h2, h3, h4⟩ := h
  ext1
  case correct => simp [Score.undo, h3]
  case trustCorrect => simp [Score.undo, h3]
  case actionApplied => rfl
  case phaseEStatus => exact h1.symm
  case phaseENote => exact h2.symm
  case originalCorrect => exact h3.symm
  case originalTrustCorrect => exact h4.symm

/-- What a row was can be read off what became of it. -/
theorem undo_settle (ls : Lists) (epId : String) {r : Score} (h : r.Fresh) : (ls.settle epId r).undo = r := by
  rcases settle_cases ls epId r with hs | ⟨reason, hs⟩ | ⟨reason, hs⟩
  · rw [hs, undo_fresh h]
  · have : (r.reclassified r (newTrustCorrect r) reason).undo = r.undo := by
      simp [Score.undo, Score.reclassified, h.2.2.1]
    rw [hs, this, undo_fresh h]
  · have : (r.excluded reason).undo = r.undo := rfl
    rw [hs, this, undo_fresh h]

theorem settle_idem (ls : Lists) (epId : String) (r : Score) : ls.settle epId (ls.settle epId r) = ls.settle epId r := by
  rcases settle_cases ls epId r with hs | ⟨reason, hs⟩ | ⟨reason, hs⟩
  · rw [hs, hs]
  · rw [hs, settle_settled]
    rfl
  · rw [hs, settle_settled]
    rfl

/-! ## What a run does -/

/-- The rows of `y` are those of `x`, each as `f` has it. -/
def Maps (f : String → Score → Score) (x y : Db) : Prop :=
  y.columns = x.columns ∧ ∀ epId, y.scores.lookup epId = (x.scores.lookup epId).map (f epId)

theorem Maps.refl {f : String → Score → Score} (h : ∀ epId r, f epId r = r) (x : Db) : Maps f x x := by
  refine ⟨rfl, fun epId => ?_⟩
  have : f epId = id := funext (h epId)
  rw [this, Option.map_id_fun, id]

theorem Maps.trans {f g : String → Score → Score} {x y z : Db} (h : Maps f x y) (h' : Maps g y z) :
    Maps (fun epId r => g epId (f epId r)) x z := by
  refine ⟨h'.1.trans h.1, fun epId => ?_⟩
  rw [h'.2, h.2, Option.map_map]
  rfl

/-- A part of the script that commits nothing and does `f` to each row. -/
def Does (p : Script Unit) (f : String → Score → Score) : Prop :=
  ∀ c : Conn Db, NEW_COLS ⊆ c.view.columns → ∃ y, run p c = (.ok (), ⟨c.committed, y⟩) ∧ commits p c = [] ∧ Maps f c.view y

theorem Does.bind {p : Script PUnit} {q : Script Unit} {f g : String → Score → Score} (hp : Does p f) (hq : Does q g) :
    Does (do p; q) fun epId r => g epId (f epId r) := by
  intro c hc
  obtain ⟨y, hrun, hcommits, hy⟩ := hp c hc
  obtain ⟨z, hrun', hcommits', hz⟩ := hq ⟨c.committed, y⟩ (hy.1 ▸ hc)
  refine ⟨z, ?_, ?_, hy.trans hz⟩
  · rw [run_bind_ok hrun, hrun']
  · rw [commits_bind_ok hrun, hcommits, hcommits', List.append_nil]

theorem Does.forM {q : String × String → Script PUnit} {g : String × String → String → Score → Score}
    (h : ∀ e, Does (q e) (g e)) (l : List (String × String)) : Does (forM l q) fun epId r => l.foldl (fun r e => g e epId r) r := by
  induction l with
  | nil => exact fun c _ => ⟨c.view, rfl, rfl, .refl (fun _ _ => rfl) _⟩
  | cons e l ih =>
    rw [List.forM_cons]
    exact (h e).bind ih

theorem run_fetchRow {c : Conn Db} (h : NEW_COLS ⊆ c.view.columns) (epId : String) :
    run (fetchRow epId) c = (.ok (c.view.scores.lookup epId), c) ∧ commits (fetchRow epId) c = [] := by
  have hmem : "phase_e_status" ∈ c.view.columns := h (by decide)
  simp [fetchRow, hmem]

theorem lookup_unchanged {t : Table String Score} {f : Score → Score} {k : String} (h : ∀ r, t.lookup k = some r → f r = r) :
    (t.lookup k).map f = t.lookup k := by
  cases hk : t.lookup k with
  | none => rfl
  | some r => rw [Option.map_some, h r hk]

/-- A dry pass does nothing. -/
theorem does_correctOne_dry (epId : String) (update : Score → Stmt) : Does (correctOne false epId update) fun _ r => r := by
  intro c hc
  obtain ⟨hrun, hcommits⟩ := run_fetchRow hc epId
  refine ⟨c.view, ?_, ?_, .refl (fun _ _ => rfl) _⟩
  · rw [correctOne, run_bind_ok hrun]
    cases c.view.scores.lookup epId with
    | none => rfl
    | some row => cases hs : row.phaseEStatus <;> simp [hs]
  · rw [correctOne, commits_bind_ok hrun, hcommits]
    cases c.view.scores.lookup epId with
    | none => rfl
    | some row => cases hs : row.phaseEStatus <;> simp [hs]

theorem does_correctOne {e : String × String} {update : Score → Stmt} {g : Score → Score → Score} {f : String → Score → Score}
    (happ : ∀ row x, NEW_COLS ⊆ x.columns → Store.app (update row) x =
      (.ok { x with scores := x.scores.update e.1 (g row) } : Except Err Db)) (hg : ∀ r, g r r = f e.2 r) :
    Does (correctOne true e.1 update) fun epId r => correctRow f epId r e := by
  intro c hc
  obtain ⟨hrun, hcommits⟩ := run_fetchRow hc e.1
  have hquiet : (∀ r, c.view.scores.lookup e.1 = some r → r.phaseEStatus ≠ none) →
      Maps (fun epId r => correctRow f epId r e) c.view c.view := by
    refine fun h => ⟨rfl, fun epId => (lookup_unchanged fun r hr => if_neg ?_).symm⟩
    rintro ⟨rfl, hnone⟩
    exact h r hr hnone
  rw [correctOne, run_bind_ok hrun, commits_bind_ok hrun, hcommits, List.nil_append]
  cases hrow : c.view.scores.lookup e.1 with
  | none => exact ⟨c.view, rfl, rfl, hquiet fun r hr => by rw [hrow] at hr; cases hr⟩
  | some row =>
    cases hstatus : row.phaseEStatus with
    | some status =>
      refine ⟨c.view, by simp [hstatus], by simp [hstatus], hquiet fun r hr => ?_⟩
      obtain rfl : row = r := Option.some.inj (hrow.symm.trans hr)
      simp [hstatus]
    | none =>
      refine ⟨{ c.view with scores := c.view.scores.update e.1 (g row) }, ?_, ?_, rfl, fun epId => ?_⟩
      · simp only [hstatus, Option.isSome_none, Bool.false_eq_true, if_false, if_true]
        exact run_exec_ok (happ row c.view hc) _
      · simp only [hstatus, Option.isSome_none, Bool.false_eq_true, if_false, if_true]
        exact commits_exec_ok (happ row c.view hc) _
      · dsimp only
        rw [Table.lookup_update]
        by_cases hid : epId = e.1
        · subst hid
          rw [if_pos rfl, hrow, Option.map_some, Option.map_some, hg, correctRow, if_pos ⟨rfl, hstatus⟩]
        · rw [if_neg hid]
          exact (lookup_unchanged fun r _ => if_neg fun h => hid h.1.symm).symm

theorem does_reclassifyOne (e : String × String) : Does (reclassifyOne true e) fun epId r => reclassifyRow epId r e :=
  does_correctOne (g := fun row r => r.reclassified row (newTrustCorrect row) e.2) (fun _ _ h => if_pos h) fun _ => rfl

theorem does_excludeOne (e : String × String) : Does (excludeOne true e) fun epId r => excludeRow epId r e :=
  does_correctOne (g := fun _ r => r.excluded e.2) (fun _ _ h => if_pos ⟨h (by decide), h (by decide)⟩) fun _ => rfl

/-! ## Columns -/

theorem run_addColumns {existing l : List String} (hn : l.Nodup) {x : Db} (h : ∀ col ∈ l, col ∉ existing → col ∉ x.columns) :
    run (forM l (addColumnUnless existing)) (.idle x) =
        (.ok ⟨⟩, .idle { x with columns := x.columns ++ l.filter (· ∉ existing) }) ∧
      ∀ y ∈ commits (forM l (addColumnUnless existing)) (.idle x), y.scores = x.scores := by
  induction l generalizing x with
  | nil => simp
  | cons col l ih =>
    obtain ⟨hnot, hn⟩ := List.nodup_cons.1 hn
    rw [List.forM_cons, List.filter_cons]
    by_cases hex : col ∈ existing
    · have hskip : addColumnUnless existing col = done () := if_pos hex
      have := ih hn fun col' hc => h col' (.tail _ hc)
      simpa [hskip, hex] using this
    · have happ : Store.app (Stmt.addColumn col) x = (.ok { x with columns := x.columns ++ [col] } : Except Err Db) :=
        if_neg (h col (.head _) hex)
      have hadd : addColumnUnless existing col = exec (.addColumn col) (commit (done ())) := if_neg hex
      have hone : run (addColumnUnless existing col) (.idle x) = (.ok (), .idle { x with columns := x.columns ++ [col] }) := by
        rw [hadd, run_exec_ok (c := .idle x) happ]
        rfl
      have hcommit : commits (addColumnUnless existing col) (.idle x) = [{ x with columns := x.columns ++ [col] }] := by
        rw [hadd, commits_exec_ok (c := .idle x) happ]
        rfl
      obtain ⟨hrun, hcommits⟩ := ih (x := { x with columns := x.columns ++ [col] }) hn fun col' hc hex' => by
        rw [List.mem_append, List.mem_singleton, not_or]
        exact ⟨h col' (.tail _ hc) hex', fun he => hnot (he ▸ hc)⟩
      rw [run_bind_ok hone, commits_bind_ok hone, hcommit, hrun]
      refine ⟨by simp [hex], ?_⟩
      rw [List.singleton_append, List.forall_mem_cons]
      exact ⟨rfl, hcommits⟩

/-- All four columns are there afterwards, whichever were; rows are as they were. -/
theorem run_ensurePhaseEColumns (x : Db) : ∃ cols, NEW_COLS ⊆ cols ∧
    run ensurePhaseEColumns (.idle x) = (.ok (), .idle { x with columns := cols }) ∧
      ∀ y ∈ commits ensurePhaseEColumns (.idle x), y.scores = x.scores := by
  have hnew : NEW_COLS.Nodup := by decide
  obtain ⟨hrun, hcommits⟩ := run_addColumns hnew (x := x) fun _ _ h => h
  refine ⟨x.columns ++ NEW_COLS.filter (· ∉ x.columns), fun col hcol => ?_, ?_, ?_⟩
  · rw [List.mem_append, List.mem_filter]
    by_cases h : col ∈ x.columns
    · exact .inl h
    · exact .inr ⟨hcol, by simpa using h⟩
  · rw [ensurePhaseEColumns, select_bind, run_read]
    exact (run_bind_ok hrun _).trans rfl
  · rw [ensurePhaseEColumns, select_bind, commits_read]
    intro y hy
    rw [Conn.idle_view, commits_bind_ok hrun, List.mem_append] at hy
    rcases hy with hy | hy
    · exact hcommits y hy
    · rw [commits_commitNow, List.mem_singleton] at hy
      rw [hy]
      rfl

/-! ## Runs -/

theorem does_correct_dry (ls : Lists) : Does (correct ls false) fun _ r => r := by
  have : Does (correct ls false) fun _ r => ls.EXCLUDE.foldl (fun r _ => r) (ls.RECLASSIFY.foldl (fun r _ => r) r) :=
    (Does.forM (fun _ => does_correctOne_dry _ _) ls.RECLASSIFY).bind (Does.forM (fun _ => does_correctOne_dry _ _) ls.EXCLUDE)
  simpa only [List.foldl_fixed] using this

theorem does_correct (ls : Lists) : Does (correct ls true) ls.settle :=
  (Does.forM does_reclassifyOne ls.RECLASSIFY).bind (Does.forM does_excludeOne ls.EXCLUDE)

/-- What a run commits: columns, and, if it applies the lists, all that they change at once. -/
theorem commits_main (ls : Lists) (apply : Bool) (x : Db) : ∃ pre last, commits (main ls apply) (.idle x) = pre ++ last ∧
    (∀ y ∈ pre, y.scores = x.scores) ∧
      if apply then ∃ y, last = [y] ∧ ∀ epId, y.scores.lookup epId = (x.scores.lookup epId).map (ls.settle epId)
      else last = [] := by
  obtain ⟨cols, hcols, hrun, hpre⟩ := run_ensurePhaseEColumns x
  refine ⟨commits ensurePhaseEColumns (.idle x), ?_⟩
  rw [main, commits_bind_ok hrun]
  cases apply with
  | false =>
    obtain ⟨y, hy, hyc, -⟩ := does_correct_dry ls (.idle { x with columns := cols }) hcols
    refine ⟨[], ?_, hpre, rfl⟩
    rw [commits_bind_ok hy, hyc]
    rfl
  | true =>
    obtain ⟨y, hy, hyc, hmaps⟩ := does_correct ls (.idle { x with columns := cols }) hcols
    refine ⟨[y], ?_, hpre, y, rfl, hmaps.2⟩
    rw [commits_bind_ok hy, hyc]
    rfl

/-- A run that is killed leaves every row as it was, or, if it was to apply them, every row as the lists have it. -/
theorem stop_main (ls : Lists) (apply : Bool) (n : Nat) (x : Db) : (stop n (main ls apply) (.idle x)).scores = x.scores ∨
    apply = true ∧ ∀ epId, (stop n (main ls apply) (.idle x)).scores.lookup epId = (x.scores.lookup epId).map (ls.settle epId) := by
  obtain ⟨pre, last, hcommits, hpre, hlast⟩ := commits_main ls apply x
  have hmem := List.mem_of_getElem? (stop_eq n (main ls apply) (.idle x))
  rw [hcommits, List.mem_cons, List.mem_append] at hmem
  rcases hmem with hs | hs | hs
  · exact .inl (congrArg Db.scores hs)
  · exact .inl (hpre _ hs)
  · cases apply with
    | false =>
      rw [if_neg Bool.false_ne_true] at hlast
      rw [hlast] at hs
      cases hs
    | true =>
      obtain ⟨y, rfl, hy⟩ := hlast
      rw [List.mem_singleton] at hs
      exact .inr ⟨rfl, fun epId => by rw [hs, hy]⟩

theorem after_main (ls : Lists) (apply : Bool) (x : Db) : if apply
    then ∀ epId, (after (main ls apply) x).scores.lookup epId = (x.scores.lookup epId).map (ls.settle epId)
    else (after (main ls apply) x).scores = x.scores := by
  obtain ⟨pre, last, hcommits, hpre, hlast⟩ := commits_main ls apply x
  rw [after, run_committed, hcommits]
  cases apply with
  | false =>
    rw [if_neg Bool.false_ne_true] at hlast ⊢
    rw [hlast, List.append_nil]
    rcases List.eq_nil_or_concat pre with rfl | ⟨pre, y, rfl⟩
    · rfl
    · simpa using hpre y (by simp)
  | true =>
    obtain ⟨y, rfl, hy⟩ := hlast
    rw [if_pos rfl]
    intro epId
    simpa using hy epId

/-! ## Histories -/

/-- What happens to `scores`: a scorer inserts a row, or the script is run, to its end or until it is killed. -/
inductive Event where
  | insert (epId : String) (correct : Int) (trustCorrect actionApplied : Option Int)
  | run (apply : Bool)
  | killed (apply : Bool) (steps : Nat)

def Event.isInsert : Event → Bool
  | .insert .. => true
  | _ => false

/-- A row as a scorer inserts it. -/
def Score.scored (correct : Int) (trustCorrect actionApplied : Option Int) : Score :=
  ⟨correct, trustCorrect, actionApplied, none, none, none, none⟩

def Db.step (ls : Lists) (x : Db) : Event → Db
  | .insert epId correct trustCorrect actionApplied =>
    { x with scores := (x.scores.insertNew epId (.scored correct trustCorrect actionApplied)).getD x.scores }
  | .run apply => after (main ls apply) x
  | .killed apply steps => stop steps (main ls apply) (.idle x)

/-- The table before the first episode is scored, with some of the columns or none. -/
def Db.empty (columns : List String) : Db := ⟨columns, ∅⟩

abbrev history (ls : Lists) (columns : List String) (events : List Event) : Db := Steps.run (Db.step ls) (.empty columns) events

/-- What the table holds if the script is never run. -/
def scored (ls : Lists) (columns : List String) (events : List Event) : Db := history ls columns (events.filter Event.isInsert)

/-- Row by row, `y` holds what was scored in `x`, or what the lists make of it. -/
def Corrects (ls : Lists) (x y : Db) : Prop :=
  ∀ epId, match x.scores.lookup epId with
    | none => y.scores.lookup epId = none
    | some r => r.Fresh ∧ (y.scores.lookup epId = some r ∨ y.scores.lookup epId = some (ls.settle epId r))

theorem Corrects.of_map {ls : Lists} {x y z : Db} (h : Corrects ls x y)
    (hz : ∀ epId, z.scores.lookup epId = (y.scores.lookup epId).map (ls.settle epId)) :
    Corrects ls x z ∧ ∀ epId, z.scores.lookup epId = (x.scores.lookup epId).map (ls.settle epId) := by
  have hall : ∀ epId, z.scores.lookup epId = (x.scores.lookup epId).map (ls.settle epId) := by
    intro epId
    have := h epId
    rw [hz]
    cases hx : x.scores.lookup epId with
    | none =>
      rw [hx] at this
      rw [this]
    | some r =>
      rw [hx] at this
      rcases this.2 with hy | hy
      · rw [hy]
      · rw [hy, Option.map_some, settle_idem, Option.map_some]
  refine ⟨fun epId => ?_, hall⟩
  have := h epId
  cases hx : x.scores.lookup epId with
  | none => rw [hall, hx]; rfl
  | some r =>
    rw [hx] at this
    exact ⟨this.1, .inr (by rw [hall, hx]; rfl)⟩

theorem Corrects.insert {ls : Lists} {x y : Db} (h : Corrects ls x y) (epId : String) (correct : Int) (trust action : Option Int) :
    Corrects ls (x.step ls (.insert epId correct trust action)) (y.step ls (.insert epId correct trust action)) := by
  intro id
  have hmem : epId ∈ x.scores ↔ epId ∈ y.scores := by
    have := h epId
    rw [Table.mem_iff_lookup, Table.mem_iff_lookup]
    cases hx : x.scores.lookup epId with
    | none =>
      rw [hx] at this
      simp [this]
    | some r =>
      rw [hx] at this
      rcases this.2 with hy | hy <;> simp [hy]
  simp only [Db.step, Table.insertNew, ← hmem]
  by_cases hin : epId ∈ x.scores
  · rw [if_pos hin, if_pos hin]
    exact h id
  · rw [if_neg hin, if_neg hin, Option.getD_some, Option.getD_some, Table.lookup_upsert, Table.lookup_upsert]
    by_cases hid : id = epId
    · rw [if_pos hid, if_pos hid]
      exact ⟨⟨rfl, rfl, rfl, rfl⟩, .inl rfl⟩
    · rw [if_neg hid, if_neg hid]
      exact h id

theorem corrects_history (ls : Lists) (columns : List String) (events : List Event) :
    Corrects ls (scored ls columns events) (history ls columns events) := by
  induction events using List.reverseRecOn with
  | nil => exact fun _ => rfl
  | append_singleton events e ih =>
    rw [scored, List.filter_append, history, history, Steps.run_concat]
    cases e with
    | insert epId correct trust action =>
      rw [List.filter_cons_of_pos rfl, List.filter_nil, Steps.run_concat]
      exact ih.insert epId correct trust action
    | run apply =>
      rw [List.filter_cons_of_neg (by simp [Event.isInsert]), List.filter_nil, List.append_nil]
      have hafter := after_main ls apply (history ls columns events)
      cases apply with
      | false =>
        intro epId
        rw [show (Db.step ls _ (.run false)).scores = _ from hafter]
        exact ih epId
      | true => exact (ih.of_map hafter).1
    | killed apply steps =>
      rw [List.filter_cons_of_neg (by simp [Event.isInsert]), List.filter_nil, List.append_nil]
      rcases stop_main ls apply steps (history ls columns events) with hs | ⟨-, hs⟩
      · intro epId
        rw [show (Db.step ls _ (.killed apply steps)).scores = _ from hs]
        exact ih epId
      · exact (ih.of_map hs).1

/-- Nothing is lost. After any history of insertions, runs and kills every row that was scored can be read off what is there; a run
that is killed then has changed nothing, or has left all rows as the lists have them; and a whole run with `--apply` leaves them so,
whatever came before. -/
theorem corrections_keep_originals (ls : Lists) (columns : List String) (events : List Event) :
    (∀ epId, ((history ls columns events).scores.lookup epId).map Score.undo = (scored ls columns events).scores.lookup epId) ∧
      (∀ apply steps, (history ls columns (events ++ [.killed apply steps])).scores = (history ls columns events).scores ∨
        ∀ epId, (history ls columns (events ++ [.killed apply steps])).scores.lookup epId =
          ((scored ls columns events).scores.lookup epId).map (ls.settle epId)) ∧
      ∀ epId, (history ls columns (events ++ [.run true])).scores.lookup epId =
        ((scored ls columns events).scores.lookup epId).map (ls.settle epId) := by
  have hcorrects := corrects_history ls columns events
  refine ⟨fun epId => ?_, fun apply steps => ?_, fun epId => ?_⟩
  · have := hcorrects epId
    cases hx : (scored ls columns events).scores.lookup epId with
    | none =>
      rw [hx] at this
      rw [this]
      rfl
    | some r =>
      rw [hx] at this
      rcases this.2 with hy | hy
      · rw [hy, Option.map_some, undo_fresh this.1]
      · rw [hy, Option.map_some, undo_settle ls epId this.1]
  · rw [history, Steps.run_concat]
    rcases stop_main ls apply steps (history ls columns events) with hs | ⟨-, hs⟩
    · exact .inl hs
    · exact .inr (hcorrects.of_map hs).2
  · rw [history, Steps.run_concat]
    exact (hcorrects.of_map (after_main ls true _)).2 epId

end Wardence.Corrections
