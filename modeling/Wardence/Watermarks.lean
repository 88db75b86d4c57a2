import Mathlib.Data.List.Infix
import Mathlib.Logic.Function.Basic
import Wardence.Lib.Table
/-!
# The watermarks file

`_save_watermark` reads `watermarks.json`, sets one entry, writes the whole to
`watermarks.json.tmp` and moves that over the file. Every process uses the same
temporary name.
-/
namespace Wardence.Watermarks

open Keyed

/-- Each service and its watermark. -/
abbrev Entries := Table String Int

/-- What a file holds: JSON that `json.load` reads back, or the start of some. -/
inductive Text where
  | complete (d : Entries)
  | torn

/-- `watermarks.json` and `watermarks.json.tmp`; `none` where there is no such file. -/
structure Files where
  file : Option Text
  tmp : Option Text

/-- `_load_watermarks`; `none` when it raises. -/
def loadWatermarks (f : Files) : Option Entries :=
  match f.file with
  | none => some ∅
  | some (.complete d) => some d
  | some .torn => none

/-- A call of `_save_watermark`. -/
structure Save where
  service : String
  tsNs : Int

def Save.set (s : Save) (d : Entries) : Entries := AList.insert s.service s.tsNs d

/-- How far a call has come. -/
inductive Place where
  | called
  | read (d : Entries)
  | written
  | saved
  | raised

def Place.Over : Place → Prop
  | .saved | .raised => True
  | _ => False

/-- The next step of a call: the read, the write of the temporary file, or `os.replace`. -/
def Save.step (s : Save) (f : Files) : Place → Files × Place
  | .called =>
    match loadWatermarks f with
    | some d => (f, .read d)
    | none => (f, .raised)
  | .read d => ({ f with tmp := some (.complete (s.set d)) }, .written)
  | .written =>
    match f.tmp with
    | some t => (⟨some t, none⟩, .saved)
    -- `FileNotFoundError`
    | none => (f, .raised)
  | .saved => (f, .saved)
  | .raised => (f, .raised)

/-! ## Two calls -/

structure World where
  files : Files
  place : Bool → Place

section Calls
variable (s : Bool → Save)

def move (w : World) (b : Bool) : World :=
  ⟨((s b).step w.files (w.place b)).1, Function.update w.place b ((s b).step w.files (w.place b)).2⟩

/-- Two processes, each about to call; what is left of the temporary file may be anything. -/
def start (d : Option Entries) (tmp : Option Text) : World := ⟨⟨d.map .complete, tmp⟩, fun _ => .called⟩

def run (w : World) (sched : List Bool) : World := sched.foldl (move s) w

/-- What the docstring promises: both watermarks are there, and the file is complete all along. -/
structure Kept (w : World) (sched : List Bool) : Prop where
  present : ∀ b, (loadWatermarks (run s w sched).files).bind (AList.lookup (s b).service) = some (s b).tsNs
  complete : ∀ pre, pre <+: sched → (run s w pre).files.file ≠ some .torn

end Calls

/-- The first call is over before the second one begins. -/
def Serial (sched : List Bool) : Prop := ∃ b, sched.take 3 = [b, b, b]

instance (sched : List Bool) : Decidable (Serial sched) :=
  decidable_of_iff (sched.take 3 = [false, false, false] ∨ sched.take 3 = [true, true, true])
    ⟨fun h => h.elim (fun h => ⟨_, h⟩) fun h => ⟨_, h⟩, fun ⟨b, h⟩ => by cases b; exact .inl h; exact .inr h⟩

/-- The call that has two of the first three steps is the first to write. -/
def firstToWrite : List Bool → Bool
  | a :: b :: c :: _ => if a = b then a else c
  | _ => false

section Saves
variable {s : Bool → Save} {w : World} {b p : Bool} {d : Entries}

theorem run_append (w : World) (xs ys : List Bool) : run s w (xs ++ ys) = run s (run s w xs) ys := List.foldl_append

theorem move_self (w : World) (b : Bool) : (move s w b).place b = ((s b).step w.files (w.place b)).2 := Function.update_self ..

theorem move_not (w : World) (b : Bool) : (move s w b).place (!b) = w.place (!b) :=
  Function.update_of_ne (by cases b <;> decide) ..

/-- A call that is over does nothing more. -/
theorem move_over (h : (w.place b).Over) : move s w b = w := by
  cases hb : w.place b with
  | saved | raised =>
    simp only [move, hb, Save.step]
    rw [← hb, Function.update_eq_self]
  | called | read | written => rw [hb] at h; exact h.elim

/-! ## Complete JSON -/

/-- No file has been torn, but for what was left of the temporary file. -/
structure Whole (w : World) : Prop where
  file : w.files.file ≠ some .torn
  tmp : ∀ b, w.place b = .written → w.files.tmp ≠ some .torn

theorem Whole.move (h : Whole w) (b : Bool) : Whole (move s w b) := by
  have hother : ∀ c, (Watermarks.move s w b).place c = .written → c = b ∨ w.place c = .written := by
    intro c hc
    by_cases hcb : c = b
    · exact .inl hcb
    · exact .inr ((Function.update_of_ne hcb ..).symm.trans hc)
  cases hb : w.place b with
  | called =>
    have hfiles : (Watermarks.move s w b).files = w.files := by
      simp only [Watermarks.move, hb, Save.step]
      split <;> rfl
    refine ⟨by rw [hfiles]; exact h.file, fun c hc => ?_⟩
    rw [hfiles]
    rcases hother c hc with rfl | hc'
    · rw [move_self, hb, Save.step] at hc
      split at hc <;> cases hc
    · exact h.tmp c hc'
  | read d =>
    have hfiles : (Watermarks.move s w b).files = ⟨w.files.file, some (.complete ((s b).set d))⟩ := by
      simp only [Watermarks.move, hb, Save.step]
    exact ⟨by rw [hfiles]; exact h.file, fun c _ => by rw [hfiles]; simp⟩
  | written =>
    cases ht : w.files.tmp with
    | none =>
      have hfiles : (Watermarks.move s w b).files = w.files := by simp only [Watermarks.move, hb, Save.step, ht]
      exact ⟨by rw [hfiles]; exact h.file, fun c _ => by rw [hfiles, ht]; simp⟩
    | some t =>
      have hfiles : (Watermarks.move s w b).files = ⟨some t, none⟩ := by simp only [Watermarks.move, hb, Save.step, ht]
      refine ⟨?_, fun c _ => by rw [hfiles]; simp⟩
      rw [hfiles]
      have := h.tmp b hb
      rwa [ht] at this
  | saved | raised => rw [move_over (by rw [hb]; trivial)]; exact h

theorem whole_run (h : Whole w) (sched : List Bool) : Whole (run s w sched) :=
  List.foldlRecOn sched (Watermarks.move s) h fun _ h b _ => h.move b

/-! ## One call after the other -/

/-- While `p` is over and the file holds `d`, the other call does all its steps on `d`. -/
inductive Alone (s : Bool → Save) (d : Entries) (p : Bool) (w : World) : Prop
  | called : (w.place p).Over → w.place (!p) = .called → w.files.file = some (.complete d) → Alone s d p w
  | read : (w.place p).Over → w.place (!p) = .read d → Alone s d p w
  | written : (w.place p).Over → w.place (!p) = .written → w.files.tmp = some (.complete ((s (!p)).set d)) → Alone s d p w
  | saved : (w.place p).Over → (w.place (!p)).Over → w.files.file = some (.complete ((s (!p)).set d)) → Alone s d p w

theorem Alone.move (h : Alone s d p w) (b : Bool) : Alone s d p (move s w b) := by
  by_cases hbp : b = p
  · have hover : (w.place p).Over := by cases h <;> assumption
    rw [hbp, move_over hover]
    exact h
  obtain rfl : b = !p := Bool.eq_not.2 hbp
  have hkeep : (Watermarks.move s w (!p)).place p = w.place p := by
    have := move_not (s := s) w (!p)
    rwa [Bool.not_not] at this
  cases h with
  | called hp hq hf =>
    refine .read (by rwa [hkeep]) ?_
    rw [move_self, hq, Save.step, loadWatermarks, hf]
  | read hp hq =>
    refine .written (by rwa [hkeep]) (by rw [move_self, hq, Save.step]) ?_
    simp only [Watermarks.move, hq, Save.step]
  | written hp hq ht =>
    refine .saved (by rwa [hkeep]) ?_ ?_
    · rw [move_self, hq, Save.step, ht]; trivial
    · simp only [Watermarks.move, hq, Save.step, ht]
  | saved hp hq hf =>
    rw [move_over hq]
    exact .saved hp hq hf

theorem alone_run (h : Alone s d p w) (sched : List Bool) : Alone s d p (run s w sched) :=
  List.foldlRecOn sched (Watermarks.move s) h fun _ h b _ => h.move b

theorem Alone.over (h : Alone s d p w) (hq : (w.place (!p)).Over) : w.files.file = some (.complete ((s (!p)).set d)) := by
  cases h with
  | saved _ _ hf => exact hf
  | called _ hc | read _ hc | written _ hc => rw [hc] at hq; exact hq.elim

/-! ## Both read first -/

/-- Both calls have read `d`, and `p` has written: whatever follows, the file ends as the other call writes it. -/
inductive Overlapped (s : Bool → Save) (d : Entries) (p : Bool) (w : World) : Prop
  | read : w.place p = .written ∨ (w.place p).Over → w.place (!p) = .read d → Overlapped s d p w
  | written : w.place p = .written ∨ (w.place p).Over → w.place (!p) = .written →
      w.files.tmp = some (.complete ((s (!p)).set d)) → Overlapped s d p w
  | moved : w.place p = .written ∨ (w.place p).Over → w.place (!p) = .written ∨ (w.place (!p)).Over → w.files.tmp = none →
      w.files.file = some (.complete ((s (!p)).set d)) → Overlapped s d p w

/-- A call that has written is over with its next step; without a temporary file it moves nothing. -/
theorem over_of_written (h : w.place b = .written ∨ (w.place b).Over) :
    ((move s w b).place b).Over ∧ (w.files.tmp = none → (move s w b).files = w.files) := by
  rcases h with h | h
  · rw [move_self, h, Save.step]
    refine ⟨by cases w.files.tmp <;> trivial, fun ht => ?_⟩
    simp only [move, h, Save.step, ht]
  · rw [move_over h]
    exact ⟨h, fun _ => rfl⟩

theorem Overlapped.move (h : Overlapped s d p w) (b : Bool) : Overlapped s d p (move s w b) := by
  by_cases hbp : b = p
  · subst hbp
    have hkeep := move_not (s := s) w b
    cases h with
    | read hp hq => exact .read (.inr (over_of_written hp).1) (hkeep.trans hq)
    | written hp hq ht =>
      rcases hp with hp | hp
      -- It moves what the other call has written.
      · refine .moved (.inr (over_of_written (.inl hp)).1) (.inl (hkeep.trans hq)) ?_ ?_ <;>
          simp only [Watermarks.move, hp, Save.step, ht]
      · rw [move_over hp]
        exact .written (.inr hp) hq ht
    | moved hp hq ht hf =>
      obtain ⟨hover, hfiles⟩ := over_of_written (s := s) hp
      exact .moved (.inr hover) (by rwa [hkeep]) (by rwa [hfiles ht]) (by rwa [hfiles ht])
  · obtain rfl : b = !p := Bool.eq_not.2 hbp
    have hkeep : (Watermarks.move s w (!p)).place p = w.place p := by
      have := move_not (s := s) w (!p)
      rwa [Bool.not_not] at this
    cases h with
    | read hp hq =>
      refine .written (by rwa [hkeep]) (by rw [move_self, hq, Save.step]) ?_
      simp only [Watermarks.move, hq, Save.step]
    | written hp hq ht =>
      refine .moved (by rwa [hkeep]) (.inr (over_of_written (.inl hq)).1) ?_ ?_ <;>
        simp only [Watermarks.move, hq, Save.step, ht]
    | moved hp hq ht hf =>
      obtain ⟨hover, hfiles⟩ := over_of_written (s := s) hq
      exact .moved (by rwa [hkeep]) (.inr hover) (by rwa [hfiles ht]) (by rwa [hfiles ht])

theorem overlapped_run (h : Overlapped s d p w) (sched : List Bool) : Overlapped s d p (run s w sched) :=
  List.foldlRecOn sched (Watermarks.move s) h fun _ h b _ => h.move b

theorem Overlapped.over (h : Overlapped s d p w) (hq : (w.place (!p)).Over) : w.files.file = some (.complete ((s (!p)).set d)) := by
  cases h with
  | moved _ _ _ hf => exact hf
  | read _ hc | written _ hc => rw [hc] at hq; exact hq.elim

/-! ## Every schedule -/

variable {o : Option Entries} {tmp : Option Text} {sched : List Bool}

/-- The first three steps, by one call: it is over. -/
theorem three_serial (p : Bool) : Alone s ((s p).set (o.getD ∅)) p (run s (start o tmp) [p, p, p]) := by
  cases o <;> cases p <;> exact .called trivial rfl rfl

/-- The first three steps, by both: each has read what was there before. -/
theorem three_overlapped {a b c : Bool} (h : ¬ (a = b ∧ b = c)) :
    Overlapped s (o.getD ∅) (firstToWrite [a, b, c]) (run s (start o tmp) [a, b, c]) := by
  cases o <;> cases a <;> cases b <;> cases c <;>
    first | exact absurd ⟨rfl, rfl⟩ h | exact .read (.inl rfl) rfl

theorem serial_iff {a b c : Bool} {rest : List Bool} : Serial (a :: b :: c :: rest) ↔ a = b ∧ b = c := by
  constructor
  · rintro ⟨p, hp⟩
    cases hp
    exact ⟨rfl, rfl⟩
  · rintro ⟨rfl, rfl⟩
    exact ⟨a, rfl⟩

/-- Two steps are not enough for two calls. -/
theorem three_steps (hover : ∀ b, ((run s (start o tmp) sched).place b).Over) : ∃ a b c rest, sched = a :: b :: c :: rest := by
  match sched with
  | [] => exact (hover true).elim
  | [a] => cases o <;> cases a <;> exact (hover true).elim
  | [a, b] => cases o <;> cases a <;> cases b <;> exact (hover true).elim
  | a :: b :: c :: rest => exact ⟨a, b, c, rest, rfl⟩

/-- The file at the end: the second call to write has set its entry in what it read. -/
theorem ended (hover : ∀ b, ((run s (start o tmp) sched).place b).Over) :
    (run s (start o tmp) sched).files.file = some (.complete ((s (!firstToWrite sched)).set
      (if Serial sched then (s (firstToWrite sched)).set (o.getD ∅) else o.getD ∅))) := by
  obtain ⟨a, b, c, rest, rfl⟩ := three_steps hover
  have hrun : run s (start o tmp) (a :: b :: c :: rest) = run s (run s (start o tmp) [a, b, c]) rest := rfl
  rw [hrun] at hover ⊢
  by_cases h : a = b ∧ b = c
  · rw [if_pos (serial_iff.2 h)]
    obtain ⟨rfl, rfl⟩ := h
    have hfirst : firstToWrite (a :: a :: a :: rest) = a := if_pos rfl
    rw [hfirst]
    exact (alone_run (three_serial a) rest).over (hover (!a))
  · rw [if_neg fun hs => h (serial_iff.1 hs)]
    exact (overlapped_run (three_overlapped h) rest).over (hover (!firstToWrite [a, b, c]))

/-- Two calls keep their promise when they do not overlap, or when what the first one writes was there before. -/
theorem saves_kept_iff (s : Bool → Save) (hs : (s false).service ≠ (s true).service) (o : Option Entries) (tmp : Option Text)
    (sched : List Bool) (hover : ∀ b, ((run s (start o tmp) sched).place b).Over) :
    Kept s (start o tmp) sched ↔
      Serial sched ∨ AList.lookup (s (firstToWrite sched)).service (o.getD ∅) = some (s (firstToWrite sched)).tsNs := by
  have hcomplete : ∀ pre, pre <+: sched → (run s (start o tmp) pre).files.file ≠ some .torn := by
    intro pre _
    exact (whole_run ⟨by cases o <;> simp [start], fun b hb => by cases hb⟩ pre).file
  have hfile := ended hover
  generalize hp : firstToWrite sched = p at hfile ⊢
  have hne : (s p).service ≠ (s (!p)).service := by
    cases p
    · exact hs
    · exact hs.symm
  have hload : loadWatermarks (run s (start o tmp) sched).files =
      some ((s (!p)).set (if Serial sched then (s p).set (o.getD ∅) else o.getD ∅)) := by rw [loadWatermarks, hfile]
  have hfirst : (loadWatermarks (run s (start o tmp) sched).files).bind (AList.lookup (s p).service) =
      if Serial sched then some (s p).tsNs else AList.lookup (s p).service (o.getD ∅) := by
    rw [hload, Option.bind_some, Save.set, AList.lookup_insert_ne hne]
    split
    next => exact AList.lookup_insert _
    next => rfl
  constructor
  · intro h
    by_cases hser : Serial sched
    · exact .inl hser
    · have := h.present p
      rw [hfirst, if_neg hser] at this
      exact .inr this
  · intro h
    refine ⟨fun b => ?_, hcomplete⟩
    by_cases hb : b = p
    · rw [hb, hfirst]
      split
      next => rfl
      next hn => exact h.resolve_left hn
    · obtain rfl : b = !p := Bool.eq_not.2 hb
      rw [hload, Option.bind_some, Save.set]
      exact AList.lookup_insert _

end Saves

/-- Two services' runs at the same time. -/
def bothRuns (b : Bool) : Save := if b then ⟨"catalogue", 1700000000000000000⟩ else ⟨"orders", 1700000000000000001⟩

/-- One process reads and writes all of its call between the other's read and write. -/
def between : List Bool := [false, true, true, true, false, false]

theorem saves_kept_serial :
    Kept bothRuns (start none none) [false, false, false, true, true, true] :=
  (saves_kept_iff bothRuns (by decide) none none _ (fun b => by cases b <;> trivial)).2 (.inl ⟨false, rfl⟩)

/-- Catalogue's watermark is written and gone again. -/
theorem watermark_lost : ¬ ∀ (s : Bool → Save) (o : Option Entries) (tmp : Option Text) (sched : List Bool),
    (s false).service ≠ (s true).service → (∀ b, ((run s (start o tmp) sched).place b).Over) → Kept s (start o tmp) sched := by
  intro h
  have hkept := h bothRuns none none between (by decide) fun b => by cases b <;> trivial
  exact absurd (hkept.present true) (by decide)

end Wardence.Watermarks
