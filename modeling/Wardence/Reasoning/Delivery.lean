import Wardence.Reasoning.Stream
/-!
# The stream delivers every event once

A pass of the tail that comes between two writes, or before or after the one under way, finds whole
lines. If every pass does, the page shows what the events tell, each once and in their order. A pass
that comes inside a write tears a line, and the two parts of it are messages of their own.
-/
namespace Wardence.Reasoning

open JsonText Tail Js

def Event.isDone : Event → Bool
  | .done _ => true
  | _ => false

/-- The text of the file, if there is one. -/
def World.text (w : World) : List Char := w.file.getD []

/-- The lines of the events. -/
def World.lines (w : World) : List (List Char) := w.events.map Event.line

/-- Nothing of the line that is being written is in the file, or all of it but the newline. -/
def Between (w : World) : Prop :=
  w.unwritten = [] ∨ w.unwritten = ['\n'] ∨ ∃ e ∈ w.events.getLast?, w.unwritten = e.line ++ ['\n']

instance (w : World) : Decidable (Between w) := inferInstanceAs (Decidable (_ ∨ _ ∨ ∃ e ∈ w.events.getLast?, _))

/-- A writer that empties the file is made before the reader has read anything. -/
def OpensFirst (w : World) : Move → Prop
  | .makeWriter => w.reader.pos = 0
  | _ => True

/-- No pass comes inside a line. -/
def Undisturbed (w : World) : Move → Prop
  | .pass _ => w.reader.ended = false → Between w
  | _ => True

instance (w : World) : ∀ m, Decidable (OpensFirst w m)
  | .makeWriter => inferInstanceAs (Decidable (w.reader.pos = 0))
  | .write _ | .flush _ | .pass _ => .isTrue trivial

instance (w : World) : ∀ m, Decidable (Undisturbed w m)
  | .pass _ => inferInstanceAs (Decidable (w.reader.ended = false → Between w))
  | .makeWriter | .write _ | .flush _ => .isTrue trivial

/-! ## The writer -/

/-- What the file holds, and what is left of the line that is being written. -/
inductive Written (w : World) : Prop where
  | whole : w.unwritten = [] → w.text = text w.lines → (w.file = none → w.events = []) → Written w
  | partly (es : List Event) (e : Event) (x : List Char) : w.events = es ++ [e] → x ++ w.unwritten = e.line ++ ['\n'] →
      w.text = text (es.map Event.line) ++ x → w.unwritten ≠ [] → w.file ≠ none → Written w

theorem text_concat (ls : List (List Char)) (l : List Char) : text (ls ++ [l]) = text ls ++ (l ++ ['\n']) := by
  simp [text]

theorem written_step {w : World} (h : Written w) (m : Move) : Written (w.step m) := by
  cases m with
  | makeWriter =>
    simp only [World.step]
    split
    · next hu => exact .whole hu rfl (fun h => by cases h)
    · exact h
  | write e =>
    simp only [World.step]
    split
    · next hw =>
      cases h with
      | whole hu ht _ =>
        refine .partly w.events e [] rfl rfl ?_ (by simp) (Option.isSome_iff_ne_none.1 hw.2)
        rw [List.append_nil]
        exact ht
      | partly es e x he hx ht hne hf => exact absurd hw.1 hne
    · exact h
  | flush n =>
    cases h with
    | whole hu ht hn =>
      have htext : (w.step (.flush n)).text = w.text := by
        simp only [World.step, World.text, hu]
        cases w.file <;> simp
      refine .whole (by simp [World.step, hu]) (htext.trans ht) ?_
      · intro hf
        refine hn ?_
        cases hfile : w.file with
        | none => rfl
        | some f => simp [World.step, hfile] at hf
    | partly es e x he hx ht hne hf =>
      obtain ⟨f, hfile⟩ := Option.ne_none_iff_exists'.1 hf
      have htext : (w.step (.flush n)).text = text (es.map Event.line) ++ (x ++ w.unwritten.take n) := by
        rw [← List.append_assoc, ← ht]
        simp [World.step, World.text, hfile]
      have hrest : (x ++ w.unwritten.take n) ++ (w.step (.flush n)).unwritten = e.line ++ ['\n'] := by
        rw [List.append_assoc]
        exact (congrArg _ (List.take_append_drop n w.unwritten)).trans hx
      by_cases hend : (w.step (.flush n)).unwritten = []
      · rw [hend, List.append_nil] at hrest
        refine .whole hend ?_ (by simp [World.step, hfile])
        rw [htext, hrest, World.lines]
        simp only [World.step, he, List.map_append, List.map_singleton, text_concat]
      · exact .partly es e _ he hrest htext hend (by simp [World.step, hfile])
  | pass t =>
    cases h with
    | whole hu ht hn => exact .whole hu ht hn
    | partly es e x he hx ht hne hf => exact .partly es e x he hx ht hne hf

/-! ## The reader -/

/-- The reader has sent the first `k` events. -/
structure InStep (w : World) (k : Nat) : Prop where
  le : k ≤ w.events.length
  pos : w.reader.pos ≤ w.text.length
  -- a newline that was not there when the reader came may be next
  read : ∃ s, (s = [] ∨ s = ['\n']) ∧ w.text.take w.reader.pos ++ s = text (w.lines.take k)
  lines : w.reader.lines = w.lines.take k
  done : w.reader.sawDone = (w.events.take k).any Event.isDone

/-- A line was torn: a message that no event has is where one should be. -/
structure Torn (w : World) : Prop where
  pos : w.reader.pos ≠ 0
  message : ∃ (i : Nat) (m l : List Char), w.reader.lines[i]? = some m ∧ w.lines[i]? = some l ∧ m ≠ l

theorem Torn.not_prefix {w : World} (h : Torn w) : ¬ w.reader.lines <+: w.lines := by
  rintro ⟨rest, hrest⟩
  obtain ⟨i, m, l, hm, hl, hne⟩ := h.message
  rw [← hrest, List.getElem?_append_left (List.getElem?_eq_some_iff.1 hm).1, hm] at hl
  exact hne (Option.some.inj hl)

theorem line_of_mem {w : World} : ∀ l ∈ w.lines, Line l := Event.lines_line w.events

/-- What is left of whole lines is whole lines. -/
theorem messages_rest {f s u : List Char} {ls : List (List Char)} {k pos : Nat} (hl : ∀ l ∈ ls, Line l)
    (hu : u = [] ∨ u = ['\n']) (hf : f ++ u = text ls) (hs : s = [] ∨ s = ['\n']) (hread : f.take pos ++ s = text (ls.take k)) :
    messages (f.drop pos) = ls.drop k := by
  have hline : ∀ l ∈ ls.drop k, Line l := fun l h => hl l (List.mem_of_mem_drop h)
  have hdrop : f.drop pos ++ u = s ++ text (ls.drop k) := by
    have hsplit : text ls = text (ls.take k) ++ text (ls.drop k) := by
      rw [text, text, text, ← List.flatMap_append, List.take_append_drop]
    refine (List.append_right_inj (f.take pos)).1 ?_
    rw [← List.append_assoc, List.take_append_drop, hf, hsplit, ← hread, List.append_assoc]
  have hskip : ∀ t, messages (s ++ t) = messages t := by
    intro t
    rcases hs with rfl | rfl
    · rfl
    · exact messages_newline t
  have hnil : messages [] = [] := rfl
  rcases hu with rfl | rfl
  · rw [List.append_nil] at hdrop
    have := messages_text hline []
    rw [List.append_nil, hnil, List.append_nil] at this
    rw [hdrop, hskip, this]
  · rcases List.eq_nil_or_concat (ls.drop k) with hk | ⟨init, l, hk⟩
    · rw [hk] at hdrop ⊢
      have : f.drop pos = [] := by
        have hlen := congrArg List.length hdrop
        refine List.eq_nil_of_length_eq_zero ?_
        rcases hs with rfl | rfl
        all_goals
          simp only [text, List.length_append, List.length_drop, List.flatMap_nil, List.length_nil, List.length_singleton] at hlen ⊢
          omega
      rw [this, hnil]
    · rw [List.concat_eq_append] at hk
      have hrest : f.drop pos = s ++ (text init ++ l) := by
        rw [hk, text_concat, ← List.append_assoc, ← List.append_assoc] at hdrop
        rw [← List.append_assoc]
        exact List.append_cancel_right hdrop
      have hinit : ∀ l ∈ init, Line l := fun l' h => hline l' (by simp [hk, h])
      rw [hrest, hskip, messages_text hinit, messages_open (hline l (by simp [hk])), hk]

/-! ## A pass -/

theorem yielded_append {ls : List (List Char)} (h : ∀ l ∈ ls, raises l = false) (ms : List (List Char)) :
    yielded (ls ++ ms) = ls ++ yielded ms := by
  induction ls with
  | nil => rfl
  | cons l ls ih =>
    rw [List.cons_append, yielded, if_neg (by simp [h l (.head _)]), ih fun l hl => h l (.tail _ hl)]
    rfl

theorem yielded_clean {ls : List (List Char)} (h : ∀ l ∈ ls, raises l = false) : yielded ls = ls := by
  have := yielded_append h []
  rwa [List.append_nil, yielded, List.append_nil] at this

theorem yielded_singleton (m : List Char) : yielded [m] = [m] := by
  rw [yielded]
  split <;> rfl

/-- What a pass finds in the file. -/
def World.fresh (w : World) : List (List Char) := messages (w.text.drop w.reader.pos)

theorem fresh_eq (w : World) : w.reader.fresh w.file = w.fresh := by
  rw [World.fresh, World.text]
  cases w.file <;> simp [Reader.fresh, messages, readlines]

theorem lines_data (r : Reader) (ls : List (List Char)) : (r.sent ++ ls.map Frame.data).filterMap Frame.line = r.lines ++ ls := by
  have : (ls.map Frame.data).filterMap Frame.line = ls := by
    rw [List.filterMap_map]
    exact List.filterMap_some
  rw [List.filterMap_append, this, Reader.lines]

theorem rest_lines (t : Clock) (r : Reader) : (r.rest t).lines = r.lines := by
  rw [Reader.rest]
  split
  · rfl
  split
  · rw [Reader.lines, List.filterMap_append]
    exact List.append_nil _
  · rfl

theorem rest_pos (t : Clock) (r : Reader) : (r.rest t).pos = r.pos := by
  rw [Reader.rest]
  split
  · rfl
  · split <;> rfl

theorem rest_sawDone (t : Clock) (r : Reader) : (r.rest t).sawDone = r.sawDone := by
  rw [Reader.rest]
  split
  · rfl
  · split <;> rfl

theorem pass_ended {w : World} (t : Clock) (h : w.reader.ended = true) : w.step (.pass t) = w := by
  rw [World.step, Reader.pass, if_pos h]

/-- What a pass reads and yields. -/
theorem pass_step {w : World} (t : Clock) (h : w.reader.ended = false) :
    (w.step (.pass t)).reader.lines = w.reader.lines ++ yielded w.fresh ∧
      (w.step (.pass t)).reader.pos = max w.reader.pos w.text.length ∧
      (w.step (.pass t)).reader.sawDone = (w.reader.sawDone || (yielded w.fresh).any saysDone) := by
  have hlines : (w.reader.take t w.file).lines = w.reader.lines ++ yielded w.fresh := by
    rw [← fresh_eq]
    exact lines_data w.reader _
  have hpos : (w.reader.take t w.file).pos = max w.reader.pos w.text.length := by
    rw [World.text]
    cases hf : w.file <;> simp [Reader.take]
  have hdone : (w.reader.take t w.file).sawDone = (w.reader.sawDone || (yielded w.fresh).any saysDone) := by
    rw [← fresh_eq]
    rfl
  simp only [World.step, Reader.pass, h, Bool.false_eq_true, if_false]
  split
  · exact ⟨hlines, hpos, hdone⟩
  · exact ⟨(rest_lines t _).trans hlines, (rest_pos t _).trans hpos, (rest_sawDone t _).trans hdone⟩

theorem saysDone_eq (e : Event) : saysDone e.line = e.isDone := by
  rw [Bool.eq_iff_iff, saysDone_line]
  cases e <;> simp [Event.isDone]

theorem any_saysDone (es : List Event) : (es.map Event.line).any saysDone = es.any Event.isDone := by
  rw [List.any_map]
  congr 1
  funext e
  exact saysDone_eq e

theorem raises_of_mem (es : List Event) : ∀ l ∈ es.map Event.line, raises l = false := by
  intro l hl
  obtain ⟨e, -, rfl⟩ := List.mem_map.1 hl
  exact raises_line e

/-! ## What a move keeps -/

/-- A pass that finds whole lines, the last perhaps without its newline, sends what is new. -/
theorem pass_inStep {w : World} {k k' : Nat} {u : List Char} (t : Clock) (h : InStep w k) (hend : w.reader.ended = false) (hk : k ≤ k')
    (hk' : k' ≤ w.events.length) (hu : u = [] ∨ u = ['\n']) (hf : w.text ++ u = text (w.lines.take k')) :
    InStep (w.step (.pass t)) k' := by
  obtain ⟨s, hs, hread⟩ := h.read
  obtain ⟨hlines, hpos, hdone⟩ := pass_step t hend
  have htake : (w.events.take k').take k = w.events.take k := by rw [List.take_take, min_eq_left hk]
  have hsplit : w.events.take k' = w.events.take k ++ (w.events.take k').drop k := by
    rw [← htake, List.take_append_drop]
  have hfresh : w.fresh = ((w.events.take k').drop k).map Event.line := by
    rw [World.lines, ← List.map_take] at hf
    rw [World.lines, ← List.map_take, ← htake, List.map_take] at hread
    rw [List.map_drop]
    exact messages_rest (Event.lines_line _) hu hf hs hread
  rw [hfresh, yielded_clean (raises_of_mem _)] at hlines hdone
  refine ⟨hk', ?_, ⟨u, hu, ?_⟩, ?_, ?_⟩
  · exact hpos.trans_le (max_le h.pos le_rfl)
  · have hall : max w.reader.pos w.text.length = w.text.length := max_eq_right h.pos
    rw [hpos, hall]
    exact (congrArg (· ++ u) (List.take_length)).trans hf
  · rw [hlines, h.lines]
    change w.lines.take k ++ _ = w.lines.take k'
    rw [World.lines, ← List.map_take, ← List.map_take, ← List.map_append, ← hsplit]
  · rw [hdone, h.done, any_saysDone]
    change _ = (w.events.take k').any Event.isDone
    rw [← List.any_append, ← hsplit]

/-- What has been read of the lines before the last cannot be the last. -/
theorem InStep.le_partly {w : World} {k : Nat} (h : InStep w k) {es : List Event} {e : Event} {x : List Char} (he : w.events = es ++ [e])
    (ht : w.text = text (es.map Event.line) ++ x) (hx : x.length < e.line.length) : k ≤ es.length := by
  by_contra hlt
  obtain ⟨s, hs, hread⟩ := h.read
  have hk : k = w.events.length := by
    have := h.le
    rw [he, List.length_append, List.length_singleton] at this ⊢
    omega
  have hall : w.lines.take k = es.map Event.line ++ [e.line] := by
    rw [hk, World.lines, List.take_of_length_le (by simp), he, List.map_append, List.map_singleton]
  have hlen := congrArg List.length hread
  have hslen : s.length ≤ 1 := by
    rcases hs with rfl | rfl <;> simp
  rw [hall, text_concat, ht] at hlen
  simp only [List.length_append, List.length_take, List.length_singleton] at hlen
  omega

theorem inStep_pass {w : World} {k : Nat} (hw : Written w) (h : InStep w k) (t : Clock) (hb : w.reader.ended = false → Between w) :
    ∃ k', InStep (w.step (.pass t)) k' := by
  cases hend : w.reader.ended with
  | true => exact ⟨k, by rw [pass_ended t hend]; exact h⟩
  | false =>
    cases hw with
    | whole hu ht hn =>
      refine ⟨w.events.length, pass_inStep t h hend h.le le_rfl (.inl rfl) ?_⟩
      rw [List.append_nil, ht, World.lines, List.take_of_length_le (by simp)]
    | partly es e x he hx ht hne hf =>
      rcases hb hend with hu | hu | ⟨e', he', hu⟩
      · exact absurd hu hne
      · refine ⟨w.events.length, pass_inStep t h hend h.le le_rfl (.inr rfl) ?_⟩
        rw [hu] at hx
        rw [World.lines, List.take_of_length_le (by simp), ht, List.append_assoc, hx, he, List.map_append, List.map_singleton,
          text_concat]
      · have hee : e' = e := by
          rw [he, List.getLast?_concat] at he'
          exact (Option.mem_some.1 he').symm
        have hx : x = [] := by
          rw [hu, hee] at hx
          have := congrArg List.length hx
          rw [List.length_append] at this
          exact List.eq_nil_of_length_eq_zero (by omega)
        have hk : k ≤ es.length := by
          refine h.le_partly he ht ?_
          rw [hx]
          exact List.length_pos_iff.2 e.line_line.ne_nil
        refine ⟨es.length, pass_inStep t h hend hk (by simp [he]) (.inl rfl) ?_⟩
        rw [List.append_nil, ht, hx, List.append_nil, World.lines, he, List.map_append,
          List.take_append_of_le_length (by simp), List.take_of_length_le (by simp)]

theorem text_eq_nil {ls : List (List Char)} (h : text ls = []) : ls = [] := by
  cases ls with
  | nil => rfl
  | cons l ls => simp [text] at h

/-- Who has read nothing has sent nothing. -/
theorem InStep.of_pos {w : World} {k : Nat} (h : InStep w k) (hpos : w.reader.pos = 0) : w.lines.take k = [] := by
  obtain ⟨s, hs, hread⟩ := h.read
  rw [hpos, List.take_zero, List.nil_append] at hread
  rcases hs with rfl | rfl
  · exact text_eq_nil hread.symm
  · cases hl : w.lines.take k with
    | nil => rfl
    | cons l ls =>
      have hline := line_of_mem l (List.mem_of_mem_take (hl ▸ List.mem_cons_self))
      have hlen := congrArg List.length hread
      have := List.length_pos_iff.2 hline.ne_nil
      rw [hl, text, List.flatMap_cons] at hlen
      simp only [List.length_append, List.length_singleton] at hlen
      omega

theorem inStep_step {w : World} {k : Nat} (hw : Written w) (h : InStep w k) (m : Move) (ho : OpensFirst w m) (hu : Undisturbed w m) :
    ∃ k', InStep (w.step m) k' := by
  cases m with
  | makeWriter =>
    simp only [World.step]
    split
    · have hnil := h.of_pos ho
      refine ⟨0, Nat.zero_le _, ?_, ⟨[], .inl rfl, ?_⟩, ?_, ?_⟩
      · exact (show w.reader.pos = 0 from ho).le
      · rw [show w.reader.pos = 0 from ho]
        rfl
      · exact h.lines.trans hnil
      · have : w.events.take k = [] := by
          rw [World.lines, ← List.map_take] at hnil
          exact List.map_eq_nil_iff.1 hnil
        exact h.done.trans (by rw [this]; rfl)
    · exact ⟨k, h⟩
  | write e =>
    simp only [World.step]
    split
    · have htake : (w.events ++ [e]).take k = w.events.take k := List.take_append_of_le_length h.le
      have hlines : ((w.events ++ [e]).map Event.line).take k = w.lines.take k := by
        rw [← List.map_take, htake, List.map_take, World.lines]
      obtain ⟨s, hs, hread⟩ := h.read
      refine ⟨k, h.le.trans (by simp), h.pos, ⟨s, hs, hread.trans ?_⟩, h.lines.trans ?_, h.done.trans ?_⟩
      · exact congrArg text hlines.symm
      · exact hlines.symm
      · exact congrArg (List.any · Event.isDone) htake.symm
    · exact ⟨k, h⟩
  | flush n =>
    have htext : w.text <+: (w.step (.flush n)).text := by
      simp only [World.step, World.text]
      cases w.file with
      | none => exact List.prefix_rfl
      | some f => exact List.prefix_append f _
    obtain ⟨s, hs, hread⟩ := h.read
    refine ⟨k, h.le, h.pos.trans htext.length_le, ⟨s, hs, ?_⟩, h.lines, h.done⟩
    refine Eq.trans ?_ hread
    change (w.step (.flush n)).text.take w.reader.pos ++ s = _
    obtain ⟨rest, hrest⟩ := htext
    rw [← hrest, List.take_append_of_le_length h.pos]
  | pass t => exact inStep_pass hw h t hu

/-- What holds as long as no line is torn. -/
def Following (w : World) : Prop := Written w ∧ ∃ k, InStep w k

theorem following_step (w : World) (m : Move) (h : OpensFirst w m ∧ Undisturbed w m) (hf : Following w) : Following (w.step m) := by
  obtain ⟨hw, k, hk⟩ := hf
  exact ⟨written_step hw m, inStep_step hw hk m h.1 h.2⟩

theorem following_connected (t : ℚ) : Following (.connected t) :=
  ⟨.whole rfl rfl fun _ => rfl, 0, le_rfl, le_rfl, ⟨[], .inl rfl, rfl⟩, rfl, rfl⟩

/-! ## A line that is torn -/

theorem lines_getElem?_mono {w w' : World} (h : w.lines <+: w'.lines) {i : Nat} {l : List Char} (hl : w.lines[i]? = some l) :
    w'.lines[i]? = some l := by
  obtain ⟨rest, hrest⟩ := h
  rw [← hrest, List.getElem?_append_left (List.getElem?_eq_some_iff.1 hl).1, hl]

theorem torn_step (w : World) (m : Move) (ho : OpensFirst w m) (h : Torn w) : Torn (w.step m) := by
  obtain ⟨i, p, l, hp, hl, hne⟩ := h.message
  cases m with
  | makeWriter => exact absurd ho h.pos
  | write e =>
    simp only [World.step]
    split
    · refine ⟨h.pos, i, p, l, hp, ?_, hne⟩
      exact lines_getElem?_mono (by simp [World.lines]) hl
    · exact h
  | flush n => exact ⟨h.pos, i, p, l, hp, hl, hne⟩
  | pass t =>
    cases hend : w.reader.ended with
    | true =>
      rw [pass_ended t hend]
      exact h
    | false =>
      obtain ⟨hlines, hpos, -⟩ := pass_step t hend
      refine ⟨?_, i, p, l, ?_, hl, hne⟩
      · have := h.pos
        omega
      · rw [hlines, List.getElem?_append_left (List.getElem?_eq_some_iff.1 hp).1, hp]

/-- A pass inside a line sends the beginning of it. -/
theorem torn_pass {w : World} {k : Nat} (hw : Written w) (h : InStep w k) (t : Clock) (hend : w.reader.ended = false)
    (hb : ¬ Between w) : Torn (w.step (.pass t)) := by
  rw [Between, not_or, not_or] at hb
  obtain ⟨hu, hnl, hwhole⟩ := hb
  cases hw with
  | whole hu' => exact absurd hu' hu
  | partly es e x he hx ht hne hf =>
    obtain ⟨y, c, hy⟩ : ∃ y c, w.unwritten = y ++ [c] := by
      rcases List.eq_nil_or_concat w.unwritten with hn | ⟨y, c, hy⟩
      · exact absurd hn hne
      · exact ⟨y, c, by rw [hy, List.concat_eq_append]⟩
    rw [hy, ← List.append_assoc] at hx
    obtain ⟨hxy, hc⟩ := List.append_inj' hx rfl
    have hyne : y ≠ [] := by
      rintro rfl
      exact hnl (by rw [hy, hc]; rfl)
    have hxne : x ≠ [] := by
      rintro rfl
      refine hwhole ⟨e, by simp [he], ?_⟩
      rw [hy, hc, ← hxy]
      rfl
    have hxlen : x.length < e.line.length := by
      have := List.length_pos_iff.2 hyne
      rw [← hxy, List.length_append]
      omega
    have hk := h.le_partly he ht hxlen
    obtain ⟨p, hp, hpne⟩ := messages_torn (hxy ▸ e.line_line) hxne hyne
    obtain ⟨s, hs, hread⟩ := h.read
    have htake : w.lines.take k = (es.map Event.line).take k := by
      rw [World.lines, he, List.map_append, List.take_append_of_le_length (by simpa using hk)]
    have hdrop : w.text.drop w.reader.pos = s ++ (text ((es.map Event.line).drop k) ++ x) := by
      refine (List.append_right_inj (w.text.take w.reader.pos)).1 ?_
      have hsplit : text (es.map Event.line) = text ((es.map Event.line).take k) ++ text ((es.map Event.line).drop k) := by
        rw [text, text, text, ← List.flatMap_append, List.take_append_drop]
      rw [List.take_append_drop, ← List.append_assoc, hread, htake, ← List.append_assoc, ← hsplit, ht]
    have hfresh : w.fresh = (es.map Event.line).drop k ++ [p] := by
      have hrest : messages (text ((es.map Event.line).drop k) ++ x) = (es.map Event.line).drop k ++ messages x :=
        messages_text (fun l hl => Event.lines_line es l (List.mem_of_mem_drop hl)) x
      rw [World.fresh, hdrop]
      rcases hs with rfl | rfl
      · rw [List.nil_append, hrest, hp]
      · rw [List.singleton_append, messages_newline, hrest, hp]
    obtain ⟨hlines, hpos, -⟩ := pass_step t hend
    rw [hfresh, yielded_append fun l hl => raises_of_mem es l (List.mem_of_mem_drop hl), yielded_singleton, h.lines, htake,
      ← List.append_assoc, List.take_append_drop] at hlines
    refine ⟨?_, es.length, p, e.line, ?_, ?_, hxy ▸ hpne⟩
    · have := List.length_pos_iff.2 hxne
      rw [hpos, ht, List.length_append]
      omega
    · rw [hlines, List.getElem?_append_right (by simp)]
      simp
    · change w.lines[es.length]? = _
      rw [World.lines, he, List.map_append, List.getElem?_append_right (by simp)]
      simp

theorem Following.prefix {w : World} (h : Following w) : w.reader.lines <+: w.lines := by
  obtain ⟨-, k, hk⟩ := h
  rw [hk.lines]
  exact List.take_prefix k _

theorem Following.prefix_iff {w : World} {ms : List Move} (h : Following w) (ho : Steps.Admits World.step OpensFirst w ms) :
    (run w ms).reader.lines <+: (run w ms).lines ↔ Steps.Admits World.step Undisturbed w ms := by
  induction ms generalizing w with
  | nil => exact iff_of_true h.prefix trivial
  | cons m ms ih =>
    by_cases hu : Undisturbed w m
    · exact (ih (following_step w m ⟨ho.1, hu⟩ h) ho.2).trans (and_iff_right hu).symm
    · refine iff_of_false (Torn.not_prefix ?_) fun ha => hu ha.1
      refine ho.2.invariant torn_step ?_
      obtain ⟨hw, k, hk⟩ := h
      cases m with
      | pass t =>
        obtain ⟨hend, hb⟩ := Classical.not_imp.1 hu
        exact torn_pass hw hk t hend hb
      | makeWriter => exact absurd trivial hu
      | write e => exact absurd trivial hu
      | flush n => exact absurd trivial hu

/-- The lines sent on are the lines of the events, as far as they go, exactly if no pass came inside a line. -/
theorem delivered_iff (t : ℚ) (ms : List Move) (ho : Steps.Admits World.step OpensFirst (.connected t) ms) :
    (run (.connected t) ms).reader.lines <+: (run (.connected t) ms).lines ↔
      Steps.Admits World.step Undisturbed (.connected t) ms :=
  (following_connected t).prefix_iff ho

/-! ## What the page shows -/

theorem InStep.shown {w : World} {k : Nat} (h : InStep w k) : w.shown = (w.events.take k).foldl Panel.tell .start := by
  have hline : ∀ l, Frame.data l ∈ w.reader.sent → Line l := by
    intro l hl
    have hmem : l ∈ w.reader.lines := List.mem_filterMap.2 ⟨_, hl, rfl⟩
    rw [h.lines] at hmem
    exact line_of_mem l (List.mem_of_mem_take hmem)
  have hlines : w.reader.sent.filterMap Frame.line = (w.events.take k).map Event.line := by
    rw [List.map_take]
    exact h.lines
  rw [World.shown, eventSource_sent _ hline, hlines, foldl_onmessage]

theorem tell_closed {p : Panel} (h : p.live = false) (es : List Event) : es.foldl Panel.tell p = p := by
  induction es with
  | nil => rfl
  | cons e es ih =>
    have : p.tell e = p := by simp [Panel.tell, h]
    rw [List.foldl_cons, this, ih]

theorem tell_live {p : Panel} {e : Event} (h : e.isDone = true) : (p.tell e).live = false := by
  cases e <;> simp [Event.isDone] at h
  rw [Panel.tell]
  split
  · rfl
  · next hl => exact Bool.eq_false_iff.2 hl

theorem live_of_done (p : Panel) {es : List Event} (h : es.any Event.isDone = true) : (es.foldl Panel.tell p).live = false := by
  induction es generalizing p with
  | nil => cases h
  | cons e es ih =>
    rw [List.foldl_cons]
    rw [List.any_cons, Bool.or_eq_true] at h
    rcases h with h | h
    · have hlive := tell_live (p := p) h
      rw [tell_closed hlive, hlive]
    · exact ih _ h

theorem Following.shown {w : World} (h : Following w) : ∃ k, w.shown = (w.events.take k).foldl Panel.tell .start := by
  obtain ⟨-, k, hk⟩ := h
  exact ⟨k, hk.shown⟩

theorem Following.shown_pass {w : World} (h : Following w) (hu : w.unwritten = [])
    (hdone : w.reader.ended = true → w.reader.sawDone = true) (t : Clock) : (w.step (.pass t)).shown = w.events.foldl Panel.tell .start := by
  obtain ⟨hw, k, hk⟩ := h
  cases hend : w.reader.ended with
  | true =>
    have hlive := live_of_done .start (hk.done.symm.trans (hdone hend))
    rw [pass_ended t hend, hk.shown]
    conv_rhs => rw [← List.take_append_drop k w.events, List.foldl_append]
    exact (tell_closed hlive _).symm
  | false =>
    cases hw with
    | whole _ ht _ =>
      have hf : w.text ++ [] = text (w.lines.take w.events.length) := by
        rw [List.append_nil, ht, World.lines, List.take_of_length_le (by simp)]
      rw [(pass_inStep t hk hend hk.le le_rfl (.inl rfl) hf).shown]
      change (w.events.take w.events.length).foldl _ _ = _
      rw [List.take_length]
    | partly es e x he hx ht hne hf => exact absurd hu hne

/-- As long as no line is torn, the page shows what the first events tell; what is written in full it shows in full after one more
pass, unless the tail has timed out. -/
theorem shown_undisturbed (t : ℚ) (ms : List Move)
    (h : Steps.Admits World.step (fun w m => OpensFirst w m ∧ Undisturbed w m) (.connected t) ms) :
    (∃ k, (run (.connected t) ms).shown = ((run (.connected t) ms).events.take k).foldl Panel.tell .start) ∧
      ((run (.connected t) ms).unwritten = [] →
        ((run (.connected t) ms).reader.ended = true → (run (.connected t) ms).reader.sawDone = true) → ∀ t',
          ((run (.connected t) ms).step (.pass t')).shown = (run (.connected t) ms).events.foldl Panel.tell .start) := by
  have hf : Following (run (.connected t) ms) := h.invariant following_step (following_connected t)
  exact ⟨hf.shown, hf.shown_pass⟩

/-- Connected before the file is there, a pass between two events and one after the newline-less line of the last. -/
def aDiagnosis : List Move :=
  [.pass ⟨1, 1, 1, 1⟩, .makeWriter, .write (.turnStart 1), .flush 100, .pass ⟨2, 2, 2, 2⟩, .write (.done "ok"), .flush 32,
    .pass ⟨3, 3, 3, 3⟩, .flush 1]

theorem shown_undisturbed_diagnosis : ((run (.connected 0) aDiagnosis).step (.pass ⟨4, 4, 4, 4⟩)).shown =
    (run (.connected 0) aDiagnosis).events.foldl Panel.tell .start :=
  (shown_undisturbed 0 aDiagnosis (by decide +kernel)).2 (by decide +kernel) (by decide +kernel) _

/-- A pass that comes five characters into the line of an event. -/
def aTear : List Move := [.makeWriter, .write (.done "ok"), .flush 5, .pass ⟨1, 1, 1, 1⟩, .flush 100]

theorem delivered_iff_tear : ¬ (run (.connected 0) aTear).reader.lines <+: (run (.connected 0) aTear).lines :=
  fun h => absurd ((delivered_iff 0 aTear (by decide +kernel)).1 h) (by decide +kernel)

end Wardence.Reasoning
