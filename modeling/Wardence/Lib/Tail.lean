import Mathlib.Data.List.TakeWhile
import Wardence.Lib.Python
/-!
# Reading a file that grows

A reader comes back to a file that others append to, and goes on where it stopped: `readlines` takes
the rest, line by line. What is not blank is a message. A reader that comes only between lines gets
each line once; one that comes inside a line gets the beginning of it, and never the line.
-/
namespace Tail

/-- `f.readlines()`: each line with the newline that ends it, the last one perhaps without. -/
def readlines : List Char → List (List Char)
  | [] => []
  | c :: text =>
    if c = '\n' then [c] :: readlines text
    else
      match readlines text with
      | [] => [[c]]
      | l :: ls => (c :: l) :: ls

/-- `line.strip()` -/
def strip (l : List Char) : List Char := ((l.dropWhile Py.isSpace).reverse.dropWhile Py.isSpace).reverse

/-- What a line says, if it is not blank. -/
def message (l : List Char) : Option (List Char) := if strip l = [] then none else some (strip l)

def messages (text : List Char) : List (List Char) := (readlines text).filterMap message

/-- A line that says what it is: it neither begins nor ends with a space, and has no newline inside. -/
structure Line (l : List Char) : Prop where
  first : ∃ c ∈ l.head?, Py.isSpace c = false
  last : ∃ c ∈ l.getLast?, Py.isSpace c = false
  whole : '\n' ∉ l

/-- The text of lines written one after the other. -/
def text (ls : List (List Char)) : List Char := ls.flatMap fun l => l ++ ['\n']

/-! ## Lines -/

theorem readlines_line {l : List Char} (h : '\n' ∉ l) (rest : List Char) :
    readlines (l ++ '\n' :: rest) = (l ++ ['\n']) :: readlines rest := by
  induction l with
  | nil => simp [readlines]
  | cons c l ih =>
    have hc : c ≠ '\n' := fun he => h (he ▸ .head _)
    rw [List.cons_append, readlines, if_neg hc, ih fun hl => h (.tail _ hl)]
    rfl

/-- What is left without a newline is one line. -/
theorem readlines_open {l : List Char} (h : '\n' ∉ l) (hne : l ≠ []) : readlines l = [l] := by
  induction l with
  | nil => exact absurd rfl hne
  | cons c l ih =>
    have hc : c ≠ '\n' := fun he => h (he ▸ .head _)
    rw [readlines, if_neg hc]
    cases l with
    | nil => rfl
    | cons c' l => rw [ih (fun hl => h (.tail _ hl)) (by simp)]

/-! ## Messages -/

theorem isSpace_newline : Py.isSpace '\n' = true := by decide

theorem dropWhile_space {c : Char} {l : List Char} (h : Py.isSpace c = false) : (c :: l).dropWhile Py.isSpace = c :: l := by
  rw [List.dropWhile_cons_of_neg (by simp [h])]

/-- Spaces at the end go, and nothing else. -/
theorem strip_concat {l s : List Char} (h : Line l) (hs : ∀ c ∈ s, Py.isSpace c = true) : strip (l ++ s) = l := by
  obtain ⟨c, hc, hfirst⟩ := h.first
  obtain ⟨d, hd, hlast⟩ := h.last
  obtain ⟨l', rfl⟩ : ∃ l', l = c :: l' := by
    cases l with
    | nil => cases hc
    | cons c' l' =>
      obtain rfl : c' = c := by simpa using hc
      exact ⟨l', rfl⟩
  obtain ⟨l'', hl⟩ : ∃ l'', c :: l' = l'' ++ [d] := by
    obtain ⟨_, hl⟩ := List.getLast?_eq_some_iff.1 hd
    exact ⟨_, hl⟩
  rw [strip, List.cons_append, dropWhile_space hfirst, ← List.cons_append, List.reverse_append, hl, List.reverse_append,
    List.reverse_singleton, List.singleton_append, List.dropWhile_append_of_pos (fun c hc => hs c (List.mem_reverse.1 hc)),
    dropWhile_space hlast, List.reverse_cons, List.reverse_reverse]

theorem Line.ne_nil {l : List Char} (h : Line l) : l ≠ [] := by
  rintro rfl
  obtain ⟨c, hc, -⟩ := h.first
  cases hc

theorem message_line {l s : List Char} (h : Line l) (hs : ∀ c ∈ s, Py.isSpace c = true) : message (l ++ s) = some l := by
  rw [message, strip_concat h hs, if_neg h.ne_nil]

theorem messages_cons {l : List Char} (h : Line l) (rest : List Char) : messages (l ++ '\n' :: rest) = l :: messages rest := by
  rw [messages, readlines_line h.whole, List.filterMap_cons_some]
  · rfl
  · exact message_line h (by simp [isSpace_newline])

/-- The newline alone says nothing. -/
theorem messages_newline (rest : List Char) : messages ('\n' :: rest) = messages rest := by
  rw [messages, readlines, if_pos rfl, List.filterMap_cons_none]
  · rfl
  · decide

theorem messages_open {l : List Char} (h : Line l) : messages l = [l] := by
  have := message_line h (s := []) (by simp)
  rw [List.append_nil] at this
  rw [messages, readlines_open h.whole h.ne_nil, List.filterMap_cons_some this, List.filterMap_nil]

/-- The messages of whole lines are the lines. -/
theorem messages_text {ls : List (List Char)} (h : ∀ l ∈ ls, Line l) (rest : List Char) :
    messages (text ls ++ rest) = ls ++ messages rest := by
  induction ls with
  | nil => rfl
  | cons l ls ih =>
    rw [text, List.flatMap_cons, List.append_assoc, List.append_assoc, List.singleton_append, messages_cons (h l (.head _)),
      List.cons_append]
    exact congrArg _ (ih fun l hl => h l (.tail _ hl))

/-- The beginning of a line is a message, and another one than the line. -/
theorem messages_torn {x y : List Char} (h : Line (x ++ y)) (hx : x ≠ []) (hy : y ≠ []) :
    ∃ m, messages x = [m] ∧ m ≠ x ++ y := by
  obtain ⟨c, hc, hfirst⟩ := h.first
  obtain ⟨x', rfl⟩ : ∃ x', x = c :: x' := by
    cases x with
    | nil => exact absurd rfl hx
    | cons c' x' =>
      obtain rfl : c' = c := by simpa using hc
      exact ⟨x', rfl⟩
  have hwhole : '\n' ∉ c :: x' := fun hm => h.whole (List.mem_append_left _ hm)
  have hlen : (strip (c :: x')).length ≤ (c :: x').length := by
    rw [strip, List.length_reverse]
    refine (List.dropWhile_suffix _).length_le.trans ?_
    rw [List.length_reverse]
    exact (List.dropWhile_suffix _).length_le
  have hne : strip (c :: x') ≠ [] := by
    rw [strip, dropWhile_space hfirst, List.reverse_cons]
    intro hnil
    rw [List.reverse_eq_nil_iff, List.dropWhile_eq_nil_iff] at hnil
    have := hnil c (by simp)
    simp [hfirst] at this
  refine ⟨strip (c :: x'), ?_, fun he => ?_⟩
  · rw [messages, readlines_open hwhole (by simp)]
    simp [message, hne]
  · have := congrArg List.length he
    rw [List.length_append] at this
    have := List.length_pos_iff.2 hy
    omega

end Tail
