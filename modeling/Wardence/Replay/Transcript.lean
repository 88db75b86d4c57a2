import Wardence.Lib.Js
import Wardence.React.Loop
/-!
# The transcript of an attempt, and back

`_run_episode_with_provider` appends lines to a transcript; `parseTranscriptTurns` of
`replaySchedule.js` reads the turns out of them again.
-/
namespace Wardence.Replay

open Threads Backend React
open Py (Json)

/-! ## `json.dumps` -/

/-- Four hexadecimal digits. -/
def hex4 (n : Nat) : List Char := [n / 4096 % 16, n / 256 % 16, n / 16 % 16, n % 16].map Nat.digitChar

/-- A character in a JSON string, with `ensure_ascii`. -/
def escape (c : Char) : List Char :=
  if c = '"' then ['\\', '"'] else if c = '\\' then ['\\', '\\'] else if c = '\n' then ['\\', 'n']
  else if c = '\r' then ['\\', 'r'] else if c = '\t' then ['\\', 't'] else if c.toNat = 8 then ['\\', 'b']
  else if c.toNat = 12 then ['\\', 'f'] else if 32 ≤ c.toNat ∧ c.toNat < 127 then [c]
  else (Js.units c).flatMap fun u => '\\' :: 'u' :: hex4 u.toNat

def dumpsStr (s : String) : List Char := '"' :: s.toList.flatMap escape ++ ['"']

/-- How Python writes numbers: `repr` of a float, and a value in an f-string. -/
structure Printing where
  repr : ℚ → String
  shown : React.Num → String

def dumpsNumber (p : Printing) : Py.Number → List Char
  | .int n => (toString n).toList
  | .float (.fin q) => (p.repr q).toList
  | .float (.inf negative) => if negative then '-' :: infinity else infinity
  | .float .nan => ['N', 'a', 'N']
where
  infinity : List Char := ['I', 'n', 'f', 'i', 'n', 'i', 't', 'y']

/-- `json.dumps`. -/
def dumps (p : Printing) : Json → List Char
  | .null => ['n', 'u', 'l', 'l']
  | .bool b => if b then ['t', 'r', 'u', 'e'] else ['f', 'a', 'l', 's', 'e']
  | .num n => dumpsNumber p n
  | .str s => dumpsStr s
  | .arr l => '[' :: items l ++ [']']
  | .obj fields => '\x7b' :: entries fields ++ ['\x7d']
where
  items : List Json → List Char
    | [] => []
    | [v] => dumps p v
    | v :: w :: vs => dumps p v ++ [',', ' '] ++ items (w :: vs)
  entries : List (String × Json) → List Char
    | [] => []
    | [(k, v)] => dumpsStr k ++ [':', ' '] ++ dumps p v
    | (k, v) :: e :: es => dumpsStr k ++ [':', ' '] ++ dumps p v ++ [',', ' '] ++ entries (e :: es)

/-! ## The lines -/

/-- A note as `_run_episode_with_provider` writes it, in the given turn. -/
def noteLine (p : Printing) (values : Nat → Json) (turn : Nat) : Note → String
  | .action n toolName => "[Turn " ++ toString n ++ "] Action: " ++ ("call_tool " ++ toolName)
  | .result _ => "Result: " ++ String.ofList (dumps p (values turn))
  | .unparseable n => "[Turn " ++ toString n ++ "] Action: " ++ "(unparseable or invalid-schema response)"
  | note => "System: " ++ systemText note
where
  systemText : Note → String
    | .strongSignal => "The result above already contains an unambiguous signal (a non-empty list or a true flag on a " ++
        "class-defining field). You have enough evidence -- diagnose now."
    | .threshold hit => hit.field ++ "=" ++ p.shown hit.value ++ " is >= the " ++ p.shown (.num hit.threshold) ++
        " threshold in the guidance above -- this means diagnosis=" ++ hit.diagnosis ++ ". You have enough evidence -- diagnose now."
    | .allCalled => "You have now called every available tool at least once -- calling any of them again will return the " ++
        "same result. Diagnose now."
    | .formatReminder => "Your response could not be parsed. Respond with EXACTLY one JSON object -- " ++
        "\x7b\"action\": \"call_tool\", \"tool\": \"...\"\x7d or \x7b\"action\": \"diagnose\", \"diagnosis\": \"...\", " ++
        "\"confidence\": <0-1>, \"reasoning\": \"...\"\x7d. No markdown, no other text. Try again."
    | _ => ""

/-- The turn after a note. -/
def turnAfter (turn : Nat) : Note → Nat
  | .action n _ | .unparseable n => n
  | _ => turn

/-- The lines of a transcript; `values` is what the tool of each turn returned. -/
def transcriptLines (p : Printing) (values : Nat → Json) : Nat → List Note → List String
  | _, [] => []
  | turn, note :: notes => noteLine p values (turnAfter turn note) note :: transcriptLines p values (turnAfter turn note) notes

/-! ## The turns -/

/-- A turn as it is collected. -/
structure RawTurn where
  turn : Nat
  action : Js.Text
  extra : List Js.Text

structure Turn where
  turn : Nat
  action : Js.Text
  resultText : Option Js.Text
  deriving DecidableEq

/-- `line.match(/^\[Turn (\d+)\] Action: (.*)$/)`: the groups. -/
def matchTurn (line : Js.Text) : Option (Nat × Js.Text) := do
  let rest ← Js.after (Js.of "[Turn ") line
  let action ← Js.after (Js.of "] Action: ") (rest.dropWhile Js.isDigit)
  if rest.takeWhile Js.isDigit ≠ [] ∧ action.all (!Js.isTerminator ·) then some (Js.number (rest.takeWhile Js.isDigit), action)
  else none

/-- `turns` and `current`, after one more line. -/
def parseLine (state : List RawTurn × Option RawTurn) (line : Js.Text) : List RawTurn × Option RawTurn :=
  match matchTurn line with
  | some (turn, action) => (state.1 ++ state.2.toList, some ⟨turn, action, []⟩)
  | none => (state.1, state.2.map fun t => { t with extra := t.extra ++ [line] })

/-- The first line of the turn that starts with `Result:`, without that and the space after it. -/
def resultText (t : RawTurn) : Option Js.Text :=
  (t.extra.find? (Js.of "Result:").isPrefixOf).map fun l => (l.drop (Js.of "Result:").length).dropWhile Js.isSpace

def parseTranscriptTurns (lines : List Js.Text) : List Turn :=
  let state := lines.foldl parseLine ([], none)
  (state.1 ++ state.2.toList).map fun t => ⟨t.turn, t.action, resultText t⟩

/-! ## The round trip -/

/-- The turns that were played: the number, the action and what the tool returned, or nothing for a rejected reply. -/
def turnsOf (p : Printing) (values : Nat → Json) (notes : List Note) : List Turn := notes.filterMap fun
  | .action n toolName => some ⟨n, Js.of ("call_tool " ++ toolName), some (Js.of (String.ofList (dumps p (values n))))⟩
  | .unparseable n => some ⟨n, Js.of "(unparseable or invalid-schema response)", none⟩
  | _ => none

def SingleLine (name : String) : Prop := ∀ c ∈ name.toList, c ≠ '\n' ∧ c ≠ '\r' ∧ c.toNat ≠ 0x2028 ∧ c.toNat ≠ 0x2029

/-- The `repr` of a float that is a number starts with a digit or a minus. -/
def Printing.Sound (p : Printing) : Prop := ∀ q, ∃ c cs, (p.repr q).toList = c :: cs ∧ (c.isDigit = true ∨ c = '-')

/-! ### JSON texts -/

/-- A character that is seen, and is ASCII. -/
def Visible (c : Char) : Prop := 32 < c.toNat ∧ c.toNat < 127

instance (c : Char) : Decidable (Visible c) := instDecidableAnd

theorem visible_of_digit {c : Char} (h : c.isDigit = true) : Visible c := by
  have hd : 48 ≤ c.toNat ∧ c.toNat ≤ 57 := by
    simpa [Char.isDigit, UInt32.le_iff_toNat_le] using h
  exact ⟨by omega, by omega⟩

theorem nat_visible (n : Nat) : ∃ c cs, (toString n).toList = c :: cs ∧ Visible c := by
  rw [Nat.toString_eq_repr, Nat.toList_repr]
  cases h : Nat.toDigits 10 n with
  | nil => exact absurd h Nat.toDigits_ne_nil
  | cons c cs =>
    refine ⟨c, cs, rfl, visible_of_digit (Nat.isDigit_of_mem_toDigits (b := 10) (n := n) (by decide) (by decide) ?_)⟩
    rw [h]
    exact List.mem_cons_self

/-- `json.dumps` does not start with a space. -/
theorem dumps_visible {p : Printing} (hp : p.Sound) (v : Json) : ∃ c cs, dumps p v = c :: cs ∧ Visible c := by
  cases v with
  | null => exact ⟨'n', _, rfl, by decide⟩
  | bool b =>
    cases b
    · exact ⟨'f', _, rfl, by decide⟩
    · exact ⟨'t', _, rfl, by decide⟩
  | num n =>
    cases n with
    | int n =>
      cases n with
      | ofNat n => exact nat_visible n
      | negSucc n => exact ⟨'-', _, String.toList_append, by decide⟩
    | float x =>
      cases x with
      | fin q =>
        obtain ⟨c, cs, hq, hc⟩ := hp q
        exact ⟨c, cs, hq, hc.elim visible_of_digit fun h => h ▸ by decide⟩
      | inf negative =>
        cases negative
        · exact ⟨'I', _, rfl, by decide⟩
        · exact ⟨'-', _, rfl, by decide⟩
      | nan => exact ⟨'N', _, rfl, by decide⟩
  | str s => exact ⟨'"', _, rfl, by decide⟩
  | arr l => exact ⟨'[', _, rfl, by decide⟩
  | obj fields => exact ⟨'\x7b', _, rfl, by decide⟩

/-! ### One line -/

/-- The texts between which a line is cut. -/
theorem marks : Js.of "[Turn " = 91 :: Js.of "Turn " ∧ Js.of "] Action: " = 93 :: Js.of " Action: " ∧
    Js.of "Result: " = Js.of "Result:" ++ [32] ∧ Js.of "Result:" = 82 :: Js.of "esult:" ∧ Js.of "System: " = 83 :: Js.of "ystem: " := by
  decide +kernel

/-- A line that starts otherwise is no turn. -/
theorem matchTurn_none {u : UInt16} {us : Js.Text} (h : u ≠ 91) : matchTurn (u :: us) = none := by
  rw [matchTurn, marks.1, Js.after_none h.symm]
  rfl

theorem matchTurn_result (t : String) : matchTurn (Js.of ("Result: " ++ t)) = none := by
  obtain ⟨-, -, hspace, hresult, -⟩ := marks
  rw [Js.of_append, hspace, hresult]
  exact matchTurn_none (by decide)

theorem system_line (t : String) : Js.of ("System: " ++ t) = 83 :: (Js.of "ystem: " ++ Js.of t) := by
  obtain ⟨-, -, -, -, hsystem⟩ := marks
  rw [Js.of_append, hsystem, List.cons_append]

theorem matchTurn_system (t : String) : matchTurn (Js.of ("System: " ++ t)) = none := by
  rw [system_line]
  exact matchTurn_none (by decide)

theorem matchTurn_turn (n : Nat) {action : String} (h : SingleLine action) :
    matchTurn (Js.of ("[Turn " ++ toString n ++ "] Action: " ++ action)) = some (n, Js.of action) := by
  obtain ⟨hdigits, hne, hnum⟩ := Js.number_of n
  have hclose := marks.2.1
  have htake : (Js.of (toString n) ++ (Js.of "] Action: " ++ Js.of action)).takeWhile Js.isDigit = Js.of (toString n) := by
    rw [List.takeWhile_append_of_pos hdigits, hclose, List.cons_append, List.takeWhile_cons_of_neg (by decide), List.append_nil]
  have hdrop : (Js.of (toString n) ++ (Js.of "] Action: " ++ Js.of action)).dropWhile Js.isDigit =
      Js.of "] Action: " ++ Js.of action := by
    rw [List.dropWhile_append_of_pos hdigits, hclose, List.cons_append, List.dropWhile_cons_of_neg (by decide)]
  have hline : (Js.of action).all (!Js.isTerminator ·) = true := by
    rw [List.all_eq_true]
    intro u hu
    rw [Js.terminators_of h u hu]
    rfl
  rw [Js.of_append, Js.of_append, Js.of_append, List.append_assoc, List.append_assoc, matchTurn, Js.after_append]
  simp only [Option.bind_eq_bind, Option.bind_some, htake, hdrop, Js.after_append, hnum]
  exact if_pos ⟨hne, hline⟩

theorem singleLine_of_all {s : String}
    (h : (s.toList.all fun c => c ≠ '\n' ∧ c ≠ '\r' ∧ c.toNat ≠ 0x2028 ∧ c.toNat ≠ 0x2029) = true) : SingleLine s :=
  fun c hc => of_decide_eq_true (List.all_eq_true.mp h c hc)

/-- The words of the loop are on one line. -/
theorem singleLine_words : ∀ s ∈ ["call_tool ", "(unparseable or invalid-schema response)"], SingleLine s := by
  simp only [List.forall_mem_cons, List.not_mem_nil, false_imp_iff, implies_true, and_true]
  exact ⟨singleLine_of_all (by decide +kernel), singleLine_of_all (by decide +kernel)⟩

section Notes
variable {p : Printing} {values : Nat → Json} {turn : Nat}

theorem matchTurn_action (n : Nat) {toolName : String} (h : SingleLine toolName) :
    matchTurn (Js.of (noteLine p values turn (.action n toolName))) = some (n, Js.of ("call_tool " ++ toolName)) := by
  apply matchTurn_turn n
  intro c hc
  rw [String.toList_append, List.mem_append] at hc
  exact hc.elim (singleLine_words _ List.mem_cons_self c) (h c)

theorem matchTurn_unparseable (n : Nat) :
    matchTurn (Js.of (noteLine p values turn (.unparseable n))) = some (n, Js.of "(unparseable or invalid-schema response)") :=
  matchTurn_turn n (singleLine_words _ (List.mem_cons_of_mem _ List.mem_cons_self))

end Notes

/-! ### One turn -/

/-- A note for the model, that is no turn and no result. -/
def Nudge : Note → Prop
  | .action .. | .result _ | .unparseable _ => False
  | _ => True

theorem noteLine_nudge {p : Printing} {values : Nat → Json} {note : Note} (h : Nudge note) (turn : Nat) :
    ∃ t, noteLine p values turn note = "System: " ++ t := by
  cases note with
  | action | result | unparseable => exact h.elim
  | _ => exact ⟨_, rfl⟩

theorem nudge_nudges {tools called : List String} {toolName : String} {r : Returned} : ∀ x ∈ nudge tools called toolName r, Nudge x := by
  have hall : ∀ x ∈ nudge.allCalled tools called, Nudge x := by
    intro x hx
    rw [nudge.allCalled] at hx
    split at hx
    · rw [List.mem_singleton.1 hx]
      trivial
    · cases hx
  intro x hx
  unfold nudge at hx
  split at hx
  · split at hx
    · rw [List.mem_singleton.1 hx]
      trivial
    · split at hx
      · rw [List.mem_singleton.1 hx]
        trivial
      · exact hall x hx
  · exact hall x hx

theorem lines_nudges {p : Printing} {values : Nat → Json} {notes : List Note} (h : ∀ x ∈ notes, Nudge x) (turn : Nat) :
    ∀ l ∈ transcriptLines p values turn notes, ∃ t, l = "System: " ++ t := by
  induction notes generalizing turn with
  | nil => intro l hl; cases hl
  | cons note notes ih =>
    intro l hl
    rcases List.mem_cons.1 hl with rfl | hl
    · exact noteLine_nudge (h _ List.mem_cons_self) _
    · exact ih (fun x hx => h x (List.mem_cons_of_mem _ hx)) _ l hl

/-- What the turns and the current one come to at the end. -/
def collected (state : List RawTurn × Option RawTurn) : List RawTurn := state.1 ++ state.2.toList

theorem parseLine_extra {lines : List Js.Text} (h : ∀ l ∈ lines, matchTurn l = none) (turns : List RawTurn) (t : RawTurn) :
    lines.foldl parseLine (turns, some t) = (turns, some { t with extra := t.extra ++ lines }) := by
  induction lines generalizing t with
  | nil => rw [List.append_nil]; rfl
  | cons l lines ih =>
    have hl : parseLine (turns, some t) l = (turns, some { t with extra := t.extra ++ [l] }) := by
      rw [parseLine, h l List.mem_cons_self]
      rfl
    rw [List.foldl_cons, hl, ih fun x hx => h x (List.mem_cons_of_mem _ hx)]
    rw [List.append_assoc, List.singleton_append]

/-- A turn's line and what follows it add that turn. -/
theorem collected_turn {line : Js.Text} {lines : List Js.Text} {n : Nat} {action : Js.Text} (h : matchTurn line = some (n, action))
    (hl : ∀ l ∈ lines, matchTurn l = none) (state : List RawTurn × Option RawTurn) :
    collected ((line :: lines).foldl parseLine state) = collected state ++ [⟨n, action, lines⟩] := by
  have hline : parseLine state line = (collected state, some ⟨n, action, []⟩) := by
    rw [parseLine, h]
    rfl
  rw [List.foldl_cons, hline, parseLine_extra hl, List.nil_append]
  rfl

theorem resultText_result {p : Printing} (hp : p.Sound) (n : Nat) (action : Js.Text) (v : Json) (lines : List Js.Text) :
    resultText ⟨n, action, Js.of ("Result: " ++ String.ofList (dumps p v)) :: lines⟩ = some (Js.of (String.ofList (dumps p v))) := by
  have hsplit : Js.of ("Result: " ++ String.ofList (dumps p v)) = Js.of "Result:" ++ (32 :: Js.of (String.ofList (dumps p v))) := by
    rw [Js.of_append, marks.2.2.1, List.append_assoc, List.singleton_append]
  have hfirst : ∃ u us, Js.of (String.ofList (dumps p v)) = u :: us ∧ Js.isSpace u = false := by
    obtain ⟨c, cs, hc, hlow, hhigh⟩ := dumps_visible hp v
    refine ⟨c.toNat.toUInt16, cs.flatMap Js.units, ?_, ?_⟩
    · rw [hc, Js.of, String.toList_ofList, List.flatMap_cons, Js.units, if_pos (by omega)]
      rfl
    · have hall : ∀ n < 127, 32 < n → Js.isSpace n.toUInt16 = false := by decide
      exact hall c.toNat hhigh hlow
  obtain ⟨u, us, hu, hs⟩ := hfirst
  rw [resultText, List.find?_cons_of_pos]
  · rw [hsplit, Option.map_some, List.drop_left, List.dropWhile_cons_of_pos (by decide), hu, List.dropWhile_cons_of_neg (by simp [hs])]
  · rw [hsplit]
    exact List.isPrefixOf_iff_prefix.2 (List.prefix_append _ _)

theorem resultText_none (n : Nat) (action : Js.Text) (t : String) : resultText ⟨n, action, [Js.of ("System: " ++ t)]⟩ = none := by
  rw [resultText, List.find?_cons_of_neg, List.find?_nil]
  · rfl
  · rw [marks.2.2.2.1, system_line, List.isPrefixOf_iff_prefix]
    exact fun h => absurd (List.cons_prefix_cons.1 h).1 (by decide)

/-! ### A transcript -/

/-- A transcript: turns up to `n` in the order of their numbers, with names of the roster. -/
inductive Turns (tools : List String) : Nat → List Note → Prop
  | nil : Turns tools 0 []
  | called {notes nudges : List Note} {m n : Nat} {toolName : String} {r : Returned} : Turns tools m notes → m < n → toolName ∈ tools →
      (∀ x ∈ nudges, Nudge x) → Turns tools n (notes ++ [.action n toolName, .result r] ++ nudges)
  | rejected {notes : List Note} {m n : Nat} : Turns tools m notes → m < n → Turns tools n (notes ++ [.unparseable n, .formatReminder])

/-- `attempt["transcript"]`. -/
def transcript : Attempt → List Note
  | .diagnosed _ _ p | .invalidToolName _ _ p | .providerFailure _ p | .maxTurnsExceeded p => p.transcript

theorem mem_of_decision {tools : List String} {parsed : List (String × Json)} {toolName : String}
    (h : decision tools parsed = .callTool toolName) : toolName ∈ tools := by
  unfold decision at h
  split at h
  · cases h
  · split at h
    · cases h
    · cases h
    · split at h
      next hm =>
        cases h
        exact hm
      next => cases h
    · cases h
  · cases h

/-- The transcript of an attempt is made of turns. -/
theorem attempt_turns {live : Bool} {tools : List String} {i n m : Nat} {e : Entry} {p : Progress} {tr : List (Did Answer Ask)} {a : Attempt}
    (hr : (attempt live tools i e n p).Runs tr (some a)) (hp : Turns tools m p.transcript) (hn : m + n < MAX_TURNS + 1) :
    ∃ m, Turns tools m (transcript a) := by
  induction n generalizing p tr m with
  | zero =>
    cases hr
    exact ⟨m, hp⟩
  | succ n ih =>
    have hlt : m < MAX_TURNS - n := by omega
    have hle : MAX_TURNS - n + n < MAX_TURNS + 1 := by omega
    obtain ⟨x, l, l', rfl, -, hk⟩ := hr.bind_some
    cases hx : x.reply with
    | failure f =>
      simp only [hx] at hk
      cases hk
      exact ⟨m, hp⟩
    | result result =>
      simp only [hx] at hk
      split at hk
      next =>
        cases hd : decision tools result.parsed with
        | diagnose | noTool =>
          simp only [hd] at hk
          cases hk
          exact ⟨m, hp⟩
        | unhashable =>
          simp only [hd] at hk
          cases hk
        | callTool toolName =>
          simp only [hd] at hk
          obtain ⟨y, l, l', rfl, -, hk⟩ := Code.Runs.bind_some hk
          cases y with
          | undumpable => cases hk
          | _ => exact ih hk (.called hp hlt (mem_of_decision hd) nudge_nudges) hle
        | invalid =>
          simp only [hd] at hk
          split at hk
          next =>
            cases hk
            exact ⟨m, hp⟩
          next => exact ih hk (.rejected hp hlt) hle
      next => cases hk

theorem transcriptLines_append (p : Printing) (values : Nat → Json) (turn : Nat) (xs ys : List Note) :
    transcriptLines p values turn (xs ++ ys) =
      transcriptLines p values turn xs ++ transcriptLines p values (xs.foldl turnAfter turn) ys := by
  induction xs generalizing turn with
  | nil => rfl
  | cons x xs ih => exact congrArg (_ :: ·) (ih _)

theorem turnsOf_append (p : Printing) (values : Nat → Json) (xs ys : List Note) :
    turnsOf p values (xs ++ ys) = turnsOf p values xs ++ turnsOf p values ys := List.filterMap_append

theorem turnsOf_nudges {p : Printing} {values : Nat → Json} {notes : List Note} (h : ∀ x ∈ notes, Nudge x) :
    turnsOf p values notes = [] := by
  apply List.filterMap_eq_nil_iff.2
  intro note hn
  have := h note hn
  cases note with
  | action | result | unparseable => exact this.elim
  | _ => rfl

theorem parsed_turns {p : Printing} (hp : p.Sound) {tools : List String} (ht : ∀ t ∈ tools, SingleLine t) (values : Nat → Json)
    {n : Nat} {notes : List Note} (h : Turns tools n notes) :
    parseTranscriptTurns ((transcriptLines p values 0 notes).map Js.of) = turnsOf p values notes := by
  change (collected _).map _ = _
  induction h with
  | nil => rfl
  | @called notes nudges _ n toolName r _ _ hm hn ih =>
    let line := Js.of (noteLine p values n (.action n toolName))
    let lines := Js.of (noteLine p values n (.result r)) :: (transcriptLines p values n nudges).map Js.of
    have hlines : (transcriptLines p values 0 (notes ++ [.action n toolName, .result r] ++ nudges)).map Js.of =
        (transcriptLines p values 0 notes).map Js.of ++ line :: lines := by
      rw [List.append_assoc, transcriptLines_append, List.map_append]
      rfl
    have hextra : ∀ l ∈ lines, matchTurn l = none := by
      intro l hl
      rcases List.mem_cons.1 hl with rfl | hl
      · exact matchTurn_result _
      · obtain ⟨t, ht, rfl⟩ := List.mem_map.1 hl
        obtain ⟨s, rfl⟩ := lines_nudges hn n t ht
        exact matchTurn_system s
    have hresult : resultText ⟨n, Js.of ("call_tool " ++ toolName), lines⟩ = some (Js.of (String.ofList (dumps p (values n)))) :=
      resultText_result hp n _ _ _
    have hturn : turnsOf p values [.action n toolName, .result r] =
        [⟨n, Js.of ("call_tool " ++ toolName), some (Js.of (String.ofList (dumps p (values n))))⟩] := rfl
    rw [hlines, List.foldl_append, collected_turn (matchTurn_action n (ht toolName hm)) hextra, List.map_append, ih, List.map_singleton,
      hresult, turnsOf_append, turnsOf_append, turnsOf_nudges hn, List.append_nil, hturn]
  | @rejected notes _ n _ _ ih =>
    let line := Js.of (noteLine p values n (.unparseable n))
    let reminder := Js.of (noteLine p values n .formatReminder)
    have hlines : (transcriptLines p values 0 (notes ++ [.unparseable n, .formatReminder])).map Js.of =
        (transcriptLines p values 0 notes).map Js.of ++ line :: [reminder] := by
      rw [transcriptLines_append, List.map_append]
      rfl
    have hextra : ∀ l ∈ [reminder], matchTurn l = none := by
      intro l hl
      rw [List.mem_singleton.1 hl]
      exact matchTurn_system (noteLine.systemText p .formatReminder)
    have hnone : resultText ⟨n, Js.of "(unparseable or invalid-schema response)", [reminder]⟩ = none :=
      resultText_none n _ (noteLine.systemText p .formatReminder)
    have hturn : turnsOf p values [.unparseable n, .formatReminder] = [⟨n, Js.of "(unparseable or invalid-schema response)", none⟩] := rfl
    rw [hlines, List.foldl_append, collected_turn (matchTurn_unparseable n) hextra, List.map_append, ih, List.map_singleton, hnone,
      turnsOf_append, hturn]

/-- Each turn has a number of its own, above those before it. -/
theorem turns_increase {tools : List String} (p : Printing) (values : Nat → Json) {n : Nat} {notes : List Note} (h : Turns tools n notes) :
    ((turnsOf p values notes).map (·.turn)).Pairwise (· < ·) ∧ ∀ t ∈ turnsOf p values notes, t.turn ≤ n := by
  have hadd : ∀ {xs : List Turn} {m n : Nat} {t : Turn}, (xs.map (·.turn)).Pairwise (· < ·) → (∀ x ∈ xs, x.turn ≤ m) → m < n →
      t.turn = n → ((xs ++ [t]).map (·.turn)).Pairwise (· < ·) ∧ ∀ x ∈ xs ++ [t], x.turn ≤ n := by
    intro xs m n t hs hle hlt ht
    refine ⟨?_, fun x hx => ?_⟩
    · rw [List.map_append, List.pairwise_append]
      refine ⟨hs, List.pairwise_singleton _ _, fun a ha b hb => ?_⟩
      obtain ⟨x, hx, rfl⟩ := List.mem_map.1 ha
      obtain rfl : b = t.turn := List.mem_singleton.1 hb
      rw [ht]
      exact (hle x hx).trans_lt hlt
    · rcases List.mem_append.1 hx with hx | hx
      · exact (hle x hx).trans hlt.le
      · rw [List.mem_singleton.1 hx, ht]
  induction h with
  | nil => exact ⟨.nil, fun _ hx => by cases hx⟩
  | called _ hlt _ hn ih =>
    rw [turnsOf_append, turnsOf_append, turnsOf_nudges hn, List.append_nil]
    exact hadd ih.1 ih.2 hlt rfl
  | rejected _ hlt ih =>
    rw [turnsOf_append]
    exact hadd ih.1 ih.2 hlt rfl

theorem transcript_round_trip {p : Printing} (hp : p.Sound) {tools : List String} (ht : ∀ t ∈ tools, SingleLine t) (values : Nat → Json)
    {live : Bool} {i : Nat} {e : Entry} {tr : List (Did Answer Ask)} {a : Attempt}
    (hr : (attempt live tools i e MAX_TURNS .init).Runs tr (some a)) :
    parseTranscriptTurns ((transcriptLines p values 0 (transcript a)).map Js.of) = turnsOf p values (transcript a) ∧
      ((turnsOf p values (transcript a)).map (·.turn)).Pairwise (· < ·) := by
  obtain ⟨n, h⟩ := attempt_turns hr .nil (by decide)
  exact ⟨parsed_turns hp ht values h, (turns_increase p values h).1⟩

/-- A model that calls `probe`. -/
def callsProbe : Answer where
  reply := .result ⟨"", [("action", .str "call_tool"), ("tool", .str "probe")], "groq", "llama-3.3-70b-versatile", .fallback, none, .null, .null⟩
  returned := .error

/-- `probe` returns a text that looks like the line of a turn. -/
def echoes : Nat → Json := fun _ => .str "[Turn 9] Action: diagnose"

def plain : Printing := ⟨fun _ => "0.0", fun _ => "0"⟩

theorem probe_runs : ∃ tr a, (attempt false ["probe"] 0 groq MAX_TURNS .init).Runs tr (some a) ∧
    transcript a = [.action 1 "probe", .result (.observation (.value (.text "[Turn 9] Action: diagnose"))), .allCalled] :=
  ⟨_, _, Code.runs_play 3 [some callsProbe, some ⟨.failure ⟨"", "", .badResponse⟩, .observation (.value (.text "[Turn 9] Action: diagnose"))⟩,
    some (answersDiagnosis "oom")] rfl, rfl⟩

theorem transcript_round_trip_probe : ∃ a, (∃ tr, (attempt false ["probe"] 0 groq MAX_TURNS .init).Runs tr (some a)) ∧
    parseTranscriptTurns ((transcriptLines plain echoes 0 (transcript a)).map Js.of) = turnsOf plain echoes (transcript a) := by
  obtain ⟨tr, a, hr, -⟩ := probe_runs
  have hplain : plain.Sound := fun _ => ⟨'0', ['.', '0'], (by decide : "0.0".toList = ['0', '.', '0']), .inl (by decide)⟩
  have hnames : ∀ t ∈ ["probe"], SingleLine t := by
    intro t ht
    rw [List.mem_singleton.1 ht]
    exact singleLine_of_all (by decide +kernel)
  exact ⟨a, ⟨tr, hr⟩, (transcript_round_trip hplain hnames echoes hr).1⟩

end Wardence.Replay
