import Mathlib.Algebra.Order.Field.Rat
import Wardence.Lib.JsonText
import Wardence.Lib.Steps
import Wardence.Lib.Tail
/-!
# The live reasoning stream

The agent appends the events of a diagnosis to a file, a line each; the operator API tails the file
and sends every line on as a server-sent event; the page reads the events and shows the reasoning.
Writer and reader are two processes: the reader may come at any time, also in the middle of a write.
-/
namespace Wardence.Reasoning

open JsonText Tail Js

/-! ## The events -/

inductive Event where
  | providerAttempt (provider model tier : String)
  | turnStart (turn : Nat)
  | reasoningChunk (text : String)
  | done (status : String)
  deriving DecidableEq

def Event.dict : Event → Value
  | .providerAttempt provider model tier =>
    .obj [(of "type", .str (of "provider_attempt")), (of "provider", .str (of provider)), (of "model", .str (of model)),
      (of "tier", .str (of tier))]
  | .turnStart turn => .obj [(of "type", .str (of "turn_start")), (of "turn", .num turn)]
  | .reasoningChunk text => .obj [(of "type", .str (of "reasoning_chunk")), (of "text", .str (of text))]
  | .done status => .obj [(of "type", .str (of "done")), (of "status", .str (of status))]

/-- `json.dumps(event)` -/
def Event.line (e : Event) : List Char := print compact 0 e.dict

/-! ## The tail -/

def REASONING_STREAM_MAX_S : ℚ := 700

def KEEP_ALIVE_S : ℚ := 20

inductive Frame where
  /-- `data: {line}` -/
  | data (line : List Char)
  /-- `: keep-alive` -/
  | keepAlive
  deriving DecidableEq

structure Reader where
  start : ℚ
  pos : Nat
  sawDone : Bool
  lastDataAt : ℚ
  sent : List Frame
  /-- The generator has returned. -/
  ended : Bool

/-- What `time.monotonic()` says in a pass: at the last line sent, at the test of the end, at the test of the silence, and after a
keep-alive. -/
structure Clock where
  data : ℚ
  check : ℚ
  alive : ℚ
  after : ℚ

/-- `json.loads(line).get("type") == "done"` -/
def saysDone (line : List Char) : Bool :=
  match (read line).bind (·.get "type") with
  | some (.str s) => s = of "done"
  | _ => false

/-- `json.loads(line).get` raises: the line is JSON, but no object. -/
def raises (line : List Char) : Bool :=
  match read line with
  | none => false
  | some (.obj _) => false
  | some _ => true

/-- The lines that the loop over `new_lines` yields: each before it is read, so the first that raises is the last. -/
def yielded : List (List Char) → List (List Char)
  | [] => []
  | line :: lines => if raises line then [line] else line :: yielded lines

/-- `new_lines`, less the blank ones. -/
def Reader.fresh (r : Reader) : Option (List Char) → List (List Char)
  | some f => messages (f.drop r.pos)
  | none => []

/-- What a pass reads and yields. -/
def Reader.take (t : Clock) (file : Option (List Char)) (r : Reader) : Reader :=
  { r with
    pos := match file with | some f => max r.pos f.length | none => r.pos
    sent := r.sent ++ (yielded (r.fresh file)).map .data
    lastDataAt := if r.fresh file = [] then r.lastDataAt else t.data
    sawDone := r.sawDone || (yielded (r.fresh file)).any saysDone }

/-- How a pass goes on after what it read. -/
def Reader.rest (t : Clock) (r : Reader) : Reader :=
  if r.sawDone ∨ REASONING_STREAM_MAX_S < t.check - r.start then { r with ended := true }
  else if KEEP_ALIVE_S ≤ t.alive - r.lastDataAt then { r with sent := r.sent ++ [.keepAlive], lastDataAt := t.after }
  else r

/-- One pass of `_tail`'s loop. -/
def Reader.pass (t : Clock) (file : Option (List Char)) (r : Reader) : Reader :=
  if r.ended then r
  else if (r.fresh file).any raises then { r.take t file with ended := true }
  else (r.take t file).rest t

/-- The line that a frame sends on. -/
def Frame.line : Frame → Option (List Char)
  | .data line => some line
  | .keepAlive => none

/-- The lines sent on. -/
def Reader.lines (r : Reader) : List (List Char) := r.sent.filterMap Frame.line

/-! ## Writer and reader -/

structure World where
  file : Option (List Char)
  /-- What the write under way has yet to put into the file. -/
  unwritten : List Char
  /-- The events since the file was last opened. -/
  events : List Event
  reader : Reader

inductive Move where
  /-- `_make_reasoning_event_writer` -/
  | makeWriter
  /-- `on_event(e)`, whose write then begins. -/
  | write (e : Event)
  /-- The next `n` characters of the write reach the file. -/
  | flush (n : Nat)
  | pass (t : Clock)

def World.step (w : World) : Move → World
  | .makeWriter => if w.unwritten = [] then { w with file := some [], events := [] } else w
  | .write e =>
    if w.unwritten = [] ∧ w.file.isSome then { w with unwritten := e.line ++ ['\n'], events := w.events ++ [e] } else w
  | .flush n => { w with file := w.file.map (· ++ w.unwritten.take n), unwritten := w.unwritten.drop n }
  | .pass t => { w with reader := w.reader.pass t w.file }

/-- Nothing is written when the page connects, at time `t`. -/
def World.connected (t : ℚ) : World := ⟨none, [], [], ⟨t, 0, false, t, [], false⟩⟩

abbrev run (w : World) (ms : List Move) : World := Steps.run World.step w ms

/-! ## The page -/

def DATA : List Char := ['d', 'a', 't', 'a', ':', ' ']

def KEEP_ALIVE : List Char := [':', ' ', 'k', 'e', 'e', 'p', '-', 'a', 'l', 'i', 'v', 'e']

/-- What the generator yields. -/
def Frame.text : Frame → List Char
  | .data line => DATA ++ line ++ ['\n', '\n']
  | .keepAlive => KEEP_ALIVE ++ ['\n', '\n']

/-- The lines of a text, without their newlines; what has no newline yet is not a line. -/
def splitLines (text : List Char) : List (List Char) :=
  ((readlines text).filter (·.getLast? = some '\n')).map List.dropLast

/-- The data of the events of a stream, as `EventSource` dispatches them: a blank line ends an event, a line that
begins with a colon is a comment, and a space after the colon of a field does not count. -/
def dispatch (data : List Char) : List (List Char) → List (List Char)
  | [] => []
  | line :: lines =>
    match line with
    | [] => if data = [] then dispatch [] lines else data.dropLast :: dispatch [] lines
    | 'd' :: 'a' :: 't' :: 'a' :: ':' :: ' ' :: value => dispatch (data ++ value ++ ['\n']) lines
    | 'd' :: 'a' :: 't' :: 'a' :: ':' :: value => dispatch (data ++ value ++ ['\n']) lines
    | _ => dispatch data lines

def eventSource (text : List Char) : List (List Char) := dispatch [] (splitLines text)

/-- What `EpisodePanel` shows, as the messages come in. -/
structure Panel where
  reasoningLog : Text
  providerLog : List (Option Value × Option Value × Option Value)
  gotFirstEvent : Bool
  /-- The event source is open. -/
  live : Bool

def Panel.start : Panel := ⟨[], [], false, true⟩

/-- `es.onmessage`, of a message whose data are `v`. -/
def Panel.receive (p : Panel) (v : Value) : Panel :=
  let type := match v.get "type" with | some (.str s) => s | _ => []
  let p := { p with gotFirstEvent := p.gotFirstEvent || type ≠ of "done" }
  if type = of "provider_attempt" then { p with providerLog := p.providerLog ++ [(v.get "provider", v.get "model", v.get "tier")] }
  else if type = of "reasoning_chunk" then
    { p with reasoningLog := p.reasoningLog ++ (match v.get "text" with | some (.str s) => s | _ => of "undefined") }
  else if type = of "done" then { p with live := false }
  else p

/-- `es.onmessage`: data that are no JSON are passed over, and after `close` no message comes. -/
def Panel.onmessage (p : Panel) (data : List Char) : Panel :=
  if p.live then
    match read data with
    | none => p
    -- `null` has no `type`: the handler raises
    | some .null => p
    | some v => p.receive v
  else p

/-- What the page shows of what was sent so far. -/
def World.shown (w : World) : Panel := (eventSource (w.reader.sent.flatMap Frame.text)).foldl Panel.onmessage .start

/-- What an event is to show. -/
def Panel.tell (p : Panel) (e : Event) : Panel :=
  if p.live then
    match e with
    | .providerAttempt provider model tier =>
      { p with
        providerLog := p.providerLog ++ [(some (.str (of provider)), some (.str (of model)), some (.str (of tier)))]
        gotFirstEvent := true }
    | .turnStart _ => { p with gotFirstEvent := true }
    | .reasoningChunk text => { p with reasoningLog := p.reasoningLog ++ of text, gotFirstEvent := true }
    | .done _ => { p with live := false }
  else p

/-! ## The lines -/

theorem line_last (L : Layout) (d : Nat) (l : List (Text × Value)) : ∃ t, printMembers L d l = t ++ ['}'] := by
  induction l with
  | nil => exact ⟨L.gap d, rfl⟩
  | cons f l ih =>
    obtain ⟨t, ht⟩ := ih
    exact ⟨',' :: (L.sep (d + 1) ++ quote f.1 ++ ':' :: ' ' :: (print L (d + 1) f.2 ++ t)), by simp [printMembers, ht]⟩

theorem Event.line_braced (e : Event) : ∃ t, e.line = '{' :: t ++ ['}'] := by
  obtain ⟨k, v, l, hd⟩ : ∃ k v l, e.dict = .obj ((k, v) :: l) := by
    cases e <;> exact ⟨_, _, _, rfl⟩
  obtain ⟨t, ht⟩ := line_last compact 0 l
  exact ⟨compact.gap 1 ++ quote k ++ ':' :: ' ' :: (print compact 1 v ++ t), by simp [Event.line, hd, print, ht]⟩

theorem Event.line_line (e : Event) : Line e.line := by
  obtain ⟨t, ht⟩ := e.line_braced
  have hlast : e.line.getLast? = some '}' := by rw [ht, List.getLast?_concat]
  refine ⟨⟨'{', by simp [ht], by decide⟩, ⟨'}', by simp [hlast], by decide⟩, fun hn => ?_⟩
  exact absurd (print_printable 0 e.dict '\n' hn) (by decide)

theorem Event.lines_line (es : List Event) : ∀ l ∈ es.map Event.line, Line l := by
  intro l hl
  obtain ⟨e, -, rfl⟩ := List.mem_map.1 hl
  exact e.line_line

/-! ## What the page reads in a line -/

theorem keys_apart : of "type" ≠ of "status" ∧ of "type" ≠ of "turn" ∧ of "type" ≠ of "text" ∧ of "type" ≠ of "provider" ∧
    of "type" ≠ of "model" ∧ of "type" ≠ of "tier" ∧ of "provider" ≠ of "model" ∧ of "provider" ≠ of "tier" ∧
    of "model" ≠ of "tier" := by decide

theorem types_apart : of "done" ≠ of "provider_attempt" ∧ of "done" ≠ of "reasoning_chunk" ∧ of "done" ≠ of "turn_start" ∧
    of "turn_start" ≠ of "provider_attempt" ∧ of "turn_start" ≠ of "reasoning_chunk" ∧
    of "reasoning_chunk" ≠ of "provider_attempt" := by decide

theorem read_line (e : Event) : read e.line = some e.dict := read_print compact 0 e.dict

theorem saysDone_line (e : Event) : saysDone e.line = true ↔ ∃ status, e = .done status := by
  obtain ⟨h1, h2, h3, h4, h5, h6, -⟩ := keys_apart
  obtain ⟨g1, g2, g3, -⟩ := types_apart
  rw [saysDone, read_line, Option.bind_some]
  cases e <;> simp [Event.dict, Value.get, h1.symm, h2.symm, h3.symm, h4.symm, h5.symm, h6.symm, g1.symm, g2.symm, g3.symm]

theorem raises_line (e : Event) : raises e.line = false := by
  rw [raises, read_line]
  cases e <;> rfl

theorem onmessage_line (p : Panel) (e : Event) : p.onmessage e.line = p.tell e := by
  obtain ⟨h1, h2, h3, h4, h5, h6, h7, h8, h9⟩ := keys_apart
  obtain ⟨g1, g2, g3, g4, g5, g6⟩ := types_apart
  rw [Panel.onmessage, read_line]
  cases hlive : p.live with
  | false => simp [Panel.tell, hlive]
  | true =>
    cases e <;> simp [Panel.tell, Event.dict, Panel.receive, Value.get, hlive, h1.symm, h2.symm, h3.symm, h4.symm, h5.symm, h6.symm,
      h7.symm, h8.symm, h9.symm, g1, g1.symm, g2, g2.symm, g3.symm, g4, g5, g6]

/-- What the page shows of the lines of events. -/
theorem foldl_onmessage (p : Panel) (es : List Event) : (es.map Event.line).foldl Panel.onmessage p = es.foldl Panel.tell p := by
  rw [List.foldl_map]
  congr 1
  funext p e
  exact onmessage_line p e

/-! ## What the page receives -/

theorem splitLines_line {l : List Char} (h : '\n' ∉ l) (rest : List Char) : splitLines (l ++ '\n' :: rest) = l :: splitLines rest := by
  rw [splitLines, readlines_line h]
  simp [splitLines]

theorem splitLines_blank (rest : List Char) : splitLines ('\n' :: rest) = [] :: splitLines rest :=
  splitLines_line (l := []) (by simp) rest

/-- A line sent on is dispatched as it was. -/
theorem eventSource_data {l : List Char} (h : Line l) (rest : List Char) :
    eventSource ((Frame.data l).text ++ rest) = l :: eventSource rest := by
  have hline : '\n' ∉ DATA ++ l := by
    rw [List.mem_append]
    rintro (hm | hm)
    · exact absurd hm (by decide)
    · exact h.whole hm
  have hsplit : splitLines ((Frame.data l).text ++ rest) = (DATA ++ l) :: [] :: splitLines rest := by
    have htext : (Frame.data l).text ++ rest = (DATA ++ l) ++ '\n' :: '\n' :: rest := by
      simp only [Frame.text, List.append_assoc, List.cons_append, List.nil_append]
    rw [htext, splitLines_line hline, splitLines_blank]
  rw [eventSource, hsplit]
  change dispatch ([] ++ l ++ ['\n']) ([] :: splitLines rest) = _
  rw [dispatch, if_neg (by simp)]
  simp [eventSource]

/-- A comment is not. -/
theorem eventSource_keepAlive (rest : List Char) : eventSource (Frame.keepAlive.text ++ rest) = eventSource rest := by
  have hsplit : splitLines (Frame.keepAlive.text ++ rest) = KEEP_ALIVE :: [] :: splitLines rest := by
    have htext : Frame.keepAlive.text ++ rest = KEEP_ALIVE ++ '\n' :: '\n' :: rest := by
      simp only [Frame.text, List.append_assoc, List.cons_append, List.nil_append]
    rw [htext, splitLines_line (by decide), splitLines_blank]
  rw [eventSource, hsplit]
  rfl

theorem eventSource_sent (fs : List Frame) (h : ∀ l, Frame.data l ∈ fs → Line l) :
    eventSource (fs.flatMap Frame.text) = fs.filterMap Frame.line := by
  induction fs with
  | nil => rfl
  | cons f fs ih =>
    have ih := ih fun l hl => h l (.tail _ hl)
    rw [List.flatMap_cons]
    cases f with
    | data l => rw [eventSource_data (h l (.head _)), ih, List.filterMap_cons_some (f := Frame.line) rfl]
    | keepAlive => rw [eventSource_keepAlive, ih, List.filterMap_cons_none (f := Frame.line) rfl]

end Wardence.Reasoning
