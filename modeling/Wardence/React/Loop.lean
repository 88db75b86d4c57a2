import Wardence.Backend.Stream
import Wardence.Lib.Traces
import Wardence.React.Signals
/-!
# The ReAct loop

`run_react_diagnosis` of `react_agent.py`: the entries of a chain of models are tried one after
the other, each for a few turns in which the model may call tools or diagnose. The statements are
the calls of models and tools, and may answer anything. Texts of prompts are left out: what a
model is sent is the transcript. The callbacks of live events return.
-/
namespace Wardence.React

open Threads Code Py Backend

/-! ## The program -/

def MAX_TURNS : Nat := 5

def FAULT_CLASSES : List String :=
  ["crash-loop", "oom", "disk-full", "network-latency", "memory-leak", "connection-pool-exhaustion", "network-partition",
    "init-failure", "session-cart-failure", "cpu-throttling", "under-provisioned-replicas", "bad-rollout", "none"]

/-- What a tool comes to: an observation, its exception as one, or a value that `json.dumps` raises on. -/
inductive Returned where
  | observation (o : Observation)
  | error
  | undumpable
  deriving DecidableEq

/-- A line of the transcript. -/
inductive Note where
  | action (turn : Nat) (toolName : String)
  | result (o : Returned)
  | strongSignal
  | threshold (hit : NumericHit)
  | allCalled
  | unparseable (turn : Nat)
  | formatReminder
  deriving DecidableEq

/-- A call of the model of the `i`-th entry, or of a tool. -/
inductive Ask where
  | model (i : Nat) (entry : Entry) (turn : Nat) (transcript : List Note)
  | tool (name : String)

/-- An answer to either. -/
structure Answer where
  reply : Outcome
  returned : Returned

/-- The attempt so far. -/
structure Progress where
  transcript : List Note
  parseFailures : Nat
  called : List String
  observations : List (String × Returned)

def Progress.init : Progress := ⟨[], 0, [], []⟩

/-- What an attempt with one entry returns. -/
inductive Attempt where
  | diagnosed (result : LLMResult) (turnsUsed : Nat) (p : Progress)
  | invalidToolName (toolName : Json) (turnsUsed : Nat) (p : Progress)
  | providerFailure (detail : LLMFailure) (p : Progress)
  | maxTurnsExceeded (p : Progress)

/-- What the loop tells the model after a tool. -/
def nudge (tools called : List String) (toolName : String) : Returned → List Note
  | .observation o =>
    if hasStrongSignal toolName o then [.strongSignal]
    else
      match numericThresholdHit toolName o with
      | some hit => [.threshold hit]
      | none => allCalled
  | _ => allCalled
where
  allCalled : List Note := if tools.all (· ∈ called) && called.all (· ∈ tools) then [.allCalled] else []

/-- After a call of a tool. -/
def Progress.observe (p : Progress) (tools : List String) (turn : Nat) (toolName : String) (r : Returned) : Progress where
  transcript := p.transcript ++ [.action turn toolName, .result r] ++ nudge tools (toolName :: p.called) toolName r
  parseFailures := p.parseFailures
  called := toolName :: p.called
  observations := (toolName, r) :: p.observations.filter (·.1 ≠ toolName)

/-- After a reply that is neither a call nor a diagnosis. -/
def Progress.retry (p : Progress) (turn : Nat) : Progress :=
  { p with transcript := p.transcript ++ [.unparseable turn, .formatReminder], parseFailures := p.parseFailures + 1 }

/-- `parsed.get(k)`. -/
def valueOf (parsed : List (String × Json)) (k : String) : Json := (parsed.lookup k).getD .null

/-- What a reply asks for. -/
inductive Decision where
  | diagnose
  | callTool (toolName : String)
  | noTool (toolName : Json)
  /-- A list or an object as the name of a tool: no key of a dictionary. -/
  | unhashable
  | invalid

def decision (tools : List String) (parsed : List (String × Json)) : Decision :=
  match valueOf parsed "action" with
  | .str "diagnose" => .diagnose
  | .str "call_tool" =>
    match valueOf parsed "tool" with
    | .arr _ | .obj _ => .unhashable
    | .str toolName => if toolName ∈ tools then .callTool toolName else .noTool (.str toolName)
    | toolName => .noTool toolName
  | _ => .invalid

/-- The reasoning in a plain response, for the live events. -/
def reasoningText (raw : Json) : Except Exc Json := do
  match raw with
  | .obj _ =>
    let choices ← raw.get "choices" .null
    if choices.truthy then
      let choice ← choices.first
      let message ← choice.get "message" (.obj [])
      message.get "reasoning_content" .null
    else return .null
  | _ => return .null

def streams (e : Entry) : Bool := e.provider ∈ STREAMING_CAPABLE_PROVIDERS && e.format = .openaiCompat

/-- The reasoning is read where there are live events and the call was a plain one. -/
def readable (live : Bool) (e : Entry) (raw : Json) : Bool :=
  !live || streams e || (match reasoningText raw with | .ok _ => true | .error _ => false)

/-- A call of a tool: its exception is an observation. -/
def callTool (name : String) : Code Answer Ask Returned :=
  ((stmt (.tool name) : Code Answer Ask Answer) >>= fun a => pure a.returned).tryCatch (pure .error)

/-- One entry, with `n` turns left. -/
def attempt (live : Bool) (tools : List String) (i : Nat) (e : Entry) : Nat → Progress → Code Answer Ask Attempt
  | 0, p => pure (.maxTurnsExceeded p)
  | n + 1, p => do
    let turn := MAX_TURNS - n
    let answer ← stmt (.model i e turn p.transcript)
    match answer.reply with
    | .failure f => pure (.providerFailure f p)
    | .result result =>
      if readable live e result.raw then
        match decision tools result.parsed with
        | .diagnose => pure (.diagnosed result turn p)
        | .callTool toolName => do
          match ← callTool toolName with
          | .undumpable => raise
          | r => attempt live tools i e n (p.observe tools turn toolName r)
        | .noTool toolName => pure (.invalidToolName toolName turn p)
        | .unhashable => raise
        | .invalid =>
          if p.parseFailures + 1 ≥ 2 then pure (.providerFailure ⟨e.provider, e.model, .parseFailure⟩ p)
          else attempt live tools i e n (p.retry turn)
      else raise

inductive Status where
  | diagnosed
  | maxTurnsExceeded
  | invalidToolName
  | llmUnavailable
  deriving DecidableEq

/-- What `run_react_diagnosis` returns. -/
structure Diagnosis where
  status : Status
  llmDiagnosis : Json
  result : Option LLMResult
  turnsUsed : Option Nat
  transcript : List Note
  failedAttempts : List LLMFailure
  observations : List (String × Returned)

/-- The entries from the `i`-th on. -/
def tryEntries (live : Bool) (tools : List String) : Nat → List Entry → List LLMFailure → Code Answer Ask Diagnosis
  | _, [], failedAttempts => pure ⟨.llmUnavailable, .null, none, none, [], failedAttempts, []⟩
  | i, e :: rest, failedAttempts => do
    match ← attempt live tools i e MAX_TURNS .init with
    | .diagnosed result turns p =>
      pure ⟨.diagnosed, valueOf result.parsed "diagnosis", some result, some turns, p.transcript, failedAttempts, p.observations⟩
    | .invalidToolName _ _ p => pure ⟨.invalidToolName, .null, none, none, p.transcript, failedAttempts, p.observations⟩
    | .maxTurnsExceeded p => pure ⟨.maxTurnsExceeded, .null, none, none, p.transcript, failedAttempts, p.observations⟩
    | .providerFailure detail _ => tryEntries live tools (i + 1) rest (failedAttempts ++ [detail])

def runReactDiagnosis (live : Bool) (tools : List String) (chain : List Entry) : Code Answer Ask Diagnosis :=
  tryEntries live tools 0 chain []

/-! ## Good answers -/

def InRoster (v : Json) : Prop := ∃ c ∈ FAULT_CLASSES, v = .str c

/-- A reply that the loop takes: its reasoning can be read where that is done, the name of its tool can be looked up,
and its diagnosis is of the roster. -/
def GoodReply (live : Bool) (tools : List String) (e : Entry) : Outcome → Prop
  | .failure _ => True
  | .result r =>
    readable live e r.raw = true ∧
      match decision tools r.parsed with
      | .diagnose => InRoster (valueOf r.parsed "diagnosis")
      | .unhashable => False
      | _ => True

/-- An answer that the loop takes. A tool may raise, a call of a model may not. -/
def Good (live : Bool) (tools : List String) : Did Answer Ask → Prop
  | .ran (.model _ e _ _) a => GoodReply live tools e a.reply
  | .ran (.tool _) a => a.returned ≠ .undumpable
  | .raised (.model ..) => False
  | .raised (.tool _) => True

/-- A call of the model of the `i`-th entry. -/
def asksModel (i : Nat) (d : Did Answer Ask) : Bool :=
  match d.stmt with
  | .model j .. => i = j
  | .tool _ => false

/-- It returns, and a diagnosis is of the roster. -/
def SoundAttempt (r : Option Attempt) : Prop :=
  ∃ a, r = some a ∧ ∀ result turns p, a = .diagnosed result turns p → InRoster (valueOf result.parsed "diagnosis")

/-! ## One entry -/

section Runs
variable {live : Bool} {tools : List String} {i n : Nat} {e : Entry} {chain : List Entry} {tr : List (Did Answer Ask)}

theorem callTool_runs {name : String} {tr : List (Did Answer Ask)} {r : Option Returned} (hr : (callTool name).Runs tr r) :
    ∃ d, tr = [d] ∧ d.stmt = .tool name ∧ ∃ x, r = some x ∧ ∀ live tools, Good live tools d ↔ x ≠ .undumpable := by
  obtain ⟨l, l', rfl, ⟨x, hp, hk⟩ | ⟨hp, hk⟩⟩ := Code.Runs.graft hr
  · cases hk
    obtain ⟨a, m, m', rfl, hs, hm⟩ := hp.bind_some
    cases hm
    have := hs.stmt_some
    subst this
    exact ⟨_, rfl, rfl, _, rfl, fun _ _ => Iff.rfl⟩
  · cases hk
    rcases hp.bind with ⟨a, m, m', rfl, -, hm⟩ | ⟨hs, -⟩
    · cases hm
    · rcases hs.stmt with ⟨_, _, h⟩ | ⟨rfl, -⟩
      · cases h
      · exact ⟨_, rfl, rfl, _, rfl, fun _ _ => iff_of_true trivial (by decide)⟩

/-- The run of a program that has used up some turns: few calls, all of its own model, and sound where it was answered well. -/
structure Held (live : Bool) (tools : List String) (i n : Nat) (tr : List (Did Answer Ask)) (r : Option Attempt) : Prop where
  calls : (tr.filter (asksModel i)).length ≤ n
  own : ∀ j, j ≠ i → tr.filter (asksModel j) = []
  sound : SoundAttempt r ↔ ∀ d ∈ tr, Good live tools d

theorem held_nil {a : Attempt} (h : ∀ result turns p, a = .diagnosed result turns p → InRoster (valueOf result.parsed "diagnosis")) :
    Held live tools i n [] (some a) :=
  ⟨by simp, fun _ _ => rfl, iff_of_true ⟨a, rfl, h⟩ (by simp)⟩

/-- After a call of its model that was answered well, an attempt is held as its rest is. -/
theorem Held.model {turn : Nat} {t : List Note} {a : Answer} {r : Option Attempt} (h : Held live tools i n tr r)
    (hg : GoodReply live tools e a.reply) : Held live tools i (n + 1) (.ran (.model i e turn t) a :: tr) r := by
  refine ⟨?_, ?_, ?_⟩
  · simp only [List.filter_cons, asksModel, Did.stmt, decide_true, if_true, List.length_cons]
    exact Nat.succ_le_succ h.calls
  · intro j hj
    simp only [List.filter_cons, asksModel, Did.stmt, hj, decide_false, reduceCtorEq, if_false]
    exact h.own j hj
  · rw [List.forall_mem_cons, h.sound]
    exact (and_iff_right hg).symm

theorem Held.tool {name : String} {d : Did Answer Ask} {r : Option Attempt} (h : Held live tools i n tr r)
    (hd : d.stmt = .tool name) (hg : Good live tools d) : Held live tools i n (d :: tr) r := by
  have hm : ∀ j, asksModel j d = false := fun j => by simp [asksModel, hd]
  refine ⟨?_, ?_, ?_⟩
  · rw [List.filter_cons_of_neg (by simp [hm])]
    exact h.calls
  · intro j hj
    rw [List.filter_cons_of_neg (by simp [hm])]
    exact h.own j hj
  · rw [List.forall_mem_cons, h.sound]
    exact (and_iff_right hg).symm

/-- An answer that is not taken ends the attempt. -/
theorem held_bad {turn : Nat} {t : List Note} {d : Did Answer Ask} {r : Option Attempt} (hd : d.stmt = .model i e turn t) (hg : ¬ Good live tools d)
    (hr : ¬ SoundAttempt r) : Held live tools i (n + 1) [d] r := by
  refine ⟨?_, fun j hj => ?_, iff_of_false hr fun h => hg (h d (.head _))⟩
  · exact (List.length_filter_le _ _).trans (by simp)
  · simp [asksModel, hd, hj]

theorem not_sound_none : ¬ SoundAttempt none := fun ⟨_, h, _⟩ => by cases h

/-- So does a value that cannot be dumped. -/
theorem held_tool_bad {name : String} {d : Did Answer Ask} (hd : d.stmt = .tool name) (hg : ¬ Good live tools d) :
    Held live tools i n ([d] ++ []) none := by
  have hm : ∀ j, asksModel j d = false := fun j => by simp [asksModel, hd]
  exact ⟨by simp [hm], fun j _ => by simp [hm], iff_of_false not_sound_none fun h => hg (h d (.head _))⟩

theorem attempt_runs {p : Progress} {r : Option Attempt} (hr : (attempt live tools i e n p).Runs tr r) :
    Held live tools i n tr r := by
  induction n generalizing p tr r with
  | zero =>
    cases hr
    exact held_nil fun _ _ _ h => by cases h
  | succ n ih =>
    rcases hr.bind with ⟨a, l, l', rfl, hs, hk⟩ | ⟨hs, rfl⟩
    · obtain rfl := hs.stmt_some
      rw [List.singleton_append]
      cases ha : a.reply with
      | failure f =>
        simp only [ha] at hk
        cases hk
        exact (held_nil fun _ _ _ h => by cases h).model (by rw [ha]; trivial)
      | result x =>
        simp only [ha] at hk
        have good : Good live tools (.ran (.model i e (MAX_TURNS - n) p.transcript) a) ↔ GoodReply live tools e (.result x) := by
          rw [← ha]
          rfl
        cases hread : readable live e x.raw with
        | false =>
          simp only [hread, reduceCtorEq, if_false] at hk
          cases hk
          exact held_bad rfl (fun h => by simp [good, GoodReply, hread] at h) not_sound_none
        | true =>
          simp only [hread, if_true] at hk
          cases hd : decision tools x.parsed with
          | diagnose =>
            simp only [hd] at hk
            cases hk
            by_cases hin : InRoster (valueOf x.parsed "diagnosis")
            · refine (held_nil fun result _ _ h => ?_).model ?_
              · cases h
                exact hin
              · rw [ha, GoodReply, hd]
                exact ⟨hread, hin⟩
            · refine held_bad rfl (fun h => ?_) fun ⟨b, hb, hs⟩ => hin ?_
              · rw [good, GoodReply, hd] at h
                exact hin h.2
              · cases hb
                exact hs _ _ _ rfl
          | callTool name =>
            have hg : GoodReply live tools e a.reply := by
              rw [ha, GoodReply, hd]
              exact ⟨hread, trivial⟩
            simp only [hd] at hk
            refine Held.model ?_ hg
            obtain ⟨m, m', rfl, ⟨y, ht, hk⟩ | ⟨ht, -⟩⟩ := Code.Runs.graft hk
            · obtain ⟨d, rfl, hds, _, hx, hgd⟩ := callTool_runs ht
              cases hx
              have hgood := hgd live tools
              cases y with
              | undumpable =>
                cases hk
                exact held_tool_bad hds (fun h => hgood.1 h rfl)
              | _ => exact (ih hk).tool hds (hgood.2 (by simp))
            · obtain ⟨_, _, _, _, hx, _⟩ := callTool_runs ht
              cases hx
          | noTool name =>
            simp only [hd] at hk
            cases hk
            exact (held_nil fun _ _ _ h => by cases h).model (by rw [ha, GoodReply, hd]; exact ⟨hread, trivial⟩)
          | unhashable =>
            simp only [hd] at hk
            cases hk
            exact held_bad rfl (fun h => by rw [good, GoodReply, hd] at h; exact h.2) not_sound_none
          | invalid =>
            have hg : GoodReply live tools e a.reply := by
              rw [ha, GoodReply, hd]
              exact ⟨hread, trivial⟩
            simp only [hd] at hk
            split at hk
            next =>
              cases hk
              exact (held_nil fun _ _ _ h => by cases h).model hg
            next => exact (ih hk).model hg
    · rcases hs.stmt with ⟨_, _, h⟩ | ⟨rfl, -⟩
      · cases h
      · exact held_bad rfl id not_sound_none

/-! ## The chain -/

/-- It returns, and a diagnosis is of the roster. -/
def SoundDiagnosis (r : Option Diagnosis) : Prop := ∃ x, r = some x ∧ (x.status = .diagnosed → InRoster x.llmDiagnosis)

/-- An entry tried in vain: what was done, and the failure. -/
structure Vain where
  entry : Entry
  run : List (Did Answer Ask)
  failure : LLMFailure

/-- The entries tried in vain one after the other, from the `i`-th on, and what was done then. -/
structure Tried (live : Bool) (tools : List String) (i : Nat) (chain : List Entry) (tr : List (Did Answer Ask)) (vain : List Vain) : Prop where
  done : vain.flatMap Vain.run <+: tr
  entries : vain.map Vain.entry <+: chain
  failed : ∀ k (h : k < vain.length), ∃ p, (attempt live tools (i + k) vain[k].entry MAX_TURNS .init).Runs vain[k].run
    (some (.providerFailure vain[k].failure p))

theorem tried_nil (live : Bool) (tools : List String) (i : Nat) (chain : List Entry) (tr : List (Did Answer Ask)) :
    Tried live tools i chain tr [] :=
  ⟨List.nil_prefix, List.nil_prefix, fun k h => absurd h (Nat.not_lt_zero k)⟩

theorem Tried.cons {l : List (Did Answer Ask)} {vain : List Vain} {f : LLMFailure} {p : Progress} (h : Tried live tools (i + 1) chain tr vain)
    (ha : (attempt live tools i e MAX_TURNS .init).Runs l (some (.providerFailure f p))) :
    Tried live tools i (e :: chain) (l ++ tr) (⟨e, l, f⟩ :: vain) := by
  refine ⟨?_, ?_, ?_⟩
  · rw [List.flatMap_cons]
    exact List.prefix_append_right_inj l |>.2 h.done
  · rw [List.map_cons]
    exact List.cons_prefix_cons.2 ⟨rfl, h.entries⟩
  · intro k hk
    cases k with
    | zero => exact ⟨p, ha⟩
    | succ k =>
      have := h.failed k (Nat.lt_of_succ_lt_succ hk)
      rwa [Nat.add_right_comm] at this

/-- What a run of the chain from the `i`-th entry on comes to. -/
structure Ran (live : Bool) (tools : List String) (i : Nat) (chain : List Entry) (failedAttempts : List LLMFailure)
    (tr : List (Did Answer Ask)) (r : Option Diagnosis) : Prop where
  calls : ∀ j, (tr.filter (asksModel j)).length ≤ MAX_TURNS
  own : ∀ j < i, tr.filter (asksModel j) = []
  sound : SoundDiagnosis r ↔ ∀ d ∈ tr, Good live tools d
  tried : ∀ x, r = some x → ∃ vain, Tried live tools i chain tr vain ∧ x.failedAttempts = failedAttempts ++ vain.map Vain.failure ∧
    (x.status = .llmUnavailable → vain.map Vain.entry = chain)

theorem calls_of_held {r : Option Attempt} (h : Held live tools i MAX_TURNS tr r) (j : Nat) : (tr.filter (asksModel j)).length ≤ MAX_TURNS := by
  by_cases hj : j = i
  · exact hj ▸ h.calls
  · rw [h.own j hj]
    exact Nat.zero_le _

theorem tryEntries_runs {failedAttempts : List LLMFailure} {r : Option Diagnosis}
    (hr : (tryEntries live tools i chain failedAttempts).Runs tr r) : Ran live tools i chain failedAttempts tr r := by
  induction chain generalizing i failedAttempts tr r with
  | nil =>
    cases hr
    refine ⟨fun j => by simp, fun _ _ => rfl, iff_of_true ⟨_, rfl, fun h => by cases h⟩ (by simp), ?_⟩
    rintro x hx
    cases hx
    exact ⟨[], tried_nil .., by simp, fun _ => rfl⟩
  | cons e chain ih =>
    rcases hr.bind with ⟨a, l, l', rfl, h1, hk⟩ | ⟨h1, rfl⟩
    · have held := attempt_runs h1
      -- an attempt that settles the chain
      have settled : ∀ x, l' = [] → r = some x → x.failedAttempts = failedAttempts → x.status ≠ .llmUnavailable →
          (SoundDiagnosis r ↔ SoundAttempt (some a)) → Ran live tools i (e :: chain) failedAttempts (l ++ l') r := by
        rintro x rfl rfl hf hs hsound
        rw [List.append_nil]
        refine ⟨calls_of_held held, fun j hj => held.own j (Nat.ne_of_lt hj), hsound.trans held.sound, ?_⟩
        rintro y hy
        cases hy
        exact ⟨[], tried_nil .., by simp [hf], fun h => absurd h hs⟩
      cases a with
      | diagnosed result turns p =>
        cases hk
        refine settled _ rfl rfl rfl (fun h => by cases h) ?_
        constructor
        · rintro ⟨x, hx, h⟩
          cases hx
          refine ⟨_, rfl, fun _ _ _ he => ?_⟩
          cases he
          exact h rfl
        · rintro ⟨b, hb, h⟩
          cases hb
          exact ⟨_, rfl, fun _ => h _ _ _ rfl⟩
      | invalidToolName name turns p =>
        cases hk
        exact settled _ rfl rfl rfl (fun h => by cases h) (iff_of_true ⟨_, rfl, fun h => by cases h⟩ ⟨_, rfl, fun _ _ _ h => by cases h⟩)
      | maxTurnsExceeded p =>
        cases hk
        exact settled _ rfl rfl rfl (fun h => by cases h) (iff_of_true ⟨_, rfl, fun h => by cases h⟩ ⟨_, rfl, fun _ _ _ h => by cases h⟩)
      | providerFailure f p =>
        have rest := ih hk
        have good : ∀ d ∈ l, Good live tools d := held.sound.1 ⟨_, rfl, fun _ _ _ h => by cases h⟩
        refine ⟨?_, ?_, ?_, ?_⟩
        · intro j
          rw [List.filter_append]
          by_cases hj : j = i
          · rw [rest.own j (hj ▸ Nat.lt_succ_self i), List.append_nil]
            exact calls_of_held held j
          · rw [held.own j hj, List.nil_append]
            exact rest.calls j
        · intro j hj
          rw [List.filter_append, held.own j (Nat.ne_of_lt hj), rest.own j (Nat.lt_succ_of_lt hj)]
          rfl
        · rw [rest.sound, List.forall_mem_append]
          exact (and_iff_right good).symm
        · intro x hx
          obtain ⟨vain, ht, hf, hu⟩ := rest.tried x hx
          refine ⟨⟨e, l, f⟩ :: vain, ht.cons h1, by simp [hf], ?_⟩
          intro h
          rw [List.map_cons, hu h]
    · have held := attempt_runs h1
      refine ⟨calls_of_held held, fun j hj => held.own j (Nat.ne_of_lt hj), ?_, fun _ h => by cases h⟩
      exact (iff_of_false (fun ⟨_, h, _⟩ => by cases h) not_sound_none).trans held.sound

end Runs

/-! ## The loop ends -/

theorem stmt_loopless (s : Ask) : (stmt s : Code Answer Ask Answer).Loopless := ⟨fun _ => trivial, trivial⟩

theorem callTool_loopless (name : String) : (callTool name).Loopless :=
  Code.Loopless.graft (Code.Loopless.bind (stmt_loopless (.tool name)) fun _ => trivial) (fun _ => trivial) trivial

theorem attempt_loopless (live : Bool) (tools : List String) (i : Nat) (e : Entry) (n : Nat) (p : Progress) :
    (attempt live tools i e n p).Loopless := by
  induction n generalizing p with
  | zero => trivial
  | succ n ih =>
    apply (stmt_loopless _).bind
    intro a
    cases a.reply with
    | failure f => trivial
    | result x =>
      cases hread : readable live e x.raw with
      | false =>
        simp only [hread, reduceCtorEq, if_false]
        trivial
      | true =>
        simp only [hread, if_true]
        cases decision tools x.parsed with
        | callTool name =>
          apply (callTool_loopless name).bind
          intro y
          cases y with
          | undumpable => trivial
          | _ => exact ih _
        | invalid =>
          simp only
          split
          next => trivial
          next => exact ih _
        | _ => trivial

theorem tryEntries_loopless (live : Bool) (tools : List String) (i : Nat) (chain : List Entry) (failedAttempts : List LLMFailure) :
    (tryEntries live tools i chain failedAttempts).Loopless := by
  induction chain generalizing i failedAttempts with
  | nil => trivial
  | cons e chain ih =>
    apply (attempt_loopless ..).bind
    intro a
    cases a with
    | providerFailure f p => exact ih _ _
    | _ => trivial

/-! ## Every run -/

/-- Whatever models and tools answer, the loop ends. In every run it calls no model more than `MAX_TURNS` times, and
what it returns lists the failures of the entries it has tried, in the order of the chain; it returns, and a diagnosis
is of the roster, exactly if every answer was one it can take. -/
theorem react_total (live : Bool) (tools : List String) (chain : List Entry) :
    (∀ env, ∃ tr r, (runReactDiagnosis live tools chain).Runs tr r ∧ Follows env [] tr) ∧
    ∀ tr r, (runReactDiagnosis live tools chain).Runs tr r →
      (∀ i, (tr.filter (asksModel i)).length ≤ MAX_TURNS) ∧
      (∀ x, r = some x → ∃ vain, Tried live tools 0 chain tr vain ∧ x.failedAttempts = vain.map Vain.failure ∧
        (x.status = .llmUnavailable → vain.map Vain.entry = chain)) ∧
      (SoundDiagnosis r ↔ ∀ d ∈ tr, Good live tools d) := by
  constructor
  · intro env
    exact (tryEntries_loopless live tools 0 chain []).finishes env []
  · intro tr r hr
    have ran := tryEntries_runs hr
    exact ⟨ran.calls, fun x hx => by simpa using ran.tried x hx, ran.sound⟩

/-- A model that diagnoses at once. -/
def answersDiagnosis (diagnosis : String) : Answer where
  reply := .result ⟨"", [("action", .str "diagnose"), ("diagnosis", .str diagnosis)], "groq", "llama-3.3-70b-versatile", .fallback, none,
    .null, .null⟩
  returned := .error

def groq : Entry := ⟨"groq", "llama-3.3-70b-versatile", .openaiCompat, .fallback⟩

theorem diagnosis_runs (diagnosis : String) : ∃ x, (runReactDiagnosis false [] [groq]).Runs
    [.ran (.model 0 groq 1 []) (answersDiagnosis diagnosis)] (some x) ∧ x.status = .diagnosed ∧ x.llmDiagnosis = .str diagnosis :=
  ⟨_, Code.runs_play 1 [some (answersDiagnosis diagnosis)] rfl, rfl, rfl⟩

theorem oom_diagnosed : ∃ x, SoundDiagnosis (some x) ∧ x.status = .diagnosed := by
  obtain ⟨x, hr, hs, -⟩ := diagnosis_runs "oom"
  refine ⟨x, ((react_total false [] [groq]).2 _ _ hr).2.2.2 ?_, hs⟩
  intro d hd
  rw [List.mem_singleton.1 hd]
  exact ⟨rfl, "oom", by decide, rfl⟩

/-- The diagnosis is returned as the model spells it. -/
theorem unlisted_diagnosed : ∃ tr x, (runReactDiagnosis false [] [groq]).Runs tr (some x) ∧ x.status = .diagnosed ∧ ¬ InRoster x.llmDiagnosis := by
  obtain ⟨x, hr, hs, hd⟩ := diagnosis_runs "disk full"
  refine ⟨_, x, hr, hs, ?_⟩
  rw [hd]
  rintro ⟨c, hc, he⟩
  cases he
  exact absurd hc (by decide)

end Wardence.React
