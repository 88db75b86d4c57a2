import Mathlib.Data.List.Infix
import Mathlib.Logic.Function.Basic
import Wardence.Lib.Steps
/-!
# The published endpoints

The two quick tunnels get a new host with every start. `publish_endpoints.py` reads what each of them
logged last and writes both URLs to `runtime_config.json`, where the page looks them up when it starts
(`runtimeConfig.js`). It is run by a timer and after each start of a tunnel, and nothing keeps two
passes apart. `updated_at` and keys that the script does not know are left out.
-/
namespace Wardence.Endpoints

abbrev Url := List Char

/-! ## The log of a tunnel -/

def isHost (c : Char) : Bool := ('a' ≤ c && c ≤ 'z') || ('0' ≤ c && c ≤ '9') || c == '-'

def SCHEME : List Char := "https://".toList

def DOMAIN : List Char := ".trycloudflare.com".toList

/-- `URL_RE` at the start of a text. What may stand in a host does not begin `DOMAIN`, so there is one way to match. -/
def matchAt (text : List Char) : Option Url :=
  let rest := text.drop SCHEME.length
  if SCHEME <+: text ∧ 6 ≤ (rest.takeWhile isHost).length ∧ DOMAIN <+: rest.dropWhile isHost then
    some (SCHEME ++ rest.takeWhile isHost ++ DOMAIN)
  else none

/-- `URL_RE.finditer`, after the next `skip` characters. -/
def findIter : Nat → List Char → List Url
  | _, [] => []
  | skip + 1, _ :: text => findIter skip text
  | 0, c :: text =>
    match matchAt (c :: text) with
    | some url => url :: findIter (url.length - 1) text
    | none => findIter 0 text

/-- A URL does not span lines. -/
def hits (journal : List (List Char)) : List Url :=
  (journal.flatMap (findIter 0)).filter fun url => ¬ "//api.".toList <:+: url

/-- `current_url`, where the journal can be read. -/
def currentUrl (journal : List (List Char)) : Option Url := (hits journal).getLast?

/-! ## The passes -/

inductive Field where
  | operatorApiUrl
  | storefrontUrl
  deriving DecidableEq

def UNITS : List Field := [.operatorApiUrl, .storefrontUrl]

abbrev Config := Field → Option Url

/-- How far a run of the script has come: what it will upload, whether that is a change, and the units it has still to read. -/
inductive Place where
  | fresh
  | looking (units : List Field) (cfg : Config) (changed : Bool)
  | ended

structure World where
  /-- What each unit has logged in the last 14 days. -/
  journal : Field → List (List Char)
  /-- `runtime_config.json`. -/
  object : Option Config
  passes : Nat → Place

inductive Move where
  | log (f : Field) (line : List Char)
  /-- The oldest lines are more than 14 days old. -/
  | expire (f : Field) (lines : Nat)
  | get (p : Nat) (ok : Bool)
  | look (p : Nat) (ok : Bool)
  | put (p : Nat) (ok : Bool)
  | die (p : Nat)

def World.published (w : World) : Config := w.object.getD fun _ => none

/-- One turn of the loop over `UNITS`. -/
def look (url : Option Url) (f : Field) (cfg : Config) (changed : Bool) : Config × Bool :=
  match url with
  | some url => if some url ≠ cfg f then (Function.update cfg f (some url), true) else (cfg, changed)
  | none => (cfg, changed)

def World.to (w : World) (p : Nat) (place : Place) : World := { w with passes := Function.update w.passes p place }

def step (w : World) : Move → World
  | .log f line => { w with journal := Function.update w.journal f (w.journal f ++ [line]) }
  | .expire f lines => { w with journal := Function.update w.journal f ((w.journal f).drop lines) }
  | .get p ok =>
    match w.passes p with
    -- any failure counts as the first run
    | .fresh => w.to p (.looking UNITS (if ok then w.published else fun _ => none) false)
    | _ => w
  | .look p ok =>
    match w.passes p with
    | .looking (f :: units) cfg changed =>
      let r := look (if ok then currentUrl (w.journal f) else none) f cfg changed
      w.to p (.looking units r.1 r.2)
    | _ => w
  | .put p ok =>
    match w.passes p with
    | .looking [] cfg changed => { w.to p .ended with object := if changed && ok then some cfg else w.object }
    | _ => w
  | .die p => w.to p .ended

/-! ## The page -/

/-- `loadRuntimeConfig`, and what it leaves in `resolved`. -/
def loadRuntimeConfig (w : World) (fetched : Bool) : Option Config := if fetched then w.object else none

/-- `operatorBaseUrl` and `storefrontUrl`, with the fallback that was built in. -/
def baseUrl (resolved : Option Config) (fallback : Url) (f : Field) : Url := (resolved.bind fun cfg => cfg f).getD fallback

/-! ## Healing -/

/-- A pass from its start to its end, that reads both journals and uploads. -/
def pass (p : Nat) (got : Bool) : List Move := [.get p got, .look p true, .look p true, .put p true]

/-- What a pass will upload for `f` is `url`, unless the journal of `f` is still to be read. -/
def Place.Right (url : Config) : Place → Prop
  | .looking units cfg _ => ∀ f, cfg f = url f ∨ (f ∈ units ∧ cfg f = none)
  | _ => True

/-- No tunnel gets a new URL, and a pass that could not read the object reads what it needs in the journals. -/
def Calm (w : World) : Move → Prop
  | .log _ line => hits [line] = []
  | .look p ok =>
    match w.passes p with
    | .looking (f :: _) cfg _ => cfg f = none → ok = true ∧ currentUrl (w.journal f) ≠ none
    | _ => True
  | _ => True

instance (w : World) (m : Move) : Decidable (Calm w m) := by
  unfold Calm
  split
  · infer_instance
  · split <;> infer_instance
  · infer_instance

/-- `url` is published, and nothing that is under way will change that. -/
structure Healed (url : Config) (w : World) : Prop where
  published : w.published = url
  journal : ∀ f, currentUrl (w.journal f) = none ∨ currentUrl (w.journal f) = url f
  passes : ∀ p, (w.passes p).Right url

theorem hits_append (j j' : List (List Char)) : hits (j ++ j') = hits j ++ hits j' := by
  simp [hits]

theorem currentUrl_log (j : List (List Char)) {line : List Char} (h : hits [line] = []) : currentUrl (j ++ [line]) = currentUrl j := by
  rw [currentUrl, hits_append, h, List.append_nil, currentUrl]

theorem currentUrl_expire (j : List (List Char)) (n : Nat) : currentUrl (j.drop n) = none ∨ currentUrl (j.drop n) = currentUrl j := by
  conv => rhs; rhs; rw [← List.take_append_drop n j]
  rw [currentUrl, currentUrl, hits_append, List.getLast?_append]
  cases (hits (j.drop n)).getLast? with
  | none => exact .inl rfl
  | some url => exact .inr rfl

/-- What a turn of the loop makes of the field it is about, and of the other one. -/
theorem look_apply (url : Option Url) (f g : Field) (cfg : Config) (changed : Bool) :
    (look url f cfg changed).1 g = if g = f ∧ url.isSome then url else cfg g := by
  cases url with
  | none => simp [look]
  | some url =>
    by_cases hg : g = f
    · subst hg
      by_cases hsame : some url = cfg g
      · simp [look, ← hsame]
      · simp [look, hsame]
    · by_cases hsame : some url = cfg f
      · simp [look, hsame, hg]
      · simp [look, hsame, hg]

theorem look_changed (url : Option Url) (f : Field) (cfg : Config) (changed : Bool) :
    (look url f cfg changed).2 = (changed || (url.isSome && decide (url ≠ cfg f))) := by
  cases url with
  | none => simp [look]
  | some url =>
    by_cases hsame : some url = cfg f
    · simp [look, hsame]
    · simp [look, hsame]

theorem right_to {url : Config} {w : World} {p : Nat} {place : Place} (h : ∀ q, (w.passes q).Right url) (hp : place.Right url) (q : Nat) :
    ((w.to p place).passes q).Right url := by
  by_cases hq : q = p
  · subst hq
    simpa [World.to] using hp
  · simpa [World.to, hq] using h q

theorem Healed.step {url : Config} {w : World} (m : Move) (hc : Calm w m) (h : Healed url w) : Healed url (step w m) := by
  obtain ⟨hpub, hjournal, hpasses⟩ := h
  cases m with
  | log f line =>
    refine ⟨hpub, fun g => ?_, hpasses⟩
    by_cases hg : g = f
    · subst hg
      simpa [Endpoints.step, currentUrl_log _ hc] using hjournal g
    · simpa [Endpoints.step, hg] using hjournal g
  | expire f lines =>
    refine ⟨hpub, fun g => ?_, hpasses⟩
    by_cases hg : g = f
    · subst hg
      rcases currentUrl_expire (w.journal g) lines with hn | hs
      · exact .inl (by simpa [Endpoints.step] using hn)
      · simpa [Endpoints.step, hs] using hjournal g
    · simpa [Endpoints.step, hg] using hjournal g
  | get p ok =>
    simp only [Endpoints.step]
    split
    · refine ⟨hpub, hjournal, right_to hpasses fun f => ?_⟩
      cases ok with
      | true => exact .inl (by rw [if_pos rfl, hpub])
      | false => exact .inr ⟨by cases f <;> simp [UNITS], rfl⟩
    · exact ⟨hpub, hjournal, hpasses⟩
  | look p ok =>
    simp only [Endpoints.step]
    split
    next f units cfg changed hp =>
      have hcalm : cfg f = none → ok = true ∧ currentUrl (w.journal f) ≠ none := by
        simpa only [Calm, hp] using hc
      have hright : ∀ g, cfg g = url g ∨ (g ∈ f :: units ∧ cfg g = none) := by
        have := hpasses p
        rwa [hp] at this
      refine ⟨hpub, hjournal, right_to hpasses fun g => ?_⟩
      rw [look_apply]
      by_cases hread : g = f ∧ (if ok then currentUrl (w.journal f) else none).isSome
      · obtain ⟨rfl, hsome⟩ := hread
        cases ok with
        | false => simp at hsome
        | true =>
          rw [if_pos rfl] at hsome
          rw [if_pos ⟨rfl, by simpa using hsome⟩, if_pos rfl]
          rcases hjournal g with hn | hu
          · simp [hn] at hsome
          · exact .inl hu
      · rw [if_neg hread]
        rcases hright g with hg | ⟨hg, hnone⟩
        · exact .inl hg
        · rcases List.mem_cons.1 hg with rfl | hg
          · obtain ⟨rfl, hne⟩ := hcalm hnone
            exact absurd ⟨rfl, by simpa [Option.isSome_iff_ne_none] using hne⟩ hread
          · exact .inr ⟨hg, hnone⟩
    · exact ⟨hpub, hjournal, hpasses⟩
  | put p ok =>
    simp only [Endpoints.step]
    split
    next cfg changed hp =>
      have hright : cfg = url := by
        have := hpasses p
        rw [hp] at this
        exact funext fun f => (this f).resolve_right fun hf => List.not_mem_nil hf.1
      refine ⟨?_, hjournal, right_to hpasses trivial⟩
      cases changed && ok with
      | true => simpa [World.published] using hright
      | false => exact hpub
    · exact ⟨hpub, hjournal, hpasses⟩
  | die p => exact ⟨hpub, hjournal, right_to hpasses trivial⟩

theorem to_passes (w : World) (p : Nat) (place : Place) : (w.to p place).passes p = place := Function.update_self ..

theorem to_to (w : World) (p : Nat) (place place' : Place) : (w.to p place).to p place' = w.to p place' := by
  simp [World.to]

theorem step_look (w : World) (p : Nat) (f : Field) (units : List Field) (cfg : Config) (changed : Bool) :
    step (w.to p (.looking (f :: units) cfg changed)) (.look p true) =
      w.to p (.looking units (look (currentUrl (w.journal f)) f cfg changed).1 (look (currentUrl (w.journal f)) f cfg changed).2) := by
  simp only [step, to_passes, if_true, to_to]
  rfl

/-- A pass alone publishes what the journals say, whatever was published before and whether or not it could be read. -/
theorem healed_pass {w : World} {p : Nat} {got : Bool} (hp : w.passes p = .fresh)
    (hover : ∀ q, q ≠ p → w.passes q = .fresh ∨ w.passes q = .ended) (hlogged : ∀ f, currentUrl (w.journal f) ≠ none) :
    Healed (fun f => currentUrl (w.journal f)) (Steps.run step w (pass p got)) := by
  have hget : step w (.get p got) = w.to p (.looking UNITS (if got then w.published else fun _ => none) false) := by
    simp only [step, hp]
  generalize hcfg : (if got then w.published else fun _ => none) = cfg at hget
  generalize hr : look (currentUrl (w.journal .operatorApiUrl)) .operatorApiUrl cfg false = r
  generalize hr' : look (currentUrl (w.journal .storefrontUrl)) .storefrontUrl r.1 r.2 = r'
  have hrun : Steps.run step w (pass p got) = step (w.to p (.looking [] r'.1 r'.2)) (.put p true) := by
    rw [pass, Steps.run_cons, hget, UNITS, Steps.run_cons, step_look, hr, Steps.run_cons, step_look, hr', Steps.run_cons]
    rfl
  have hupload : r'.1 = fun f => currentUrl (w.journal f) := by
    funext f
    have hsome : ∀ f, (currentUrl (w.journal f)).isSome = true := fun f => Option.isSome_iff_ne_none.2 (hlogged f)
    cases f with
    | operatorApiUrl => rw [← hr', look_apply, if_neg (by simp), ← hr, look_apply, if_pos ⟨rfl, hsome _⟩]
    | storefrontUrl => rw [← hr', look_apply, if_pos ⟨rfl, hsome _⟩]
  have hobject : World.published (step (w.to p (.looking [] r'.1 r'.2)) (.put p true)) = fun f => currentUrl (w.journal f) := by
    simp only [step, to_passes, Bool.and_true]
    cases hchanged : r'.2 with
    | true => simpa [World.published] using hupload
    | false =>
      -- what was read is what the journals say, and there was something to read
      have hsame : cfg = fun f => currentUrl (w.journal f) := by
        rw [← hr', look_changed, ← hr, look_changed] at hchanged
        simp only [Bool.false_or, Bool.or_eq_false_iff, Bool.and_eq_false_iff, decide_eq_false_iff_not, not_not,
          Option.isSome_eq_false_iff, Option.isNone_iff_eq_none, hlogged, false_or, look_apply, reduceCtorEq, false_and,
          if_false] at hchanged
        funext f
        cases f with
        | operatorApiUrl => exact hchanged.1.symm
        | storefrontUrl => exact hchanged.2.symm
      cases got with
      | true => rw [← hsame]; exact hcfg
      | false =>
        rw [if_neg Bool.false_ne_true] at hcfg
        exact absurd (congrFun (hcfg.trans hsame) .storefrontUrl).symm (hlogged .storefrontUrl)
  rw [hrun]
  refine ⟨hobject, fun f => .inr ?_, fun q => ?_⟩
  · simp [step, World.to]
  · by_cases hq : q = p
    · subst hq
      simp [step, World.to, Place.Right]
    · have hplace : (step (w.to p (.looking [] r'.1 r'.2)) (.put p true)).passes q = w.passes q := by
        simp [step, World.to, hq]
      rw [hplace]
      rcases hover q hq with h | h <;> simp [h, Place.Right]

/-- Whatever has happened before, one pass that runs alone and reads both journals heals what is published. From then on, until a tunnel
gets another URL, every page that could fetch the object calls the tunnels where they are: however many passes run, in whatever order
their steps fall, and whatever fails or is killed, if only a pass that cannot read the object reads what it then lacks in the
journals. -/
theorem self_healing {w : World} {p : Nat} (got : Bool) (hp : w.passes p = .fresh)
    (hover : ∀ q, q ≠ p → w.passes q = .fresh ∨ w.passes q = .ended) (hlogged : ∀ f, currentUrl (w.journal f) ≠ none)
    {moves : List Move} (hcalm : Steps.Admits step Calm (Steps.run step w (pass p got)) moves) (fallback : Url) (f : Field) :
    currentUrl (w.journal f) = some (baseUrl (loadRuntimeConfig (Steps.run step w (pass p got ++ moves)) true) fallback f) := by
  have hhealed := hcalm.invariant (fun _ m hc h => h.step m hc) (healed_pass hp hover hlogged)
  rw [Steps.run_append]
  have hpub := congrFun hhealed.published f
  obtain ⟨url, hurl⟩ := Option.ne_none_iff_exists'.1 (hlogged f)
  simp only [hurl] at hpub ⊢
  generalize Steps.run step (Steps.run step w (pass p got)) moves = v at hpub
  cases hobject : v.object with
  | none => simp [World.published, hobject] at hpub
  | some cfg =>
    rw [World.published, hobject, Option.getD_some] at hpub
    simp [baseUrl, loadRuntimeConfig, hobject, hpub]

def logged (host : String) : List (List Char) := [("|  https://" ++ host ++ ".trycloudflare.com  |").toList]

/-- Both tunnels have been started again; what is published is where they were. -/
def churned : World where
  journal f := match f with
    | .operatorApiUrl => logged "plain-moss" ++ logged "calm-river"
    | .storefrontUrl => logged "still-water"
  object := some fun _ => some "https://plain-moss.trycloudflare.com".toList
  passes _ := .fresh

theorem self_healing_churned : currentUrl (churned.journal .operatorApiUrl) =
    some (baseUrl (loadRuntimeConfig (Steps.run step churned (pass 0 true ++
      [.get 1 true, .get 2 false, .look 1 false, .look 2 true, .look 2 true, .put 2 true, .look 1 false, .put 1 true, .die 3]))
      true) [] .operatorApiUrl) :=
  self_healing true rfl (fun _ _ => .inl rfl) (fun f => by cases f <;> decide +kernel) (by decide +kernel) [] .operatorApiUrl

/-- An object and a journal that cannot be read blank a good URL. -/
example : (Steps.run step churned [.get 0 false, .look 0 true, .look 0 false, .put 0 true]).published .storefrontUrl = none := by
  decide +kernel

end Wardence.Endpoints
