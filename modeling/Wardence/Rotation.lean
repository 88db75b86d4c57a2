import Wardence.Injector.Programs
import Wardence.Lib.Embed
/-!
# The warm standby of `carts`

`carts_rotation.py` flips the selector of the Service `carts` between `carts` and `carts-warm`;
`_ensure_crash_loop_baseline` of `injector.py` puts it back. Any number of these calls run at the
same time, in a cluster that changes as it likes between any two of their requests. A request
may also raise, a patch also when it has taken effect: then the cluster changes just before.
-/
namespace Wardence.Rotation

open Threads Code

def CARTS_LABEL : String := "carts"
def CARTS_WARM_LABEL : String := "carts-warm"

/-! ## The cluster -/

structure Pod where
  /-- The names of the containers, and whether they are ready. -/
  containerStatuses : Option (List (String × Bool))

structure Cluster where
  /-- The selector of the Service `carts`. -/
  selector : Option (List (String × String))
  /-- The pods with a `name` label that are `Running`. -/
  pods : String → List Pod
  /-- `kubectl` gets through. -/
  kubectl : Bool

/-- The first pod's container `carts` is ready. -/
def readyOf : List Pod → Bool
  | [] => false
  | pod :: _ => (pod.containerStatuses.getD []).any fun (name, ready) => name = "carts" && ready

/-- `jsonpath={.items[0].status.containerStatuses[?(@.name=="carts")].ready}` -/
def readyText : List Pod → String
  | [] => ""
  | pod :: _ => " ".intercalate (((pod.containerStatuses.getD []).filter (·.1 = "carts")).map fun (_, ready) => toString ready)

namespace Cluster

def activeLabel (w : Cluster) : Option String := (w.selector.getD []).lookup "name"

/-- The Service's selector after a patch of its `name`. -/
def patched (label : String) (w : Cluster) : Cluster :=
  { w with selector := some (("name", label) :: (w.selector.getD []).filter (·.1 ≠ "name")) }

/-- What a call of the injector is answered. -/
def reply (c : Injector.Call) (w : Cluster) : Injector.Reply :=
  let said (text : String) : Injector.Reply := { Injector.yes with ok := w.kubectl, text := some (if w.kubectl then text else "") }
  match c.op with
  | .read .selector => said (w.activeLabel.getD "")
  | .read .cartsPodReady => said (readyText (w.pods "carts"))
  | _ => { Injector.yes with ok := w.kubectl }

end Cluster

/-! ## The calls -/

/-- A call. -/
inductive Job where
  | flipToWarm
  | flipToCarts
  | selfHeal
  deriving DecidableEq

inductive Request where
  /-- `_core_v1`, which reads the token. -/
  | coreV1
  | readService
  | listPods (label : String)
  | patchService (label : String)
  | kubectl (call : Injector.Call)
  /-- The caller has the call's answer. -/
  | answer (job : Job) (ok : Bool)
  deriving DecidableEq

abbrev Client := Code Cluster Request

def getActiveLabel : Client (Option String) :=
  tryCatch (do
    let _ ← stmt .coreV1
    let svc ← stmt .readService
    pure svc.activeLabel) (pure none)

def isPodReady (label : String) : Client Bool := do
  let pods ← tryCatch (do
    let _ ← stmt .coreV1
    let w ← stmt (.listPods label)
    pure (some (w.pods label))) (pure none)
  match pods with
  | none => pure false
  | some pods => pure (readyOf pods)

def isCartsReady : Client Bool := isPodReady CARTS_LABEL
def isCartsWarmReady : Client Bool := isPodReady CARTS_WARM_LABEL

def patchSelector (label : String) : Client Bool :=
  tryCatch (do
    let _ ← stmt .coreV1
    let _ ← stmt (.patchService label)
    pure true) (pure false)

/-- A flip to a label, with the check of its pods. -/
def flip (label : String) (ready : Client Bool) : Client Bool := do
  let active ← getActiveLabel
  if active = some label then pure true
  else do
    let ok ← ready
    if ok then patchSelector label else pure false

def flipToWarm : Client Bool := flip CARTS_WARM_LABEL isCartsWarmReady
def flipToCarts : Client Bool := flip CARTS_LABEL isCartsReady

/-- `_ensure_crash_loop_baseline` -/
def selfHeal : Client Bool := Injector.ensureCrashLoopBaseline.embed .kubectl Cluster.reply

/-! ## The system -/

/-- The label a flip is for. -/
def Job.wanted : Job → Option String
  | .flipToWarm => some CARTS_WARM_LABEL
  | .flipToCarts => some CARTS_LABEL
  | .selfHeal => none

/-- A call returns: its caller has its answer, also when it is gone by then. -/
def returning (job : Job) (p : Client Bool) : Client Unit := do
  let ok ← p
  tryCatch (do let _ ← stmt (.answer job ok)) (pure ())

def program : Job → Client Unit
  | .flipToWarm => returning .flipToWarm flipToWarm
  | .flipToCarts => returning .flipToCarts flipToCarts
  | .selfHeal => returning .selfHeal selfHeal

/-- The label a request patches into the selector. -/
def Request.label : Request → Option String
  | .patchService label => some label
  | .kubectl ⟨.command .patchSelector, _⟩ => some "carts"
  | _ => none

/-- Whether a request takes effect when it does not raise. -/
def Request.landed (w : Cluster) : Request → Bool
  | .kubectl _ => w.kubectl
  | _ => true

def rotation : Machine Cluster Request Job Cluster where
  app s w := some (match s.label with
    | some label => if s.landed w then w.patched label else w
    | none => w)
  spawns _ := none
  body := program
  post _ w := some w
  env w _ := w
  killed w := w

abbrev Log := List (Event Cluster Request)

/-! ## What a log says -/

/-- A check that said yes. -/
def Confirms (label : String) (ev : Event Cluster Request) : Prop :=
  ev.raised = false ∧ readyOf (ev.seen.pods label) = true ∧
    match ev.stmt with
    | .listPods l => l = label
    | .kubectl c => c.op = .read .cartsPodReady ∧ label = "carts" ∧ ev.seen.kubectl = true
    | _ => False

/-- What call `i` asked of the API last. -/
def lastRequest (i : Nat) (l : Log) : Option (Event Cluster Request) := l.find? fun ev => ev.thread = i ∧ ev.stmt ≠ .coreV1

/-- The selector was patched, or had the label already. -/
def Shows (label : String) (ev : Event Cluster Request) : Prop :=
  ev.raised = false ∧ (ev.stmt = .patchService label ∨ ev.stmt = .readService ∧ ev.seen.activeLabel = some label)

/-- When call `i` may do `s` after `l`. -/
def Due (i : Nat) (l : Log) (s : Request) : Prop :=
  (∀ label, s.label = some label → ∃ ev, lastRequest i l = some ev ∧ Confirms label ev) ∧
  ∀ job label, s = .answer job true → job.wanted = some label → ∃ ev ∈ l, ev.thread = i ∧ Shows label ev

def Safe : Log → Prop
  | [] => True
  | ev :: l => Safe l ∧ Due ev.thread l ev.stmt

/-! ## What a call has learned -/

inductive Stage where
  | nothing
  /-- The selector has this label. -/
  | shown (label : Option String)
  /-- A pod with this label is ready. -/
  | ready (label : String)
  | patched (label : String)
  | answered

/-- What follows from a request that did not raise. -/
def Stage.after (a : Stage) (s : Request) (w : Cluster) : Stage :=
  match s with
  | .coreV1 => a
  | .readService => .shown w.activeLabel
  | .listPods label => if readyOf (w.pods label) then .ready label else .nothing
  | .patchService label => .patched label
  | .kubectl c => if c.op = .read .cartsPodReady ∧ (w.reply c).text = some "true" then .ready "carts" else .nothing
  | .answer _ _ => .answered

/-- What a call may do with what it has learned. -/
structure Stage.Allows (a : Stage) (job : Job) (s : Request) : Prop where
  patch : ∀ label, s.label = some label → a = .ready label
  own : ∀ j ok, s = .answer j ok → j = job
  success : ∀ j label, s = .answer j true → j.wanted = some label → a = .patched label ∨ a = .shown (some label)

/-- A call looks before it patches, and a flip always has an answer. -/
def discipline : Typestate Cluster Request Job (Job × Stage) where
  entry job := (job, .nothing)
  rule φ s w φ' := φ' = (φ.1, φ.2.after s w) ∧ φ.2.Allows φ.1 s
  fault φ s := (φ.1, match s with
    | .coreV1 => φ.2
    | .answer _ _ => .answered
    | _ => .nothing)
  rests φ := φ.1.wanted.isSome → φ.2 = .answered
  mine job φ := φ.1 = job
  mine_entry _ := rfl
  mine_rule h hr := hr.1 ▸ h
  mine_fault _ h := h

/-! ### The programs keep to it -/

section Programs
variable {job : Job} {a : Stage} {α : Type} {Q : α → Job × Stage → Prop} {X : Job × Stage → Prop}

/-- A request, and what comes after it. -/
theorem obeys_act {s : Request} {k : Cluster → Client α} {h : Client α} (hs : a.Allows job s)
    (hk : ∀ w, Obeys rotation discipline (k w) (job, a.after s w) Q X) (hh : Obeys rotation discipline h (discipline.fault (job, a) s) Q X) :
    Obeys rotation discipline (.act s k h) (job, a) Q X :=
  ⟨fun w _ _ => ⟨_, ⟨rfl, hs⟩, hk w⟩, hh⟩

/-- A request that only reads. -/
theorem allows_read {s : Request} (hl : s.label = none) (hs : ∀ j ok, s ≠ .answer j ok) : a.Allows job s where
  patch label h := by rw [hl] at h; cases h
  own j ok h := absurd h (hs j ok)
  success j label h := absurd h (hs j true)

theorem getActiveLabel_obeys : Obeys rotation discipline getActiveLabel (job, a)
    (fun active φ => φ.1 = job ∧ (active.isSome → φ.2 = .shown active)) fun _ => False := by
  refine obeys_act (allows_read rfl nofun) (fun _ => ?_) ⟨rfl, nofun⟩
  exact obeys_act (allows_read rfl nofun) (fun w => ⟨rfl, fun _ => rfl⟩) ⟨rfl, nofun⟩

theorem isPodReady_obeys (label : String) : Obeys rotation discipline (isPodReady label) (job, a)
    (fun ok φ => φ.1 = job ∧ (ok = true → φ.2 = .ready label)) fun _ => False := by
  refine obeys_act (allows_read rfl nofun) (fun _ => ?_) ⟨rfl, nofun⟩
  refine obeys_act (allows_read rfl nofun) (fun w => ⟨rfl, fun hok => ?_⟩) ⟨rfl, nofun⟩
  exact if_pos hok

theorem patchSelector_obeys (label : String) : Obeys rotation discipline (patchSelector label) (job, .ready label)
    (fun ok φ => φ.1 = job ∧ (ok = true → φ.2 = .patched label)) fun _ => False := by
  refine obeys_act (allows_read rfl nofun) (fun _ => ?_) ⟨rfl, nofun⟩
  refine obeys_act ⟨?_, nofun, nofun⟩ (fun w => ⟨rfl, fun _ => rfl⟩) ⟨rfl, nofun⟩
  rintro _ ⟨⟩
  rfl

/-- A flip with a check of its own label never raises, and says yes only for a reason. -/
theorem flip_obeys {label : String} {ready : Client Bool} (h : ∀ a, Obeys rotation discipline ready (job, a)
    (fun ok φ => φ.1 = job ∧ (ok = true → φ.2 = .ready label)) fun _ => False) :
    Obeys rotation discipline (flip label ready) (job, a)
      (fun ok φ => φ.1 = job ∧ (ok = true → φ.2 = .patched label ∨ φ.2 = .shown (some label))) fun _ => False := by
  refine Obeys.graft (getActiveLabel_obeys.mono ?_ nofun)
  rintro active ⟨_, b⟩ ⟨rfl, hshown⟩
  by_cases hactive : active = some label
  · rw [if_pos hactive]
    exact ⟨rfl, fun _ => .inr (hactive ▸ hshown (by rw [hactive]; rfl))⟩
  rw [if_neg hactive]
  refine Obeys.graft ((h b).mono ?_ nofun)
  rintro ok ⟨_, c⟩ ⟨rfl, hready⟩
  by_cases hok : ok = true
  · obtain rfl : c = .ready label := hready hok
    rw [if_pos hok]
    exact (patchSelector_obeys label).mono (fun ok φ hφ => ⟨hφ.1, fun hyes => .inl (hφ.2 hyes)⟩) nofun
  · rw [if_neg hok]
    exact ⟨rfl, nofun⟩

/-- A call of the injector. -/
theorem obeys_call {c : Injector.Call} {k : Injector.Reply → Injector.Routine α} (hc : a.Allows job (.kubectl c))
    (hk : ∀ w : Cluster, Obeys rotation discipline ((k (w.reply c)).embed .kubectl Cluster.reply) (job, a.after (.kubectl c) w) Q X)
    (hx : X (job, .nothing)) : Obeys rotation discipline ((stmt c >>= k).embed .kubectl Cluster.reply) (job, a) Q X :=
  obeys_act hc hk hx

theorem selfHeal_obeys : Obeys rotation discipline selfHeal (.selfHeal, a) (fun _ φ => φ.1 = .selfHeal) fun φ => φ.1 = .selfHeal := by
  have hready : ∀ b, Obeys rotation discipline (Injector.cartsPodReady.embed .kubectl Cluster.reply) (.selfHeal, b)
      (fun ok φ => φ.1 = .selfHeal ∧ (ok = true → φ.2 = .ready "carts")) fun φ => φ.1 = .selfHeal := by
    intro b
    refine obeys_call (allows_read rfl nofun) (fun w => ⟨rfl, fun hok => ?_⟩) rfl
    exact if_pos ⟨rfl, of_decide_eq_true hok⟩
  refine obeys_call (allows_read rfl nofun) (fun selector => ?_) rfl
  simp only [embed_bind, embed_ite]
  refine Obeys.graft (Obeys.mono (Q := fun _ φ => φ.1 = .selfHeal) (X := fun φ => φ.1 = .selfHeal) ?_ ?_ fun φ (h : φ.1 = .selfHeal) => h)
  · split
    · refine Obeys.graft ((hready _).mono ?_ fun _ h => h)
      rintro ready ⟨_, b⟩ ⟨rfl, hb⟩
      by_cases hyes : ready = true
      · obtain rfl : b = .ready "carts" := hb hyes
        rw [if_pos hyes]
        refine obeys_act ⟨?_, nofun, nofun⟩ (fun w => rfl) rfl
        rintro _ ⟨⟩
        rfl
      · rw [if_neg hyes]
        exact rfl
    · exact rfl
  · rintro healed ⟨_, b⟩ rfl
    split
    · exact (hready b).mono (fun _ _ h => h.1) fun _ h => h
    · exact rfl

end Programs

/-! ### A run -/

/-- What a call whose result is `Q`-right does when it returns it. -/
theorem returning_obeys {job : Job} {p : Client Bool} {X : Job × Stage → Prop}
    (hp : Obeys rotation discipline p (job, .nothing) (fun ok φ => φ.1 = job ∧ (ok = true → ∀ label, job.wanted = some label →
      φ.2 = .patched label ∨ φ.2 = .shown (some label))) X) (hx : ∀ φ, X φ → discipline.rests φ) :
    Obeys rotation discipline (returning job p) (job, .nothing) (fun _ => discipline.rests) discipline.rests := by
  refine Obeys.graft (hp.mono ?_ hx)
  rintro ok ⟨_, a⟩ ⟨rfl, hok⟩
  refine obeys_act ⟨nofun, ?_, ?_⟩ (fun _ _ => rfl) fun _ => rfl
  · rintro _ _ ⟨⟩
    rfl
  · rintro _ label ⟨⟩ hw
    exact hok rfl label hw

theorem sound : Sound rotation discipline := by
  intro job
  cases job with
  | flipToWarm =>
    refine returning_obeys ((flip_obeys fun a => isPodReady_obeys CARTS_WARM_LABEL).mono (fun ok φ h => ⟨h.1, ?_⟩) fun _ h => h) fun _ h => h.elim
    rintro hok label ⟨⟩
    exact h.2 hok
  | flipToCarts =>
    refine returning_obeys ((flip_obeys fun a => isPodReady_obeys CARTS_LABEL).mono (fun ok φ h => ⟨h.1, ?_⟩) fun _ h => h) fun _ h => h.elim
    rintro hok label ⟨⟩
    exact h.2 hok
  | selfHeal =>
    refine returning_obeys (selfHeal_obeys.mono (fun ok φ h => ⟨h, nofun⟩) fun _ h => h) ?_
    rintro ⟨_, a⟩ rfl
    exact nofun

/-! ### What the log tells -/

theorem readyOf_text {pods : List Pod} (h : readyText pods = "true") : readyOf pods = true := by
  cases pods with
  | nil => exact absurd h (by decide)
  | cons pod pods =>
    simp only [readyText] at h
    rcases hf : (pod.containerStatuses.getD []).filter (·.1 = "carts") with _ | ⟨⟨name, ready⟩, rest⟩
    · rw [hf] at h
      exact absurd h (by decide)
    · have hmem : (name, ready) ∈ (pod.containerStatuses.getD []).filter (·.1 = "carts") := hf ▸ .head _
      obtain ⟨hin, hname⟩ := List.mem_filter.1 hmem
      cases ready with
      | true => exact List.any_eq_true.2 ⟨_, hin, by simpa using hname⟩
      | false =>
        -- the text would begin with that container's
        rw [hf] at h
        have hfirst : (toString false).toList = ['f', 'a', 'l', 's', 'e'] := by decide
        have hchars := congrArg String.toList h
        cases rest <;> simp [hfirst] at hchars

/-- What the log says of a call's stage. -/
def Told (i : Nat) (φ : Job × Stage) (l : Log) : Prop :=
  match φ.2 with
  | .nothing => True
  | .shown label => ∃ ev ∈ l, ev.thread = i ∧ ev.raised = false ∧ ev.stmt = .readService ∧ ev.seen.activeLabel = label
  | .ready label => ∃ ev, lastRequest i l = some ev ∧ Confirms label ev
  | .patched label => ∃ ev ∈ l, ev.thread = i ∧ ev.raised = false ∧ ev.stmt = .patchService label
  | .answered => ∃ ev ∈ l, ev.thread = i ∧ ∃ ok, ev.stmt = .answer φ.1 ok

section Told
variable {i : Nat} {φ : Job × Stage} {l : Log} {ev : Event Cluster Request}

/-- What another call does, and the reading of the token, leave what is told as it is. -/
theorem Told.skip (h : Told i φ l) (hev : ev.thread ≠ i ∨ ev.stmt = .coreV1) : Told i φ (ev :: l) := by
  have hlast : lastRequest i (ev :: l) = lastRequest i l := by
    refine List.find?_cons_of_neg ?_
    rcases hev with hev | hev
    · simp [hev]
    · simp [hev]
  obtain ⟨job, a⟩ := φ
  cases a with
  | nothing => trivial
  | shown label | patched label | answered =>
    obtain ⟨e, he, hrest⟩ := h
    exact ⟨e, .tail _ he, hrest⟩
  | ready label =>
    unfold Told
    rw [hlast]
    exact h

theorem Told.after {s : Request} {w : Cluster} (h : Told i φ l) (hs : φ.2.Allows φ.1 s) :
    Told i (φ.1, φ.2.after s w) (⟨i, s, w, false⟩ :: l) := by
  have hlast : s ≠ .coreV1 → lastRequest i (⟨i, s, w, false⟩ :: l) = some ⟨i, s, w, false⟩ :=
    fun hs => List.find?_cons_of_pos (by simp [hs])
  cases s with
  | coreV1 => exact h.skip (.inr rfl)
  | readService => exact ⟨_, .head _, rfl, rfl, rfl, rfl⟩
  | listPods label =>
    unfold Stage.after
    dsimp only
    split
    · rename_i hready
      exact ⟨_, hlast nofun, rfl, hready, rfl⟩
    · trivial
  | patchService label => exact ⟨_, .head _, rfl, rfl, rfl⟩
  | kubectl c =>
    unfold Stage.after
    dsimp only
    split
    · rename_i hyes
      obtain ⟨hop, htext⟩ := hyes
      simp only [Cluster.reply, hop, Option.some.injEq] at htext
      split at htext
      · rename_i hk
        exact ⟨_, hlast nofun, rfl, readyOf_text htext, hop, rfl, hk⟩
      · exact absurd htext (by decide)
    · trivial
  | answer job ok =>
    obtain rfl := hs.own job ok rfl
    exact ⟨_, .head _, rfl, ok, rfl⟩

theorem Told.fault {s : Request} {w : Cluster} (h : Told i φ l) (hs : φ.2.Allows φ.1 s) :
    Told i (discipline.fault φ s) (⟨i, s, w, true⟩ :: l) := by
  cases s with
  | coreV1 => exact h.skip (.inr rfl)
  | answer job ok =>
    obtain rfl := hs.own job ok rfl
    exact ⟨_, .head _, rfl, ok, rfl⟩
  | readService | listPods | patchService | kubectl => trivial

/-- What is told of a call is enough for what it may do. -/
theorem Told.due {s : Request} (h : Told i φ l) (hs : φ.2.Allows φ.1 s) : Due i l s := by
  obtain ⟨job, a⟩ := φ
  constructor
  · intro label hl
    obtain rfl : a = .ready label := hs.patch label hl
    exact h
  · intro j label hans hw
    rcases hs.success j label hans hw with rfl | rfl
    · obtain ⟨e, he, hi, hr, hp⟩ := h
      exact ⟨e, he, hi, hr, .inl hp⟩
    · obtain ⟨e, he, hi, hr, hread⟩ := h
      exact ⟨e, he, hi, hr, .inr hread⟩

end Told

/-- The log is safe, and tells of every call what it has learned. -/
def Keeps (_ : Cluster) (ph : Nat → Option (Job × Stage)) (l : Log) : Prop := Safe l ∧ ∀ i φ, ph i = some φ → Told i φ l

/-- The next request of a call is one that its stage allows. -/
theorem allows_next {st : State Cluster Request Job} {ph : Nat → Option (Job × Stage)} (h : Agrees rotation discipline st ph)
    {i : Nat} {job : Job} {s : Request} {φ : Job × Stage} (hn : st.next i = some (job, s)) (hi : ph i = some φ) : φ.2.Allows φ.1 s := by
  unfold State.next at hn
  split at hn
  · rename_i j s' k g hp
    cases hn
    obtain ⟨ψ, hψ, -, ho⟩ := h.living i _ _ hp
    obtain rfl := Option.some.inj (hi.symm.trans hψ)
    obtain ⟨_, hr, -⟩ := ho.1 st.world _ rfl
    exact hr.2
  · cases hn

theorem keeps_step (st : State Cluster Request Job) (ph : Nat → Option (Job × Stage)) (m : Move Job Cluster) (w : Cluster)
    (ph' : Nat → Option (Job × Stage)) (l : Log) (ha : Agrees rotation discipline st ph) (h : Keeps st.world ph st.log)
    (he : Effect rotation discipline st ph m w ph' l) : Keeps w ph' l := by
  obtain ⟨hsafe, htold⟩ := h
  cases he with
  | stay | env => exact ⟨hsafe, htold⟩
  | kill => exact ⟨hsafe, nofun⟩
  | spawn _ _ _ _ _ hs => cases hs
  | post _ _ _ =>
    refine ⟨hsafe, fun k ψ hk => ?_⟩
    rcases of_update hk with ⟨-, rfl⟩ | ⟨-, hk⟩
    · trivial
    · exact htold k ψ hk
  | exec hn hi _ hr _ _ =>
    have hallows := allows_next ha hn hi
    refine ⟨⟨hsafe, (htold _ _ hi).due hallows⟩, fun k ψ hk => ?_⟩
    rcases of_update hk with ⟨rfl, rfl⟩ | ⟨hne, hk⟩
    · obtain ⟨rfl, -⟩ := hr
      exact (htold _ _ hi).after hallows
    · exact (htold k ψ hk).skip (.inl (Ne.symm hne))
  | fail hn hi _ =>
    have hallows := allows_next ha hn hi
    refine ⟨⟨hsafe, (htold _ _ hi).due hallows⟩, fun k ψ hk => ?_⟩
    rcases of_update hk with ⟨rfl, rfl⟩ | ⟨hne, hk⟩
    · exact (htold _ _ hi).fault hallows
    · exact (htold k ψ hk).skip (.inl (Ne.symm hne))

/-- However the flips and the self-heal interleave and whatever the API answers: the selector is patched only after the call has
just found a pod with the label ready, a flip says yes only if it has patched the selector or seen it as it should be, and a
flip that has ended has answered. -/
theorem rotation_safe (w : Cluster) (ms : List (Move Job Cluster)) : Safe (rotation.run ⟨w, [], []⟩ ms).log ∧
    ∀ i call, (rotation.run ⟨w, [], []⟩ ms).pool[i]? = some call → call.job.wanted.isSome → call.ended →
      ∃ ev ∈ (rotation.run ⟨w, [], []⟩ ms).log, ev.thread = i ∧ ∃ ok, ev.stmt = .answer call.job ok := by
  have hagrees : Agrees rotation discipline ⟨w, [], []⟩ fun _ => none := by constructor <;> simp
  obtain ⟨ph, hag, hsafe, htold⟩ := Machine.invariant sound (fun _ _ => True) Keeps
    (fun st ph m w ph' l ha h _ he => keeps_step st ph m w ph' l ha h he) hagrees ⟨trivial, nofun⟩ ms (rotation.admits_true ms)
  refine ⟨hsafe, fun i call hi hflip hended => ?_⟩
  obtain ⟨φ, hφ, hrests⟩ := hag.ended hi hended
  obtain ⟨job, p, hp, rfl⟩ := hag.job hφ
  obtain rfl := Option.some.inj (hi.symm.trans hp)
  have hstage : φ.2 = .answered := hrests hflip
  have := htold i φ hφ
  rw [Told, hstage] at this
  exact this

/-- A cluster whose pods are all ready. -/
def steady : Cluster where
  selector := some [("name", CARTS_LABEL)]
  pods _ := [⟨some [("carts", true)]⟩]
  kubectl := true

-- a flip to the standby, and then the self-heal: each looks, and then patches
example : (((rotation.run ⟨steady, [], []⟩ ([.post .flipToWarm, .post .selfHeal] ++ List.replicate 7 (.step 0) ++
    List.replicate 5 (.step 1))).log.filterMap fun ev => ev.stmt.label)) = [CARTS_LABEL, CARTS_WARM_LABEL] := by decide

end Wardence.Rotation
