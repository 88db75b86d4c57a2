import Wardence.Actions.DryRun
/-!
# Down to nothing and up again

`restore_from_disk_full` scales a deployment to 0 and back, and waits for the pods in
between. A call that fails while it is down, a listing of the pods or the dry-run of the
second scale, leaves it at 0.
-/
namespace Wardence.Actions

open Threads Code Py

/-! ## What is seen of a run -/

/-- No real mutating call. -/
def Quiet (tr : Trace) : Prop := ∀ d ∈ tr, wanted d = none

instance (tr : Trace) : Decidable (Quiet tr) := List.decidableBAll (fun d => wanted d = none) tr

/-- A call that raised, or one that was refused and is not a real mutating call. -/
def fails : Did Reply Call → Bool
  | .raised _ => true
  | .ran (.patch _ true) r | .ran (.listPods _ _) r => r.error.isSome
  | _ => false

/-- A listing with so many live pods. -/
def sees (count : Val) : Did Reply Call → Bool
  | .ran (.listPods _ _) r => r.error.isNone && decide (count.asNum = some ((running r.pods).length : ℚ))
  | _ => false

/-- A call to the API server, or the making of a client for one. -/
def Call.reaches : Call → Prop
  | .clock | .sleep _ => False
  | _ => True

/-- The clock is read and the time waited without an exception. -/
def ApiOutcomes (tr : Trace) : Prop := ∀ c, .raised c ∈ tr → c.reaches

def scaleTo (name ns replicas : Val) : Write := ⟨.scale, name, ns, .replicas replicas⟩

section Statements
variable (name ns replicas : Val) (tr : Trace)

/-- Once the first real call has scaled to 0, a real scale back up is attempted. -/
def Rescued : Prop := ∀ a d b, tr = a ++ d :: b → Quiet a → accepted d = some (scaleTo name ns (.int 0)) →
  ∃ u ∈ b, wanted u = some (scaleTo name ns replicas)

/-- No call fails after the first real call has scaled to 0 and before the next real call. -/
def Unbroken : Prop := ∀ a d b, tr = a ++ d :: b → Quiet a → accepted d = some (scaleTo name ns (.int 0)) →
  ∀ x e y, b = x ++ e :: y → Quiet (x ++ [e]) → fails e = false

/-- Scaled to 0 for real, then seen without live pods, then scaled up for real, then seen with so many. -/
def Recovered : Prop := ∃ a d b u c, tr = a ++ d :: (b ++ u :: c) ∧ accepted d = some (scaleTo name ns (.int 0)) ∧
  b.any (sees (.int 0)) = true ∧ accepted u = some (scaleTo name ns replicas) ∧ c.any (sees replicas) = true

end Statements

/-- It returns, with `applied=True`. -/
def Confirmed (r : Option Result) : Prop := ∃ res, r = some res ∧ res.applied = true

theorem wanted_of_accepted {d : Did Reply Call} {w : Write} (h : accepted d = some w) : wanted d = some w := by
  unfold accepted at h
  split at h
  next =>
    split at h
    · exact h
    · cases h
  next => cases h

theorem Quiet.append {a b : Trace} (ha : Quiet a) (hb : Quiet b) : Quiet (a ++ b) := List.forall_mem_append.2 ⟨ha, hb⟩

theorem Quiet.not {a : Trace} (h : Quiet a) : ∀ d ∈ a, ¬ wanted d ≠ none := fun d hd hn => hn (h d hd)

/-- What comes before the next real call is in the part before it. -/
theorem mem_of_quiet {b c x y : Trace} {u e : Did Reply Call} (h : b ++ u :: c = x ++ e :: y) (hu : wanted u ≠ none)
    (hx : Quiet (x ++ [e])) : e ∈ b := by
  rcases List.append_eq_append_iff.1 h with ⟨z, rfl, hz⟩ | ⟨z, rfl, hz⟩
  · have : u ∈ b ++ z ++ [e] := by
      cases z with
      | nil =>
        cases hz
        simp
      | cons _ z =>
        cases hz
        simp
    exact absurd (hx u this) hu
  · cases z with
    | nil =>
      cases hz
      exact absurd (hx u (by simp)) hu
    | cons _ z =>
      cases hz
      simp

/-! ## Part by part -/

/-- A part of a run without a real mutating call: whether it sees so many pods, and whether a call fails. -/
structure Part (count : Val) (l : Trace) (seen broke : Bool) : Prop where
  quiet : Quiet l
  sees : l.any (sees count) = seen
  fails : l.any fails = broke

section Parts
variable {name ns n : Val} {l l' : Trace} {s s' b b' : Bool}

theorem Part.nil : Part n [] false false := ⟨fun _ h => (by cases h), rfl, rfl⟩

theorem Part.append (h : Part n l s b) (h' : Part n l' s' b') : Part n (l ++ l') (s || s') (b || b') :=
  ⟨h.quiet.append h'.quiet, by rw [List.any_append, h.sees, h'.sees], by rw [List.any_append, h.fails, h'.fails]⟩

theorem Part.one {d : Did Reply Call} (h : wanted d = none) : Part n [d] (Actions.sees n d) (Actions.fails d) :=
  ⟨by simpa [Quiet] using h, by simp, by simp⟩

theorem ApiOutcomes.left (h : ApiOutcomes (l ++ l')) : ApiOutcomes l := fun c hc => h c (List.mem_append_left _ hc)

theorem ApiOutcomes.right (h : ApiOutcomes (l ++ l')) : ApiOutcomes l' := fun c hc => h c (List.mem_append_right _ hc)

/-- A step is recorded, and then the rest. -/
theorem runs_record {α : Type} {log : List Progress} {step status : String} {detail : Option String}
    {f : List Progress → Routine α} {r : Option α} (h : (recordStep log step status detail >>= f).Runs l r) (ho : ApiOutcomes l) :
    ∃ x l₁ l₂, l = l₁ ++ l₂ ∧ (∀ n, Part n l₁ false false) ∧ (f x).Runs l₂ r ∧ ApiOutcomes l₂ := by
  have hclock : ∀ {l r}, (recordStep log step status detail).Runs l r → ApiOutcomes l →
      (∀ n, Part n l false false) ∧ ∃ x, r = some x := by
    intro l r h ho
    rcases h.bind with ⟨t, l₁, l₂, rfl, h₁, h₂⟩ | ⟨h₁, rfl⟩
    · rcases h₁.stmt with ⟨w, rfl, -⟩ | ⟨-, hr⟩
      · cases h₂
        exact ⟨fun _ => .one rfl, _, rfl⟩
      · cases hr
    · rcases h₁.stmt with ⟨w, -, hr⟩ | ⟨rfl, -⟩
      · cases hr
      · exact (ho .clock (by simp)).elim
  rcases h.bind with ⟨x, l₁, l₂, rfl, h₁, h₂⟩ | ⟨h₁, rfl⟩
  · exact ⟨x, l₁, l₂, rfl, (hclock h₁ ho.left).1, h₂, ho.right⟩
  · obtain ⟨x, hx⟩ := (hclock h₁ ho).2
    cases hx

/-- Either no real call is made, as the client or the dry-run fails, or one is made after calls that succeed. -/
abbrev Tried (n : Val) (w : Write) (l : Trace) (applied : Prop) : Prop :=
  (Part n l false true ∧ ¬ applied) ∨
    ∃ x u, l = x ++ [u] ∧ Part n x false false ∧ wanted u = some w ∧ (accepted u = some w ↔ applied)

theorem runs_apply {w : Write} {r : Option Applied} (h : (dryRunThenApply w).Runs l r) :
    Tried n w l (∃ o, r = some o ∧ o.applied = true) := by
  rcases h.bind with ⟨dry, l₁, l₂, rfl, h₁, h₂⟩ | ⟨h₁, rfl⟩
  · obtain ⟨_, rfl, ⟨⟩⟩ | ⟨-, hr⟩ := h₁.stmt
    · split at h₂
      next e he =>
        cases h₂
        refine .inl ⟨?_, by simp⟩
        have := Part.one (n := n) (d := .ran (.patch w true) dry) rfl
        simpa [sees, fails, he] using this
      next he =>
        have hpart : Part n [.ran (.patch w true) dry] false false := by
          have := Part.one (n := n) (d := .ran (.patch w true) dry) rfl
          simpa [sees, fails, he] using this
        rcases h₂.bind with ⟨real, m₁, m₂, rfl, g₁, g₂⟩ | ⟨g₁, rfl⟩
        · obtain ⟨_, rfl, ⟨⟩⟩ | ⟨-, hr⟩ := g₁.stmt
          · split at g₂
            next e he =>
              cases g₂
              exact .inr ⟨_, _, rfl, hpart, rfl, by simp [accepted, he]⟩
            next he =>
              cases g₂
              exact .inr ⟨_, _, rfl, hpart, rfl, by simp [accepted, he]⟩
          · cases hr
        · obtain ⟨_, -, hr⟩ | ⟨rfl, -⟩ := g₁.stmt
          · cases hr
          · exact .inr ⟨_, _, rfl, hpart, rfl, by simp [accepted]⟩
    · cases hr
  · obtain ⟨_, -, hr⟩ | ⟨rfl, -⟩ := h₁.stmt
    · cases hr
    · exact .inl ⟨.one rfl, by simp⟩

theorem runs_scale {replicas : Val} {r : Option Scaled} (h : (scale name replicas ns).Runs l r) :
    Tried n (scaleTo name ns replicas) l (∃ o, r = some o ∧ o.applied = true) := by
  rcases h.bind with ⟨w, l₁, l₂, rfl, h₁, h₂⟩ | ⟨h₁, rfl⟩
  · obtain ⟨_, rfl, ⟨⟩⟩ | ⟨-, hr⟩ := h₁.stmt
    · have hc : Part n [.ran .client w] false false := .one rfl
      rcases h₂.bind with ⟨o, m₁, m₂, rfl, g₁, g₂⟩ | ⟨g₁, rfl⟩
      · cases g₂
        rcases runs_apply (n := n) (w := scaleTo name ns replicas) g₁ with ⟨hp, hn⟩ | ⟨x, u, rfl, hp, hw, ha⟩
        · exact .inl ⟨by simpa using hc.append hp, by simpa using hn⟩
        · exact .inr ⟨_, u, by simp, hc.append hp, hw, by simpa using ha⟩
      · rcases runs_apply (n := n) (w := scaleTo name ns replicas) g₁ with ⟨hp, hn⟩ | ⟨x, u, rfl, hp, hw, ha⟩
        · exact .inl ⟨hc.append hp, by simp⟩
        · exact .inr ⟨_, u, by simp, hc.append hp, hw, by simpa using ha⟩
    · cases hr
  · obtain ⟨_, -, hr⟩ | ⟨rfl, -⟩ := h₁.stmt
    · cases hr
    · exact .inl ⟨.one rfl, by simp⟩

theorem Part.snoc (h : Part n l s b) {d : Did Reply Call} (hd : wanted d = none) :
    Part n (l ++ [d]) (s || Actions.sees n d) (b || Actions.fails d) :=
  h.append (.one hd)

/-- The wait ends when it has seen so many live pods, at its deadline, or with a call that fails. -/
theorem ends_waitFor {timeout : Nat} : Ends Monitor.history (waitForPodCount name ns n timeout) []
    (fun o l => Part n l o false) fun l => Part n l false true := by
  refine Ends.act (fun _ => Ends.act (fun start => ?_) ?_) (Part.nil.snoc rfl)
  · refine ⟨fun l => Part n l false false, (Part.nil.snoc rfl).snoc rfl, fun l hl => ?_⟩
    refine Ends.act (fun t => ?_) (hl.snoc rfl)
    have ht : Part n (l ++ [.ran .clock t]) false false := hl.snoc rfl
    show Ends _ (if t.now < start.now + timeout then _ else pure (some false)) _ _ _
    split
    next =>
      refine Ends.bind (Ends.bind (Ends.stmt (fun pods => ?_) (ht.snoc rfl)))
      have hp := ht.snoc (d := .ran (.listPods name ns) pods) rfl
      show Ends _ (if pods.error.isSome then raise else pure pods) _ _ _
      split
      next he =>
        have hs : Actions.sees n (.ran (.listPods name ns) pods) = false := by simp [Actions.sees, Option.isSome_iff_ne_none.1 he]
        rw [hs, show Actions.fails (.ran (.listPods name ns) pods) = true from he] at hp
        exact hp
      next he =>
        rw [Option.not_isSome_iff_eq_none] at he
        rw [show Actions.fails (.ran (.listPods name ns) pods) = false by simp [Actions.fails, he]] at hp
        show Ends _ (if n.asNum = some ((running pods.pods).length : ℚ) then _ else _) _ _ _
        split
        next hn =>
          refine ⟨fun h => (by cases h), ?_⟩
          rintro _ ⟨⟩
          rw [show Actions.sees n (.ran (.listPods name ns) pods) = true by simp [Actions.sees, he, hn]] at hp
          exact hp
        next hn =>
          rw [show Actions.sees n (.ran (.listPods name ns) pods) = false by simp [Actions.sees, hn]] at hp
          exact Ends.bind (Ends.stmt (fun _ => ⟨fun _ => hp.snoc rfl, fun _ h => by cases h⟩) (hp.snoc rfl))
    next => exact ⟨fun h => (by cases h), by rintro _ ⟨⟩; exact ht⟩
  · exact (Part.nil.snoc rfl).snoc rfl

/-- A wait that returns says whether the pods were seen; one that does not saw a call fail. -/
theorem runs_wait {timeout : Nat} {r : Option Bool} (h : (waitForPodCount name ns n timeout).Runs l r) :
    Part n l (r == some true) r.isNone := by
  obtain ⟨hr, hx⟩ := h.ends ends_waitFor
  rw [Monitor.history_after, List.nil_append] at hr hx
  cases r with
  | none => exact hx rfl
  | some o =>
    have := hr o rfl
    cases o <;> exact this

/-- Up again: no real call is made, or one is made and it is said whether it succeeded and the pods were seen. -/
abbrev Backed (n name ns replicas : Val) (l : Trace) (applied : Prop) : Prop :=
  (Part n l false true ∧ ¬ applied) ∨
    ∃ x u c, l = x ++ u :: c ∧ Part n x false false ∧ wanted u = some (scaleTo name ns replicas) ∧ Quiet c ∧
      (applied ↔ accepted u = some (scaleTo name ns replicas) ∧ c.any (sees replicas) = true)

/-- The real call, after calls that succeed, and before calls that only look. -/
theorem Backed.called {replicas : Val} {l₁ x c : Trace} {u : Did Reply Call} {applied : Prop} (hl : l = l₁ ++ x ++ u :: c)
    (hp₁ : Part n l₁ false false) (hp : Part n x false false) (hw : wanted u = some (scaleTo name ns replicas))
    (hback : Part replicas c s b) (ha : applied ↔ accepted u = some (scaleTo name ns replicas) ∧ s = true) :
    Backed n name ns replicas l applied :=
  .inr ⟨l₁ ++ x, u, c, hl, hp₁.append hp, hw, hback.quiet, by rw [hback.sees]; exact ha⟩

theorem runs_scaleBackUp {replicas : Val} {log : List Progress} {r : Option (Scaled × List Progress)}
    (h : (scaleBackUp name ns replicas log).Runs l r) (ho : ApiOutcomes l) :
    Backed n name ns replicas l (∃ o, r = some o ∧ o.1.applied = true) := by
  obtain ⟨log, l₁, l₂, rfl, hp₁, h, ho⟩ := runs_record h ho
  replace hp₁ := hp₁ n
  rcases h.bind with ⟨up, l₂, l₃, rfl, h₂, h₃⟩ | ⟨h₂, rfl⟩
  · split at h₃
    next ha =>
      rcases runs_scale (n := n) h₂ with ⟨-, hn⟩ | ⟨x, u, rfl, hp, hw, hu⟩
      · exact (hn ⟨up, rfl, ha⟩).elim
      replace hu := hu.2 ⟨up, rfl, ha⟩
      obtain ⟨log, m₁, m₂, rfl, hq₁, h₃, ho⟩ := runs_record h₃ ho.right
      obtain ⟨log, k₁, k₂, rfl, hq₂, h₃, ho⟩ := runs_record h₃ ho
      have hback := (hq₁ replicas).append (hq₂ replicas)
      rcases h₃.bind with ⟨podBack, c₁, c₂, rfl, g₃, h₄⟩ | ⟨g₃, rfl⟩
      · replace hback := hback.append (runs_wait g₃)
        cases podBack with
        | true | false =>
          obtain ⟨log, d₁, d₂, rfl, hq₃, h₄, -⟩ := runs_record h₄ ho.right
          cases h₄
          exact .called (by simp) hp₁ hp hw (hback.append (hq₃ replicas)) (by simp [ha, hu])
      · exact .called (by simp) hp₁ hp hw (hback.append (runs_wait g₃)) (by simp)
    next ha =>
      obtain ⟨log, m₁, m₂, rfl, hq₁, h₃, -⟩ := runs_record h₃ ho.right
      cases h₃
      rcases runs_scale (n := n) h₂ with ⟨hp, -⟩ | ⟨x, u, rfl, hp, hw, hu⟩
      · exact .inl ⟨by simpa using hp₁.append (hp.append (hq₁ n)), by simpa using ha⟩
      · exact .called (by simp) hp₁ hp hw (hq₁ replicas) (by simp [ha])
  · rcases runs_scale (n := n) h₂ with ⟨hp, -⟩ | ⟨x, u, rfl, hp, hw, hu⟩
    · exact .inl ⟨hp₁.append hp, by simp⟩
    · exact .called (by simp) hp₁ hp hw .nil (by simp)

end Parts

/-! ## The whole function -/

section Course
variable {name ns replicas : Val} {confirmed : Prop} {tr : Trace} {r : Option Result}

/-- No real call succeeds. -/
def Unaccepted (tr : Trace) : Prop := ∀ d ∈ tr, accepted d = none

theorem Unaccepted.append {a b : Trace} (ha : Unaccepted a) (hb : Unaccepted b) : Unaccepted (a ++ b) :=
  List.forall_mem_append.2 ⟨ha, hb⟩

theorem wanted_ne {d : Did Reply Call} {w : Write} (h : accepted d = some w) : wanted d ≠ none := by
  simp [wanted_of_accepted h]

theorem accepted_of_quiet {d : Did Reply Call} (h : wanted d = none) : accepted d = none := by
  cases ha : accepted d with
  | none => rfl
  | some w => exact absurd h (wanted_ne ha)

theorem Quiet.unaccepted {a : Trace} (h : Quiet a) : Unaccepted a := fun d hd => accepted_of_quiet (h d hd)

theorem unaccepted_of_tried {n : Val} {w : Write} {applied : Prop} (h : Tried n w tr applied) (hn : ¬ applied) : Unaccepted tr := by
  rcases h with ⟨hp, -⟩ | ⟨x, u, rfl, hx, hw, hu⟩
  · exact hp.quiet.unaccepted
  · refine hx.quiet.unaccepted.append fun d hd => ?_
    obtain rfl := List.mem_singleton.1 hd
    cases ha : accepted d with
    | none => rfl
    | some w' =>
      obtain rfl : w' = w := Option.some.inj ((wanted_of_accepted ha).symm.trans hw)
      exact absurd (hu.1 ha) hn

/-- The ways a run can go: not scaled to 0, left there by a call that failed, or a real scale back up. -/
inductive Course (name ns replicas : Val) (confirmed : Prop) : Trace → Prop
  | unscaled {tr : Trace} : Unaccepted tr → ¬ confirmed → Course name ns replicas confirmed tr
  | stranded {a b : Trace} {d : Did Reply Call} : Quiet a → accepted d = some (scaleTo name ns (.int 0)) → Quiet b →
    b.any fails = true → ¬ confirmed → Course name ns replicas confirmed (a ++ d :: b)
  | rescued {a b c : Trace} {d u : Did Reply Call} {gone : Bool} : Quiet a → accepted d = some (scaleTo name ns (.int 0)) →
    Part (.int 0) b gone false → wanted u = some (scaleTo name ns replicas) → Quiet c →
    (confirmed ↔ gone = true ∧ accepted u = some (scaleTo name ns replicas) ∧ c.any (sees replicas) = true) →
    Course name ns replicas confirmed (a ++ d :: (b ++ u :: c))

theorem Course.cast {tr' : Trace} (h : Course name ns replicas confirmed tr) (he : tr = tr') :
    Course name ns replicas confirmed tr' := he ▸ h

theorem Course.rescued_iff (h : Course name ns replicas confirmed tr) :
    (Rescued name ns replicas tr ∧ (confirmed ↔ Recovered name ns replicas tr)) ↔ Unbroken name ns tr := by
  cases h with
  | unscaled hn hc =>
    have hno : ∀ {a d b w}, tr = a ++ d :: b → accepted d = some w → False := by
      rintro a d b w rfl hd
      rw [hn d (by simp)] at hd
      cases hd
    exact ⟨fun _ a d b he _ hd => (hno he hd).elim, fun _ => ⟨fun a d b he _ hd => (hno he hd).elim,
      ⟨fun h => (hc h).elim, fun ⟨a, d, b, u, c, he, hd, _⟩ => (hno he hd).elim⟩⟩⟩
  | @stranded a b d ha hd hb hf hc =>
    constructor
    · rintro ⟨hr, -⟩
      obtain ⟨u, hu, hw⟩ := hr a d b rfl ha hd
      rw [hb u hu] at hw
      cases hw
    · intro hu
      obtain ⟨e, he, hfe⟩ := List.any_eq_true.1 hf
      obtain ⟨x, y, rfl⟩ := List.append_of_mem he
      have := hu a d _ rfl ha hd x e y rfl fun z hz => hb z (by simp at hz ⊢; tauto)
      rw [hfe] at this
      cases this
  | @rescued a b c d u gone ha hd hb hu hq hc =>
    have hun : wanted u ≠ none := by simp [hu]
    have hres : Rescued name ns replicas (a ++ d :: (b ++ u :: c)) := by
      intro a' d' b' he ha' hd'
      obtain ⟨rfl, rfl, rfl⟩ := first_unique he ha.not ha'.not (wanted_ne hd) (wanted_ne hd')
      exact ⟨u, by simp, hu⟩
    have hfine : Unbroken name ns (a ++ d :: (b ++ u :: c)) := by
      intro a' d' b' he ha' hd' x e y hb' hx
      obtain ⟨rfl, rfl, rfl⟩ := first_unique he ha.not ha'.not (wanted_ne hd) (wanted_ne hd')
      have := List.any_eq_false.1 hb.fails e (mem_of_quiet hb' hun hx)
      simpa using this
    refine ⟨fun _ => hfine, fun _ => ⟨hres, hc.trans ⟨fun ⟨hg, hau, hs⟩ => ⟨a, d, b, u, c, rfl, hd, by rw [hb.sees, hg], hau, hs⟩, ?_⟩⟩⟩
    rintro ⟨a', d', b', u', c', he, hd', hg, hau, hs⟩
    obtain ⟨rfl, rfl, rfl, rfl, rfl⟩ := first_two_unique he ha.not hb.quiet.not hq.not (wanted_ne hd) hun (wanted_ne hd') (wanted_ne hau)
    exact ⟨by rw [← hb.sees, hg], hau, hs⟩

/-- Scaled to 0, waited, scaled up again, and reported. -/
theorem course_of_backed {a b l z : Trace} {d : Did Reply Call} {gone : Bool} {applied : Prop} (ha : Quiet a)
    (hd : accepted d = some (scaleTo name ns (.int 0))) (hb : Part (.int 0) b gone false)
    (hup : Backed (.int 0) name ns replicas l applied) (hz : ∀ n, Part n z false false) (hc : confirmed ↔ gone = true ∧ applied) :
    Course name ns replicas confirmed (a ++ d :: (b ++ (l ++ z))) := by
  rcases hup with ⟨hl, hn⟩ | ⟨x, u, c, rfl, hx, hw, hq, hap⟩
  · have hrest := hb.append (hl.append (hz (.int 0)))
    exact .stranded ha hd hrest.quiet (by simpa using hrest.fails) fun h => hn (hc.1 h).2
  · have hcourse : Course name ns replicas confirmed (a ++ d :: ((b ++ x) ++ u :: (c ++ z))) := by
      have hgone : Part (.int 0) (b ++ x) (gone || false) false := hb.append hx
      refine .rescued ha hd hgone hw (hq.append (hz replicas).quiet) ?_
      rw [hc, hap, List.any_append, (hz replicas).sees, Bool.or_false, Bool.or_false]
    simpa using hcourse

theorem runs_restore (h : (restoreFromDiskFull name ns replicas).Runs tr r) (ho : ApiOutcomes tr) :
    Course name ns replicas (Confirmed r) tr := by
  replace h : Code.Runs (if name.hashable && ns.hashable then _ else raise) tr r := h
  split at h
  next =>
    obtain ⟨log, l₁, l₂, rfl, hp₁, h, ho⟩ := runs_record h ho
    rcases h.bind with ⟨down, l₂, l₃, rfl, h₂, h₃⟩ | ⟨h₂, rfl⟩
    · split at h₃
      next ha =>
        rcases runs_scale (n := .int 0) h₂ with ⟨-, hn⟩ | ⟨x, d, rfl, hx, -, hd⟩
        · exact (hn ⟨down, rfl, ha⟩).elim
        have hq := ((hp₁ (.int 0)).append hx).quiet
        have hd : accepted d = some (scaleTo name ns (.int 0)) := hd.2 ⟨down, rfl, ha⟩
        obtain ⟨log, m₁, m₂, rfl, hq₁, h₃, ho⟩ := runs_record h₃ ho.right
        obtain ⟨log, k₁, k₂, rfl, hq₂, h₃, ho⟩ := runs_record h₃ ho
        have hb := (hq₁ (.int 0)).append (hq₂ (.int 0))
        rcases h₃.bind with ⟨podGone, c₁, c₂, rfl, g₃, h₄⟩ | ⟨g₃, rfl⟩
        · replace hb := hb.append (runs_wait g₃)
          obtain ⟨log, e₁, e₂, rfl, hq₃, h₄, ho⟩ := runs_record h₄ ho.right
          replace hb := hb.append (hq₃ (.int 0))
          rcases h₄.bind with ⟨⟨up, log⟩, f₁, f₂, rfl, g₄, h₅⟩ | ⟨g₄, rfl⟩
          · have hup := runs_scaleBackUp (n := .int 0) g₄ ho.left
            replace h₅ : Code.Runs (if podGone then _ else _) f₂ r := h₅
            split at h₅
            next hg =>
              obtain ⟨_, z₁, z₂, rfl, hz, h₅, -⟩ := runs_record h₅ ho.right
              cases h₅
              exact (course_of_backed hq hd hb hup hz (by simp [Confirmed, hg])).cast (by simp)
            next hg =>
              obtain ⟨_, z₁, z₂, rfl, hz, h₅, -⟩ := runs_record h₅ ho.right
              cases h₅
              exact (course_of_backed hq hd hb hup hz (by simp [Confirmed, hg])).cast (by simp)
          · exact (course_of_backed (z := []) hq hd hb (runs_scaleBackUp g₄ ho) (fun _ => .nil) (by simp [Confirmed])).cast (by simp)
        · replace hb := hb.append (runs_wait g₃)
          exact (Course.stranded hq hd hb.quiet hb.fails (by simp [Confirmed])).cast (by simp)
      next ha =>
        obtain ⟨log, m₁, m₂, rfl, hq₁, h₃, -⟩ := runs_record h₃ ho.right
        cases h₃
        refine .unscaled ?_ (by simp [Confirmed])
        simpa using ((hp₁ (.int 0)).quiet.unaccepted).append ((unaccepted_of_tried (runs_scale (n := .int 0) h₂) (by simpa using ha)).append
          (hq₁ (.int 0)).quiet.unaccepted)
    · exact .unscaled ((hp₁ (.int 0)).quiet.unaccepted.append (unaccepted_of_tried (runs_scale (n := .int 0) h₂) (by simp)))
        (by simp [Confirmed])
  next =>
    cases h
    exact .unscaled (fun _ h => by cases h) fun ⟨_, hr, _⟩ => by cases hr

end Course

/-- Whatever the API server answers: the function does what it promises, a real scale back up once it has
scaled to 0, and `applied=True` just when the deployment is seen to have gone and come back, if and only if
no call fails in between. -/
theorem restore_rescues_iff {name ns replicas : Val} {tr : Trace} {r : Option Result}
    (h : (restoreFromDiskFull name ns replicas).Runs tr r) (ho : ApiOutcomes tr) :
    (Rescued name ns replicas tr ∧ (Confirmed r ↔ Recovered name ns replicas tr)) ↔ Unbroken name ns tr :=
  (runs_restore h ho).rescued_iff

def queueMaster : Val := .str "queue-master"

def noted : Trace := [.ran .clock {}]

def dryRun (replicas : Val) : Trace := [.ran .client {}, .ran (.patch (scaleTo queueMaster sockShop replicas) true) {}]

def real (replicas : Val) : Did Reply Call := .ran (.patch (scaleTo queueMaster sockShop replicas) false) {}

def listed (pods : Reply) : Trace :=
  [.ran .client {}, .ran .clock {}, .ran .clock {}, .ran (.listPods queueMaster sockShop) pods]

def wentDown : Trace := noted ++ dryRun (.int 0)

def between : Trace := noted ++ noted ++ listed {} ++ noted ++ noted ++ dryRun (.int 1)

def cameUp : Trace := noted ++ noted ++ listed livePod ++ noted ++ noted

/-- The pod is seen to have gone at the first look, and the new one to be there at the first look. -/
def recovered : Trace := wentDown ++ real (.int 0) :: (between ++ real (.int 1) :: cameUp)

theorem restore_rescues_recovered : ∃ r, (restoreFromDiskFull queueMaster sockShop (.int 1)).Runs recovered r ∧
    Rescued queueMaster sockShop (.int 1) recovered ∧ (Confirmed r ↔ Recovered queueMaster sockShop (.int 1) recovered) := by
  obtain ⟨⟨_, r⟩, hp, rfl⟩ := Option.map_eq_some_iff.1 (show ((restoreFromDiskFull queueMaster sockShop (.int 1)).play 60
    (answers recovered)).map Prod.fst = some recovered by decide +kernel)
  have hr := Code.runs_play 60 _ hp
  refine ⟨r, hr, (restore_rescues_iff hr fun c hc => absurd hc ?_).2 ?_⟩
  · simp [recovered, wentDown, between, cameUp, noted, dryRun, listed, real]
  · intro a d b he hq hd x e y hb hx
    obtain ⟨rfl, rfl, rfl⟩ := first_unique (a := wentDown) he (Quiet.not (by decide)) hq.not (by decide) (wanted_ne hd)
    exact (by decide : ∀ e ∈ between, fails e = false) e (mem_of_quiet hb (by decide) hx)

/-- Scaled to 0, and the first listing of the pods is refused. -/
def stranded : Trace := wentDown ++ real (.int 0) :: (noted ++ noted ++ listed { error := some "500: Internal Server Error" })

theorem stranded_at_zero : ¬ ∀ (name ns replicas : Val) (tr : Trace) (r : Option Result),
    (restoreFromDiskFull name ns replicas).Runs tr r → ApiOutcomes tr →
    Rescued name ns replicas tr ∧ (Confirmed r ↔ Recovered name ns replicas tr) := by
  intro h
  have hr : (restoreFromDiskFull queueMaster sockShop (.int 1)).Runs stranded none :=
    Code.runs_play 40 (answers stranded) (by decide +kernel)
  have ho : ApiOutcomes stranded := fun c hc => absurd hc (by simp [stranded, wentDown, noted, dryRun, listed, real])
  obtain ⟨u, hu, hw⟩ := (h _ _ _ _ _ hr ho).1 wentDown _ _ rfl (by decide) rfl
  have hq : Quiet (noted ++ noted ++ listed { error := some "500: Internal Server Error" }) := by decide
  exact absurd (hq u hu) (by simp [hw])

end Wardence.Actions
