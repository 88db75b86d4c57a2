import Wardence.Live.Absorbing
import Wardence.Live.Knowledge
import Wardence.Live.Pause
import Wardence.Live.Scorers
/-!
# Resolved and scored

An episode is `resolved` exactly when it has a row of `scores`, as long as the API is told the
truth about its scorers: it learns of the row only by the return code of the process it waits for,
and looks for the row itself only when it has been restarted.
-/
namespace Wardence.Live.Scored

open Threads EpisodeState

/-! ## The rows -/

/-- What the scores are for an episode in a state. -/
def Right (scores : List Nat) (e : Nat) : EpisodeState → Prop
  | .resolved => e ∈ scores
  | .awaitingFix | .resolving => True
  | .injecting | .holding | .failed => e ∉ scores

structure Settled (w : World) : Prop where
  rows : ∀ e ∈ w.scores, e < w.episodes.length
  right : ∀ e s, w.stateOf e = some s → Right w.scores e s
  running : ∀ e p, w.Scoring e p → w.stateOf e = some resolving

theorem Settled.over {w : World} {e : Nat} (h : Settled w) (he : w.stateOf e ≠ some resolving) : w.Over e :=
  fun p hp => he (h.running e p hp)

theorem Settled.injecting {w : World} {e : Nat} (h : Settled w) (he : w.Injecting e) : e ∉ w.scores ∧ w.Over e := by
  obtain ⟨s, hs, rfl | rfl⟩ := he <;> exact ⟨h.right e _ hs, h.over (by simp [hs])⟩

theorem Settled.unscored {w : World} {e : Nat} (h : Settled w) (he : w.stateOf e = some failed) : e ∉ w.scores ∧ w.Over e :=
  ⟨h.right e _ he, h.over (by simp [he])⟩

/-! ## The threads -/

/-- What a thread in these phases knows. -/
structure Sure (w : World) (φ : Live.Phase) (ψ : Phase) : Prop where
  owner : ∀ e g, φ = .owner e g → ψ = .idle ∧ w.Over e
  scoring : ∀ e g, φ = .scoring e g → (∃ pid, (ψ = .waits e pid ∨ ψ = .kills e pid) ∧ w.Alone e pid) ∨
    ∃ ok, ψ = .knows e ok ∧ w.Over e ∧ (ok = true ↔ e ∈ w.scores)
  rescuing : ∀ e, φ = .rescuing e → (∃ pid, ψ = .kills e pid ∧ w.Alone e pid) ∨
    ((∀ e' pid, ψ ≠ .waits e' pid ∧ ψ ≠ .kills e' pid) ∧ w.Over e ∧ e ∉ w.scores)
  starting : φ = .starting →
    (∃ rows l, ψ = .startup rows l ∧ ∀ e, (rows e).any (·.Unsettled) = true → w.stateOf e ≠ some resolving) ∧
      ∀ e, w.Over e
  reconciling : ∀ rows b, φ = .reconciling rows b → ∃ st l, ψ = .startup st l ∧ ∀ y ∈ rows, y.state = resolving →
    w.Over y.episode ∧ (y.episode ∈ l ↔ y.episode ∈ w.scores) ∧ (st y.episode).any (·.Unsettled) = false

section Rules
variable {w w' : World} {φ φ' : Live.Phase} {ψ ψ' : Phase} {s : Stmt} {e : Nat}

/-- What others do leaves a thread what it knows. -/
theorem Sure.others (h : Sure w φ ψ) (hs : ∀ e, φ.Owns e → Stays w w' e)
    (hst : φ = .starting → ∀ e, (∀ p, w'.Scoring e p → w.Scoring e p) ∧ w'.stateOf e = w.stateOf e) : Sure w' φ ψ where
  owner e g hφ := by
    obtain ⟨hψ, ho⟩ := h.owner e g hφ
    exact ⟨hψ, (hs e (hφ ▸ rfl)).over ho⟩
  scoring e g hφ := by
    have hstay := hs e (hφ ▸ rfl)
    rcases h.scoring e g hφ with ⟨pid, hψ, ha⟩ | ⟨ok, hψ, ho, hok⟩
    · exact .inl ⟨pid, hψ, hstay.alone ha⟩
    · exact .inr ⟨ok, hψ, hstay.over ho, hok.trans (hstay.scores ho).symm⟩
  rescuing e hφ := by
    have hstay := hs e (hφ ▸ rfl)
    rcases h.rescuing e hφ with ⟨pid, hψ, ha⟩ | ⟨hψ, ho, hne⟩
    · exact .inl ⟨pid, hψ, hstay.alone ha⟩
    · exact .inr ⟨hψ, hstay.over ho, fun hm => hne ((hstay.scores ho).1 hm)⟩
  starting hφ := by
    obtain ⟨⟨rows, l, hψ, hu⟩, ho⟩ := h.starting hφ
    refine ⟨⟨rows, l, hψ, fun e he => ?_⟩, fun e p hp => ho e p ((hst hφ e).1 p hp)⟩
    rw [(hst hφ e).2]
    exact hu e he
  reconciling rows b hφ := by
    obtain ⟨st, l, hψ, hrows⟩ := h.reconciling rows b hφ
    refine ⟨st, l, hψ, fun y hy hys => ?_⟩
    obtain ⟨ho, hl, hu⟩ := hrows y hy hys
    have hstay := hs y.episode (hφ ▸ ⟨y, hy, rfl, hys⟩)
    exact ⟨hstay.over ho, hl.trans (hstay.scores ho).symm, hu⟩

/-- Who owns no episode and is not the startup handler has nothing to know. -/
theorem Sure.of_none (h : ∀ e, ¬ φ.Owns e) (hs : ¬ φ.Startup) : Sure w φ ψ where
  owner e _ hφ := (h e (hφ ▸ rfl)).elim
  scoring e _ hφ := (h e (hφ ▸ rfl)).elim
  rescuing e hφ := (h e (hφ ▸ rfl)).elim
  starting hφ := (hs (hφ ▸ trivial)).elim
  reconciling _ _ hφ := (hs (hφ ▸ trivial)).elim

/-! ### A terminal write -/

theorem setState_right {e' : Nat} {t : EpisodeState} {x : Extra} (ha : app (.setState e' t x) w = some w')
    (hne : w.stateOf e' ≠ none) (ht : Right w.scores e' t) (ho : w.Over e') (e : Nat) :
    w'.stateOf e = w.stateOf e ∨ ∃ t, w'.stateOf e = some t ∧ Right w.scores e t ∧ w.Over e := by
  rw [stateOf_setState ha hne, Function.update_apply]
  split
  · rename_i he
    subst he
    exact .inr ⟨t, rfl, ht, ho⟩
  · exact .inl rfl

/-- Whoever may write `failed` writes it for an episode that is not scored, and will not be. -/
theorem fail_right {g : Bool} {x : Extra} (hs : Settled w) (h : Sure w φ ψ) (hf : φ.Fits w)
    (hlate : ∀ e, φ = .late e → w.stateOf e = some failed) (hspent : ∀ e g, φ = .spent e failed g → w.stateOf e = some failed)
    (hm : φ.mayFail e = some g) (hr : Rule ψ (.setState e failed x) w ψ') : e ∉ w.scores ∧ w.Over e := by
  cases φ <;> simp only [Live.Phase.mayFail, Option.ite_none_right_eq_some, reduceCtorEq] at hm
  case fresh | reaped | doomed => exact hs.injecting (hf.arms e hm.1)
  case late e' => exact hs.unscored (hm.1 ▸ hlate e' rfl)
  case spent e' t g' =>
    cases t <;> cases g' <;> simp only [Option.ite_none_right_eq_some, reduceCtorEq] at hm
    exact hs.unscored (hm.1 ▸ hspent e' _ rfl)
  case scoring e' g' =>
    obtain ⟨rfl, -⟩ := hm
    rcases h.scoring e' g' rfl with ⟨pid, rfl | rfl, -⟩ | ⟨ok, rfl, ho, hok⟩
    · cases hr
    · cases hr
    · cases hr with
      | know hc => exact hc.elim
      | failed => exact ⟨fun hm => absurd (hok.2 hm) (by decide), ho⟩
  case rescuing e' =>
    obtain ⟨rfl, -⟩ := hm
    rcases h.rescuing e' rfl with ⟨pid, rfl, -⟩ | ⟨-, ho, hne⟩
    · cases hr
    · exact ⟨hne, ho⟩

/-- A statement that changes the state of an episode leaves one that its row is right for, and no scorer of it
runs. -/
theorem rule_right (hs : Settled w) (h : Sure w φ ψ) (hf : φ.Fits w) (hlate : ∀ e, φ = .late e → w.stateOf e = some failed)
    (hspent : ∀ e g, φ = .spent e failed g → w.stateOf e = some failed) (hr : Live.Rule φ s w φ') (hr' : Rule ψ s w ψ')
    (ha : app s w = some w') (e : Nat) :
    w'.stateOf e = w.stateOf e ∨ ∃ t, w'.stateOf e = some t ∧ Right w.scores e t ∧ w.Over e := by
  have hsame : s.writesState = false → w'.stateOf e = w.stateOf e ∨ ∃ t, w'.stateOf e = some t ∧ Right w.scores e t ∧ w.Over e :=
    fun hw => .inl (by rw [app_stateOf ha hw])
  cases hr with
  | neutral _ hn => exact .inl ((neutral_frame hn ha).state e)
  | reap hp => exact .inl ((probe_frame hp ha).state e)
  | @insert c u =>
    obtain ⟨hnone, hst⟩ := stateOf_insert ha
    rw [hst, Function.update_apply]
    split
    · rename_i he
      refine .inr ⟨_, rfl, fun hm => ?_, hs.over (by simp [he, hnone])⟩
      exact absurd (hs.rows e hm) (by omega)
    · exact .inl rfl
  | hold =>
    obtain ⟨hn, ho⟩ := hs.injecting (hf.arms _ rfl)
    exact setState_right ha (hf.arms _ rfl).ne_none hn ho e
  | arm => exact setState_right ha (hf.arms _ rfl).ne_none trivial (hs.injecting (hf.arms _ rfl)).2 e
  | fail hm =>
    obtain ⟨hn, ho⟩ := fail_right hs h hf hlate hspent hm hr'
    exact setState_right ha (ne_none_of_mayFail hf hm) hn ho e
  | @claimArmed e' _ hst | @claim e' _ hst =>
    rw [stateOf_claim ha hst, Function.update_apply]
    split
    · rename_i he
      exact .inr ⟨_, rfl, trivial, hs.over (by simp [he, hst])⟩
    · exact .inl rfl
  | lose _ hst =>
    simp only [app, if_neg hst, Option.some.injEq] at ha
    exact .inl (by rw [ha])
  | @resolved e' g x =>
    rcases h.scoring e' g rfl with ⟨pid, rfl | rfl, -⟩ | ⟨ok, rfl, ho, hok⟩
    · cases hr'
    · cases hr'
    · cases hr' with
      | know hc => exact hc.elim
      | resolved => exact setState_right ha (hf.owns _ rfl).past.ne_none (hok.1 rfl) ho e
  | @settle rows b x t y _ hy hu _ ht =>
    have hinj := hf.arms _ ⟨y, hy, rfl, hu⟩
    obtain ⟨hn, ho⟩ := hs.injecting hinj
    refine setState_right ha hinj.ne_none ?_ ho e
    rcases ht with rfl | rfl
    · exact hn
    · trivial
  | @close rows b x t y _ hy hys ht =>
    -- the handler goes by the scores it has read
    obtain ⟨st, l, rfl, hrows⟩ := h.reconciling rows b rfl
    obtain ⟨ho, hl, hu⟩ := hrows y hy hys
    refine setState_right ha (hf.owns _ ⟨y, hy, rfl, hys⟩).past.ne_none ?_ ho e
    rcases ht with rfl | rfl
    · cases hr' with
      | pass hc => exact hc.elim
      | close hm => exact hl.1 hm
    · cases hr' with
      | pass hc => exact hc.elim
      | fail hm =>
        rcases hm with hm | hm
        · rw [hu] at hm
          cases hm
        · exact fun hm' => hm (hl.2 hm')
  | _ => exact hsame rfl

theorem Settled.exec (hs : Settled w) (h : Sure w φ ψ) (hf : φ.Fits w) (howns : ∀ e, φ.Owns e → w.stateOf e = some resolving)
    (hlate : ∀ e, φ = .late e → w.stateOf e = some failed) (hspent : ∀ e g, φ = .spent e failed g → w.stateOf e = some failed)
    (hr : Live.Rule φ s w φ') (hr' : Rule ψ s w ψ') (ha : app s w = some w') : Settled w' where
  rows e he := by
    rw [app_scores ha] at he
    exact Nat.lt_of_lt_of_le (hs.rows e he) (Pause.app_grown ha).length
  right e t ht := by
    rw [app_scores ha]
    rcases rule_right hs h hf hlate hspent hr hr' ha e with hst | ⟨t', hst, hright, -⟩
    · exact hs.right e t (hst ▸ ht)
    · obtain rfl : t' = t := Option.some.inj (hst.symm.trans ht)
      exact hright
  running e p hp := by
    rcases app_scoring ha hp with hp | ⟨⟨t, rfl⟩, -⟩
    · rcases rule_right hs h hf hlate hspent hr hr' ha e with hst | ⟨-, -, -, ho⟩
      · rw [hst]
        exact hs.running e p hp
      · exact absurd hp (ho p)
    · obtain ⟨g, rfl, -⟩ := rule_scores hr (e := e) (by simp [Stmt.startsScorer])
      rw [app_stateOf ha rfl]
      exact howns e rfl

/-! ### A thread's own statement -/

/-- No write of a state, and no start of a scorer. -/
def Aside : Stmt → Prop
  | .startScorer _ _ | .setState _ _ _ | .claim _ => False
  | _ => True

/-- A resolve goes on with its episode until it writes, and takes one up by winning it or by starting its scorer. -/
theorem rule_working (hr : Live.Rule φ s w φ') (h : φ'.Works e) :
    (φ' = φ ∧ Aside s) ∨ (s = .claim e ∧ w.stateOf e = some awaitingFix ∧ ∃ g, φ' = .owner e g) ∨
      ∃ g t, φ = .owner e g ∧ s = .startScorer e t ∧ φ' = .scoring e g := by
  cases hr with
  | neutral _ hn => exact .inl ⟨rfl, by cases s <;> first | exact hn.elim | trivial⟩
  | resolve | probe | publish => exact .inl ⟨rfl, trivial⟩
  | lose hφ => rcases hφ with rfl | rfl <;> exact h.elim
  | @claimArmed e' _ hst | @claim e' _ hst =>
    obtain rfl : e' = e := h
    exact .inr (.inl ⟨rfl, hst, _, rfl⟩)
  | @score e' g t =>
    obtain rfl : e' = e := h
    exact .inr (.inr ⟨g, t, rfl, rfl, rfl⟩)
  | _ => exact h.elim

theorem aside_start {t : Nat} (h : Aside s) : s ≠ .startScorer e t := by
  rintro rfl
  exact h

theorem aside_idle (h : Aside s) (hr : Rule .idle s w ψ') : ψ' = .idle := by
  cases hr with
  | idle => rfl
  | start => exact h.elim

theorem aside_knows {ok : Bool} (h : Aside s) (hr : Rule (.knows e ok) s w ψ') : ψ' = .knows e ok := by
  cases hr with
  | know => rfl
  | _ => exact h.elim

/-- What the API is told of a scorer by `s`: one that is killed has not scored, and one that has returned has
returned 0 exactly when it has. -/
structure Told (w : World) (s : Stmt) : Prop where
  kill : ∀ pid ∈ s.kills, ∀ e ∈ w.scorerOf pid, e ∉ w.scores
  code : ∀ pid ∈ s.awaits, ∀ e ∈ w.scorerOf pid, ∀ c ∈ w.exitOf pid, (c = 0 ↔ e ∈ w.scores)

section Own
variable (h : Sure w φ ψ) (hr : Live.Rule φ s w φ') (hr' : Rule ψ s w ψ') (ha : app s w = some w')

include h hr hr' ha

theorem owner_exec {g : Bool} (hs : Settled w) (hφ : φ' = .owner e g) : ψ' = .idle ∧ w'.Over e := by
  rcases rule_working hr (e := e) (hφ ▸ rfl) with ⟨rfl, hside⟩ | ⟨rfl, hst, -⟩ | ⟨g', t, -, -, rfl⟩
  · obtain ⟨rfl, ho⟩ := h.owner e g hφ
    exact ⟨aside_idle hside hr', app_over ha (fun _ => aside_start hside) ho⟩
  · refine ⟨?_, app_over ha (by simp) (hs.over (by simp [hst]))⟩
    cases hr' with
    | idle => rfl
    | know hc | pass hc => exact hc.elim
  · cases hφ

theorem scoring_exec {g : Bool} (ht : Told w s) (hφ : φ' = .scoring e g) :
    (∃ pid, (ψ' = .waits e pid ∨ ψ' = .kills e pid) ∧ w'.Alone e pid) ∨
      ∃ ok, ψ' = .knows e ok ∧ w'.Over e ∧ (ok = true ↔ e ∈ w'.scores) := by
  rw [app_scores ha]
  rcases rule_working hr (e := e) (hφ ▸ rfl) with ⟨rfl, hside⟩ | ⟨-, -, g', rfl⟩ | ⟨g', t, rfl, rfl, rfl⟩
  · have hnew : ∀ t, s ≠ .startScorer e t := fun _ => aside_start hside
    rcases h.scoring e g hφ with ⟨pid, rfl | rfl, halone⟩ | ⟨ok, rfl, ho, hok⟩
    · cases hr' with
      | ended hx =>
        have hcode := ht.code _ rfl e halone.scorer _ hx
        exact .inr ⟨_, rfl, app_over ha hnew (over_exit halone (by simp [hx])), by simpa using hcode⟩
      | overdue hx => exact .inl ⟨pid, .inr rfl, app_alone ha hnew halone⟩
    · cases hr' with
      | kill =>
        have hkill := ht.kill _ rfl e halone.scorer
        exact .inr ⟨false, rfl, over_killed ha halone, by simpa using hkill⟩
    · exact .inr ⟨ok, aside_knows hside hr', app_over ha hnew ho, hok⟩
  · cases hφ
  -- the scorer is started
  · obtain ⟨rfl, ho⟩ := h.owner e g' rfl
    cases hr' with
    | idle hc => exact hc.elim
    | start => exact .inl ⟨_, .inl rfl, start_alone ha ho⟩

theorem rescuing_exec (ht : Told w s) (hφ : φ' = .rescuing e) : (∃ pid, ψ' = .kills e pid ∧ w'.Alone e pid) ∨
    ((∀ e' pid, ψ' ≠ .waits e' pid ∧ ψ' ≠ .kills e' pid) ∧ w'.Over e ∧ e ∉ w'.scores) := by
  rw [app_scores ha]
  rcases rule_working hr (e := e) (hφ ▸ rfl) with ⟨rfl, hside⟩ | ⟨-, -, g', rfl⟩ | ⟨g', t, -, -, rfl⟩
  · have hnew : ∀ t, s ≠ .startScorer e t := fun _ => aside_start hside
    rcases h.rescuing e hφ with ⟨pid, rfl, halone⟩ | ⟨hψ, ho, hne⟩
    · cases hr' with
      | kill => exact .inr ⟨by simp, over_killed ha halone, ht.kill _ rfl e halone.scorer⟩
    · refine .inr ⟨?_, app_over ha hnew ho, hne⟩
      cases hr' with
      | start => exact hside.elim
      | ended | overdue => exact absurd rfl (hψ _ _).1
      | _ => simp
  · cases hφ
  · cases hφ

end Own

/-- The startup handler goes on with what it has read, or reads again. -/
theorem startup_next {st : Nat → Option EpisodeState} {l : List Nat} (hr : Rule (.startup st l) s w ψ') :
    ∃ st' l', ψ' = .startup st' l' ∧ (st' = st ∨ st' = w.stateOf) ∧ ((l' = l ∧ s ≠ .look) ∨ l' = w.scores) := by
  cases hr with
  | look hst => exact ⟨_, _, rfl, hst, .inr rfl⟩
  | pass _ hl => exact ⟨_, _, rfl, .inl rfl, .inl ⟨rfl, hl⟩⟩
  | fail | close => exact ⟨_, _, rfl, .inl rfl, .inl ⟨rfl, by simp⟩⟩

/-- Before its `SELECT`, the startup handler only looks. -/
theorem rule_first (hr : Live.Rule .starting s w φ') : s = .look ∧ (φ' = .starting ∨ φ' = .reconciling w.pendings false) := by
  cases hr with
  | neutral hn | resolve hn | probe hn => exact absurd rfl hn
  | connect => exact ⟨rfl, .inl rfl⟩
  | select => exact ⟨rfl, .inr rfl⟩
  | fail hm => cases hm
  | giveUp h | lose h => rcases h with h | h <;> cases h

theorem starting_exec (h : Sure w φ ψ) (hr : Live.Rule φ s w φ') (hr' : Rule ψ s w ψ') (ha : app s w = some w')
    (hφ : φ' = .starting) :
    (∃ rows l, ψ' = .startup rows l ∧ ∀ e, (rows e).any (·.Unsettled) = true → w'.stateOf e ≠ some resolving) ∧ ∀ e, w'.Over e := by
  obtain rfl := rule_starting hr hφ
  obtain ⟨rfl, -⟩ := rule_first hr
  obtain ⟨⟨rows, l, rfl, hu⟩, ho⟩ := h.starting rfl
  obtain ⟨rows', l', rfl, hrows, -⟩ := startup_next hr'
  simp only [app, Option.some.injEq] at ha
  subst ha
  refine ⟨⟨rows', l', rfl, fun e he => ?_⟩, ho⟩
  rcases hrows with rfl | rfl
  · exact hu e he
  · intro hst
    rw [hst] at he
    cases he

theorem reconciling_exec {rows : List Pending} {b : Bool} (h : Sure w φ ψ) (howns : ∀ e, φ.Owns e → w.stateOf e = some resolving)
    (hr : Live.Rule φ s w φ') (hr' : Rule ψ s w ψ') (ha : app s w = some w') (hφ : φ' = .reconciling rows b) :
    ∃ st l, ψ' = .startup st l ∧ ∀ y ∈ rows, y.state = resolving →
      w'.Over y.episode ∧ (y.episode ∈ l ↔ y.episode ∈ w'.scores) ∧ (st y.episode).any (·.Unsettled) = false := by
  have hsettled : ∀ e, w.stateOf e = some resolving → (w.stateOf e).any (·.Unsettled) = false := by
    intro e he
    rw [he]
    rfl
  have hstartup : φ.Startup := rule_startup hr (hφ ▸ trivial)
  cases φ with
  | starting =>
    obtain ⟨rfl, -⟩ := rule_first hr
    obtain ⟨⟨st, l, rfl, hu⟩, ho⟩ := h.starting rfl
    obtain ⟨st', l', rfl, hst, hl⟩ := startup_next hr'
    obtain rfl : l' = w.scores := hl.resolve_left fun hl => hl.2 rfl
    simp only [app, Option.some.injEq] at ha
    subst ha
    refine ⟨st', _, rfl, fun y hy hys => ⟨ho _, Iff.rfl, ?_⟩⟩
    obtain ⟨-, hp⟩ | ⟨_, _, hne, -⟩ := rule_rows hr hφ hy
    · have hres : w.stateOf y.episode = some resolving := by rw [(pendings_state hp).1, hys]
      rcases hst with rfl | rfl
      · by_contra hn
        exact hu _ (by simpa using hn) hres
      · exact hsettled _ hres
    · cases hne
  | reconciling rows' b' =>
    have hnew : ∀ e t, s ≠ .startScorer e t := by
      rintro e t rfl
      obtain ⟨g, hg, -⟩ := rule_scores hr (e := e) (by simp [Stmt.startsScorer])
      cases hg
    obtain ⟨st, l, rfl, hz⟩ := h.reconciling rows' b' rfl
    obtain ⟨st', l', rfl, hst, hl⟩ := startup_next hr'
    refine ⟨st', l', rfl, fun y hy hys => ?_⟩
    obtain ⟨hne, -⟩ | ⟨_, _, hrows, z, hzr, hze, hzs, -⟩ := rule_rows hr hφ hy
    · cases hne
    cases hrows
    obtain ⟨ho, hlz, hu⟩ := hz z hzr (hzs.trans hys)
    rw [app_scores ha, ← hze]
    refine ⟨app_over ha (fun t => hnew _ t) ho, ?_, ?_⟩
    · rcases hl with ⟨rfl, -⟩ | rfl
      · exact hlz
      · rfl
    · rcases hst with rfl | rfl
      · exact hu
      · exact hsettled _ (howns _ ⟨z, hzr, rfl, hzs.trans hys⟩)
  | _ => exact hstartup.elim

/-- A thread's own statement leaves it what its next phases say. -/
theorem Sure.exec (h : Sure w φ ψ) (hs : Settled w) (ht : Told w s) (howns : ∀ e, φ.Owns e → w.stateOf e = some resolving)
    (hr : Live.Rule φ s w φ') (hr' : Rule ψ s w ψ') (ha : app s w = some w') : Sure w' φ' ψ' where
  owner _ _ hφ := owner_exec h hr hr' ha hs hφ
  scoring _ _ hφ := scoring_exec h hr hr' ha ht hφ
  rescuing _ hφ := rescuing_exec h hr hr' ha ht hφ
  starting hφ := starting_exec h hr hr' ha hφ
  reconciling _ _ hφ := reconciling_exec h howns hr hr' ha hφ

/-! ### An exception -/

/-- An exception at `s` in the guarded resolve of `e` finds no row, and no process running that `s` was to kill. -/
structure Spared (w : World) (e : Nat) (s : Stmt) : Prop where
  unscored : e ∉ w.scores
  killed : ∀ pid ∈ s.kills, w.alive pid = false

/-- A guarded resolve is left to its guard. -/
theorem fault_working (hφ : (Live.fault φ s).Works e) :
    Live.fault φ s = .rescuing e ∧ (φ = .owner e true ∨ φ = .scoring e true ∨ (φ = .rescuing e ∧ ∃ pid, s = .kill pid)) := by
  cases φ with
  | owner e' g | scoring e' g =>
    cases g with
    | true =>
      obtain rfl : e' = e := hφ
      exact ⟨rfl, by simp⟩
    | false => exact hφ.elim
  | rescuing e' =>
    cases s with
    | kill pid =>
      obtain rfl : e' = e := hφ
      exact ⟨rfl, by simp⟩
    | _ => exact hφ.elim
  | _ => exact (fault_works hφ).elim

theorem fault_starting (hφ : Live.fault φ s = .starting) : φ = .starting := by
  unfold Live.fault at hφ
  split at hφ <;> first | exact hφ | cases hφ

/-- The kill raises: it was not needed. -/
theorem kills_fault {pid : Nat} (h : w.Alone e pid) (hsp : Spared w e s) :
    (∃ p, fault (.kills e pid) s = .kills e p ∧ w.Alone e p) ∨
      ((∀ e' p, fault (.kills e pid) s ≠ .waits e' p ∧ fault (.kills e pid) s ≠ .kills e' p) ∧ w.Over e ∧ e ∉ w.scores) := by
  by_cases hk : s = .kill pid
  · subst hk
    exact .inr ⟨by simp [fault], over_gone h (hsp.killed pid rfl), hsp.unscored⟩
  · exact .inl ⟨pid, if_neg hk, h⟩

/-- An exception leaves a thread what its next phases say. -/
theorem Sure.fail (h : Sure w φ ψ) (hsp : ∀ e, φ = .owner e true ∨ φ = .scoring e true ∨ φ = .rescuing e → Spared w e s) :
    Sure w (Live.fault φ s) (fault ψ s) where
  owner e g hφ := by
    rw [(fault_working (e := e) (hφ ▸ rfl)).1] at hφ
    cases hφ
  scoring e g hφ := by
    rw [(fault_working (e := e) (hφ ▸ rfl)).1] at hφ
    cases hφ
  rescuing e hφ := by
    have hw : (Live.fault φ s).Works e := by
      rw [hφ]
      rfl
    rcases (fault_working hw).2 with rfl | rfl | ⟨rfl, -⟩
    · obtain ⟨rfl, ho⟩ := h.owner e true rfl
      exact .inr ⟨by simp [fault], ho, (hsp e (.inl rfl)).unscored⟩
    · rcases h.scoring e true rfl with ⟨pid, rfl | rfl, ha⟩ | ⟨ok, rfl, ho, -⟩
      · exact .inl ⟨pid, rfl, ha⟩
      · exact kills_fault ha (hsp e (.inr (.inl rfl)))
      · exact .inr ⟨by simp [fault], ho, (hsp e (.inr (.inl rfl))).unscored⟩
    · rcases h.rescuing e rfl with ⟨pid, rfl, ha⟩ | ⟨hψ, ho, hn⟩
      · exact kills_fault ha (hsp e (.inr (.inr rfl)))
      · refine .inr ⟨fun e' pid => ?_, ho, hn⟩
        cases ψ with
        | waits e' pid => exact absurd rfl (hψ e' pid).1
        | kills e' pid => exact absurd rfl (hψ e' pid).2
        | _ => simp [fault]
  starting hφ := by
    obtain rfl := fault_starting hφ
    obtain ⟨⟨rows, l, rfl, hu⟩, ho⟩ := h.starting rfl
    exact ⟨⟨rows, l, rfl, hu⟩, ho⟩
  reconciling rows b hφ := by
    obtain ⟨rows', b', rfl, hrows⟩ := fault_rows hφ
    obtain ⟨st, l, rfl, hz⟩ := h.reconciling rows' b' rfl
    refine ⟨st, l, rfl, fun y hy hys => ?_⟩
    rcases hrows with rfl | ⟨pid, -, rfl⟩
    · exact hz y hy hys
    · obtain ⟨z, hzr, rfl⟩ := List.mem_map.1 hy
      rw [Pending.clear_state] at hys
      rw [Pending.clear_episode]
      exact hz z hzr hys

end Rules

/-! ## The environment -/

section Around
variable {w w' : World} {e p : Nat}

/-- A scorer of the batch runner's scores no live episode but one that may be. -/
def Batched (w : World) : Env → Prop
  | .scoreBatch e => e < w.episodes.length ∧ ∀ s ∈ w.stateOf e, s = awaitingFix ∨ s = resolved
  | _ => True

theorem Settled.env {x : Env} (hs : Settled w) (hb : Batched w x) : Settled (env x w) where
  rows e he := by
    refine Nat.lt_of_lt_of_le ?_ (Pause.env_grown x w).length
    rcases env_scores he with he | rfl | ⟨pid, hp⟩
    · exact hs.rows e he
    · exact hb.1
    · obtain ⟨r, hr, -⟩ := Option.bind_eq_some_iff.1 (hs.running e pid hp)
      exact (List.getElem?_eq_some_iff.1 hr).1
  right e t ht := by
    rw [(env_frame x w).state] at ht
    have hright := hs.right e t ht
    have hnew : t ≠ awaitingFix → t ≠ resolving → t ≠ resolved → e ∈ (Live.env x w).scores → e ∈ w.scores := by
      intro h1 h2 h3 he
      rcases env_scores he with he | rfl | ⟨pid, hp⟩
      · exact he
      · rcases hb.2 t ht with h | h
        · exact absurd h h1
        · exact absurd h h3
      · exact absurd (Option.some.inj (ht.symm.trans (hs.running e pid hp))) h2
    cases t with
    | resolved => exact env_scored x hright
    | awaitingFix | resolving => trivial
    | injecting | holding | failed => exact fun he => hright (hnew (by decide) (by decide) (by decide) he)
  running e p hp := by
    rw [(env_frame x w).state]
    exact hs.running e p (env_scoring hp)

/-- A resolve is not scored by others. -/
theorem env_stays {x : Env} (hb : Batched w x) (h : w.stateOf e = some resolving) : Stays w (env x w) e where
  scoring _ hp := env_scoring hp
  scorer _ hp := (env_scorerOf x).trans hp
  scores ho := by
    refine ⟨fun he => ?_, env_scored x⟩
    rcases env_scores he with he | rfl | ⟨pid, hp⟩
    · exact he
    · rcases hb.2 _ h with h | h <;> cases h
    · exact absurd hp (ho pid)

theorem Settled.same (hs : Settled w) (he : w'.episodes = w.episodes) (hp : w'.procs = w.procs) (hsc : w'.scores = w.scores) :
    Settled w' where
  rows e := by
    rw [hsc, he]
    exact hs.rows e
  right e t ht := by
    rw [hsc]
    exact hs.right e t (by simpa only [World.stateOf, he] using ht)
  running e p hsco := by
    simp only [World.stateOf, he]
    exact hs.running e p ((same_scoring hp).1 hsco)

end Around

/-! ## Every run -/

/-- Every thread is in a phase of its lifecycle, and knows something of the scores. -/
abbrev both : Typestate World Stmt Job (Live.Phase × Phase) := Live.discipline.both discipline

/-- The API starts while no scorer of a `resolving` episode runs. -/
def Quiet (w : World) : Job → Prop
  | .onStartup => w.status = .down → ∀ p ∈ w.procs, ∀ x ∈ p.running, ∀ e ∈ x.scored, w.stateOf e ≠ some resolving
  | _ => True

/-- What the API does not see for itself is as it takes it to be. -/
def Truthful (st : State World Stmt Job) : Move Job Env → Prop
  | .step i => ∀ x ∈ st.next i, Told st.world x.2
  | .fail i => ∀ x ∈ st.next i, ∀ e ∈ x.1.guarded,
      st.world.stateOf e = some resolving → Spared st.world e x.2
  | .post j => Quiet st.world j
  | .env x => Batched st.world x
  | .kill => True

structure Inv (w : World) (ph : Nat → Option (Live.Phase × Phase)) : Prop where
  settled : Settled w
  sure : ∀ i φ ψ, ph i = some (φ, ψ) → Sure w φ ψ

section Run
variable {w w' : World} {ph ph' : Nat → Option (Live.Phase × Phase)} {i : Nat} {φ φ' : Live.Phase} {ψ ψ' : Phase} {s : Stmt}

theorem first_of {χ : Live.Phase × Phase} (hi : ph i = some χ) : firsts ph i = some χ.1 := by simp [firsts, hi]

theorem Inv.exec (h : Inv w ph) (hl : Lifecycle w (firsts ph)) (hx : Exact w (firsts ph))
    (hi : ph i = some (φ, ψ)) (ht : Told w s)
    (hr : Live.Rule φ s w φ') (hr' : Rule ψ s w ψ') (ha : app s w = some w') : Inv w' (Function.update ph i (some (φ', ψ'))) := by
  have hsure := h.sure i φ ψ hi
  have howns : ∀ e, φ.Owns e → w.stateOf e = some resolving := fun e he => hx.owns i φ e (first_of hi) he
  refine ⟨h.settled.exec hsure (hl.fits i φ (first_of hi)) howns ?_ ?_ hr hr' ha, fun k χ ρ hk => ?_⟩
  · rintro e rfl
    exact hx.late i e (first_of hi)
  · rintro e g rfl
    exact (hx.spent i e failed g (first_of hi)).1
  rcases of_update hk with ⟨rfl, hφ⟩ | ⟨hki, hk⟩
  · cases hφ
    exact hsure.exec h.settled ht howns hr hr' ha
  · -- nobody else starts a scorer of what a thread owns
    have hc := hl.apart i k φ χ (Ne.symm hki) (first_of hi) (first_of hk)
    refine (h.sure k χ ρ hk).others (fun e he => app_stays ha ?_) fun hst => absurd (.inr (.inr (.inr (.inr hst)))) hc
    rintro t rfl
    obtain ⟨g, rfl, -⟩ := rule_scores hr (e := e) (by simp [Stmt.startsScorer])
    exact hc (.inl ⟨e, .inr rfl, .inr he⟩)

theorem entry_sure {j : Job} (hj : j ≠ .onStartup) : Sure w j.entry ψ := by
  refine Sure.of_none (fun e => ?_) ?_
  · cases j <;> exact id
  · cases j <;> first | exact absurd rfl hj | exact id

/-- The startup handler has read nothing, and no scorer runs. -/
theorem starting_sure (h : ∀ e, w.Over e) : Sure w .starting (entry .onStartup) where
  owner e g hφ := by cases hφ
  scoring e g hφ := by cases hφ
  rescuing e hφ := by cases hφ
  starting _ := ⟨⟨_, _, rfl, by simp⟩, h⟩
  reconciling rows b hφ := by cases hφ

theorem Inv.add {n : Nat} (h : Inv w ph) (hn : Sure w φ ψ) : Inv w (Function.update ph n (some (φ, ψ))) := by
  refine ⟨h.settled, fun k χ ρ hk => ?_⟩
  rcases of_update hk with ⟨-, hφ⟩ | ⟨-, hk⟩
  · cases hφ
    exact hn
  · exact h.sure k χ ρ hk

theorem Inv.post {j : Job} {n : Nat} (h : Inv w ph) (hq : Quiet w j) (hp : Live.post j w = some w') :
    Inv w' (Function.update ph n (some (j.entry, entry j))) := by
  obtain ⟨he, hpr⟩ := post_same hp
  have hsc := post_scores hp
  have hsettled := h.settled.same he hpr hsc
  have hold : Inv w' ph := by
    refine ⟨hsettled, fun k χ ρ hk => (h.sure k χ ρ hk).others (fun e _ => ?_) fun _ e => ?_⟩
    on_goal 2 => exact ⟨fun p => (same_scoring hpr).1, post_state hp e⟩
    refine ⟨fun p => (same_scoring hpr).1, fun p hpe => ?_, fun _ => by rw [hsc]⟩
    simpa only [World.scorerOf, hpr] using hpe
  refine hold.add ?_
  by_cases hj : j = .onStartup
  · subst hj
    simp only [Live.post, Option.ite_none_right_eq_some, Option.some.injEq] at hp
    obtain ⟨hd, rfl⟩ := hp
    have hover : ∀ e, w.Over e := by
      rintro e p ⟨t, hp⟩
      obtain ⟨r, hr, hrun⟩ := Option.bind_eq_some_iff.1 hp
      exact hq hd r (List.mem_of_getElem? hr) _ hrun e rfl (h.settled.running e p ⟨t, hp⟩)
    exact starting_sure hover
  · exact entry_sure hj

theorem spawned {j : Job} (hr : Live.Rule φ (.startThread j) w φ') : j ≠ .onStartup := by
  rintro rfl
  cases hr with
  | neutral _ hn => exact hn
  | reap hp => simp [Stmt.Probes] at hp

theorem inv_effect {st : State World Stmt Job} {m : Move Job Env} {l : List (Event World Stmt)}
    (hl : Lifecycle st.world (firsts ph))
    (hx : Exact st.world (firsts ph)) (h : Inv st.world ph) (hc : Truthful st m) (he : Effect operatorApi both st ph m w' ph' l) :
    Inv w' ph' := by
  cases he with
  | stay => exact h
  | exec hn hi _ hr ha _ => exact h.exec hl hx hi (hc _ hn) hr.1 hr.2 ha
  | spawn hn hi _ hr ha hs _ _ _ =>
    obtain rfl := eq_of_spawns hs
    exact (h.exec hl hx hi (hc _ hn) hr.1 hr.2 ha).add (entry_sure (spawned hr.1))
  | @fail i j s φ hn hi hm =>
    obtain ⟨φ, ψ⟩ := φ
    refine h.add ((h.sure i φ ψ hi).fail fun e hφ => ?_)
    have howns : φ.Owns e := by rcases hφ with rfl | rfl | rfl <;> rfl
    refine hc _ hn e ?_ (hx.owns i φ e (first_of hi) howns)
    rcases hφ with rfl | rfl | rfl <;> exact hm.1
  | post hp _ _ => exact h.post hc hp
  | env x =>
    refine ⟨h.settled.env hc, fun k χ ρ hk => ?_⟩
    refine (h.sure k χ ρ hk).others (fun e he => ?_) fun _ e => ⟨fun _ => env_scoring, ?_⟩
    · exact env_stays hc (hx.owns k χ e (first_of hk) he)
    · exact (env_frame x _).state e
  | kill => exact ⟨h.settled.same rfl rfl rfl, by simp⟩

/-- What a run keeps: the phases, who has won which resolve, and what the threads know. -/
theorem kept_effect {st : State World Stmt Job} {m : Move Job Env} {l : List (Event World Stmt)}
    (hl : Lifecycle st.world (firsts ph)) (hg : Gate st.world (firsts ph) st.log) (hx : Exact st.world (firsts ph))
    (hi : Inv st.world ph) (hlate : ¬ LateRaise st m) (hc : Truthful st m)
    (he : Effect operatorApi both st ph m w' ph' l) :
    Lifecycle w' (firsts ph') ∧ Gate w' (firsts ph') l ∧ Exact w' (firsts ph') ∧ Inv w' ph' := by
  refine ⟨lifecycle_effect hl he.first, ?_, ?_, inv_effect hl hx hi hc he⟩
  · exact gate_effect hl hg he.first
  · exact exact_effect hl hg hx hlate he.first

end Run

/-- An episode that is over is `resolved` exactly when it has a row of `scores`. -/
def Agree (w : World) : Prop := ∀ e s, w.stateOf e = some s → s ∈ TERMINAL_EPISODE_STATES → (s = resolved ↔ e ∈ w.scores)

theorem Settled.agree {w : World} (h : Settled w) : Agree w := by
  intro e s hs ht
  have hright := h.right e s hs
  cases s with
  | resolved => exact ⟨fun _ => hright, fun _ => rfl⟩
  | failed => exact ⟨nofun, fun he => absurd he hright⟩
  | _ => exact absurd ht (by decide)

/-- The API may start in a world whose rows agree. -/
theorem settled_initial {w : World} (h : Initial w) (hrows : ∀ e ∈ w.scores, e < w.episodes.length) (hw : Agree w) : Settled w where
  rows := hrows
  right e s hs := by
    have hiff := hw e s hs (h.settled e s hs)
    have ht := h.settled e s hs
    cases s with
    | resolved => exact hiff.1 rfl
    | failed => exact fun he => absurd (hiff.2 he) (by decide)
    | _ => exact absurd ht (by decide)
  running e p hp := by
    obtain ⟨t, hp⟩ := hp
    rw [h.idle p] at hp
    cases hp

/-- As long as the API is told the truth about its scorers and no exception is late, the states of the episodes that
are over agree with their rows of `scores`, whatever requests, resolves, scorers, exceptions and restarts do. -/
theorem resolved_iff_scored {w : World} (h : Initial w) (hrows : ∀ e ∈ w.scores, e < w.episodes.length) (hw : Agree w)
    (ms : List (Move Job Env)) (hc : operatorApi.Admits (fun st m => ¬ LateRaise st m ∧ Truthful st m) (boot w) ms) :
    Agree (operatorApi.run (boot w) ms).world := by
  have hboot : Agrees operatorApi both (boot w) fun _ => none := ⟨by simp [boot], fun _ _ => rfl, by simp [boot]⟩
  obtain ⟨ph, -, -, -, -, hi⟩ := operatorApi.invariant (operatorApi_sound.both operatorApi_knows)
    (fun st m => ¬ LateRaise st m ∧ Truthful st m)
    (fun w ph l => Lifecycle w (firsts ph) ∧ Gate w (firsts ph) l ∧ Exact w (firsts ph) ∧ Inv w ph)
    (fun _ _ _ _ _ _ _ h hc he => kept_effect h.1 h.2.1 h.2.2.1 h.2.2.2 hc.1 hc.2 he)
    hboot ⟨lifecycle_boot h, gate_boot w, by constructor <;> simp [firsts], settled_initial h hrows hw, by simp⟩ ms hc
  exact hi.settled.agree

instance (w : World) (s : Stmt) : Decidable (Told w s) :=
  decidable_of_iff ((∀ pid ∈ s.kills, ∀ e ∈ w.scorerOf pid, e ∉ w.scores) ∧
    ∀ pid ∈ s.awaits, ∀ e ∈ w.scorerOf pid, ∀ c ∈ w.exitOf pid, (c = 0 ↔ e ∈ w.scores)) ⟨fun h => ⟨h.1, h.2⟩, fun h => ⟨h.1, h.2⟩⟩

instance (w : World) (e : Nat) (s : Stmt) : Decidable (Spared w e s) :=
  decidable_of_iff (e ∉ w.scores ∧ ∀ pid ∈ s.kills, w.alive pid = false) ⟨fun h => ⟨h.1, h.2⟩, fun h => ⟨h.1, h.2⟩⟩

instance (w : World) : ∀ j : Job, Decidable (Quiet w j)
  | .onStartup => inferInstanceAs (Decidable (w.status = .down → ∀ p ∈ w.procs, ∀ x ∈ p.running, ∀ e ∈ x.scored,
      w.stateOf e ≠ some resolving))
  | .triggerInject .. | .triggerStopHold .. | .triggerResolve _ | .logout _ | .runLiveEpisode .. | .attemptResolve ..
  | .waitForOrphan .. => .isTrue trivial

instance (w : World) : ∀ x : Env, Decidable (Batched w x)
  | .scoreBatch e => inferInstanceAs (Decidable (e < w.episodes.length ∧ ∀ s ∈ w.stateOf e, s = awaitingFix ∨ s = resolved))
  | .tick _ | .record .. | .evidence .. | .score _ | .exit .. | .cluster .. | .batch .. => .isTrue trivial

instance (st : State World Stmt Job) : ∀ m : Move Job Env, Decidable (Truthful st m)
  | .step i => inferInstanceAs (Decidable (∀ x ∈ st.next i, Told st.world x.2))
  | .fail i => inferInstanceAs (Decidable (∀ x ∈ st.next i, ∀ e ∈ x.1.guarded,
      st.world.stateOf e = some resolving → Spared st.world e x.2))
  | .post j => inferInstanceAs (Decidable (Quiet st.world j))
  | .env x => inferInstanceAs (Decidable (Batched st.world x))
  | .kill => .isTrue trivial

theorem agree_idle : Agree idle := fun e s hs => by simp [idle, World.stateOf] at hs

/-- The scorer of `selfResolved` scores, and returns 0. -/
theorem resolved_iff_scored_resolved : (operatorApi.run (boot idle) selfResolved).world.stateOf 0 = some resolved ∧
    0 ∈ (operatorApi.run (boot idle) selfResolved).world.scores := by
  have hcalm : ∀ m ∈ selfResolved, m.fails = false := by decide
  have hc : operatorApi.Admits (fun st m => ¬ LateRaise st m ∧ Truthful st m) (boot idle) selfResolved :=
    operatorApi.admits_and.2 ⟨operatorApi.admits_of (fun _ m hm => not_lateRaise (hcalm m hm)) _, by decide +kernel⟩
  have hst : (operatorApi.run (boot idle) selfResolved).world.stateOf 0 = some resolved := by decide +kernel
  exact ⟨hst, (resolved_iff_scored initial_idle (by simp [idle]) agree_idle selfResolved hc 0 resolved hst (by decide)).1 rfl⟩

/-- The scorer commits its row, and then returns 1: `failed`, with a row of `scores`. -/
def scoredAndFailed : List (Move Job Env) :=
  injected "network-latency" (some 0) ++ turns 2 9 ++ [.env (.score 1), .env (.exit 1 1)] ++ turns 2 3

theorem scored_but_failed : Initial idle ∧ Agree idle ∧ ¬ Agree (operatorApi.run (boot idle) scoredAndFailed).world := by
  refine ⟨initial_idle, agree_idle, fun h => ?_⟩
  have hst : (operatorApi.run (boot idle) scoredAndFailed).world.stateOf 0 = some failed := by decide +kernel
  have hrow : 0 ∈ (operatorApi.run (boot idle) scoredAndFailed).world.scores := by decide +kernel
  exact absurd ((h 0 failed hst (by decide)).2 hrow) (by decide)

end Wardence.Live.Scored
