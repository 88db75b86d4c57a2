import Wardence.Live.Tabs
/-!
# What a tab commits itself to

What a tab keeps with every reaction: its refs say what it has sent, for the episode it follows, and it
never asks for a fix that nobody has asked it for.
-/
namespace Wardence.Live

open EpisodeState

/-- `sent` is what the tab has sent, `stopped` the episodes with a stop request, `triggering` a trigger of the tab's own. -/
structure Tab.Kept (sent : Request → Prop) (stopped : Nat → Prop) (triggering : Prop) (t : Tab) : Prop where
  fresh : triggering → t.live = none ∧ t.autoResolveRequestedRef = false ∧ t.autoResolveFiredRef = false
  requested : t.autoResolveRequestedRef = true → ∃ e c, t.activeEpisode = some (e, c) ∧ sent (.stopHold e)
  fired : t.autoResolveFiredRef = true → ∃ e c, t.activeEpisode = some (e, c) ∧ sent (.resolve e true)
  polls : ∀ e n, sent (.liveStatus e n) → n ≤ t.effect ∧ (n = t.effect → ∃ c, t.activeEpisode = some (e, c))
  chained : ∀ e, sent (.resolve e true) → sent (.stopHold e) ∨ stopped e

section Tab
variable {sent : Request → Prop} {stopped : Nat → Prop} {trig : Prop} {t : Tab}

/-- `r` is a tab and what it has sent just now. -/
abbrev Tab.Keeps (sent : Request → Prop) (stopped : Nat → Prop) (trig : Prop) (r : Tab × List Request) : Prop :=
  r.1.Kept (fun q => sent q ∨ q ∈ r.2) stopped trig

theorem Tab.Kept.mono {stopped' : Nat → Prop} {trig' : Prop} (h : t.Kept sent stopped trig) (hs : ∀ e, stopped e → stopped' e)
    (ht : trig' → trig) : t.Kept sent stopped' trig' :=
  ⟨fun hp => h.fresh (ht hp), h.requested, h.fired, h.polls, fun e he => (h.chained e he).imp_right (hs e)⟩

theorem Tab.Kept.congr {sent' : Request → Prop} (h : t.Kept sent stopped trig) (hq : ∀ q, sent q ↔ sent' q) :
    t.Kept sent' stopped trig := by
  obtain rfl : sent = sent' := funext fun q => propext (hq q)
  exact h

/-- Requests that are neither polls nor chained change nothing. -/
theorem Tab.Kept.more (h : t.Kept sent stopped trig) (qs : List Request)
    (hq : ∀ q ∈ qs, q = .triggerStatus ∨ (∃ u, q = .logout u) ∨ (∃ c, q = .inject c) ∨ (∃ e, q = .stopHold e) ∨ ∃ e, q = .resolve e false) :
    t.Kept (fun q => sent q ∨ q ∈ qs) stopped trig := by
  refine ⟨h.fresh, fun hr => ?_, fun hf => ?_, fun e n hn => ?_, fun e he => ?_⟩
  · obtain ⟨e, c, ha, hs⟩ := h.requested hr
    exact ⟨e, c, ha, .inl hs⟩
  · obtain ⟨e, c, ha, hs⟩ := h.fired hf
    exact ⟨e, c, ha, .inl hs⟩
  · rcases hn with hn | hn
    · exact h.polls e n hn
    · simpa using hq _ hn
  · rcases he with he | he
    · exact (h.chained e he).imp_left .inl
    · simpa using hq _ he

theorem Tab.mem_poll {q : Request} (hq : q ∈ t.poll) : ∃ e c, t.activeEpisode = some (e, c) ∧ q = .liveStatus e t.effect := by
  unfold Tab.poll at hq
  split at hq
  · rename_i e c _ ha
    exact ⟨e, c, ha, by simpa using hq⟩
  · simp at hq

theorem Tab.keeps_poll (h : t.Kept sent stopped trig) : Tab.Keeps sent stopped trig (t, t.poll) := by
  refine ⟨h.fresh, fun hr => ?_, fun hf => ?_, fun e n hn => ?_, fun e he => ?_⟩
  · obtain ⟨e, c, ha, hs⟩ := h.requested hr
    exact ⟨e, c, ha, .inl hs⟩
  · obtain ⟨e, c, ha, hs⟩ := h.fired hf
    exact ⟨e, c, ha, .inl hs⟩
  · rcases hn with hn | hn
    · exact h.polls e n hn
    · obtain ⟨e', c, ha, hq⟩ := Tab.mem_poll hn
      obtain ⟨rfl, rfl⟩ : e = e' ∧ n = t.effect := by simpa using hq
      exact ⟨Nat.le_refl _, fun _ => ⟨c, ha⟩⟩
  · rcases he with he | he
    · exact (h.chained e he).imp_left .inl
    · obtain ⟨e', c, -, hq⟩ := Tab.mem_poll he
      cases hq

/-- Before the polls of a new run of the effect, there are none of it. -/
theorem Tab.Kept.next (h : t.Kept sent stopped trig) {t' : Tab} (hl : t'.live = t.live)
    (hr : t'.autoResolveRequestedRef = t.autoResolveRequestedRef) (hf : t'.autoResolveFiredRef = t.autoResolveFiredRef)
    (hn : t'.effect = t.effect + 1) (ha : t'.activeEpisode = t.activeEpisode ∨
      (t.autoResolveRequestedRef = false ∧ t.autoResolveFiredRef = false)) : t'.Kept sent stopped trig := by
  refine ⟨fun ht => hl ▸ hr ▸ hf ▸ h.fresh ht, fun hr' => ?_, fun hf' => ?_, fun e n hs => ?_, h.chained⟩
  · rw [hr] at hr'
    rcases ha with ha | ha
    · exact ha ▸ h.requested hr'
    · exact absurd hr' (by simp [ha.1])
  · rw [hf] at hf'
    rcases ha with ha | ha
    · exact ha ▸ h.fired hf'
    · exact absurd hf' (by simp [ha.2])
  · have := (h.polls e n hs).1
    exact ⟨by omega, fun he => by omega⟩

theorem Tab.keeps_rerun (h : t.Kept sent stopped trig) {t' : Tab} (hl : t'.live = t.live)
    (hr : t'.autoResolveRequestedRef = t.autoResolveRequestedRef) (hf : t'.autoResolveFiredRef = t.autoResolveFiredRef)
    (hn : t'.effect = t.effect) (ha : t'.activeEpisode = t.activeEpisode ∨
      (t.autoResolveRequestedRef = false ∧ t.autoResolveFiredRef = false)) : Tab.Keeps sent stopped trig t'.rerun :=
  Tab.keeps_poll (h.next hl hr hf (by simp [hn]) ha)

theorem Tab.keeps_setUser (h : t.Kept sent stopped trig) (u : Option User) : Tab.Keeps sent stopped trig (t.setUser u) :=
  Tab.keeps_rerun h rfl rfl rfl rfl (.inl rfl)

theorem Tab.keeps_cons {r : Tab × List Request} {q : Request} (h : Tab.Keeps sent stopped trig r)
    (hq : q = .triggerStatus ∨ ∃ u, q = .logout u) : Tab.Keeps sent stopped trig (r.1, q :: r.2) := by
  refine (h.more [q] fun q' hq' => ?_).congr fun q' => ?_
  · rw [List.mem_singleton.1 hq']
    exact hq.imp_right .inl
  · simp only [List.mem_cons, List.not_mem_nil, or_false]
    tauto

theorem Tab.keeps_logout (h : t.Kept sent stopped trig) : Tab.Keeps sent stopped trig t.logout := by
  unfold Tab.logout
  split
  · exact Tab.keeps_cons (Tab.keeps_setUser h none) (.inr ⟨_, rfl⟩)
  · exact Tab.keeps_setUser h none

theorem Tab.keeps_loadedTriggerStatus (h : t.Kept sent stopped trig) (s : TriggerStatus) :
    Tab.Keeps sent stopped trig (t.loadedTriggerStatus s) := by
  unfold Tab.loadedTriggerStatus
  dsimp only
  split
  · rename_i e c ha _
    -- a tab without an episode has nothing to fix
    have hreq : t.autoResolveRequestedRef = false := by
      by_contra hc
      obtain ⟨_, _, ha', -⟩ := h.requested (by simpa using hc)
      simp [ha] at ha'
    have hfired : t.autoResolveFiredRef = false := by
      by_contra hc
      obtain ⟨_, _, ha', -⟩ := h.fired (by simpa using hc)
      simp [ha] at ha'
    exact Tab.keeps_rerun h rfl rfl rfl rfl (.inr ⟨hreq, hfired⟩)
  · have hm := h.more [] (by simp)
    exact ⟨hm.fresh, hm.requested, hm.fired, hm.polls, hm.chained⟩

/-- The refs are clear when the answer to the trigger comes. -/
theorem Tab.keeps_injected (h : t.Kept sent stopped trig) (hreq : t.autoResolveRequestedRef = false)
    (hfired : t.autoResolveFiredRef = false) (e : Nat) (c : String) : Tab.Keeps sent stopped trig (t.injected e c) :=
  Tab.keeps_cons (Tab.keeps_rerun h rfl rfl rfl rfl (.inr ⟨hreq, hfired⟩)) (.inl rfl)

theorem Tab.keeps_handleTrigger (h : t.Kept sent stopped trig) (c : String) (trig' : Prop) :
    Tab.Keeps sent stopped trig' (t.handleTrigger c) := by
  have hm := h.more [.inject c] fun q hq => .inr (.inr (.inl ⟨c, List.mem_singleton.1 hq⟩))
  exact ⟨fun _ => ⟨rfl, rfl, rfl⟩, fun hr => by simp [Tab.handleTrigger] at hr, fun hf => by simp [Tab.handleTrigger] at hf,
    hm.polls, hm.chained⟩

theorem Tab.keeps_handleDiagnoseAndFix (h : t.Kept sent stopped trig) : Tab.Keeps sent stopped trig t.handleDiagnoseAndFix := by
  unfold Tab.handleDiagnoseAndFix
  split
  · rename_i e c d ha hl
    have ht : ¬ trig := fun ht => by simp [(h.fresh ht).1] at hl
    dsimp only
    split
    · have hm := h.more [.stopHold e] fun q hq => .inr (.inr (.inr (.inl ⟨e, List.mem_singleton.1 hq⟩)))
      exact ⟨fun hp => absurd hp ht, fun _ => ⟨e, c, ha, .inr (by simp)⟩, hm.fired, hm.polls, hm.chained⟩
    · split
      · have hm := h.more [.resolve e false] fun q hq => .inr (.inr (.inr (.inr ⟨e, List.mem_singleton.1 hq⟩)))
        exact ⟨hm.fresh, hm.requested, hm.fired, hm.polls, hm.chained⟩
      · have hm := h.more [] (by simp)
        exact ⟨hm.fresh, hm.requested, hm.fired, hm.polls, hm.chained⟩
  · exact h.more [] (by simp)

theorem Tab.finish_fields (t : Tab) (d : LiveStatus) : (t.finish d).1.live = t.live ∧
    (t.finish d).1.autoResolveRequestedRef = t.autoResolveRequestedRef ∧
    (t.finish d).1.autoResolveFiredRef = t.autoResolveFiredRef ∧ (t.finish d).1.effect = t.effect ∧
    (t.finish d).1.activeEpisode = t.activeEpisode ∧ ∀ q ∈ (t.finish d).2, q = .triggerStatus := by
  unfold Tab.finish
  split <;> simp

/-- The chain fires for an episode that was asked for. -/
theorem Tab.keeps_chain (h : t.Kept sent stopped trig) (ht : ¬ trig) {e : Nat} {c : String} {d : LiveStatus}
    (ha : t.activeEpisode = some (e, c)) (hd : d.stopHoldRequested = true → stopped e) :
    Tab.Keeps sent stopped trig (t.chain e d) := by
  unfold Tab.chain
  split
  · rename_i hc
    simp only [Bool.and_eq_true, Bool.or_eq_true] at hc
    refine ⟨fun hp => absurd hp ht, fun hr => by simp at hr, fun _ => ⟨e, c, ha, .inr (by simp)⟩, fun e' n hn => ?_, fun e' he => ?_⟩
    · exact h.polls e' n (hn.resolve_right (by simp))
    · rcases he with he | he
      · exact (h.chained e' he).imp_left .inl
      · obtain rfl : e' = e := by simpa using he
        rcases hc.1.1 with hr | hs
        · obtain ⟨e₀, c₀, ha₀, hs⟩ := h.requested hr
          obtain ⟨rfl, -⟩ : e₀ = e' ∧ c₀ = c := by simpa [ha₀] using ha
          exact .inl (.inl hs)
        · exact .inr (hd hs)
  · exact h.more [] (by simp)

theorem Tab.keeps_polled (h : t.Kept sent stopped trig) (ht : ¬ trig) {e : Nat} {c : String} {d : LiveStatus}
    (ha : t.activeEpisode = some (e, c)) (hd : d.stopHoldRequested = true → stopped e) :
    Tab.Keeps sent stopped trig (t.polled e d) := by
  obtain ⟨-, hr, hf, hn, hact, hqs⟩ := Tab.finish_fields { t with live := some d } d
  have hm := h.more (Tab.finish { t with live := some d } d).2 fun q hq => .inl (hqs q hq)
  have hfin : Tab.Keeps sent stopped trig (Tab.finish { t with live := some d } d) := by
    refine ⟨fun hp => absurd hp ht, ?_, ?_, ?_, hm.chained⟩
    · rw [hr, hact]
      exact hm.requested
    · rw [hf, hact]
      exact hm.fired
    · rw [hn, hact]
      exact hm.polls
  refine (Tab.keeps_chain hfin ht (hact.trans ha) hd).congr fun q => ?_
  simp only [Tab.polled, List.mem_append, or_assoc]

/-- Told that a hold was to be stopped and is, a tab asks for the fix, unless it has. -/
theorem Tab.polled_fires {e : Nat} {d : LiveStatus} (hf : t.autoResolveFiredRef = false) (hd : d.stopHoldRequested = true)
    (hs : d.episodeState = some awaitingFix) : .resolve e true ∈ (t.polled e d).2 := by
  have hfin : (Tab.finish { t with live := some d } d).1.autoResolveFiredRef = false :=
    (Tab.finish_fields { t with live := some d } d).2.2.1.trans hf
  refine List.mem_append_right _ ?_
  rw [Tab.chain, if_pos (by simp [hd, hs, hfin])]
  exact List.mem_singleton_self _

theorem Tab.polled_live (e : Nat) (d : LiveStatus) : (t.polled e d).1.live = some d := by
  have hlive : (Tab.finish { t with live := some d } d).1.live = some d := (Tab.finish_fields { t with live := some d } d).1
  unfold Tab.polled Tab.chain
  dsimp only
  split <;> exact hlive

/-- What an answer does to a tab: an episode's own trigger was under way, and no other's. -/
theorem Tab.keeps_receive (h : t.Kept sent stopped trig) (q : Request) (a : Answer)
    (htrig : (∃ c, q = .inject c) → t.autoResolveRequestedRef = false ∧ t.autoResolveFiredRef = false)
    (hlive : ∀ e d, q = .liveStatus e t.effect → a = .live d →
      ¬ trig ∧ (∃ c, t.activeEpisode = some (e, c)) ∧ (d.stopHoldRequested = true → stopped e)) :
    Tab.Keeps sent stopped trig (t.receive q a) := by
  unfold Tab.receive
  split
  · exact Tab.keeps_loadedTriggerStatus h _
  · split
    · rename_i e n d hn
      subst hn
      obtain ⟨ht, ⟨c, ha⟩, hd⟩ := hlive e d rfl rfl
      exact Tab.keeps_polled h ht ha hd
    · exact h.more [] (by simp)
  · rename_i c e
    exact Tab.keeps_injected h (htrig ⟨c, rfl⟩).1 (htrig ⟨c, rfl⟩).2 e c
  · exact h.more [] (by simp)

theorem Tab.not_inject_poll (c : String) : .inject c ∉ t.poll := fun h => by
  obtain ⟨_, _, -, hq⟩ := Tab.mem_poll h
  cases hq

theorem Tab.not_inject_rerun (c : String) : .inject c ∉ t.rerun.2 := Tab.not_inject_poll c

theorem Tab.not_inject_logout (c : String) : .inject c ∉ t.logout.2 := by
  unfold Tab.logout Tab.setUser
  split
  · simpa using Tab.not_inject_rerun c
  · exact Tab.not_inject_rerun c

theorem Tab.not_inject_handleDiagnoseAndFix (c : String) : .inject c ∉ t.handleDiagnoseAndFix.2 := by
  unfold Tab.handleDiagnoseAndFix
  dsimp only
  split
  · split
    · simp
    · split <;> simp
  · simp

/-- Only `handleTrigger` triggers. -/
theorem Tab.not_inject_receive (q : Request) (a : Answer) (c : String) : .inject c ∉ (t.receive q a).2 := by
  unfold Tab.receive
  split
  · unfold Tab.loadedTriggerStatus
    dsimp only
    split
    · exact Tab.not_inject_poll c
    · simp
  · split
    · rename_i e n d hn
      have hfin := (Tab.finish_fields { t with live := some d } d).2.2.2.2.2
      simp only [Tab.polled, List.mem_append, not_or]
      refine ⟨fun hc => Request.noConfusion (hfin _ hc), ?_⟩
      unfold Tab.chain
      split <;> simp
    · simp
  · simpa [Tab.injected] using Tab.not_inject_rerun c
  · simp

/-! ### The chain's shots -/

/-- A reaction that fires the chain had not fired it before; one that lets it fire again triggers. -/
def Tab.Fair (t : Tab) (r : Tab × List Request) : Prop :=
  r.2.countP Request.chains + t.autoResolveFiredRef.toNat ≤ r.2.countP Request.triggers + r.1.autoResolveFiredRef.toNat

theorem Tab.fair_of_quiet {r : Tab × List Request} (hq : ∀ q ∈ r.2, q.chains = false)
    (hf : r.1.autoResolveFiredRef = t.autoResolveFiredRef) : t.Fair r := by
  have h0 : r.2.countP Request.chains = 0 := List.countP_eq_zero.2 fun q h => by simp [hq q h]
  rw [Tab.Fair, h0, hf]
  omega

theorem Tab.chains_poll {q : Request} (hq : q ∈ t.poll) : q.chains = false := by
  obtain ⟨_, _, -, rfl⟩ := Tab.mem_poll hq
  rfl

theorem Tab.fair_rerun {t' : Tab} (hf : t'.autoResolveFiredRef = t.autoResolveFiredRef) : t.Fair t'.rerun :=
  Tab.fair_of_quiet (fun _ => Tab.chains_poll) hf

theorem Tab.chains_rerun {q : Request} (hq : q ∈ t.rerun.2) : q.chains = false := Tab.chains_poll hq

theorem Tab.fair_logout : t.Fair t.logout := by
  unfold Tab.logout Tab.setUser
  split
  · refine Tab.fair_of_quiet (fun q hq => ?_) rfl
    rcases List.mem_cons.1 hq with rfl | hq
    · rfl
    · exact Tab.chains_rerun hq
  · exact Tab.fair_rerun rfl

theorem Tab.fair_handleTrigger (c : String) : t.Fair (t.handleTrigger c) := by
  have := Bool.toNat_le t.autoResolveFiredRef
  simpa [Tab.Fair, Tab.handleTrigger, Request.chains, Request.triggers] using this

theorem Tab.fair_handleDiagnoseAndFix : t.Fair t.handleDiagnoseAndFix := by
  unfold Tab.handleDiagnoseAndFix
  dsimp only
  split
  · split
    · exact Tab.fair_of_quiet (by simp [Request.chains]) rfl
    · split
      · exact Tab.fair_of_quiet (by simp [Request.chains]) rfl
      · exact Tab.fair_of_quiet (by simp) rfl
  · exact Tab.fair_of_quiet (by simp) rfl

theorem Tab.fair_chain (e : Nat) (d : LiveStatus) : t.Fair (t.chain e d) := by
  unfold Tab.chain
  split
  · rename_i hc
    simp only [Bool.and_eq_true, Bool.not_eq_true'] at hc
    simp [Tab.Fair, hc.1.2, Request.chains, Request.triggers]
  · exact Tab.fair_of_quiet (by simp) rfl

theorem Tab.fair_receive (q : Request) (a : Answer) : t.Fair (t.receive q a) := by
  unfold Tab.receive
  split
  · unfold Tab.loadedTriggerStatus
    dsimp only
    split
    · exact Tab.fair_rerun rfl
    · exact Tab.fair_of_quiet (by simp) rfl
  · split
    · rename_i e n d hn
      obtain ⟨-, -, hf, -, -, hqs⟩ := Tab.finish_fields { t with live := some d } d
      have h := Tab.fair_chain (t := (Tab.finish { t with live := some d } d).1) e d
      have h0 : (Tab.finish { t with live := some d } d).2.countP Request.chains = 0 :=
        List.countP_eq_zero.2 fun q hq => by simp [hqs q hq, Request.chains]
      simp only [Tab.Fair, Tab.polled, List.countP_append, h0, hf] at h ⊢
      omega
    · exact Tab.fair_of_quiet (by simp) rfl
  · refine Tab.fair_of_quiet (fun q hq => ?_) rfl
    rcases List.mem_cons.1 hq with rfl | hq
    · rfl
    · exact Tab.chains_poll hq
  · exact Tab.fair_of_quiet (by simp) rfl

end Tab

end Wardence.Live
