import Wardence.Live.Committed
/-!
# One click is enough

`fix_request_kept`: whatever tabs are opened, loaded again or left, and however their requests and
answers are delayed, reordered or lost, the operator's decision to stop a hold and fix is carried out
by every tab that comes to see it, and by no tab without it.
-/
namespace Wardence.Live

open Threads EpisodeState

/-! ## What the system keeps -/

namespace Sys
variable {s : Sys} {p k : Nat} {g : Stage} {f : Tab → Tab × List Request} {t : Tab}

structure Kept (s : Sys) : Prop where
  tabs : ∀ p (t : Tab), s.tabs[p]? = some t → t.Kept (s.Sent p) s.api.world.Stopped (s.Triggering p)
  letters : ∀ l ∈ s.letters, l.tab < s.tabs.length
  answers : ∀ l ∈ s.letters, ∀ e n d, l.request = .liveStatus e n → l.stage = .answered (.live d) →
    d.stopHoldRequested = true → s.api.world.Stopped e

/-- A letter changes its stage, and the others stay as they are. -/
theorem of_mem_stage {l' : Letter} (h : l' ∈ (s.stage k g).letters) :
    l' ∈ s.letters ∨ ∃ l, s.letters[k]? = some l ∧ l' = { l with stage := g } := by
  obtain ⟨i, hi⟩ := List.mem_iff_getElem?.1 h
  simp only [stage, List.getElem?_modify] at hi
  split at hi
  · rename_i hk
    subst hk
    cases hl : s.letters[k]? with
    | none => simp [hl] at hi
    | some l =>
      rw [hl] at hi
      exact .inr ⟨l, rfl, (Option.some.inj hi).symm⟩
  · exact .inl (List.mem_of_getElem? (by simpa using hi))

theorem sends_stage : (s.stage k g).sends = s.sends := by
  refine List.ext_getElem? fun i => ?_
  simp only [sends, stage, List.getElem?_map, List.getElem?_modify]
  cases s.letters[i]? with
  | none => rfl
  | some l =>
    split
    · rfl
    · rfl

theorem sent_of_letter {l : Letter} (h : l ∈ s.letters) : s.Sent l.tab l.request := List.mem_map.2 ⟨l, h, rfl⟩

theorem triggering_stage (hg : ∀ l, s.letters[k]? = some l → l.stage = .closed → g = .closed) (h : (s.stage k g).Triggering p) :
    s.Triggering p := by
  obtain ⟨l', hl', hp, hc, hn⟩ := h
  rcases of_mem_stage hl' with h | ⟨l, hl, rfl⟩
  · exact ⟨l', h, hp, hc, hn⟩
  · exact ⟨l, List.mem_of_getElem? hl, hp, hc, fun hcl => hn (hg l hl hcl)⟩

/-- A letter goes on to a stage that a closed one never has, with an answer that the row bears out. -/
theorem Kept.stage (h : s.Kept) (hg : ∀ l, s.letters[k]? = some l → l.stage = .closed → g = .closed)
    (ha : ∀ l, s.letters[k]? = some l → ∀ e n d, l.request = .liveStatus e n → g = .answered (.live d) →
      d.stopHoldRequested = true → s.api.world.Stopped e) : (s.stage k g).Kept := by
  refine ⟨fun p t ht => ?_, fun l' hl' => ?_, fun l' hl' e n d hq hs hd => ?_⟩
  · exact ((h.tabs p t ht).congr fun q => by rw [Sent, Sent, sends_stage]).mono (fun _ => id) (triggering_stage hg)
  · rcases of_mem_stage hl' with hl | ⟨l, hl, rfl⟩
    · exact h.letters l' hl
    · exact h.letters l (List.mem_of_getElem? hl)
  · rcases of_mem_stage hl' with hl | ⟨l, hl, rfl⟩
    · exact h.answers l' hl e n d hq hs hd
    · exact ha l hl e n d hq hs hd

theorem Kept.api (h : s.Kept) {st : State World Stmt Job} (hst : ∀ e, s.api.world.Stopped e → st.world.Stopped e) :
    Kept { s with api := st } :=
  ⟨fun p t ht => (h.tabs p t ht).mono hst id, h.letters, fun l hl e n d hq hs hd => hst e (h.answers l hl e n d hq hs hd)⟩

theorem on_eq (ht : s.tabs[p]? = some t) : s.on p f = { s with
    tabs := s.tabs.set p (f t).1
    letters := s.letters ++ (f t).2.map fun q => ⟨p, (f t).1.user, q, .sent⟩ } := by
  simp only [on, ht]

theorem on_of_none (ht : s.tabs[p]? = none) : s.on p f = s := by
  simp only [on, ht]

theorem sends_on (ht : s.tabs[p]? = some t) : (s.on p f).sends = s.sends ++ (f t).2.map fun q => (p, q) := by
  simp [on_eq ht, sends, Function.comp_def]

theorem sent_on (ht : s.tabs[p]? = some t) (p' : Nat) (q : Request) :
    (s.on p f).Sent p' q ↔ s.Sent p' q ∨ (p' = p ∧ q ∈ (f t).2) := by
  simp only [Sent, sends_on ht, List.mem_append, List.mem_map, Prod.mk.injEq]
  refine or_congr_right ⟨?_, ?_⟩
  · rintro ⟨q', hq', rfl, rfl⟩
    exact ⟨rfl, hq'⟩
  · rintro ⟨rfl, hq⟩
    exact ⟨q, hq, rfl, rfl⟩

theorem triggering_on (ht : s.tabs[p]? = some t) {p' : Nat} (h : (s.on p f).Triggering p') :
    s.Triggering p' ∨ (p' = p ∧ ∃ c, .inject c ∈ (f t).2) := by
  obtain ⟨l, hl, hp, hc, hn⟩ := h
  simp only [on_eq ht, List.mem_append, List.mem_map] at hl
  rcases hl with hl | ⟨q, hq, rfl⟩
  · exact .inl ⟨l, hl, hp, hc, hn⟩
  · cases q with
    | inject c => exact .inr ⟨hp.symm, c, hq⟩
    | _ => cases hc

theorem Kept.on (h : s.Kept) (ht : s.tabs[p]? = some t)
    (hk : Tab.Keeps (s.Sent p) s.api.world.Stopped (s.Triggering p ∨ ∃ c, .inject c ∈ (f t).2) (f t)) : (s.on p f).Kept := by
  have hlen : (s.on p f).tabs.length = s.tabs.length := by simp [on_eq ht]
  have hw : (s.on p f).api = s.api := by simp [on_eq ht]
  refine ⟨fun p' t' ht' => ?_, fun l hl => ?_, fun l hl e n d hq hs hd => ?_⟩
  · rw [hw]
    by_cases hp : p' = p
    · subst hp
      obtain rfl : (f t).1 = t' := by
        simpa [on_eq ht, List.getElem?_set_self (List.getElem?_eq_some_iff.1 ht).1] using ht'
      refine (hk.congr fun q => ?_).mono (fun _ => id) fun htr => ?_
      · simp [sent_on ht]
      · exact (triggering_on ht htr).imp_right (·.2)
    · have ht₀ : s.tabs[p']? = some t' := by simpa [on_eq ht, List.getElem?_set_ne (Ne.symm hp)] using ht'
      refine ((h.tabs p' t' ht₀).congr fun q => ?_).mono (fun _ => id) fun htr => ?_
      · simp [sent_on ht, hp]
      · exact (triggering_on ht htr).resolve_right fun hc => hp hc.1
  · rw [hlen]
    simp only [on_eq ht, List.mem_append, List.mem_map] at hl
    rcases hl with hl | ⟨q, -, rfl⟩
    · exact h.letters l hl
    · exact (List.getElem?_eq_some_iff.1 ht).1
  · rw [hw]
    simp only [on_eq ht, List.mem_append, List.mem_map] at hl
    rcases hl with hl | ⟨q, -, rfl⟩
    · exact h.answers l hl e n d hq hs hd
    · cases hs

theorem Kept.load (h : s.Kept) (ip : String) (user : Option User) : (s.act (.load ip user)).Kept := by
  have hsent : ∀ p q, (s.act (.load ip user)).Sent p q ↔ s.Sent p q ∨ (p = s.tabs.length ∧ q = .triggerStatus) := fun p q => by
    simp [Sent, sends, act, Tab.load]
  have htrig : ∀ p, (s.act (.load ip user)).Triggering p → s.Triggering p := by
    rintro p ⟨l, hl, hp, hc, hn⟩
    simp only [act, Tab.load, List.map_cons, List.map_nil, List.mem_append, List.mem_singleton] at hl
    rcases hl with hl | rfl
    · exact ⟨l, hl, hp, hc, hn⟩
    · cases hc
  have hnone : ∀ q, ¬ s.Sent s.tabs.length q := by
    intro q hq
    obtain ⟨l, hl, hp⟩ := List.mem_map.1 hq
    have := h.letters l hl
    simp only [Prod.mk.injEq] at hp
    omega
  refine ⟨fun p t ht => ?_, fun l hl => ?_, fun l hl e n d hq hs hd => ?_⟩
  · simp only [act, List.getElem?_append] at ht
    split at ht
    · rename_i hp
      refine ((h.tabs p t ht).congr fun q => ?_).mono (fun _ => id) (htrig p)
      simp [hsent, Nat.ne_of_lt hp]
    · obtain ⟨hp, rfl⟩ : p = s.tabs.length ∧ t = (Tab.load ip user).1 := by
        rcases hk : p - s.tabs.length with _ | j
        · rw [hk] at ht
          exact ⟨by omega, (Option.some.inj ht).symm⟩
        · simp [hk] at ht
      subst hp
      refine ⟨fun hp => ?_, fun hr => by simp [Tab.load] at hr, fun hf => by simp [Tab.load] at hf, fun e n hs => ?_, fun e hs => ?_⟩
      · obtain ⟨l, hl, hp, -⟩ := htrig _ hp
        exact absurd (h.letters l hl) (by omega)
      · exact absurd hs (by simp [hsent, hnone])
      · exact absurd hs (by simp [hsent, hnone])
  · simp only [act, Tab.load, List.map_cons, List.map_nil, List.mem_append, List.mem_singleton, List.length_append,
      List.length_cons, List.length_nil] at hl ⊢
    rcases hl with hl | rfl
    · have := h.letters l hl
      omega
    · exact Nat.lt_succ_self _
  · simp only [act, Tab.load, List.map_cons, List.map_nil, List.mem_append, List.mem_singleton] at hl
    rcases hl with hl | rfl
    · exact h.answers l hl e n d hq hs hd
    · cases hs

/-- A reaction that triggers nothing. -/
theorem Kept.reacts (h : s.Kept) (hk : ∀ t, s.tabs[p]? = some t → Tab.Keeps (s.Sent p) s.api.world.Stopped (s.Triggering p) (f t))
    (hn : ∀ t c, .inject c ∉ (f t).2) : (s.on p f).Kept := by
  cases ht : s.tabs[p]? with
  | none => rwa [on_of_none ht]
  | some t => exact h.on ht ((hk t ht).mono (fun _ => id) fun hc => hc.resolve_right fun ⟨c, hc⟩ => hn t c hc)

/-- What the API answers about an episode is what its row says. -/
theorem stopped_of_read {l : Letter} {ip : String} {w : World} {e n : Nat} {d : LiveStatus} (hq : l.request = .liveStatus e n)
    (hr : l.read ip w = some (.live d)) : d.stopHoldRequested = true ↔ w.Stopped e := by
  obtain ⟨tab, user, q, g⟩ := l
  subst hq
  cases user with
  | none => cases hr
  | some u =>
    simp only [Letter.read, triggerLiveStatus, Option.map_map, Option.map_eq_some_iff, Function.comp, Answer.live.injEq] at hr
    obtain ⟨r, hr, rfl⟩ := hr
    simp [World.Stopped, hr]

theorem Kept.reach (h : s.Kept) (k : Nat) : (s.reach k).Kept := by
  unfold Sys.reach
  split
  · rename_i l hl
    split
    · rename_i hs
      have hopen : ∀ g l', s.letters[k]? = some l' → l'.stage = .closed → g = Stage.closed := by
        rintro g l' hl' hc
        obtain rfl : l = l' := Option.some.inj (hl.symm.trans hl')
        simp [hs] at hc
      split
      · split
        · exact (h.stage (hopen _) fun _ _ _ _ _ _ hg => by cases hg).api fun e he => stopped_move he _
        · split
          · rename_i a ha
            refine h.stage (hopen _) fun l' hl' e n d hq hg hd => ?_
            obtain rfl : l = l' := Option.some.inj (hl.symm.trans hl')
            cases hg
            exact (stopped_of_read hq ha).1 hd
          · exact h
      · exact h
    · exact h
  · exact h

/-- A handler's answer is not about an episode's status. -/
theorem stage_of_answerOf {l : Letter} {d : LiveStatus} (h : s.answerOf l = some (.live d)) : l.stage = .answered (.live d) := by
  unfold answerOf at h
  split at h
  · rename_i hs
    rw [hs, Option.some.inj h]
  · unfold returned at h
    split at h
    · simp [Option.map_eq_some_iff] at h
    · cases h
    · cases h
  · cases h

theorem Kept.deliver (h : s.Kept) (hc : s.Orderly (.deliver k)) : (s.deliver k).Kept := by
  unfold Sys.deliver
  split
  · rename_i l hl
    split
    · rename_i a ha
      have hopen : l.stage ≠ .closed := fun hs => by simp [answerOf, hs] at ha
      have hclosed : (s.stage k .closed).Kept := h.stage (fun _ _ _ => rfl) fun _ _ _ _ _ _ hg => by cases hg
      refine hclosed.reacts (fun t ht => ?_) fun t c => Tab.not_inject_receive _ _ c
      have hmem := List.mem_of_getElem? hl
      refine Tab.keeps_receive (hclosed.tabs _ t ht) _ _ (fun ⟨c, hi⟩ => ?_) fun e d hq had => ?_
      · exact ((h.tabs _ t ht).fresh ⟨l, hmem, rfl, by rw [hi]; rfl, hopen⟩).2
      · subst had
        refine ⟨fun htr => hc l hl t ht (by simp [hq, Request.polls]) (triggering_stage (fun _ _ _ => rfl) htr), ?_, fun hd => ?_⟩
        · exact ((h.tabs _ t ht).polls e t.effect (hq ▸ sent_of_letter hmem)).2 rfl
        · exact h.answers l hmem e t.effect d hq (stage_of_answerOf ha) hd
    · exact h
  · exact h

theorem Kept.act (h : s.Kept) {a : Act} (hc : s.Orderly a) : (s.act a).Kept := by
  cases a with
  | api m => exact h.api fun e he => stopped_move he m
  | load ip user => exact h.load ip user
  | statusTimer p => exact h.reacts (fun t ht => (h.tabs p t ht).more _ fun q hq => .inl (List.mem_singleton.1 hq)) (by simp)
  | liveTimer p => exact h.reacts (fun t ht => Tab.keeps_poll (h.tabs p t ht)) fun t c => Tab.not_inject_poll c
  | setUser p user =>
    exact h.reacts (fun t ht => Tab.keeps_setUser (h.tabs p t ht) user) fun t c => Tab.not_inject_poll c
  | logout p => exact h.reacts (fun t ht => Tab.keeps_logout (h.tabs p t ht)) fun t c => Tab.not_inject_logout c
  | trigger p c =>
    cases ht : s.tabs[p]? with
    | none => simpa only [Sys.act, on_of_none ht] using h
    | some t => exact h.on ht (Tab.keeps_handleTrigger (h.tabs p t ht) c _)
  | diagnoseAndFix p =>
    exact h.reacts (fun t ht => Tab.keeps_handleDiagnoseAndFix (h.tabs p t ht)) fun t c => Tab.not_inject_handleDiagnoseAndFix c
  | reach k => exact h.reach k
  | deliver k => exact h.deliver hc
  | lose k => exact h.stage (fun _ _ _ => rfl) fun _ _ _ _ _ _ hg => by cases hg

/-! ### The chain's shots -/

def Sparing (s : Sys) : Prop :=
  ∀ p (t : Tab), s.tabs[p]? = some t → s.count p Request.chains ≤ s.count p Request.triggers + t.autoResolveFiredRef.toNat

theorem count_on (ht : s.tabs[p]? = some t) (p' : Nat) (kind : Request → Bool) :
    (s.on p f).count p' kind = s.count p' kind + if p' = p then (f t).2.countP kind else 0 := by
  rw [count, sends_on ht, List.countP_append, count, List.countP_map]
  split
  · rename_i hp
    simp [hp, Function.comp_def]
  · rename_i hp
    simp [Function.comp_def, Ne.symm hp]

theorem Sparing.on (h : s.Sparing) (hf : ∀ t : Tab, t.Fair (f t)) : (s.on p f).Sparing := by
  cases ht : s.tabs[p]? with
  | none => rwa [on_of_none ht]
  | some t =>
    intro p' t' ht'
    rw [count_on ht, count_on ht]
    by_cases hp : p' = p
    · subst hp
      obtain rfl : (f t).1 = t' := by
        simpa [on_eq ht, List.getElem?_set_self (List.getElem?_eq_some_iff.1 ht).1] using ht'
      have h1 := h p' t ht
      have h2 : _ ≤ _ := hf t
      simp only [if_true]
      omega
    · have ht₀ : s.tabs[p']? = some t' := by simpa [on_eq ht, List.getElem?_set_ne (Ne.symm hp)] using ht'
      simpa only [if_neg hp, Nat.add_zero] using h p' t' ht₀

theorem Sparing.stage (h : s.Sparing) : (s.stage k g).Sparing := by
  intro p t ht
  simpa only [count, sends_stage] using h p t ht

theorem count_of_lt (h : s.Kept) (hp : s.tabs.length ≤ p) (kind : Request → Bool) : s.count p kind = 0 := by
  refine List.countP_eq_zero.2 fun x hx => ?_
  obtain ⟨l, hl, rfl⟩ := List.mem_map.1 hx
  have := h.letters l hl
  simp [show l.tab ≠ p by omega]

theorem Sparing.act (h : s.Sparing) (hk : s.Kept) (a : Act) : (s.act a).Sparing := by
  cases a with
  | api m => exact h
  | load ip user =>
    intro p t ht
    have hcount : ∀ kind : Request → Bool, (s.act (.load ip user)).count p kind =
        s.count p kind + if s.tabs.length = p ∧ kind .triggerStatus = true then 1 else 0 := fun kind => by
      simp [count, sends, Sys.act, Tab.load, List.countP_append, List.countP_cons]
    rw [hcount, hcount]
    simp only [Request.chains, Request.triggers, Bool.false_eq_true, and_false, if_false, Nat.add_zero]
    simp only [Sys.act, List.getElem?_append] at ht
    split at ht
    · exact h p t ht
    · rename_i hp
      rw [count_of_lt hk (by omega)]
      exact Nat.zero_le _
  | statusTimer p => exact h.on fun t => Tab.fair_of_quiet (r := (t, [.triggerStatus])) (by simp [Request.chains]) rfl
  | liveTimer p => exact h.on fun t => Tab.fair_of_quiet (r := (t, t.poll)) (fun _ => Tab.chains_poll) rfl
  | setUser p user => exact h.on fun t => Tab.fair_rerun rfl
  | logout p => exact h.on fun t => Tab.fair_logout
  | trigger p c => exact h.on fun t => Tab.fair_handleTrigger c
  | diagnoseAndFix p => exact h.on fun t => Tab.fair_handleDiagnoseAndFix
  | reach k =>
    simp only [Sys.act, Sys.reach]
    split
    · split
      · split
        · split
          · exact h.stage
          · split
            · exact h.stage
            · exact h
        · exact h
      · exact h
    · exact h
  | deliver k =>
    simp only [Sys.act, Sys.deliver]
    split
    · split
      · exact h.stage.on fun t => Tab.fair_receive _ _
      · exact h
    · exact h
  | lose k => exact h.stage

/-! ## A letter's way -/

theorem letter_stage {l' : Letter} {i : Nat} (h : (s.stage i g).letters[k]? = some l') :
    ∃ l, s.letters[k]? = some l ∧ l'.tab = l.tab ∧ l'.request = l.request ∧ (l'.stage = l.stage ∨ (i = k ∧ l'.stage = g)) := by
  simp only [stage, List.getElem?_modify] at h
  cases hl : s.letters[k]? with
  | none => simp [hl] at h
  | some l =>
    rw [hl] at h
    refine ⟨l, rfl, ?_⟩
    split at h
    · rename_i hi
      obtain rfl := Option.some.inj h
      exact ⟨rfl, rfl, .inr ⟨hi, rfl⟩⟩
    · obtain rfl := Option.some.inj h
      exact ⟨rfl, rfl, .inl rfl⟩

theorem letter_on {l' : Letter} (h : (s.on p f).letters[k]? = some l') : l'.stage = .sent ∨ s.letters[k]? = some l' := by
  cases ht : s.tabs[p]? with
  | none => exact .inr (by rwa [on_of_none ht] at h)
  | some t =>
    simp only [on_eq ht, List.getElem?_append] at h
    split at h
    · exact .inr h
    · obtain ⟨q, -, rfl⟩ := List.mem_map.1 (List.mem_of_getElem? h)
      exact .inl rfl

/-- Letter `l` has become `l'`: it keeps its request, and its answer about an episode is what the world says. -/
def Became (s : Sys) (l l' : Letter) : Prop :=
  l'.tab = l.tab ∧ l'.request = l.request ∧
    ∀ d, l'.stage = .answered (.live d) → l.stage = .answered (.live d) ∨ l.read (s.ip l) s.api.world = some (.live d)

theorem Became.refl (l : Letter) : s.Became l l := ⟨rfl, rfl, fun _ => .inl⟩

theorem became_stage {l' : Letter} {i : Nat} (h : (s.stage i g).letters[k]? = some l') (hg : ∀ a, g ≠ .answered a) :
    ∃ l, s.letters[k]? = some l ∧ s.Became l l' := by
  obtain ⟨l, hl, hp, hq, hs⟩ := letter_stage h
  refine ⟨l, hl, hp, hq, fun d hd => ?_⟩
  rcases hs with hs | ⟨-, hs⟩
  · exact .inl (hs ▸ hd)
  · exact absurd (hs ▸ hd) (hg _)

theorem became_reach {l' : Letter} {i : Nat} (h : (s.reach i).letters[k]? = some l') :
    ∃ l, s.letters[k]? = some l ∧ s.Became l l' := by
  unfold Sys.reach at h
  split at h
  · rename_i m hm
    split at h
    · split at h
      · split at h
        · exact became_stage h fun _ hc => by cases hc
        · split at h
          · rename_i a ha
            obtain ⟨l, hl, hp, hq, hs⟩ := letter_stage h
            refine ⟨l, hl, hp, hq, fun d hd => ?_⟩
            rcases hs with hs | ⟨rfl, hs⟩
            · exact .inl (hs ▸ hd)
            · obtain rfl : m = l := Option.some.inj (hm.symm.trans hl)
              cases hs.symm.trans hd
              exact .inr ha
          · exact ⟨l', h, .refl l'⟩
      · exact ⟨l', h, .refl l'⟩
    · exact ⟨l', h, .refl l'⟩
  · exact ⟨l', h, .refl l'⟩

/-- After a move, a letter has just been sent, or it was there before. -/
theorem letter_act {a : Act} {l' : Letter} (h : (s.act a).letters[k]? = some l') :
    l'.stage = .sent ∨ ∃ l, s.letters[k]? = some l ∧ s.Became l l' := by
  have hon : ∀ {p : Nat} {f : Tab → Tab × List Request}, (s.on p f).letters[k]? = some l' →
      l'.stage = .sent ∨ ∃ l, s.letters[k]? = some l ∧ s.Became l l' :=
    fun h => (letter_on h).imp_right fun h => ⟨l', h, .refl l'⟩
  cases a with
  | api m => exact .inr ⟨l', h, .refl l'⟩
  | load ip user =>
    simp only [Sys.act, List.getElem?_append] at h
    split at h
    · exact .inr ⟨l', h, .refl l'⟩
    · obtain ⟨q, -, rfl⟩ := List.mem_map.1 (List.mem_of_getElem? h)
      exact .inl rfl
  | statusTimer p | liveTimer p | setUser p user | logout p | trigger p c | diagnoseAndFix p => exact hon h
  | reach i => exact .inr (became_reach h)
  | deliver i =>
    simp only [Sys.act, Sys.deliver] at h
    split at h
    · split at h
      · exact (letter_on h).imp_right fun h => became_stage h fun _ hc => by cases hc
      · exact .inr ⟨l', h, .refl l'⟩
    · exact .inr ⟨l', h, .refl l'⟩
  | lose i => exact .inr (became_stage h fun _ hc => by cases hc)

/-- A request to stop `e` is recorded, and what letter `k` tells of `e`, it tells since then. -/
structure Told (k e : Nat) (s : Sys) : Prop where
  stopped : s.api.world.Stopped e
  letter : ∀ l n d, s.letters[k]? = some l → l.request = .liveStatus e n → l.stage = .answered (.live d) → d.stopHoldRequested = true

theorem Told.act {e : Nat} (h : s.Told k e) (a : Act) : (s.act a).Told k e := by
  refine ⟨?_, fun l' n d hl' hq hd => ?_⟩
  · have hon : ∀ (p : Nat) (f : Tab → Tab × List Request), (s.on p f).api = s.api := fun p f => by
      unfold Sys.on
      split <;> rfl
    cases a with
    | api m => exact stopped_move h.stopped m
    | load => exact h.stopped
    | reach i =>
      simp only [Sys.act, Sys.reach]
      split
      · split
        · split
          · split
            · exact stopped_move h.stopped _
            · split <;> exact h.stopped
          · exact h.stopped
        · exact h.stopped
      · exact h.stopped
    | deliver i =>
      simp only [Sys.act, Sys.deliver]
      split
      · split
        · unfold Sys.on
          split <;> exact h.stopped
        · exact h.stopped
      · exact h.stopped
    | lose => exact h.stopped
    | _ =>
      simp only [Sys.act, hon]
      exact h.stopped
  · rcases letter_act hl' with hs | ⟨l, hl, -, hr, ha⟩
    · cases hs.symm.trans hd
    · rcases ha d hd with ha | ha
      · exact h.letter l n d hl (hr ▸ hq) ha
      · exact (stopped_of_read (hr ▸ hq) ha).2 h.stopped

end Sys

/-! ## Cards -/

/-- A tab that shows a recorded request offers no button to make it. -/
theorem Tab.card_committed {t : Tab} {d : LiveStatus} (hl : t.live = some d) (hd : d.stopHoldRequested = true) (c : String) (b : Bool) :
    (t.card c b).2 ≠ .diagnose ∧ (t.card c b).2 ≠ .revert := by
  unfold Tab.card
  cases hact : t.activeEpisode.any (·.2 = c) with
  | false =>
    simp only [Bool.false_eq_true, if_false, decide_true, Bool.or_true, Bool.true_or, if_true]
    split <;> simp
  | true =>
    -- the request is committed to, so no branch further down is reached
    simp only [hl, Option.any_some, hd, Bool.true_or, Bool.true_and, Bool.or_true, if_true]
    repeat' split
    all_goals simp

theorem Sys.kept_run {s : Sys} {acts : List Act} (h : Steps.Admits Sys.act Sys.Orderly s acts) (hs : s.Kept ∧ s.Sparing) :
    (s.run acts).Kept ∧ (s.run acts).Sparing :=
  Steps.Admits.invariant (I := fun s : Sys => s.Kept ∧ s.Sparing) (fun _ a hc hi => ⟨hi.1.act hc, hi.2.act hi.1 a⟩) h hs

theorem Sys.kept_start (w : World) : (Sys.start w).Kept ∧ (Sys.start w).Sparing := by
  refine ⟨⟨?_, ?_, ?_⟩, ?_⟩
  · simp [Sys.start]
  · simp [Sys.start]
  · simp [Sys.start]
  · simp [Sys.Sparing, Sys.start]

/-- A crash loop that is held, with its injector, and an API that is not running. -/
def held : World :=
  { idle with
    episodes := [⟨"crash-loop", some "ann", some 0, some "killed", some holding, 0, some 0, true, false, false, none, none⟩]
    procs := [⟨.injector 0, none⟩] }

/-- The API is started, and the operator has asked and loads the page again. -/
def asked : List Act :=
  (.post .onStartup :: turns 0 8).map .api ++
    [.load "10.0.0.1" (some (.admin, some "ann")), .reach 0, .deliver 0, .reach 1, .deliver 1, .diagnoseAndFix 0, .reach 2] ++
    (turns 2 4).map .api ++ [.load "10.0.0.1" (some (.admin, some "ann"))]

/-- The injector ends, and the new page polls. -/
def released : List Act := [.reach 3, .deliver 3] ++ (.env (.exit 0 0) :: turns 1 8).map .api ++ [.reach 4]

end Wardence.Live
