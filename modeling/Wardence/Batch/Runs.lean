import Wardence.Batch.Discipline
/-!
# What a run of the script keeps

What the rest of the world does to the progress file, the children and the rows;
and the invariants that one run of the script at a time can keep.
-/
namespace Wardence.Batch

open Threads

def Filed (w : World) (p : Progress) : Prop := ∃ ps : PlanState, w.file = some ps ∧ ps.toProgress = p ∧ ps.status ≠ .complete

def Proc.rows (q : Proc) : Nat := if q.row.isSome then 1 else 0

theorem countP_modify_of {α : Type} {P : α → Bool} {f : α → α} (h : ∀ x, P (f x) = P x) (l : List α) (r : Nat) :
    (l.modify r f).countP P = l.countP P := by
  induction l generalizing r with
  | nil => cases r <;> rfl
  | cons x l ih => cases r <;> simp [List.modify_succ_cons, List.countP_cons, h, ih]

theorem countP_modify_le {α : Type} {P : α → Bool} {f : α → α} (h : ∀ x, P x = true → P (f x) = true) (l : List α) (r : Nat) :
    l.countP P ≤ (l.modify r f).countP P := by
  induction l generalizing r with
  | nil => cases r <;> exact Nat.le_refl 0
  | cons x l ih =>
    cases r with
    | zero =>
      simp only [List.modify_zero_cons, List.countP_cons]
      have : (if P x = true then 1 else 0) ≤ (if P (f x) = true then 1 else 0) := by
        by_cases hx : P x = true
        · simp [hx, h x hx]
        · simp [hx]
      omega
    | succ r =>
      simp only [List.modify_succ_cons, List.countP_cons]
      exact Nat.add_le_add_right (ih r) _

section Env
variable {w w' : World} {p : Progress} {c : String}

theorem recording_eq {q : Proc} {x : String × Nat} : q.recording = some x ↔ q = ⟨.injector x.1 x.2, none, none⟩ := by
  obtain ⟨_ | _, _ | _, _ | _⟩ := q <;> simp [Proc.recording, Prod.ext_iff]

theorem recording_ended (q : Proc) (code : Int) : (q.ended code).recording = none := by
  obtain ⟨_ | _, _ | _, _ | _⟩ := q <;> rfl

theorem getElem?_modify_some {q : Proc} {l : List Proc} {pid pid' : Nat} {g : Proc → Proc} (h : (l.modify pid g)[pid']? = some q) :
    ∃ q', l[pid']? = some q' ∧ q = if pid = pid' then g q' else q' := by
  rw [List.getElem?_modify, Option.map_eq_map, Option.map_eq_some_iff] at h
  obtain ⟨q', hq', rfl⟩ := h
  exact ⟨q', hq', rfl⟩

theorem mem_modify {α : Type} {x : α} {l : List α} {r : Nat} {g : α → α} (h : x ∈ l.modify r g) : ∃ y ∈ l, x = y ∨ x = g y := by
  obtain ⟨k, hk⟩ := List.mem_iff_getElem?.1 h
  rw [List.getElem?_modify, Option.map_eq_map, Option.map_eq_some_iff] at hk
  obtain ⟨y, hy, rfl⟩ := hk
  refine ⟨y, List.mem_of_getElem? hy, ?_⟩
  by_cases hr : r = k
  · exact .inr (if_pos hr)
  · exact .inl (if_neg hr)

theorem count_append {e : Episode} (he : w'.episodes = w.episodes ++ [e]) (c : String) :
    w'.realEpisodeCount c = w.realEpisodeCount c + if e.faultClass = c then 1 else 0 := by
  unfold World.realEpisodeCount
  rw [he, List.countP_append, List.countP_singleton]
  simp only [decide_eq_true_eq]

theorem filed_env (x : Env) (h : Filed w p) : Filed (env x w) p := by
  cases x with
  | record pid => simp only [env]; cases w.procs[pid]?.bind Proc.recording <;> exact h
  | _ => exact h

theorem count_env (x : Env) (w : World) (c : String) : w.realEpisodeCount c ≤ (env x w).realEpisodeCount c := by
  unfold World.realEpisodeCount
  cases x with
  | record pid =>
    simp only [env]
    cases w.procs[pid]?.bind Proc.recording with
    | none => exact le_rfl
    | some x => exact (List.sublist_append_left _ _).countP_le
  | score r => exact (countP_modify_of (f := fun e : Episode => { e with scored := true }) (fun _ => rfl) _ _).ge
  | live c' => exact (List.sublist_append_left _ _).countP_le
  | _ => exact le_rfl

theorem exitOf_env (x : Env) {pid : Nat} (h : (w.exitOf pid).isSome = true) : ((env x w).exitOf pid).isSome = true := by
  obtain ⟨q, hq, he⟩ : ∃ q, w.procs[pid]? = some q ∧ q.exit.isSome = true := by
    unfold World.exitOf at h
    cases hq : w.procs[pid]? with
    | none => simp [hq] at h
    | some q => exact ⟨q, rfl, by simpa [hq] using h⟩
  have hmod : ∀ (pid' : Nat) (g : Proc → Proc), (∀ q, q.exit.isSome = true → (g q).exit.isSome = true) →
      (((w.procs.modify pid' g)[pid]?).bind (·.exit)).isSome = true := by
    intro pid' g hg
    rw [List.getElem?_modify, hq]
    by_cases hp : pid' = pid
    · simpa [hp] using hg q he
    · simpa [hp] using he
  cases x with
  | record pid' =>
    simp only [env, World.exitOf]
    cases w.procs[pid']?.bind Proc.recording with
    | none => exact h
    | some x => exact hmod pid' _ fun _ h => h
  | exit pid' code => exact hmod pid' _ fun q _ => by simp [Proc.ended]
  | _ => exact h

theorem running_app {w w' : World} {s : Stmt} (h : app s w = some w') (hs : s ≠ .finish) : w'.running = w.running := by
  cases s with
  | sleepUntil t | wait pid =>
    simp only [app] at h
    split at h
    · rw [Option.some.inj h]
    · cases h
  | finish => exact (hs rfl).elim
  | _ => rw [← Option.some.inj h]

theorem running_env (x : Env) (w : World) : (env x w).running = w.running := by
  cases x with
  | record pid =>
    simp only [env]
    cases w.procs[pid]?.bind Proc.recording <;> rfl
  | _ => rfl

end Env

theorem fault_idle {φ : Phase} {s : Stmt} (h : (discipline.fault φ s).stage ≠ .idle) : φ.stage ≠ .idle := by
  obtain ⟨σ, f⟩ := φ
  rintro rfl
  exact h rfl

/-! ## One run at a time -/

/-- The next statement of a thread that moves meets `C`. -/
def Always (C : World → Stmt → Prop) (st : State World Stmt (Option (List Item))) : Move (Option (List Item)) Env → Prop
  | .step i => ∀ x ∈ st.next i, C st.world x.2
  | _ => True

instance (C : World → Stmt → Prop) [∀ w s, Decidable (C w s)] (st : State World Stmt (Option (List Item))) :
    (m : Move (Option (List Item)) Env) → Decidable (Always C st m)
  | .step i => inferInstanceAs (Decidable (∀ x ∈ st.next i, C st.world x.2))
  | .fail _ | .post _ | .env _ | .kill => .isTrue trivial

abbrev Log := List (Event World Stmt)

/-- What the script and its surroundings keep of the world and the log (`S`) and of
each thread's phase (`H`), as long as its statements meet `C`. A thread that acts is
the only one that is not idle. -/
structure Contract (C : World → Stmt → Prop) (S : World → Log → Prop) (H : World → Log → Nat → Phase → Prop) : Prop where
  idle : ∀ {w l i φ}, φ.stage = .idle → H w l i φ
  step : ∀ {w w' l i s φ φ'}, Rule φ s w φ' → app s w = some w' → S w l → H w l i φ → C w s →
    S w' (⟨i, s, w, false⟩ :: l) ∧ H w' (⟨i, s, w, false⟩ :: l) i φ'
  fail : ∀ {w l i s}, S w l → S w (⟨i, s, w, true⟩ :: l)
  others : ∀ {w l i k s ψ}, H w l k ψ → k ≠ i → H w (⟨i, s, w, true⟩ :: l) k ψ
  fault : ∀ {w l i} φ s, H w l i φ → H w (⟨i, s, w, true⟩ :: l) i (discipline.fault φ s)
  post : ∀ {w l}, S w l → S { w with running := true, stopRequested := false } l
  entry : ∀ {w l n}, (∀ ev ∈ l, ev.thread ≠ n) → H w l n ⟨.fresh, fun _ => 0⟩
  env : ∀ {w l} x, S w l → S (env x w) l
  around : ∀ {w l i φ} x, H w l i φ → H (Batch.env x w) l i φ
  kill : ∀ {w l}, S w l → S { w with running := false } l

/-- The contract is kept so far. -/
structure Kept (S : World → Log → Prop) (H : World → Log → Nat → Phase → Prop) (w : World) (ph : Nat → Option Phase) (l : Log) :
    Prop where
  state : S w l
  holds : ∀ i φ, ph i = some φ → H w l i φ
  single : ∀ i j φ ψ, ph i = some φ → ph j = some ψ → φ.stage ≠ .idle → ψ.stage ≠ .idle → i = j
  running : ∀ i φ, ph i = some φ → φ.stage ≠ .idle → w.running = true

/-- A runner is started where none runs. -/
theorem post_eq {j : Option (List Item)} {w w' : World} (h : batch.post j w = some w') :
    w.running = false ∧ w' = { w with running := true, stopRequested := false } := by
  cases hr : w.running with
  | false =>
    simp only [batch, hr, Bool.false_eq_true, if_false, Option.some.injEq] at h
    exact ⟨rfl, h.symm⟩
  | true => simp [batch, hr] at h

section Contract
variable {C : World → Stmt → Prop} {S : World → Log → Prop} {H : World → Log → Nat → Phase → Prop}
  {st : State World Stmt (Option (List Item))} {ph ph' : Nat → Option Phase} {w w' : World} {l l' : Log}

/-- Thread `i` goes from phase `φ` to `φ'`; a thread that is not idle is alone. -/
theorem Kept.update (h : Kept S H w ph l) (hC : Contract C S H) {i : Nat} {φ φ' : Phase} (hφ : ph i = some φ) (hs : S w' l')
    (hh : H w' l' i φ')
    (hothers : ∀ k ψ, k ≠ i → ph k = some ψ → ψ.stage ≠ .idle → H w' l' k ψ ∧ φ'.stage = .idle ∧ w'.running = true)
    (hr : φ'.stage ≠ .idle → w'.running = true) : Kept S H w' (Function.update ph i (some φ')) l' := by
  refine ⟨hs, ?_, ?_, ?_⟩
  · intro k ψ hψ
    rcases of_update hψ with ⟨rfl, rfl⟩ | ⟨hk, hψ'⟩
    · exact hh
    · by_cases hi : ψ.stage = .idle
      · exact hC.idle hi
      · exact (hothers k ψ hk hψ' hi).1
  · intro k k' ψ χ hψ hχ hne hne'
    rcases of_update hψ with ⟨rfl, rfl⟩ | ⟨hk, hψ'⟩
    · rcases of_update hχ with ⟨rfl, -⟩ | ⟨hk', hχ'⟩
      · rfl
      · exact (hne (hothers k' χ hk' hχ' hne').2.1).elim
    · rcases of_update hχ with ⟨rfl, rfl⟩ | ⟨hk', hχ'⟩
      · exact (hne' (hothers k ψ hk hψ' hne).2.1).elim
      · exact h.single k k' ψ χ hψ' hχ' hne hne'
  · intro k ψ hψ hne
    rcases of_update hψ with ⟨rfl, rfl⟩ | ⟨hk, hψ'⟩
    · exact hr hne
    · exact (hothers k ψ hk hψ' hne).2.2

theorem Kept.effect (h : Kept S H st.world ph st.log) (hC : Contract C S H) {m : Move (Option (List Item)) Env}
    (hc : Always C st m) (he : Effect batch discipline st ph m w ph' l) : Kept S H w ph' l := by
  cases he with
  | stay => exact h
  | @exec i j s φ φ' w hn hφ _ hr ha _ =>
    obtain ⟨hs, hh⟩ := hC.step hr ha h.state (h.holds i φ hφ) (hc _ (by rw [hn]; rfl))
    refine h.update hC hφ hs hh (fun k ψ hk hψ hne => (hk (h.single k i ψ φ hψ hφ hne hr.awake)).elim) fun hne => ?_
    rw [running_app ha (fun hs => hne (by subst hs; exact hr.asleep))]
    exact h.running i φ hφ hr.awake
  | spawn _ _ _ _ _ hsp => cases hsp
  | @fail i j s φ hn hφ _ =>
    refine h.update hC hφ (hC.fail h.state) (hC.fault φ s (h.holds i φ hφ))
      (fun k ψ hk hψ hne => ⟨hC.others (h.holds k ψ hψ) hk, ?_, h.running k ψ hψ hne⟩)
      fun hne => h.running i φ hφ (fault_idle hne)
    by_contra hidle
    exact hk (h.single k i ψ φ hψ hφ hne (fault_idle hidle))
  | @post j n w hp hn hl =>
    obtain ⟨hrun, rfl⟩ := post_eq hp
    have hidle : ∀ k ψ, ph k = some ψ → ψ.stage = .idle := by
      intro k ψ hψ
      by_contra hne
      rw [h.running k ψ hψ hne] at hrun
      cases hrun
    refine ⟨hC.post h.state, ?_, ?_, fun _ _ _ _ => rfl⟩
    · intro k ψ hψ
      rcases of_update hψ with ⟨rfl, rfl⟩ | ⟨-, hψ'⟩
      · exact hC.entry hl
      · exact hC.idle (hidle k ψ hψ')
    · exact single_update (fun φ => φ.stage = .idle) fun k ψ _ => hidle k ψ
  | env x =>
    exact ⟨hC.env x h.state, fun i φ hφ => hC.around x (h.holds i φ hφ), h.single,
      fun i φ hφ hne => (running_env x _).trans (h.running i φ hφ hne)⟩
  | kill =>
    exact ⟨hC.kill h.state, fun _ _ h => (by cases h), fun _ _ _ _ h => (by cases h), fun _ _ h => (by cases h)⟩

/-- What a contract keeps holds after every run whose statements meet `C`. -/
theorem Contract.holds (hC : Contract C S H) (h0 : S w []) {ms : List (Move (Option (List Item)) Env)}
    (hc : batch.Admits (Always C) ⟨w, [], []⟩ ms) : S (batch.run ⟨w, [], []⟩ ms).world (batch.run ⟨w, [], []⟩ ms).log := by
  have hag : Agrees batch discipline ⟨w, [], []⟩ fun _ => none := by
    constructor <;> simp
  have hk : Kept S H w (fun _ => none) [] :=
    ⟨h0, fun _ _ h => (by cases h), fun _ _ _ _ h => (by cases h), fun _ _ h => (by cases h)⟩
  obtain ⟨ph, -, h⟩ := batch.invariant batch_sound (Always C) (Kept S H)
    (fun st ph m w' ph' l _ h hm he => h.effect hC hm he) hag hk ms hc
  exact h.state

end Contract

/-! ## Where a run starts -/

/-- Where a batch runner first runs: no plan is there, nothing of one in the database, and no process. -/
structure World.Untouched (w : World) : Prop where
  file : w.file = none
  procs : w.procs = []
  running : w.running = false
  episodes : ∀ e ∈ w.episodes, e.plan = none

def quietWorld : World :=
  ⟨none, [], [], [], 0, 0, 0, true, true, true, false, false, false, false, []⟩

def steps (i n : Nat) : List (Move (Option (List Item)) Env) := List.replicate n (.step i)

end Wardence.Batch
