import Mathlib.Tactic.NormNum
import Wardence.Lib.Promql
import Wardence.React.Signals
/-!
# The OOM evidence of `query_prometheus`

The two queries of `agent.py` for pods that were killed for their memory, and the fallback from
the first to the second. In the second the bound on the age of the container is the bare name
`OOM_STICKY_MAX_CONTAINER_AGE_S`, which PromQL reads as the name of a metric.
-/
namespace Wardence.React

open Promql

/-! ## The queries -/

/-- `f'\x7btarget\x7d-[^-]+-[^-]+$'`; a dot of the target is any character, and what else is in the name of a
Deployment stands for itself. -/
def podRe (target : String) : List Item :=
  (target.toList.map fun d => Item.one fun c => (d = '.' && c ≠ '\n') || c = d) ++
    [literal '-', .many (· ≠ '-'), literal '-', .many (· ≠ '-')]

def LAST_TERMINATED_REASON : String := "kube_pod_container_status_last_terminated_reason"

def RESTARTS_TOTAL : String := "kube_pod_container_status_restarts_total"

def START_TIME : String := "container_start_time_seconds"

def podsOf (name target ns : String) (more : List Matcher) : Selector := ⟨name, .equal "namespace" ns :: .regex "pod" (podRe target) :: more⟩

def oomKilled (target ns : String) : Expr := .eqTo (.select (podsOf LAST_TERMINATED_REASON target ns [.equal "reason" "OOMKilled"])) 1

def oomQuery (target ns : String) : Expr :=
  .andOn ["namespace", "pod"] (oomKilled target ns) (.greater (.increase (podsOf RESTARTS_TOTAL target ns []) 360) 0)

def oomStickyQuery (target ns : String) : Expr :=
  .andOn ["namespace", "pod", "container"] (oomKilled target ns)
    (.lessThan (.age (.select (podsOf START_TIME target ns []))) (.select ⟨"OOM_STICKY_MAX_CONTAINER_AGE_S", []⟩))

def OOM_STICKY_MAX_CONTAINER_AGE_S : ℚ := 1200

/-- The series of a cluster; the restarts of a container are a count. -/
structure History where
  series : List Series
  counts : ∀ s ∈ series, s.name = RESTARTS_TOTAL → ∀ x ∈ s.samples, ∀ v, x.value = some v → 0 ≤ v

/-- `oom_pods`, of a query at `t`. -/
def oomPods (h : History) (target ns : String) (t : ℚ) : List String :=
  let pods := (eval h.series t (oomQuery target ns)).map fun x => label x.labels "pod"
  if pods.isEmpty then (eval h.series t (oomStickyQuery target ns)).map fun x => label x.labels "pod" else pods

/-! ## The rule -/

/-- A pod of a Deployment: its name, a hash and a suffix. -/
def PodOf (deployment pod : String) : Prop :=
  ∃ hash suffix : String, pod = deployment ++ "-" ++ hash ++ "-" ++ suffix ∧ hash ≠ "" ∧ suffix ≠ "" ∧ '-' ∉ hash.toList ∧ '-' ∉ suffix.toList

/-- A series of a pod. -/
def Of (h : History) (name ns pod : String) (s : Series) : Prop :=
  s ∈ h.series ∧ s.name = name ∧ s.label "namespace" = ns ∧ s.label "pod" = pod

/-- The last termination of a container of the pod was for its memory. -/
def Killed (h : History) (ns pod : String) (t : ℚ) (s : Series) : Prop :=
  Of h LAST_TERMINATED_REASON ns pod s ∧ s.label "reason" = "OOMKilled" ∧ s.at t = some 1

/-- Between two scrapes next to each other, of those from `a` to `b`, the counter went up, or started over and is up from 0. -/
def Rose (s : Series) (a b : ℚ) : Prop := ∃ l v w r, s.points a b = l ++ v :: w :: r ∧ (v.2 < w.2 ∨ w.2 < v.2 ∧ 0 < w.2)

/-- Killed, and restarted in the last six minutes. -/
def Fast (h : History) (ns pod : String) (t : ℚ) : Prop :=
  (∃ s, Killed h ns pod t s) ∧ ∃ s, Of h RESTARTS_TOTAL ns pod s ∧ Rose s (t - 360) t

/-- The start of the killed container, at `v`. -/
def Started (h : History) (ns pod : String) (t v : ℚ) (s : Series) : Prop :=
  Of h START_TIME ns pod s ∧ s.at t = some v ∧ ∃ k, Killed h ns pod t k ∧ k.label "container" = s.label "container"

/-- The killed container started a short time ago. -/
def Sticky (h : History) (ns pod : String) (t : ℚ) : Prop :=
  ∃ s v, Started h ns pod t v s ∧ t - v < OOM_STICKY_MAX_CONTAINER_AGE_S

/-- The killed container started less than a value ago that a metric of that name has under the labels of its start. -/
def Metered (h : History) (ns pod : String) (t : ℚ) : Prop :=
  ∃ s v, Started h ns pod t v s ∧ ∃ m ∈ h.series, m.name = "OOM_STICKY_MAX_CONTAINER_AGE_S" ∧ (∀ k, s.label k = m.label k) ∧
    ∃ q, m.at t = some q ∧ t - v < q

/-- A name that the target matches as a pattern: it may differ where the target has a dot. -/
def Resembles (target deployment : String) : Prop :=
  List.Forall₂ (fun d c => (d = '.' ∧ c ≠ '\n') ∨ c = d) target.toList deployment.toList

theorem toList_pod (d hash suffix : String) :
    (d ++ "-" ++ hash ++ "-" ++ suffix).toList = d.toList ++ '-' :: (hash.toList ++ '-' :: suffix.toList) := by
  simp [String.toList_append]

/-- Without a dot only the target itself does. -/
theorem resembles_of_dotless {target d : String} (ht : '.' ∉ target.toList) (h : Resembles target d) : d = target := by
  rw [← String.toList_inj]
  unfold Resembles at h
  generalize target.toList = cs at *
  generalize d.toList = ds at *
  induction h with
  | nil => rfl
  | @cons c e _ _ hc _ ih =>
    rw [List.mem_cons, not_or] at ht
    obtain ⟨rfl, -⟩ | rfl := hc
    · exact absurd rfl ht.1
    · rw [ih ht.2]

/-- What the pattern of the target matches: the pods of the Deployments that resemble it. -/
theorem podRe_iff {target pod : String} : matchAll (podRe target) pod.toList = true ↔ ∃ d, Resembles target d ∧ PodOf d pod := by
  have hsplit : podRe target = (target.toList.map fun d c => (d = '.' && c ≠ '\n') || c = d).map Item.one ++
      [literal '-', .many (· ≠ '-'), literal '-', .many (· ≠ '-')] := by
    simp [podRe]
  have hone : ∀ xs, List.Forall₂ (fun (p : Char → Bool) x => p x = true) (target.toList.map fun d c => (d = '.' && c ≠ '\n') || c = d) xs ↔
      List.Forall₂ (fun d c => (d = '.' ∧ c ≠ '\n') ∨ c = d) target.toList xs := by
    intro xs
    simp [List.forall₂_map_left_iff]
  rw [hsplit, matchAll_ones]
  simp only [hone, literal, matchAll_one, matchAll_many, matchAll_nil, decide_eq_true_eq]
  constructor
  · rintro ⟨xs, _, hpod, hx, _, _, rfl, rfl, hs, _, rfl, hne, hh, _, _, rfl, rfl, ss, _, rfl, hne', hh', rfl⟩
    refine ⟨String.ofList xs, by simpa [Resembles] using hx, String.ofList hs, String.ofList ss, ?_, ?_, ?_, ?_, ?_⟩
    · rw [← String.toList_inj, toList_pod, hpod]
      simp
    · simpa [← String.toList_inj] using hne
    · simpa [← String.toList_inj] using hne'
    · simpa using fun h => hh _ h rfl
    · simpa using fun h => hh' _ h rfl
  · rintro ⟨d, hd, hash, suffix, rfl, hh, hs, hh', hs'⟩
    refine ⟨d.toList, _, toList_pod .., hd, _, _, rfl, rfl, hash.toList, _, rfl, by simpa using hh, fun c hc => ?_, _, _, rfl, rfl,
      suffix.toList, [], by simp, by simpa using hs, fun c hc => ?_, rfl⟩
    · exact fun h => hh' (h ▸ hc)
    · exact fun h => hs' (h ▸ hc)

/-- What is before the last `c`, and what is after it. -/
theorem last_unique {α : Type} {c : α} {a a' b b' : List α} (h : a ++ c :: b = a' ++ c :: b') (hb : c ∉ b) (hb' : c ∉ b') :
    a = a' ∧ b = b' := by
  rcases List.append_eq_append_iff.1 h with ⟨x, rfl, hx⟩ | ⟨x, rfl, hx⟩
  · cases x with
    | nil => exact ⟨by simp, (List.cons.inj hx).2⟩
    | cons y x =>
      cases hx
      exact absurd (by simp) hb
  · cases x with
    | nil => exact ⟨by simp, (List.cons.inj hx).2.symm⟩
    | cons y x =>
      cases hx
      exact absurd (by simp) hb'

/-- A pod is of one Deployment. -/
theorem PodOf.unique {d d' pod : String} (h : PodOf d pod) (h' : PodOf d' pod) : d = d' := by
  obtain ⟨hash, suffix, rfl, -, -, hh, hs⟩ := h
  obtain ⟨hash', suffix', he, -, -, hh', hs'⟩ := h'
  rw [← String.toList_inj, toList_pod, toList_pod] at he
  have h1 : (d.toList ++ '-' :: hash.toList) ++ '-' :: suffix.toList = (d'.toList ++ '-' :: hash'.toList) ++ '-' :: suffix'.toList := by
    simpa using he
  obtain ⟨h2, -⟩ := last_unique h1 hs hs'
  exact String.toList_inj.1 (last_unique h2 hh hh').1

theorem resembles_self (target : String) : Resembles target target := by
  unfold Resembles
  induction target.toList with
  | nil => exact .nil
  | cons c cs ih => exact .cons (.inr rfl) ih

/-! ## What is listed -/

theorem picks_podsOf {name target ns : String} {more : List Matcher} {s : Series} :
    (podsOf name target ns more).picks s = true ↔ s.name = name ∧ s.label "namespace" = ns ∧
      matchAll (podRe target) (s.label "pod").toList = true ∧ ∀ m ∈ more, m.holds s.labels = true := by
  simp only [podsOf, Selector.picks, Matcher.holds, Series.label, List.all_cons, Bool.and_eq_true, decide_eq_true_eq, List.all_eq_true]
  exact and_congr_left fun _ => decide_eq_true_iff

theorem killed_iff {h : History} {target ns : String} {t : ℚ} {x : Element} :
    x ∈ eval h.series t (oomKilled target ns) ↔ ∃ s, Killed h ns (s.label "pod") t s ∧ matchAll (podRe target) (s.label "pod").toList = true ∧
      x = ⟨s.labels, 1⟩ := by
  rw [oomKilled, mem_eqTo, mem_select]
  constructor
  · rintro ⟨⟨s, hs, hp, v, hv, rfl⟩, rfl⟩
    obtain ⟨hname, hns, hpod, hr⟩ := picks_podsOf.1 hp
    exact ⟨s, ⟨⟨hs, hname, hns, rfl⟩, by simpa [Matcher.holds, Series.label] using hr, hv⟩, hpod, rfl⟩
  · rintro ⟨s, ⟨⟨hs, hname, hns, -⟩, hr, hv⟩, hpod, rfl⟩
    exact ⟨⟨s, hs, picks_podsOf.2 ⟨hname, hns, hpod, by simpa [Matcher.holds, Series.label] using hr⟩, 1, hv, rfl⟩, rfl⟩

theorem mem_oomQuery {h : History} {target ns pod : String} {t : ℚ} :
    (∃ x ∈ eval h.series t (oomQuery target ns), label x.labels "pod" = pod) ↔ matchAll (podRe target) pod.toList = true ∧ Fast h ns pod t := by
  simp only [oomQuery, mem_andOn, killed_iff, mem_greater, mem_increase, picks_podsOf]
  constructor
  · rintro ⟨_, ⟨⟨s, hk, hp, rfl⟩, y, ⟨⟨z, hz, ⟨hname, hns, -, -⟩, v, hv, rfl⟩, hpos⟩, hks⟩, rfl⟩
    refine ⟨hp, ⟨s, hk⟩, z, ⟨hz, hname, hns, (hks "pod" (by simp)).symm⟩, ?_⟩
    exact (z.increase_iff (h.counts z hz hname)).1 ⟨v, hv, hpos⟩
  · rintro ⟨hp, ⟨s, hk⟩, z, ⟨hz, hname, hns, hzp⟩, hrose⟩
    obtain ⟨v, hv, hpos⟩ := (z.increase_iff (h.counts z hz hname)).2 hrose
    obtain ⟨hs, hsname, hsns, rfl⟩ := hk.1
    refine ⟨_, ⟨⟨s, hk, hp, rfl⟩, _, ⟨⟨z, hz, ⟨hname, hns, hzp ▸ hp, by simp⟩, v, hv, rfl⟩, hpos⟩, ?_⟩, rfl⟩
    simp only [List.mem_cons, List.not_mem_nil, or_false, forall_eq_or_imp, forall_eq]
    exact ⟨hsns.trans hns.symm, hzp.symm⟩

theorem mem_oomStickyQuery {h : History} {target ns pod : String} {t : ℚ} :
    (∃ x ∈ eval h.series t (oomStickyQuery target ns), label x.labels "pod" = pod) ↔ matchAll (podRe target) pod.toList = true ∧ Metered h ns pod t := by
  simp only [oomStickyQuery, mem_andOn, killed_iff, mem_lessThan, mem_age, mem_select, picks_podsOf]
  constructor
  · rintro ⟨_, ⟨⟨k, hk, hp, rfl⟩, _, ⟨⟨_, ⟨s, hs, ⟨hname, hns, -, -⟩, v, hv, rfl⟩, rfl⟩, _, ⟨m, hm, hpick, q, hq, rfl⟩, hsame, hlt⟩, hks⟩, rfl⟩
    refine ⟨hp, s, v, ⟨⟨hs, hname, hns, (hks "pod" (by simp)).symm⟩, hv, k, hk, hks "container" (by simp)⟩, m, hm, ?_, hsame, q, hq, hlt⟩
    simpa [Selector.picks] using hpick
  · rintro ⟨hp, s, v, ⟨⟨hs, hname, hns, hsp⟩, hv, k, hk, hc⟩, m, hm, hmn, hsame, q, hq, hlt⟩
    obtain ⟨hks, hkname, hkns, rfl⟩ := hk.1
    refine ⟨_, ⟨⟨k, hk, hp, rfl⟩, _, ⟨⟨_, ⟨s, hs, ⟨hname, hns, hsp ▸ hp, by simp⟩, v, hv, rfl⟩, rfl⟩, _,
      ⟨m, hm, by simpa [Selector.picks] using hmn, q, hq, rfl⟩, hsame, hlt⟩, ?_⟩, rfl⟩
    simp only [List.mem_cons, List.not_mem_nil, or_false, forall_eq_or_imp, forall_eq]
    exact ⟨hkns.trans hns.symm, hsp.symm, hc⟩

/-- The pods of the first query; where there are none, those of the second. -/
theorem mem_oomPods {h : History} {target ns pod : String} {t : ℚ} : pod ∈ oomPods h target ns t ↔
    matchAll (podRe target) pod.toList = true ∧
      (Fast h ns pod t ∨ Metered h ns pod t ∧ ∀ other, matchAll (podRe target) other.toList = true → ¬ Fast h ns other t) := by
  have fast : ∀ pod, pod ∈ (eval h.series t (oomQuery target ns)).map (fun x => label x.labels "pod") ↔
      matchAll (podRe target) pod.toList = true ∧ Fast h ns pod t := fun pod => by rw [List.mem_map, mem_oomQuery]
  have sticky : ∀ pod, pod ∈ (eval h.series t (oomStickyQuery target ns)).map (fun x => label x.labels "pod") ↔
      matchAll (podRe target) pod.toList = true ∧ Metered h ns pod t := fun pod => by rw [List.mem_map, mem_oomStickyQuery]
  simp only [oomPods]
  cases he : ((eval h.series t (oomQuery target ns)).map fun x => label x.labels "pod").isEmpty with
  | true =>
    have none : ∀ other, matchAll (podRe target) other.toList = true → ¬ Fast h ns other t := by
      intro other hm hf
      have := (fast other).2 ⟨hm, hf⟩
      rw [List.isEmpty_iff.1 he] at this
      cases this
    rw [if_pos rfl, sticky]
    exact and_congr_right fun hm => ⟨fun hs => .inr ⟨hs, none⟩, fun hs => hs.elim (fun hf => absurd hf (none pod hm)) And.left⟩
  | false =>
    obtain ⟨other, ho⟩ := List.exists_mem_of_ne_nil _ (List.isEmpty_eq_false_iff.1 he)
    obtain ⟨hm, hf⟩ := (fast other).1 ho
    rw [if_neg (by simp), fast]
    exact and_congr_right fun _ => ⟨.inl, fun hs => hs.elim id fun hs => absurd hf (hs.2 other hm)⟩

/-! ## The rule and the list -/

/-- A pod of the target that the rule names. -/
def Named (h : History) (target ns : String) (t : ℚ) (pod : String) : Prop :=
  PodOf target pod ∧ (Fast h ns pod t ∨ Sticky h ns pod t ∧ ∀ other, PodOf target other → ¬ Fast h ns other t)

/-- The list has the pods that the rule names, they are diagnosed, and it has no pod of another Deployment. -/
structure Evident (h : History) (target ns : String) (t : ℚ) : Prop where
  complete : ∀ pod, Named h target ns t pod → pod ∈ oomPods h target ns t
  diagnosed : ∀ pod, Named h target ns t pod → ∀ cfg (o : ToolOutput), o.oomPods = (oomPods h target ns t).map some → stubDiagnose cfg o = "oom"
  own : ∀ pod ∈ oomPods h target ns t, ∀ d, PodOf d pod → d = target

theorem stubDiagnose_oom {cfg : Config} {o : ToolOutput} (h : o.oomPods ≠ []) : stubDiagnose cfg o = "oom" := by
  have : o.oomPods.isEmpty = false := by simpa using h
  simp [stubDiagnose, firedBy, Signal.ORDER, Signal.holds, this, Signal.diagnosis]

/-- The first query lists nothing, where neither the target nor a Deployment that resembles it has a pod for it. -/
theorem none_fast {h : History} {target ns : String} {t : ℚ} (hown : ∀ pod, PodOf target pod → ¬ Fast h ns pod t)
    (hforeign : ∀ d, d ≠ target → Resembles target d → ∀ pod, PodOf d pod → ¬ Fast h ns pod t) :
    ∀ other, matchAll (podRe target) other.toList = true → ¬ Fast h ns other t := by
  intro other hm
  obtain ⟨d, hr, hp⟩ := podRe_iff.1 hm
  by_cases hd : d = target
  · subst hd
    exact hown other hp
  · exact hforeign d hd hr other hp

/-- The evidence is as the rule has it exactly if a pod was killed and restarted of late, or the metric that the second
query asks for bounds the age of every container it should, and if no Deployment that resembles the target has such a pod. -/
theorem oomEvident_iff (h : History) (target ns : String) (t : ℚ) : Evident h target ns t ↔
    ((∃ pod, PodOf target pod ∧ Fast h ns pod t) ∨ ∀ pod, PodOf target pod → Sticky h ns pod t → Metered h ns pod t) ∧
    ∀ d, d ≠ target → Resembles target d → ∀ pod, PodOf d pod →
      ¬ Fast h ns pod t ∧ ((∃ own, PodOf target own ∧ Fast h ns own t) ∨ ¬ Metered h ns pod t) := by
  have own : ∀ pod, PodOf target pod → matchAll (podRe target) pod.toList = true := fun pod hp =>
    podRe_iff.2 ⟨target, resembles_self target, hp⟩
  constructor
  · intro he
    have foreign : ∀ d, d ≠ target → Resembles target d → ∀ pod, PodOf d pod → ¬ Fast h ns pod t := by
      intro d hd hr pod hp hf
      have hmem := mem_oomPods.2 ⟨podRe_iff.2 ⟨d, hr, hp⟩, .inl hf⟩
      exact hd (he.own pod hmem d hp)
    by_cases hn : ∃ pod, PodOf target pod ∧ Fast h ns pod t
    · exact ⟨.inl hn, fun d hd hr pod hp => ⟨foreign d hd hr pod hp, .inl hn⟩⟩
    -- Without such a pod the second query is made.
    · have quiet : ∀ pod, PodOf target pod → ¬ Fast h ns pod t := fun pod hp hf => hn ⟨pod, hp, hf⟩
      constructor
      · right
        intro pod hp hs
        have hmem := he.complete pod ⟨hp, .inr ⟨hs, quiet⟩⟩
        exact (mem_oomPods.1 hmem).2.elim (fun hf => absurd hf (quiet pod hp)) And.left
      · intro d hd hr pod hp
        refine ⟨foreign d hd hr pod hp, .inr ?_⟩
        intro hs
        have hmem := mem_oomPods.2 ⟨podRe_iff.2 ⟨d, hr, hp⟩, .inr ⟨hs, none_fast quiet foreign⟩⟩
        exact hd (he.own pod hmem d hp)
  · rintro ⟨hsticky, hforeign⟩
    have complete : ∀ pod, Named h target ns t pod → pod ∈ oomPods h target ns t := by
      rintro pod ⟨hp, hf | ⟨hs, hn⟩⟩
      · exact mem_oomPods.2 ⟨own pod hp, .inl hf⟩
      · have hnone := none_fast hn fun d hd hr other ho => (hforeign d hd hr other ho).1
        refine mem_oomPods.2 ⟨own pod hp, .inr ⟨?_, hnone⟩⟩
        exact hsticky.elim (fun ⟨other, ho, hf⟩ => absurd hf (hn other ho)) fun hm => hm pod hp hs
    refine ⟨complete, ?_, ?_⟩
    · intro pod hn cfg o ho
      apply stubDiagnose_oom
      rw [ho]
      exact List.ne_nil_of_mem (List.mem_map_of_mem (complete pod hn))
    · intro pod hm d hp
      obtain ⟨hpat, hlisted⟩ := mem_oomPods.1 hm
      obtain ⟨d', hr, hp'⟩ := podRe_iff.1 hpat
      rw [hp.unique hp']
      by_contra hd
      obtain ⟨hnf, hor⟩ := hforeign d' hd hr pod hp'
      rcases hlisted with hf | ⟨hs, hnone⟩
      · exact hnf hf
      · exact hor.elim (fun ⟨other, ho, hf⟩ => hnone other (own other ho) hf) fun hns => hns hs

/-- A target without a dot lists no pod of another Deployment. -/
theorem own_of_dotless {h : History} {target ns pod d : String} {t : ℚ} (ht : '.' ∉ target.toList) (hm : pod ∈ oomPods h target ns t)
    (hp : PodOf d pod) : d = target := by
  obtain ⟨d', hr, hp'⟩ := podRe_iff.1 (mem_oomPods.1 hm).1
  rw [hp.unique hp', resembles_of_dotless ht hr]

/-- A container that was killed for its memory, and started again 400 seconds in. -/
def slowEpisode : History where
  series := [⟨LAST_TERMINATED_REASON, [("namespace", "sock-shop"), ("pod", "catalogue-c5cb8d777-5klwz"), ("container", "catalogue"),
      ("reason", "OOMKilled")], [⟨1000, some 1⟩], by simp⟩,
    ⟨START_TIME, [("namespace", "sock-shop"), ("pod", "catalogue-c5cb8d777-5klwz"), ("container", "catalogue")], [⟨1000, some 400⟩], by simp⟩]
  counts := by simp [RESTARTS_TOTAL, LAST_TERMINATED_REASON, START_TIME]

theorem slowEpisode_names {s : Series} (hs : s ∈ slowEpisode.series) : s.name = LAST_TERMINATED_REASON ∨ s.name = START_TIME := by
  simp only [slowEpisode, List.mem_cons, List.not_mem_nil, or_false] at hs
  rcases hs with rfl | rfl
  · exact .inl rfl
  · exact .inr rfl

/-- Ten minutes later the rule names its pod, and nothing is listed. -/
theorem slow_episode_missed : Named slowEpisode "catalogue" "sock-shop" 1000 "catalogue-c5cb8d777-5klwz" ∧
    oomPods slowEpisode "catalogue" "sock-shop" 1000 = [] ∧ ¬ Evident slowEpisode "catalogue" "sock-shop" 1000 := by
  have notFast : ∀ pod, ¬ Fast slowEpisode "sock-shop" pod 1000 := by
    rintro pod ⟨-, s, ⟨hs, hn, -⟩, -⟩
    rcases slowEpisode_names hs with h | h <;> exact absurd (h.symm.trans hn) (by decide)
  have notMetered : ∀ pod, ¬ Metered slowEpisode "sock-shop" pod 1000 := by
    rintro pod ⟨-, -, -, m, hm, hn, -⟩
    rcases slowEpisode_names hm with h | h <;> exact absurd (h.symm.trans hn) (by decide)
  have hnil : oomPods slowEpisode "catalogue" "sock-shop" 1000 = [] :=
    List.eq_nil_iff_forall_not_mem.2 fun pod hm => (mem_oomPods.1 hm).2.elim (notFast pod) fun h => notMetered pod h.1
  have hnamed : Named slowEpisode "catalogue" "sock-shop" 1000 "catalogue-c5cb8d777-5klwz" := by
    refine ⟨⟨"c5cb8d777", "5klwz", by decide, by decide, by decide, by decide, by decide⟩, .inr ⟨?_, fun other _ => notFast other⟩⟩
    have hk : Killed slowEpisode "sock-shop" "catalogue-c5cb8d777-5klwz" 1000 (slowEpisode.series.head (by simp [slowEpisode])) :=
      ⟨⟨by simp [slowEpisode], rfl, rfl, rfl⟩, rfl, by simp [slowEpisode, Series.at, Series.within, LOOKBACK]⟩
    refine ⟨slowEpisode.series.getLast (by simp [slowEpisode]), 400, ⟨⟨by simp [slowEpisode], rfl, rfl, rfl⟩, ?_, _, hk, rfl⟩, ?_⟩
    · simp [slowEpisode, Series.at, Series.within, LOOKBACK]
    · norm_num [OOM_STICKY_MAX_CONTAINER_AGE_S]
  refine ⟨hnamed, hnil, fun he => ?_⟩
  have := he.complete _ hnamed
  rw [hnil] at this
  cases this

end Wardence.React
