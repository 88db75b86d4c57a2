import Wardence.Lib.Double
/-!
# Kubernetes quantities

A quantity of memory or CPU as Kubernetes writes and reads it: ASCII digits,
a fraction if there is one, and a unit. `matchQuantity` reads its number to the
nearest double.
-/
namespace Kubernetes

structure Quantity where
  whole : List (Fin 10)
  frac : List (Fin 10)
  unit : String
  whole_ne : whole ≠ []

def digitChar (d : Fin 10) : Char := Char.ofNat (48 + d)

def Quantity.text (q : Quantity) : String :=
  String.ofList (q.whole.map digitChar ++ (if q.frac = [] then [] else '.' :: q.frac.map digitChar) ++ q.unit.toList)

/-- The number in front of the unit. -/
def Quantity.number (q : Quantity) : ℚ := Py.ofDigits ((q.whole ++ q.frac).map (·.val)) / 10 ^ q.frac.length

/-- Bytes in one of each memory unit. -/
def BYTES : List (String × ℚ) := [("", 1), ("Ki", 2 ^ 10), ("Mi", 2 ^ 20), ("Gi", 2 ^ 30), ("Ti", 2 ^ 40)]

/-- Cores in one of each CPU unit. -/
def CORES : List (String × ℚ) := [("", 1), ("m", 1 / 1000)]

def Quantity.amount (units : List (String × ℚ)) (q : Quantity) : Option ℚ := (units.lookup q.unit).map (q.number * ·)

/-- One line of ASCII. -/
def Ascii (s : String) : Prop := ∀ c ∈ s.toList, c.toNat < 128 ∧ c ≠ '\n'

theorem digit?_ascii {c : Char} (h : c.toNat < 128) (hd : (Py.digit? c).isSome = true) :
    ∃ d : Fin 10, c = digitChar d ∧ Py.digit? c = some d.val := by
  have hall : ∀ n < 128, (Py.digit? (Char.ofNat n)).isSome = true →
      ∃ d : Fin 10, Char.ofNat n = digitChar d ∧ Py.digit? (Char.ofNat n) = some d.val := by decide +kernel
  have := hall c.toNat h
  rw [Char.ofNat_toNat] at this
  exact this hd

theorem digits_ascii {cs : List Char} (h : ∀ c ∈ cs, c.toNat < 128) :
    ∃ w : List (Fin 10), cs = w.map digitChar ++ (Py.digits cs).2 ∧ (Py.digits cs).1 = w.map (·.val) := by
  induction cs with
  | nil => exact ⟨[], rfl, rfl⟩
  | cons c cs ih =>
    obtain ⟨w, hw, hv⟩ := ih fun x hx => h x (List.mem_cons_of_mem _ hx)
    by_cases hd : (Py.digit? c).isSome = true
    · obtain ⟨d, hc, hval⟩ := digit?_ascii (h c List.mem_cons_self) hd
      refine ⟨d :: w, ?_, ?_⟩
      · simp only [Py.digits, List.dropWhile_cons, hd, if_true, List.map_cons, List.cons_append] at hw ⊢
        rw [← hc, ← hw]
      · simp only [Py.digits, List.takeWhile_cons, hd, if_true] at hv ⊢
        rw [List.filterMap_cons, hval, hv, List.map_cons]
    · exact ⟨[], by simp [Py.digits, hd], by simp [Py.digits, hd]⟩

theorem find_unit {suffixes : List String} {rest : List Char} {u : String} (hn : '\n' ∉ rest)
    (h : (("" :: suffixes).find? fun u => rest = u.toList || rest = u.toList ++ ['\n']) = some u) : rest = u.toList := by
  have := List.find?_some h
  simp only [Bool.or_eq_true, decide_eq_true_eq] at this
  exact this.resolve_right fun he => hn (he ▸ by simp)

/-- What the pattern matches is a quantity, and its number is rounded once. -/
theorem matchQuantity_ascii {suffixes : List String} {s : String} {v : ℚ} {u : String} (hs : Ascii s)
    (h : Py.matchQuantity suffixes s = some (v, u)) :
    ∃ q : Quantity, q.text = s ∧ q.unit = u ∧ u ∈ "" :: suffixes ∧ v = Py.toDouble q.number := by
  obtain ⟨w, hw, hds⟩ := digits_ascii fun c hc => (hs c hc).1
  have hrest : ∀ c ∈ (Py.digits s.toList).2, c ∈ s.toList := fun c hc => by rw [hw]; exact List.mem_append_right _ hc
  unfold Py.matchQuantity at h
  split at h
  · cases h
  · rename_i ds rest hne hd
    rw [hd] at hw hds hrest
    have hwne : w ≠ [] := by
      rintro rfl
      obtain rfl : ds = [] := hds
      exact hne rfl
    -- without a fraction, whatever the rest
    have whole {v : ℚ} {u : String} (h : ((("" :: suffixes).find? fun u => rest = u.toList || rest = u.toList ++ ['\n']).map
        (Py.toDouble (Py.ofDigits (ds ++ []) / 10 ^ ([] : List Nat).length), ·)) = some (v, u)) :
        ∃ q : Quantity, q.text = s ∧ q.unit = u ∧ u ∈ "" :: suffixes ∧ v = Py.toDouble q.number := by
      obtain ⟨u', hu, he⟩ := Option.map_eq_some_iff.1 h
      cases he
      have hr : rest = u.toList := find_unit (fun hm => (hs _ (hrest _ hm)).2 rfl) hu
      refine ⟨⟨w, [], u, hwne⟩, ?_, rfl, List.mem_of_find?_eq_some hu, ?_⟩
      · rw [Quantity.text, if_pos rfl, List.append_nil, ← hr, ← hw, String.ofList_toList]
      · simp only [Quantity.number, List.append_nil, ← hds]; rfl
    simp only at h
    split at h
    · rename_i cs
      split at h
      · exact whole h
      · rename_i fs rest' hfne hf
        have hcs : ∀ c ∈ cs, c.toNat < 128 := fun c hc => (hs c (hrest c (List.mem_cons_of_mem _ hc))).1
        obtain ⟨f, hfw, hfs⟩ := digits_ascii hcs
        rw [hf] at hfw hfs
        obtain ⟨u', hu, he⟩ := Option.map_eq_some_iff.1 h
        cases he
        have hr : rest' = u.toList := by
          refine find_unit (fun hm => (hs '\n' (hrest _ (List.mem_cons_of_mem _ ?_))).2 rfl) hu
          rw [hfw]; exact List.mem_append_right _ hm
        have hfne' : f ≠ [] := by
          rintro rfl
          obtain rfl : fs = [] := hfs
          exact hfne rfl
        refine ⟨⟨w, f, u, hwne⟩, ?_, rfl, List.mem_of_find?_eq_some hu, ?_⟩
        · rw [Quantity.text, if_neg hfne', ← hr, List.append_assoc, List.cons_append, ← hfw, ← hw, String.ofList_toList]
        · simp only at hds hfs
          simp only [Quantity.number, List.map_append, ← hds, ← hfs]
          rw [hfs, List.length_map]
    · exact whole h

theorem Quantity.number_nonneg (q : Quantity) : 0 ≤ q.number := by unfold Quantity.number; positivity

theorem Quantity.number_whole {q : Quantity} (h : q.frac = []) : ∃ n : Nat, q.number = n :=
  ⟨_, by rw [Quantity.number, h, List.length_nil, pow_zero, div_one]⟩

/-! ## All that the pattern reads -/

/-- A point and the digits after it, if there are any. -/
def point (fs : List Char) : List Char := if fs = [] then [] else '.' :: fs

/-- Digits of any script, a fraction if there is one, a unit, and a final newline if there is one. -/
structure Written (suffixes : List String) (s : String) (ws fs : List Char) (u : String) (final : List Char) : Prop where
  text : s.toList = ws ++ (point fs ++ (u.toList ++ final))
  whole : ws ≠ []
  digits : ∀ c ∈ ws ++ fs, (Py.digit? c).isSome = true
  unit : u ∈ "" :: suffixes
  final : final = [] ∨ final = ['\n']

/-- The number that the digits stand for. -/
def valueOf (ws fs : List Char) : ℚ := Py.ofDigits ((ws ++ fs).filterMap Py.digit?) / 10 ^ fs.length

/-- Units of ASCII letters. -/
def Letters (suffixes : List String) : Prop :=
  ∀ u ∈ "" :: suffixes, ∀ c ∈ u.toList, Py.digit? c = none ∧ c ≠ '.' ∧ c ≠ '\n' ∧ c.toNat < 128

section Written
variable {suffixes : List String} {s : String} {ws ws' fs fs' final final' rest : List Char} {u u' : String} {v : ℚ}

theorem split_digits (hw : ∀ c ∈ ws, (Py.digit? c).isSome = true) (hr : ∀ c, rest.head? = some c → Py.digit? c = none) :
    (ws ++ rest).takeWhile (fun c => (Py.digit? c).isSome) = ws ∧ (ws ++ rest).dropWhile (fun c => (Py.digit? c).isSome) = rest := by
  rw [List.takeWhile_append_of_pos hw, List.dropWhile_append_of_pos hw]
  cases rest with
  | nil => simp
  | cons c rest => simp [hr c rfl]

theorem digits_append (hw : ∀ c ∈ ws, (Py.digit? c).isSome = true) (hr : ∀ c, rest.head? = some c → Py.digit? c = none) :
    Py.digits (ws ++ rest) = (ws.filterMap Py.digit?, rest) := by
  rw [Py.digits, (split_digits hw hr).1, (split_digits hw hr).2]

theorem head_unit (hp : Letters suffixes) (hu : u ∈ "" :: suffixes) (hf : final = [] ∨ final = ['\n']) {c : Char}
    (hc : (u.toList ++ final).head? = some c) : Py.digit? c = none ∧ c ≠ '.' := by
  cases hl : u.toList with
  | nil =>
    rw [hl] at hc
    rcases hf with rfl | rfl
    · cases hc
    · cases hc
      exact ⟨by decide, by decide⟩
  | cons d ds =>
    rw [hl] at hc
    cases hc
    have := hp u hu c (by simp [hl])
    exact ⟨this.1, this.2.1⟩

theorem Written.head_rest (hp : Letters suffixes) (h : Written suffixes s ws fs u final) {c : Char}
    (hc : (point fs ++ (u.toList ++ final)).head? = some c) : Py.digit? c = none := by
  unfold point at hc
  split at hc
  · exact (head_unit hp h.unit h.final hc).1
  · cases hc
    decide

theorem Written.digits_text (hp : Letters suffixes) (h : Written suffixes s ws fs u final) :
    Py.digits s.toList = (ws.filterMap Py.digit?, point fs ++ (u.toList ++ final)) := by
  rw [h.text]
  exact digits_append (fun c hc => h.digits c (List.mem_append_left _ hc)) fun c hc => h.head_rest hp hc

theorem Written.digits_frac (hp : Letters suffixes) (h : Written suffixes s ws fs u final) :
    Py.digits (fs ++ (u.toList ++ final)) = (fs.filterMap Py.digit?, u.toList ++ final) :=
  digits_append (fun c hc => h.digits c (List.mem_append_right _ hc)) fun _ hc => (head_unit hp h.unit h.final hc).1

/-- The unit is what is left but for a final newline. -/
theorem unit_unique (hu : '\n' ∉ u.toList) (hu' : '\n' ∉ u'.toList) (hf : final = [] ∨ final = ['\n'])
    (hf' : final' = [] ∨ final' = ['\n']) (h : u.toList ++ final = u'.toList ++ final') : u = u' ∧ final = final' := by
  rcases hf with rfl | rfl <;> rcases hf' with rfl | rfl
  · exact ⟨String.toList_inj.1 (by simpa using h), rfl⟩
  · exact absurd (by rw [← List.append_nil u.toList, h]; simp) hu
  · exact absurd (by rw [← List.append_nil u'.toList, ← h]; simp) hu'
  · exact ⟨String.toList_inj.1 (List.append_cancel_right h), rfl⟩

theorem Letters.newline (hp : Letters suffixes) (hu : u ∈ "" :: suffixes) : '\n' ∉ u.toList := fun h => (hp u hu _ h).2.2.1 rfl

theorem filterMap_digits_ne (hne : ws ≠ []) (h : ∀ c ∈ ws, (Py.digit? c).isSome = true) : ws.filterMap Py.digit? ≠ [] := by
  cases ws with
  | nil => exact absurd rfl hne
  | cons c ws =>
    obtain ⟨d, hd⟩ := Option.isSome_iff_exists.1 (h c (by simp))
    simp [hd]

theorem length_filterMap_digits (h : ∀ c ∈ ws, (Py.digit? c).isSome = true) : (ws.filterMap Py.digit?).length = ws.length := by
  induction ws with
  | nil => rfl
  | cons c ws ih =>
    obtain ⟨d, hd⟩ := Option.isSome_iff_exists.1 (h c (by simp))
    simp [hd, ih fun c hc => h c (by simp [hc])]

/-- A line is written in one way. -/
theorem Written.unique (hp : Letters suffixes) (h : Written suffixes s ws fs u final) (h' : Written suffixes s ws' fs' u' final') :
    ws = ws' ∧ fs = fs' ∧ u = u' := by
  have hw := split_digits (fun c hc => h.digits c (List.mem_append_left _ hc)) fun c hc => h.head_rest hp hc
  have hw' := split_digits (fun c hc => h'.digits c (List.mem_append_left _ hc)) fun c hc => h'.head_rest hp hc
  rw [← h.text] at hw
  rw [← h'.text] at hw'
  have hrest := hw.2.symm.trans hw'.2
  have hfs : fs = fs' ∧ u.toList ++ final = u'.toList ++ final' := by
    unfold point at hrest
    split at hrest <;> split at hrest
    next hn hn' => exact ⟨hn.trans hn'.symm, by simpa using hrest⟩
    next hn hn' =>
      rw [List.nil_append] at hrest
      exact absurd rfl (head_unit hp h.unit h.final (c := '.') (by rw [hrest]; rfl)).2
    next hn hn' =>
      rw [List.nil_append] at hrest
      exact absurd rfl (head_unit hp h'.unit h'.final (c := '.') (by rw [← hrest]; rfl)).2
    next hn hn' =>
      have htail : fs ++ (u.toList ++ final) = fs' ++ (u'.toList ++ final') := by simpa using hrest
      have hf := split_digits (fun c hc => h.digits c (List.mem_append_right _ hc)) fun c hc => (head_unit hp h.unit h.final hc).1
      have hf' := split_digits (fun c hc => h'.digits c (List.mem_append_right _ hc)) fun c hc => (head_unit hp h'.unit h'.final hc).1
      rw [htail] at hf
      exact ⟨hf.1.symm.trans hf'.1, hf.2.symm.trans hf'.2⟩
  exact ⟨hw.1.symm.trans hw'.1, hfs.1, (unit_unique (hp.newline h.unit) (hp.newline h'.unit) h.final h'.final hfs.2).1⟩

theorem find_of_written (hp : Letters suffixes) (hu : u ∈ "" :: suffixes) (hf : final = [] ∨ final = ['\n']) :
    ("" :: suffixes).find? (fun v => u.toList ++ final = v.toList || u.toList ++ final = v.toList ++ ['\n']) = some u := by
  have hself : (decide (u.toList ++ final = u.toList) || decide (u.toList ++ final = u.toList ++ ['\n'])) = true := by
    rcases hf with rfl | rfl <;> simp
  obtain ⟨v, hv⟩ := Option.isSome_iff_exists.1 ((List.find?_isSome
    (p := fun v : String => u.toList ++ final = v.toList || u.toList ++ final = v.toList ++ ['\n'])).2 ⟨u, hu, hself⟩)
  have hmem := List.mem_of_find?_eq_some hv
  have hread := List.find?_some hv
  simp only [Bool.or_eq_true, decide_eq_true_eq] at hread
  rw [hv]
  rcases hread with h | h
  · rw [(unit_unique (hp.newline hu) (hp.newline hmem) hf (.inl rfl) (by simpa using h)).1]
  · rw [(unit_unique (hp.newline hu) (hp.newline hmem) hf (.inr rfl) h).1]

/-- What comes after the first digits, as the pattern splits it. -/
theorem split_point (hp : Letters suffixes) (h : Written suffixes s ws fs u final) :
    (match point fs ++ (u.toList ++ final) with
      | '.' :: cs => match Py.digits cs with
        | ([], _) => ([], point fs ++ (u.toList ++ final))
        | (fs, rest') => (fs, rest')
      | _ => ([], point fs ++ (u.toList ++ final))) = (fs.filterMap Py.digit?, u.toList ++ final) := by
  by_cases hf : fs = []
  · subst hf
    show (match u.toList ++ final with
      | '.' :: cs => match Py.digits cs with
        | ([], _) => ([], u.toList ++ final)
        | (fs, rest') => (fs, rest')
      | _ => ([], u.toList ++ final)) = ([], u.toList ++ final)
    split
    next cs hc => exact absurd rfl (head_unit hp h.unit h.final (c := '.') (by rw [hc]; rfl)).2
    next => rfl
  · simp only [point, if_neg hf, List.cons_append, h.digits_frac hp]
    split
    next hn =>
      injection hn with hn
      exact absurd hn (filterMap_digits_ne hf fun c hc => h.digits c (List.mem_append_right _ hc))
    next hn =>
      cases hn
      rfl

theorem Written.matchQuantity (hp : Letters suffixes) (h : Written suffixes s ws fs u final) :
    Py.matchQuantity suffixes s = some (Py.toDouble (valueOf ws fs), u) := by
  obtain ⟨d, ds, hd⟩ := List.exists_cons_of_ne_nil
    (filterMap_digits_ne h.whole fun c hc => h.digits c (List.mem_append_left _ hc))
  have hlen := length_filterMap_digits fun c hc => h.digits c (List.mem_append_right ws hc)
  have hsplit := split_point hp h
  unfold Py.matchQuantity
  rw [h.digits_text hp, hd]
  refine (congrArg (fun x : List Nat × List Char => (("" :: suffixes).find? fun u => x.2 = u.toList || x.2 = u.toList ++ ['\n']).map
    (Py.toDouble ((Py.ofDigits (d :: ds ++ x.1) : ℚ) / 10 ^ x.1.length), ·)) hsplit).trans ?_
  simp only [find_of_written hp h.unit h.final, Option.map_some, hlen, valueOf, List.filterMap_append, hd]

theorem digits_eq (cs : List Char) : ∃ ws, cs = ws ++ (Py.digits cs).2 ∧ (Py.digits cs).1 = ws.filterMap Py.digit? ∧
    ∀ c ∈ ws, (Py.digit? c).isSome = true :=
  ⟨_, (List.takeWhile_append_dropWhile).symm, rfl, List.all_eq_true.1 List.all_takeWhile⟩

/-- What the pattern matches is written so. -/
theorem written_of_matchQuantity (h : Py.matchQuantity suffixes s = some (v, u)) :
    ∃ ws fs final, Written suffixes s ws fs u final ∧ v = Py.toDouble (valueOf ws fs) := by
  obtain ⟨ws, hw, hds, hwd⟩ := digits_eq s.toList
  unfold Py.matchQuantity at h
  split at h
  · cases h
  · rename_i ds rest hne hd
    rw [hd] at hw hds
    have hwne : ws ≠ [] := by
      rintro rfl
      obtain rfl : ds = [] := hds
      exact hne rfl
    -- the unit, and a final newline if there is one
    have read (fs : List Char) {rest' : List Char} (hr : rest = point fs ++ rest') (hfd : ∀ c ∈ fs, (Py.digit? c).isSome = true)
        (h : ((("" :: suffixes).find? fun u => rest' = u.toList || rest' = u.toList ++ ['\n']).map
          (Py.toDouble (Py.ofDigits (ds ++ fs.filterMap Py.digit?) / 10 ^ (fs.filterMap Py.digit?).length), ·)) = some (v, u)) :
        ∃ ws fs final, Written suffixes s ws fs u final ∧ v = Py.toDouble (valueOf ws fs) := by
      obtain ⟨u', hu, he⟩ := Option.map_eq_some_iff.1 h
      cases he
      have hread := List.find?_some hu
      simp only [Bool.or_eq_true, decide_eq_true_eq] at hread
      obtain ⟨final, hf, rfl⟩ : ∃ final, (final = [] ∨ final = ['\n']) ∧ rest' = u.toList ++ final := by
        rcases hread with h | h
        · exact ⟨[], .inl rfl, by simpa using h⟩
        · exact ⟨_, .inr rfl, h⟩
      refine ⟨ws, fs, final, ⟨by rw [hw, hr], hwne, List.forall_mem_append.2 ⟨hwd, hfd⟩, List.mem_of_find?_eq_some hu, hf⟩, ?_⟩
      rw [length_filterMap_digits hfd]
      simp only at hds
      rw [hds, valueOf, List.filterMap_append]
    simp only at h
    split at h
    · rename_i cs
      obtain ⟨fs, hf, hfs, hfd⟩ := digits_eq cs
      split at h
      · exact read [] rfl (fun _ h => by cases h) h
      · rename_i fds rest' hfne hfr
        rw [hfr] at hf hfs
        have hfsne : fs ≠ [] := by
          rintro rfl
          obtain rfl : fds = [] := hfs
          exact hfne rfl
        refine read fs (by rw [point, if_neg hfsne, hf]; rfl) hfd ?_
        simp only at hfs
        rw [← hfs]
        exact h
    · exact read [] rfl (fun _ h => by cases h) h

theorem digit?_digitChar (d : Fin 10) : Py.digit? (digitChar d) = some d.val := by
  revert d
  decide +kernel

theorem Quantity.written {q : Quantity} (hu : q.unit ∈ "" :: suffixes) :
    Written suffixes q.text (q.whole.map digitChar) (q.frac.map digitChar) q.unit [] where
  text := by
    rw [Quantity.text, String.toList_ofList, point, List.append_nil, List.append_assoc]
    simp
  whole := by simpa using q.whole_ne
  digits c hc := by
    rw [← List.map_append] at hc
    obtain ⟨d, -, rfl⟩ := List.mem_map.1 hc
    simp [digit?_digitChar]
  unit := hu
  final := .inl rfl

theorem Quantity.valueOf (q : Quantity) : Kubernetes.valueOf (q.whole.map digitChar) (q.frac.map digitChar) = q.number := by
  rw [Kubernetes.valueOf, Quantity.number, ← List.map_append, List.filterMap_map, List.length_map]
  congr 3
  rw [← List.filterMap_eq_map]
  congr 1
  funext d
  exact digit?_digitChar d

/-- A line of ASCII that the pattern reads is a quantity. -/
theorem Written.quantity (hp : Letters suffixes) (hs : Ascii s) (h : Written suffixes s ws fs u final) :
    ∃ q : Quantity, q.text = s ∧ q.unit = u ∧ q.number = Kubernetes.valueOf ws fs := by
  obtain ⟨q, rfl, rfl, hu, -⟩ := matchQuantity_ascii hs (h.matchQuantity hp)
  obtain ⟨rfl, rfl, -⟩ := Written.unique hp (Quantity.written hu) h
  exact ⟨q, rfl, rfl, q.valueOf.symm⟩

theorem Quantity.ascii {q : Quantity} (hp : Letters suffixes) (hu : q.unit ∈ "" :: suffixes) : Ascii q.text := by
  have hdigit : ∀ d : Fin 10, (digitChar d).toNat < 128 ∧ digitChar d ≠ '\n' := by decide +kernel
  intro c hc
  rw [(Quantity.written hu).text, List.append_nil] at hc
  simp only [point, List.mem_append, List.mem_map] at hc
  rcases hc with ⟨d, -, rfl⟩ | hc | hc
  · exact hdigit d
  · split at hc
    · cases hc
    · rcases List.mem_cons.1 hc with rfl | hc
      · decide
      · obtain ⟨d, -, rfl⟩ := List.mem_map.1 hc
        exact hdigit d
  · exact ⟨(hp _ hu c hc).2.2.2, (hp _ hu c hc).2.2.1⟩

end Written

end Kubernetes
