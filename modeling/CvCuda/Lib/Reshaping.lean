import CvCuda.Lib.RowMajor

/-! # When a strided view has another shape

A view is a list of dimensions, each with its stride. It has the shape `ms` when some strides for
`ms` give every element, in row-major order, the offset it has in the view.

* `Cut ms v`: some last dimensions of `ms` have `v` elements together.
* `Break ds v`: the dimension outside the last `v` elements does not stride over all of the one
  inside.
* `element_mul_add`: where no break lies strictly between `V` and `m * V`, the offset of element
  `q * V + r` is linear in `q`.
* `exists_strides_iff`: strides exist exactly when every break of the view, its dimensions of
  size 1 left out, is a cut of the shape.
-/

namespace RowMajor

/-! ## Cuts of a shape -/

/-- Some last dimensions have `v` elements together. -/
def Cut (ns : List Nat) (v : Nat) : Prop := ∃ ms, ms <:+ ns ∧ ms.prod = v

theorem cut_nil {v : Nat} : Cut [] v ↔ v = 1 := by
  constructor
  · rintro ⟨ms, hms, rfl⟩
    rw [List.suffix_nil.1 hms, List.prod_nil]
  · rintro rfl
    exact ⟨[], List.suffix_rfl, List.prod_nil⟩

theorem cut_cons {n : Nat} {ns : List Nat} {v : Nat} :
    Cut (n :: ns) v ↔ v = n * ns.prod ∨ Cut ns v := by
  constructor
  · rintro ⟨ms, hms, rfl⟩
    rcases List.suffix_cons_iff.1 hms with rfl | hms
    · exact .inl List.prod_cons
    · exact .inr ⟨ms, hms, rfl⟩
  · rintro (rfl | ⟨ms, hms, rfl⟩)
    · exact ⟨n :: ns, List.suffix_rfl, List.prod_cons⟩
    · exact ⟨ms, hms.trans (List.suffix_cons n ns), rfl⟩

theorem cut_iff_tail {ns : List Nat} {v : Nat} : Cut ns v ↔ v = ns.prod ∨ Cut ns.tail v := by
  cases ns with
  | nil => rw [List.tail_nil, cut_nil, List.prod_nil, or_self]
  | cons n ns => rw [cut_cons, List.prod_cons, List.tail_cons]

theorem cut_prod (ns : List Nat) : Cut ns ns.prod := ⟨ns, List.suffix_rfl, rfl⟩

theorem cut_one (ns : List Nat) : Cut ns 1 := ⟨[], List.nil_suffix, List.prod_nil⟩

theorem Cut.dvd {ns : List Nat} {v : Nat} (h : Cut ns v) : v ∣ ns.prod := by
  obtain ⟨ms, ⟨ls, rfl⟩, rfl⟩ := h
  exact Dvd.intro_left _ (List.prod_append ..).symm

theorem prod_pos {ns : List Nat} (h : ∀ n ∈ ns, 0 < n) : 0 < ns.prod :=
  Nat.pos_of_ne_zero fun h0 => absurd (h 0 (List.prod_eq_zero_iff.1 h0)) (Nat.lt_irrefl 0)

/-- A cut divides the elements inside a dimension, or lies outside of it. -/
theorem Cut.dvd_or_le {ns ms : List Nat} {m v : Nat} (h : Cut ns v) (hv : 0 < v)
    (hms : m :: ms <:+ ns) : v ∣ ms.prod ∨ m * ms.prod ≤ v := by
  obtain ⟨ls, hls, rfl⟩ := h
  rcases List.suffix_or_suffix_of_suffix hls hms with h | h
  · rcases List.suffix_cons_iff.1 h with rfl | h
    · exact .inr (Nat.le_of_eq List.prod_cons.symm)
    · exact .inl (Cut.dvd ⟨ls, h, rfl⟩)
  · refine .inr (Nat.le_of_dvd hv ?_)
    rw [← List.prod_cons]
    exact Cut.dvd ⟨m :: ms, h, rfl⟩

/-- What is not a cut lies strictly inside a dimension. -/
theorem exists_gap {ns : List Nat} {v : Nat} (h : ¬Cut ns v) (h1 : 1 ≤ v) (hv : v ≤ ns.prod) :
    ∃ m ms, m :: ms <:+ ns ∧ ms.prod < v ∧ v < m * ms.prod := by
  induction ns with
  | nil => exact absurd (cut_nil.2 (Nat.le_antisymm hv h1)) h
  | cons n ns ih =>
    rw [cut_cons, not_or] at h
    rcases Nat.lt_or_ge ns.prod v with hlt | hle
    · rw [List.prod_cons] at hv
      exact ⟨n, ns, List.suffix_rfl, hlt, Nat.lt_of_le_of_ne hv h.1⟩
    · obtain ⟨m, ms, hms, hgap⟩ := ih h.2 hle
      exact ⟨m, ms, hms.trans (List.suffix_cons n ns), hgap⟩

/-! ## Views and their breaks -/

variable {R : Type*}

/-- The number of elements of a view. -/
def size (ds : List (Nat × R)) : Nat := (ds.map Prod.fst).prod

@[simp] theorem size_nil : size ([] : List (Nat × R)) = 1 := rfl

@[simp] theorem size_cons (d : Nat × R) (ds : List (Nat × R)) : size (d :: ds) = d.1 * size ds :=
  List.prod_cons

theorem size_pos {ds : List (Nat × R)} (h : ∀ d ∈ ds, 0 < d.1) : 0 < size ds :=
  prod_pos fun _ hn => by
    obtain ⟨d, hd, rfl⟩ := List.mem_map.1 hn
    exact h d hd

theorem size_le_of_suffix {ds l : List (Nat × R)} (h : l <:+ ds) (hpos : ∀ d ∈ ds, 0 < d.1) :
    size l ≤ size ds :=
  Nat.le_of_dvd (size_pos hpos) (Cut.dvd ⟨_, h.map Prod.fst, rfl⟩)

/-- The dimensions in which a view extends. -/
def extended (ds : List (Nat × R)) : List (Nat × R) := ds.filter fun d => d.1 ≠ 1

theorem size_extended (ds : List (Nat × R)) : size (extended ds) = size ds := by
  induction ds with
  | nil => rfl
  | cons d ds ih =>
    by_cases h : d.1 = 1
    · rw [extended, List.filter_cons_of_neg (by simpa using h), size_cons, h, Nat.one_mul]
      exact ih
    · rw [extended, List.filter_cons_of_pos (by simpa using h), size_cons, size_cons]
      exact congrArg (d.1 * ·) ih

/-- The stride of each dimension of a shape: the offset of the element it steps to. -/
def stepStrides (f : Nat → R) : List Nat → List R
  | [] => []
  | _ :: ms => f ms.prod :: stepStrides f ms

@[simp] theorem length_stepStrides (f : Nat → R) (ms : List Nat) :
    (stepStrides f ms).length = ms.length := by
  induction ms with
  | nil => rfl
  | cons m ms ih => rw [stepStrides, List.length_cons, ih, List.length_cons]

theorem stepStrides_append (f : Nat → R) (ms ns : List Nat) :
    stepStrides f (ms ++ ns) = stepStrides (fun v => f (v * ns.prod)) ms ++ stepStrides f ns := by
  induction ms with
  | nil => rfl
  | cons m ms ih => rw [List.cons_append, stepStrides, stepStrides, ih, List.prod_append]; rfl

theorem stepStrides_congr {f f' : Nat → R} {ms : List Nat} (h : ∀ v, Cut ms.tail v → f v = f' v) :
    stepStrides f ms = stepStrides f' ms := by
  induction ms with
  | nil => rfl
  | cons m ms ih =>
    rw [stepStrides, stepStrides, h _ (cut_prod ms), ih fun v hv => h v (cut_iff_tail.2 (.inr hv))]

theorem getElem_stepStrides (f : Nat → R) (ms : List Nat) {i : Nat}
    (h : i < (stepStrides f ms).length) : (stepStrides f ms)[i] = f (ms.drop (i + 1)).prod := by
  induction ms generalizing i with
  | nil => exact absurd h (Nat.not_lt_zero i)
  | cons m ms ih =>
    cases i with
    | zero => rfl
    | succ i => exact ih (by simpa [stepStrides] using h)

theorem packed_eq_stepStrides [AddCommMonoid R] (ms : List Nat) (t : R) :
    packed ms t = stepStrides (· • t) ms := by
  induction ms with
  | nil => rfl
  | cons m ms ih => rw [packed, stepStrides, ih]

variable [AddCommGroup R]

/-- The offset of the `k`-th element of a view. -/
def element (ds : List (Nat × R)) (k : Nat) : R :=
  offset (ds.map Prod.fst) (ds.map Prod.snd) k

/-- The dimension outside the last `v` elements does not stride over the whole one inside. -/
def Break (ds : List (Nat × R)) (v : Nat) : Prop :=
  ∃ d n s l, d :: (n, s) :: l <:+ ds ∧ d.2 ≠ n • s ∧ v = n * size l

@[simp] theorem element_nil (k : Nat) : element ([] : List (Nat × R)) k = 0 := rfl

theorem element_cons (d : Nat × R) (ds : List (Nat × R)) (k : Nat) :
    element (d :: ds) k = (k / size ds) • d.2 + element ds (k % size ds) := rfl

/-- The elements within the inner dimensions. -/
theorem element_of_lt (d : Nat × R) {ds : List (Nat × R)} {k : Nat} (h : k < size ds) :
    element (d :: ds) k = element ds k := by
  rw [element_cons, Nat.div_eq_of_lt h, zero_smul, zero_add, Nat.mod_eq_of_lt h]

theorem element_zero (ds : List (Nat × R)) : element ds 0 = 0 := by
  induction ds with
  | nil => rfl
  | cons d ds ih => rw [element_cons, Nat.zero_div, Nat.zero_mod, zero_smul, zero_add, ih]

theorem element_suffix {ds l : List (Nat × R)} (h : l <:+ ds) (hpos : ∀ d ∈ ds, 0 < d.1)
    {k : Nat} (hk : k < size l) : element ds k = element l k := by
  induction ds with
  | nil => rw [List.suffix_nil.1 h]
  | cons d ds ih =>
    rcases List.suffix_cons_iff.1 h with rfl | h
    · rfl
    · have hds : ∀ d ∈ ds, 0 < d.1 := fun d hd => hpos d (.tail _ hd)
      rw [element_of_lt d (Nat.lt_of_lt_of_le hk (size_le_of_suffix h hds)), ih h hds]

theorem not_break_nil (v : Nat) : ¬Break ([] : List (Nat × R)) v := by
  rintro ⟨d, n, s, l, h, -⟩
  exact absurd (List.suffix_nil.1 h) (List.cons_ne_nil _ _)

theorem not_break_singleton (d : Nat × R) (v : Nat) : ¬Break [d] v := by
  rintro ⟨d', n, s, l, h, -⟩
  have := h.length_le
  simp at this

theorem break_cons_cons {d : Nat × R} {n : Nat} {s : R} {l : List (Nat × R)} {v : Nat} :
    Break (d :: (n, s) :: l) v ↔ (d.2 ≠ n • s ∧ v = n * size l) ∨ Break ((n, s) :: l) v := by
  constructor
  · rintro ⟨d', n', s', l', h, hne, hv⟩
    rcases List.suffix_cons_iff.1 h with he | h
    · obtain ⟨rfl, he⟩ := List.cons.inj he
      obtain ⟨hns, rfl⟩ := List.cons.inj (List.cons.inj he).2
      obtain ⟨rfl, rfl⟩ := Prod.mk.inj hns
      exact .inl ⟨hne, hv⟩
    · exact .inr ⟨d', n', s', l', h, hne, hv⟩
  · rintro (⟨hne, hv⟩ | ⟨d', n', s', l', h, hne, hv⟩)
    · exact ⟨d, n, s, l, List.suffix_rfl, hne, hv⟩
    · exact ⟨d', n', s', l', h.trans (List.suffix_cons _ _), hne, hv⟩

theorem Break.cons (d : Nat × R) {ds : List (Nat × R)} {v : Nat} (h : Break ds v) :
    Break (d :: ds) v := by
  obtain ⟨d', n, s, l, h, hne, hv⟩ := h
  exact ⟨d', n, s, l, h.trans (List.suffix_cons _ _), hne, hv⟩

theorem Break.pos {ds : List (Nat × R)} {v : Nat} (h : Break ds v) (hpos : ∀ d ∈ ds, 0 < d.1) :
    0 < v := by
  obtain ⟨d, n, s, l, hl, -, rfl⟩ := h
  exact Nat.mul_pos (hpos _ (hl.subset (.tail _ (.head _))))
    (size_pos fun d hd => hpos d (hl.subset (.tail _ (.tail _ hd))))

/-- Only the stride of the first dimension counts for the breaks. -/
theorem break_cons_congr {n m : Nat} {s : R} {l : List (Nat × R)} {v : Nat} :
    Break ((n, s) :: l) v ↔ Break ((m, s) :: l) v := by
  cases l with
  | nil => exact iff_of_false (not_break_singleton _ _) (not_break_singleton _ _)
  | cons d l => rw [break_cons_cons, break_cons_cons]

/-! ## Strides for a shape without a cut at a break -/

/-- Within the first dimension the elements are its stride apart. -/
theorem element_mul_add_of_dvd (d : Nat × R) {ds : List (Nat × R)} (hpos : 0 < size ds)
    {V : Nat} (hV : size ds ∣ V) (q r : Nat) :
    element (d :: ds) (q * V + r) = q • element (d :: ds) V + element (d :: ds) r := by
  obtain ⟨u, rfl⟩ := hV
  have hsplit : q * (size ds * u) + r = size ds * (q * u) + r := by ring
  simp only [element_cons, hsplit, Nat.mul_add_div hpos, Nat.mul_add_mod, Nat.mul_div_cancel_left _ hpos,
    Nat.mul_mod_right, element_zero, add_zero]
  rw [add_smul, smul_smul, add_assoc]

/-- **Between two breaks** the elements are linear: every break divides `V` or is at least
`m * V`. -/
theorem element_mul_add {d : Nat × R} {ds : List (Nat × R)} {m V q r : Nat}
    (hpos : ∀ d ∈ ds, 0 < d.1) (hV : ∀ v, Break (d :: ds) v → v ∣ V ∨ m * V ≤ v)
    (hq : q < m) (hr : r < V) :
    element (d :: ds) (q * V + r) = q • element (d :: ds) V + element (d :: ds) r := by
  induction ds generalizing d with
  | nil => exact element_mul_add_of_dvd d (size_nil (R := R) ▸ Nat.one_pos) (one_dvd V) q r
  | cons d' ds ih =>
    obtain ⟨n', s'⟩ := d'
    have hds : ∀ d ∈ ds, 0 < d.1 := fun d hd => hpos d (.tail _ hd)
    by_cases hs : d.2 ≠ n' • s'
    · rcases hV _ (break_cons_cons.2 (.inl ⟨hs, rfl⟩)) with hdvd | hle
      · exact element_mul_add_of_dvd d (size_pos hpos) hdvd q r
      · -- all the elements are within the inner dimensions
        rcases Nat.eq_zero_or_pos q with rfl | hq0
        · rw [Nat.zero_mul, Nat.zero_add, zero_smul, zero_add]
        have hlast : q * V + r < size ((n', s') :: ds) := by
          calc q * V + r < (q + 1) * V := by rw [Nat.succ_mul]; omega
            _ ≤ m * V := Nat.mul_le_mul_right V hq
            _ ≤ _ := hle
        have hVle : V ≤ q * V := Nat.le_mul_of_pos_left V hq0
        rw [element_of_lt d hlast, element_of_lt d (by omega), element_of_lt d (by omega)]
        exact ih hds fun v hv => hV v (hv.cons d)
    · -- the two dimensions are one
      have hmerge : ∀ k, element (d :: (n', s') :: ds) k = element ((d.1 * n', s') :: ds) k := by
        intro k
        simp only [element, List.map_cons, not_not.1 hs]
        exact offset_merge _ _ _ _ _ k
      simp only [hmerge]
      exact ih hds fun v hv => hV v (break_cons_cons.2 (.inr (break_cons_congr.1 hv)))

/-- **The strides of a shape cut at every break.** -/
theorem offset_stepStrides {d : Nat × R} {ds : List (Nat × R)} {ns : List Nat}
    (hpos : ∀ d ∈ ds, 0 < d.1) (hns : ∀ n ∈ ns, 0 < n) (hbreak : ∀ v, Break (d :: ds) v → Cut ns v)
    (hv0 : ∀ v, Break (d :: ds) v → 0 < v) {ms : List Nat} (hms : ms <:+ ns) {k : Nat}
    (hk : k < ms.prod) :
    offset ms (stepStrides (element (d :: ds)) ms) k = element (d :: ds) k := by
  induction ms generalizing k with
  | nil =>
    rw [List.prod_nil] at hk
    rw [offset_nil, Nat.lt_one_iff.1 hk, element_zero]
  | cons m ms ih =>
    have hms' : ms <:+ ns := (List.suffix_cons m ms).trans hms
    have hm0 : 0 < ms.prod := prod_pos fun n hn => hns n (hms'.subset hn)
    rw [stepStrides, offset, ih hms' (Nat.mod_lt k hm0)]
    rw [List.prod_cons] at hk
    have hq : k / ms.prod < m := Nat.div_lt_of_lt_mul (by rwa [Nat.mul_comm])
    have hlin := element_mul_add hpos (fun v hv => (hbreak v hv).dvd_or_le (hv0 v hv) hms) hq
      (Nat.mod_lt k hm0)
    rw [← hlin, Nat.div_add_mod']

/-! ## No strides for a shape without a cut -/

/-- The step of an element by the inner size of its first dimension. -/
theorem element_add_size (d : Nat × R) {ds : List (Nat × R)} (hpos : 0 < size ds) (k : Nat) :
    element (d :: ds) (k + size ds) = element (d :: ds) k + d.2 := by
  rw [element_cons, element_cons, Nat.add_div_right k hpos, Nat.add_mod_right, succ_nsmul]
  abel

/-- Offsets that step by `s'` over `w` elements within `m * w`, by `s` over these, and evenly over
`V` elements on a range around `m * w`: the outer step is `m` inner ones. -/
theorem eq_nsmul_of_steps {f : Nat → R} {s s' t : R} {m w V M : Nat} (hm : 2 ≤ m) (hV0 : 0 < V)
    (hVv : V < m * w) (hvM : m * w < M) (hVM : 2 * V ≤ M) (h0 : f 0 = 0)
    (hin : ∀ x, x + w < m * w → f (x + w) = f x + s')
    (hout : ∀ y < m * w, f (y + m * w) = f y + s)
    (hstep : ∀ x, x + V < M → f (x + V) = f x + t) : s = m • s' := by
  obtain ⟨p, rfl⟩ : ∃ p, m = p + 1 := ⟨m - 1, by omega⟩
  rw [Nat.succ_mul] at *
  have hw : w ≤ p * w := Nat.le_mul_of_pos_left w (by omega)
  have hw0 : 0 < w := by
    refine Nat.pos_of_ne_zero fun hw0 => ?_
    rw [hw0] at hVv
    omega
  have hmul : ∀ r < w, ∀ q ≤ p, f (q * w + r) = f r + q • s' := by
    intro r hr q hq
    induction q with
    | zero => rw [Nat.zero_mul, Nat.zero_add, zero_smul, add_zero]
    | succ q ih =>
      have hle : (q + 1) * w ≤ p * w := Nat.mul_le_mul_right w hq
      rw [Nat.succ_mul] at hle
      rw [Nat.succ_mul, Nat.add_right_comm, hin _ (by omega), ih (by omega), succ_nsmul, add_assoc]
  have hs : f (p * w + w) = s := by
    have := hout 0 (by omega)
    rwa [Nat.zero_add, h0, zero_add] at this
  rw [succ_nsmul]
  rcases Nat.lt_or_ge (p * w) V with hlt | hle
  · -- the step over `V` ends inside the last inner step
    obtain ⟨u, rfl⟩ : ∃ u, V = p * w + u := ⟨V - p * w, by omega⟩
    have h1 : f (u + (p * w + w)) = f u + s := hout u (by omega)
    have h2 : f (w + (p * w + u)) = f w + t := hstep w (by omega)
    have h3 : f (0 + (p * w + u)) = f 0 + t := hstep 0 (by omega)
    have h4 : f (0 + w) = f 0 + s' := hin 0 (by omega)
    rw [Nat.zero_add, h0, zero_add] at h3 h4
    rw [show u + (p * w + w) = w + (p * w + u) by omega, h2, ← h3, h4,
      hmul u (by omega) p (Nat.le_refl p)] at h1
    exact (add_left_cancel (h1.symm.trans (by abel))).trans (add_comm _ _)
  · have h1 : f (p * w + w - V + V) = f (p * w + w - V) + t := hstep _ (by omega)
    have h2 : f (p * w - V + V) = f (p * w - V) + t := hstep _ (by omega)
    have h3 : f (p * w - V + w) = f (p * w - V) + s' := hin _ (by omega)
    have h4 := hmul 0 hw0 p (Nat.le_refl p)
    rw [Nat.sub_add_cancel (by omega), hs] at h1
    rw [Nat.sub_add_cancel hle] at h2
    rw [show p * w - V + w = p * w + w - V by omega] at h3
    rw [Nat.add_zero, h0, zero_add] at h4
    rw [h1, h3, ← h4, h2]
    abel

/-- **A shape without a cut at a break has no strides.** -/
theorem cut_of_break {ds es : List (Nat × R)} (hds : ∀ d ∈ ds, 1 < d.1)
    (hes : ∀ e ∈ es, 0 < e.1) (hsize : size es = size ds)
    (h : ∀ k < size ds, element es k = element ds k) {v : Nat} (hv : Break ds v) :
    Cut (es.map Prod.fst) v := by
  have hpos : ∀ d ∈ ds, 0 < d.1 := fun d hd => Nat.zero_lt_of_lt (hds d hd)
  by_contra hcut
  obtain ⟨d, n, s, l, hl, hne, rfl⟩ := hv
  have hn : 1 < n := hds (n, s) (hl.subset (.tail _ (.head _)))
  have hd : 1 < d.1 := hds d (hl.subset (.head _))
  have hlpos : 0 < size l :=
    size_pos fun d hd => hpos d (hl.subset (.tail _ (.tail _ hd)))
  have hle := size_le_of_suffix hl hpos
  simp only [size_cons] at hle
  have h2 : 2 * (n * size l) ≤ d.1 * (n * size l) := Nat.mul_le_mul_right _ hd
  have hv0 : 0 < n * size l := Nat.mul_pos (by omega) hlpos
  obtain ⟨m, ms, hms, hlt, hgt⟩ := exists_gap hcut hv0 (by
    show n * size l ≤ size es
    omega)
  obtain ⟨es', hes', hmap⟩ := List.suffix_map_iff.1 hms
  obtain ⟨e, es', rfl, rfl, rfl⟩ := List.map_eq_cons_iff.1 hmap.symm
  have hVpos : 0 < size es' := size_pos fun d hd => hes d (hes'.subset (.tail _ hd))
  have hV2 : 1 < e.1 := by
    refine Nat.lt_of_not_le fun h1 => ?_
    have := Nat.mul_le_mul_right (es'.map Prod.fst).prod h1
    omega
  have hMle := size_le_of_suffix hes' hes
  rw [size_cons, hsize] at hMle
  have hinner : (n, s) :: l <:+ ds := (List.suffix_cons d _).trans hl
  refine hne (eq_nsmul_of_steps (f := element ds) (t := e.2) hn hVpos hlt hgt
    (Nat.mul_le_mul_right _ hV2) (element_zero ds) (fun x hx => ?_) (fun y hy => ?_)
    fun x hx => ?_)
  · rw [element_suffix hinner hpos (by rwa [size_cons]), element_add_size _ hlpos,
      element_suffix hinner hpos (by
        rw [size_cons]
        exact Nat.lt_of_le_of_lt (Nat.le_add_right _ _) hx)]
  · have hsum := @element_add_size _ _ d ((n, s) :: l) (by rwa [size_cons]) y
    simp only [size_cons] at hsum
    rw [element_suffix hl hpos (by simp only [size_cons]; omega), hsum,
      element_suffix hl hpos (by simp only [size_cons]; omega)]
  · have hx' : x + size es' < size (e :: es') := by rwa [size_cons]
    rw [← h _ (by rw [size_cons] at hx'; omega), ← h x (by rw [size_cons] at hx'; omega),
      element_suffix hes' hes hx', element_add_size e hVpos, element_suffix hes' hes (by omega)]

/-! ## Dimensions of size 1 -/

theorem element_extended {ds : List (Nat × R)} {k : Nat} (hk : k < size ds) :
    element (extended ds) k = element ds k := by
  induction ds generalizing k with
  | nil => rfl
  | cons d ds ih =>
    by_cases h : d.1 = 1
    · rw [size_cons, h, Nat.one_mul] at hk
      rw [extended, List.filter_cons_of_neg (by simpa using h), element_of_lt d hk]
      exact ih hk
    · have hpos : 0 < size ds := by
        refine Nat.pos_of_ne_zero fun h0 => ?_
        rw [size_cons, h0] at hk
        exact Nat.not_lt_zero _ hk
      rw [extended, List.filter_cons_of_pos (by simpa using h), element_cons, element_cons]
      rw [show List.filter (fun d => d.1 ≠ 1) ds = extended ds from rfl, size_extended,
        ih (Nat.mod_lt k hpos)]

/-- **Strides exist** for a shape of as many elements exactly when every break of the view, its
dimensions of size 1 left out, is a cut of the shape. -/
theorem exists_strides_iff {ds : List (Nat × R)} {ns : List Nat} (hds : ∀ d ∈ ds, 0 < d.1)
    (hns : ∀ n ∈ ns, 0 < n) (hsize : ns.prod = size ds) :
    (∃ ss : List R, ss.length = ns.length ∧ ∀ k < size ds, offset ns ss k = element ds k) ↔
      ∀ v, Break (extended ds) v → Cut ns v := by
  have hext : ∀ d ∈ extended ds, 1 < d.1 := by
    intro d hd
    obtain ⟨hmem, hne⟩ := List.mem_filter.1 hd
    have := hds d hmem
    have : d.1 ≠ 1 := by simpa using hne
    omega
  have hext0 : ∀ d ∈ extended ds, 0 < d.1 := fun d hd => Nat.zero_lt_of_lt (hext d hd)
  constructor
  · rintro ⟨ss, hlen, h⟩ v hv
    have hfst : (ns.zip ss).map Prod.fst = ns := List.map_fst_zip (Nat.le_of_eq hlen.symm)
    have hsnd : (ns.zip ss).map Prod.snd = ss := List.map_snd_zip (Nat.le_of_eq hlen)
    have := @cut_of_break _ _ _ (ns.zip ss) hext (fun e he => hns _ (List.of_mem_zip he).1)
      (by rw [size, hfst, hsize, size_extended]) (fun k hk => ?_) _ hv
    · rwa [hfst] at this
    · rw [size_extended] at hk
      rw [element, hfst, hsnd, h k hk, element_extended hk]
  · intro h
    refine ⟨stepStrides (element (extended ds)) ns, length_stepStrides _ _, fun k hk => ?_⟩
    rw [← element_extended hk]
    cases hex : extended ds with
    | nil =>
      rw [← size_extended, hex, size_nil] at hsize hk
      rw [Nat.lt_one_iff.1 hk, element_nil]
      exact offset_of_prod_one _ hsize
    | cons d ds' =>
      rw [hex] at h hext0
      exact offset_stepStrides (fun d hd => hext0 d (.tail _ hd)) hns h
        (fun v hv => hv.pos hext0) List.suffix_rfl (by rwa [hsize])

end RowMajor
