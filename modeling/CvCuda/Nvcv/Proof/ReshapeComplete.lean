import CvCuda.Lib.Reshaping
import CvCuda.Nvcv.Proof.Reshape
import Mathlib.Data.List.GetD

/-! # When a reshape is complete

`Simplify` compares the stride of each dimension with the product of the next dimension and its
stride, also where one of them has size 1 and its stride says nothing: the breaks the walk meets
are those of the dimensions as they stand, in 64-bit arithmetic (`cut_simplify`), and it succeeds
exactly when each of them is a cut of the target shape (`reshapeSimplified_iff`). Strides exist
already when the breaks of the dimensions that are not 1 are cuts (`exists_strides_iff`). A walk
that fails has written the strides of the target dimensions outside the last break matched
(`reshapeSimplified_written`, `reshapeSimplified_length`), after the layout.

* `reshape_complete_iff`: a call is complete, and leaves the tensor data unchanged when it fails,
  exactly when a break is met that is no cut only where no strides exist, and then the layout and
  the strides written are the ones already there.
* `reshape_incomplete`: a shape that is refused for a dimension of size 1, and a refused shape that
  changes the data.
-/

namespace Nvcv

open RowMajor

/-- A stride in 64-bit arithmetic. -/
def word (s : Int64) : ZMod (2 ^ 64) := ((s.toInt : Int) : ZMod (2 ^ 64))

/-- A view with the strides mapped by `σ`. -/
def view {R : Type*} (σ : Int64 → R) (ds : List (Int64 × Int64)) : List (Nat × R) :=
  ds.map fun d => (extent d.1, σ d.2)

section
variable {R : Type*} (σ : Int64 → R)

@[simp] theorem view_cons (d : Int64 × Int64) (ds : List (Int64 × Int64)) :
    view σ (d :: ds) = (extent d.1, σ d.2) :: view σ ds := rfl

@[simp] theorem size_view (ds : List (Int64 × Int64)) :
    size (view σ ds) = elements (ds.map Prod.fst) := by
  simp [size, view, elements, Function.comp_def]

theorem element_view [AddCommGroup R] (ds : List (Int64 × Int64)) (k : Nat) :
    element (view σ ds) k = viewOffset σ ds k := by
  simp [element, view, viewOffset, Function.comp_def]

theorem view_pos {ds : List (Int64 × Int64)} (h : ∀ d ∈ ds, 0 < d.1) :
    ∀ d ∈ view σ ds, 0 < d.1 := by
  intro d hd
  obtain ⟨d, hmem, rfl⟩ := List.mem_map.1 hd
  exact extent_pos (h d hmem)

end

theorem extents_pos {ns : List Int64} (h : ∀ n ∈ ns, 0 < n) : ∀ n ∈ ns.map extent, 0 < n := by
  intro n hn
  obtain ⟨n, hmem, rfl⟩ := List.mem_map.1 hn
  exact extent_pos (h n hmem)

theorem word_injective {a b : Int64} (h : word a = word b) : a = b := by
  unfold word at h
  rw [ZMod.intCast_eq_intCast_iff] at h
  have ha := a.toInt_lt
  have ha' := a.le_toInt
  have hb := b.toInt_lt
  have hb' := b.le_toInt
  refine Int64.toInt_inj.1 ?_
  have : a.toInt % 2 ^ 64 = b.toInt % 2 ^ 64 := by exact_mod_cast h
  omega

/-- The comparison of `Simplify`. -/
theorem word_eq_iff {n : Int64} (hn : 0 < n) (t s : Int64) :
    word t = extent n • word s ↔ t = n * s := by
  rw [word, word, ← cast_mul_zmod n s hn]
  exact ⟨fun h => word_injective h, fun h => by rw [h]⟩

/-! ## The breaks that the walk meets -/

/-- **The groups of `Simplify`** end at the breaks of the dimensions as they stand. -/
theorem cut_simplifyLoop {ds : List (Int64 × Int64)} {vol : Int64} (stride : Int64)
    (hvol : 0 < vol) (hpos : ∀ d ∈ ds, 0 < d.1)
    (hfit : extent vol * elements (ds.map Prod.fst) < 2 ^ 63) (v : Nat) :
    Cut ((simplifyLoop vol stride ds).tail.map fun g => extent g.1) v ↔
      v = 1 ∨ Break (view word ((vol, stride) :: ds)) v := by
  induction ds generalizing vol stride with
  | nil =>
    refine cut_nil.trans (iff_of_eq (propext ⟨.inl, fun h => h.resolve_right ?_⟩))
    exact not_break_singleton _ v
  | cons d ds ih =>
    obtain ⟨n, s⟩ := d
    have hn : 0 < n := hpos (n, s) (.head _)
    have hds : ∀ d ∈ ds, 0 < d.1 := fun d hd => hpos d (.tail _ hd)
    have he : 0 < elements (ds.map Prod.fst) := elements_pos (by simpa using hds)
    simp only [List.map_cons, elements_cons] at hfit
    have hinner := Nat.lt_of_le_of_lt (Nat.le_mul_of_pos_left _ (extent_pos hvol)) hfit
    rw [view_cons, view_cons, break_cons_cons, size_view]
    unfold simplifyLoop
    by_cases hs : stride ≠ n * s
    · obtain ⟨-, hsize, -⟩ := simplifyLoop_spec (σ := word) s hn hds hinner
        fun d hd => cast_mul_zmod d.1 d.2 (hds d hd)
      have hbreak : word stride ≠ extent n • word s := fun h => hs ((word_eq_iff hn _ _).1 h)
      rw [if_pos hs, List.tail_cons, cut_iff_tail, ← List.map_tail, ih s hn hds hinner]
      rw [elements, List.map_map] at hsize
      rw [show (fun g : Int64 × Int64 => extent g.1) = extent ∘ Prod.fst from rfl, hsize]
      rw [view_cons]
      tauto
    · obtain rfl := not_not.1 hs
      have hmerge : word (n * s) = extent n • word s := (word_eq_iff hn _ _).2 rfl
      rw [← Nat.mul_assoc] at hfit
      obtain ⟨hmul, hmpos⟩ := extent_mul hvol hn
        (Nat.lt_of_le_of_lt (Nat.le_mul_of_pos_right _ he) hfit)
      rw [if_neg hs, ih s hmpos hds (by rwa [hmul]), view_cons, break_cons_congr]
      tauto

theorem cut_simplify {ds : List (Int64 × Int64)} (hpos : ∀ d ∈ ds, 0 < d.1)
    (hfit : elements (ds.map Prod.fst) < 2 ^ 63) (v : Nat) :
    Cut ((simplify ds).tail.map fun g => extent g.1) v ↔ v = 1 ∨ Break (view word ds) v := by
  cases ds with
  | nil =>
    exact cut_nil.trans (iff_of_eq (propext ⟨.inl, fun h => h.resolve_right (not_break_nil v)⟩))
  | cons d ds =>
    exact cut_simplifyLoop d.2 (hpos d (.head _)) (fun d hd => hpos d (.tail _ hd)) hfit v

/-! ## The walk -/

/-- The group taken is the longest that fits. -/
theorem takeGroup_max {inE : Int64} (hi : 0 < inE) : ∀ {ns : List Int64} {outV : Int64},
    0 < outV → outV ≤ inE → (∀ n ∈ ns, 0 < n) → extent outV * elements ns < 2 ^ 63 →
    0 < (takeGroup inE outV ns).1 ∧ (takeGroup inE outV ns).1 ≤ inE ∧
      ∀ n r, (takeGroup inE outV ns).2.2 = n :: r →
        extent inE < extent (takeGroup inE outV ns).1 * extent n
  | [], outV, hv, hle, _, _ => ⟨hv, hle, fun n r h => absurd h (List.cons_ne_nil n r).symm⟩
  | n :: ns, outV, hv, hle, hpos, hfit => by
    have hn := hpos n (.head _)
    have hns : ∀ m ∈ ns, 0 < m := fun m hm => hpos m (.tail _ hm)
    rw [elements_cons, ← Nat.mul_assoc] at hfit
    obtain ⟨hmul, hmpos⟩ := extent_mul hv hn
      (Nat.lt_of_le_of_lt (Nat.le_mul_of_pos_right _ (elements_pos hns)) hfit)
    unfold takeGroup
    by_cases hle' : outV * n ≤ inE
    · rw [if_pos hle']
      exact takeGroup_max hi hmpos hle' hns (by rwa [hmul])
    · rw [if_neg hle']
      refine ⟨hv, hle, fun m r hr => ?_⟩
      obtain ⟨rfl, -⟩ := List.cons.inj hr
      rw [Int64.le_iff_toInt_le, toInt_eq_extent hmpos, toInt_eq_extent hi, hmul] at hle'
      simp only
      omega

/-- A step of the walk: the dimensions it takes for a group, and the rest, which has the elements
inside the group exactly when these are a cut of the target. -/
theorem takeGroup_cut {e : Int64} {c : Nat} {ns : List Int64} (he : 0 < e) (hns : ∀ n ∈ ns, 0 < n)
    (hsize : elements ns = extent e * c) (hfit : elements ns < 2 ^ 63) :
    ∃ v g r, takeGroup e 1 ns = (v, g, r) ∧ ns = g ++ r ∧ extent v = elements g ∧
      (v = e ↔ Cut (ns.map extent) c) ∧
      (v = e → elements r = c ∧ ∀ n r', r = n :: r' → 1 < extent n) := by
  have hone : extent 1 = 1 := rfl
  have h1 : (0 : Int64) < 1 := by decide
  have hfit1 : extent 1 * elements ns < 2 ^ 63 := by rwa [hone, Nat.one_mul]
  obtain ⟨v, g, r, htake, happ, hv⟩ := takeGroup_spec e h1 hns hfit1
  rw [hone, Nat.one_mul] at hv
  have hle1 : (1 : Int64) ≤ e := by
    have := extent_pos he
    rw [Int64.le_iff_toInt_le, toInt_eq_extent he, toInt_eq_extent h1, hone]
    omega
  have hmax := takeGroup_max he h1 hle1 hns hfit1
  rw [htake] at hmax
  obtain ⟨hv0, hve, hmax⟩ := hmax
  have hg : ∀ n ∈ g, 0 < n := fun n hn => hns n (happ ▸ List.mem_append_left _ hn)
  have hr : ∀ n ∈ r, 0 < n := fun n hn => hns n (happ ▸ List.mem_append_right _ hn)
  rw [Int64.le_iff_toInt_le, toInt_eq_extent hv0, toInt_eq_extent he] at hve
  rw [happ, elements_append, ← hv] at hsize
  have hev : extent v = extent e → v = e := fun h =>
    Int64.toInt_inj.1 (by rw [toInt_eq_extent hv0, toInt_eq_extent he, h])
  -- the rest has at least `c` elements, and exactly `c` when the group is found
  have hrc : c ≤ elements r := by
    have := Nat.mul_le_mul_right (elements r) (Int.ofNat_le.1 hve)
    rw [hsize] at this
    exact Nat.le_of_mul_le_mul_left this (extent_pos he)
  have hfound : elements r = c → v = e := fun h =>
    hev (Nat.eq_of_mul_eq_mul_right (by rw [← h]; exact elements_pos hr) (h ▸ hsize))
  have hrest : v = e → elements r = c := fun h =>
    Nat.eq_of_mul_eq_mul_left (extent_pos he) (by rwa [h] at hsize)
  refine ⟨v, g, r, htake, happ, hv, ⟨fun h => ?_, ?_⟩, fun h => ⟨hrest h, fun n r' hr' => ?_⟩⟩
  · rw [happ, List.map_append, ← hrest h]
    exact ⟨r.map extent, List.suffix_append _ _, rfl⟩
  · rintro ⟨l, hl, hlc⟩
    have hrsuff : r.map extent <:+ ns.map extent := by
      rw [happ, List.map_append]
      exact List.suffix_append _ _
    have hc : 0 < c := Nat.pos_of_ne_zero fun h0 => by
      have := elements_pos hns
      rw [happ, elements_append, ← hv, hsize, h0, Nat.mul_zero] at this
      exact Nat.lt_irrefl 0 this
    rcases List.suffix_or_suffix_of_suffix hl hrsuff with ⟨a, ha⟩ | h
    · cases a with
      | nil => exact hfound (by rw [elements, ← ha, List.nil_append, hlc])
      | cons m a =>
        -- a dimension outside of the cut would have been taken
        obtain ⟨n, r', hr', rfl, hmap⟩ := List.map_eq_cons_iff.1 ha.symm
        have har : elements r = extent n * a.prod * c := by
          rw [elements, ← ha, List.cons_append, List.prod_cons, List.prod_append, hlc,
            Nat.mul_assoc]
        rw [har, ← Nat.mul_assoc] at hsize
        have hsize' := Nat.eq_of_mul_eq_mul_right hc hsize
        have ha0 : 0 < a.prod := Nat.pos_of_ne_zero fun h0 => by
          rw [h0, Nat.mul_zero, Nat.mul_zero] at hsize'
          exact absurd hsize' (Nat.ne_of_lt (extent_pos he))
        have hle : extent v * extent n ≤ extent e := by
          rw [← hsize', ← Nat.mul_assoc]
          exact Nat.le_mul_of_pos_right _ ha0
        exact absurd (hmax n r' hr') (Nat.not_lt.2 hle)
    · have hdvd : elements r ∣ c := hlc ▸ Cut.dvd ⟨_, h, rfl⟩
      exact hfound (Nat.le_antisymm (Nat.le_of_dvd hc hdvd) hrc)
  · have := hmax n r' hr'
    rw [h] at this
    exact Nat.lt_of_mul_lt_mul_left (by rwa [Nat.mul_one])

/-- The cuts of the rest are those of the whole target that divide its elements. -/
theorem cut_append_iff {g r : List Int64} {v : Nat} (hv : v ∣ elements r) :
    Cut ((g ++ r).map extent) v ↔ Cut (r.map extent) v := by
  have hsuff : r.map extent <:+ (g ++ r).map extent := by
    rw [List.map_append]
    exact List.suffix_append _ _
  refine ⟨?_, fun ⟨l, hl, hlv⟩ => ⟨l, hl.trans hsuff, hlv⟩⟩
  rintro ⟨l, hl, rfl⟩
  rcases List.suffix_or_suffix_of_suffix hl hsuff with h | h
  · exact ⟨l, h, rfl⟩
  · have hdvd : elements r ∣ l.prod := Cut.dvd ⟨_, h, rfl⟩
    rw [Nat.dvd_antisymm hv hdvd]
    exact cut_prod _

/-- The sizes inside the groups that are left to match. -/
def innerSizes (gs : List (Int64 × Int64)) : List Nat := gs.tail.map fun g => extent g.1

theorem cut_innerSizes {g : Int64 × Int64} {gs : List (Int64 × Int64)} {v : Nat} :
    Cut (innerSizes (g :: gs)) v ↔ v = elements (gs.map Prod.fst) ∨ Cut (innerSizes gs) v := by
  rw [innerSizes, List.tail_cons, cut_iff_tail, innerSizes, List.map_tail, elements, List.map_map]
  rfl

theorem cut_innerSizes_dvd {gs : List (Int64 × Int64)} {v : Nat} (h : Cut (innerSizes gs) v) :
    v ∣ elements (gs.map Prod.fst) := by
  rw [elements, List.map_map]
  obtain ⟨l, hl, rfl⟩ := h
  exact Cut.dvd ⟨l, hl.trans ((List.tail_suffix gs).map _), rfl⟩

/-- **The walk succeeds** exactly when the elements inside each group are a cut of the target. -/
theorem reshapeSimplified_iff : ∀ {gs : List (Int64 × Int64)} {ns : List Int64},
    (∀ g ∈ gs, 0 < g.1) → (∀ n ∈ ns, 0 < n) → elements ns = elements (gs.map Prod.fst) →
    elements ns < 2 ^ 63 →
    ((reshapeSimplified gs ns).2 = true ↔
      ∀ v, Cut (innerSizes gs) v → Cut (ns.map extent) v)
  | [], ns, _, _, _, _ =>
    iff_of_true rfl fun v hv => (cut_nil.1 hv) ▸ cut_one _
  | g :: gs, [], _, _, he, _ => by
    refine iff_of_true rfl fun v hv => ?_
    have hdvd := cut_innerSizes_dvd hv
    rw [← he] at hdvd
    rw [Nat.dvd_one.1 hdvd]
    exact cut_one _
  | (e, s) :: gs, n :: ns, hgs, hns, he, hfit => by
    have hgs' : ∀ g ∈ gs, 0 < g.1 := fun g hg => hgs g (.tail _ hg)
    obtain ⟨v, g, r, htake, happ, hv, hcut, hrest⟩ :=
      takeGroup_cut (c := elements (gs.map Prod.fst)) (hgs (e, s) (.head _)) hns he hfit
    simp only [cut_innerSizes]
    rw [reshapeSimplified, htake]
    by_cases hve : v ≠ e
    · simp only [if_pos hve]
      refine iff_of_false Bool.false_ne_true fun h => hve (hcut.2 (h _ (.inl rfl)))
    · have hve := not_not.1 hve
      obtain ⟨her, -⟩ := hrest hve
      have hr : ∀ n ∈ r, 0 < n := fun m hm => hns m (happ ▸ List.mem_append_right _ hm)
      have hg : 0 < elements g := hv ▸ extent_pos (hve ▸ hgs (e, s) (.head _))
      have hrfit : elements r < 2 ^ 63 := by
        rw [happ, elements_append] at hfit
        exact Nat.lt_of_le_of_lt (Nat.le_mul_of_pos_left _ hg) hfit
      have ih := reshapeSimplified_iff hgs' hr her hrfit
      simp only [hve, ne_eq, not_true_eq_false, if_false]
      rw [ih]
      constructor
      · rintro h v (rfl | hv)
        · exact hcut.1 hve
        · rw [happ]
          exact (cut_append_iff (her ▸ cut_innerSizes_dvd hv)).2 (h v hv)
      · intro h v hv
        have := h v (.inr hv)
        rw [happ] at this
        exact (cut_append_iff (her ▸ cut_innerSizes_dvd hv)).1 this

/-! ## What a walk that fails has written -/

/-- A group's strides reach the elements inside its dimensions. -/
theorem map_groupStrides {e s : Int64} {gs : List (Int64 × Int64)} {g : List Int64} {b : Nat}
    (hgs : ∀ g ∈ gs, 0 < g.1) (hg : ∀ n ∈ g, 0 < n) (hb : b = elements (gs.map Prod.fst)) :
    (groupStrides s g).1.map word =
      stepStrides (fun v => element (view word ((e, s) :: gs)) (v * b)) (g.map extent) := by
  obtain ⟨hpacked, -⟩ := groupStrides_spec (scales_zmod s (elements g)) hg (Nat.le_refl _)
  refine Eq.trans hpacked ?_
  have hb0 : 0 < b := hb ▸ elements_pos (by simpa using hgs)
  have hstep : (fun v => element (view word ((e, s) :: gs)) (v * b)) = fun v => v • word s := by
    funext v
    rw [view_cons, element_cons, size_view, ← hb, Nat.mul_div_cancel _ hb0, Nat.mul_mod_left,
      element_zero, add_zero]
  rw [hstep]
  exact packed_eq_stepStrides _ _

/-- **The strides written** are the offsets of the elements that the target dimensions step to,
whether the walk succeeds or not. -/
theorem reshapeSimplified_written : ∀ {gs : List (Int64 × Int64)} {ns : List Int64},
    (∀ g ∈ gs, 0 < g.1) → (∀ n ∈ ns, 0 < n) → elements ns = elements (gs.map Prod.fst) →
    elements ns < 2 ^ 63 →
    (reshapeSimplified gs ns).1.map word =
      (stepStrides (element (view word gs)) (ns.map extent)).take (reshapeSimplified gs ns).1.length
  | [], ns, _, _, _, _ => (List.take_zero).symm
  | g :: gs, [], _, _, he, _ => (List.take_zero).symm
  | (e, s) :: gs, n :: ns, hgs, hns, he, hfit => by
    have hgs' : ∀ g ∈ gs, 0 < g.1 := fun g hg => hgs g (.tail _ hg)
    obtain ⟨v, g, r, htake, happ, hv, hcut, hrest⟩ :=
      takeGroup_cut (c := elements (gs.map Prod.fst)) (hgs (e, s) (.head _)) hns he hfit
    rw [reshapeSimplified, htake]
    by_cases hve : v ≠ e
    · simp only [if_pos hve]
      exact List.take_zero.symm
    · have hve := not_not.1 hve
      obtain ⟨her, hhead⟩ := hrest hve
      have hg : ∀ n ∈ g, 0 < n := fun m hm => hns m (happ ▸ List.mem_append_left _ hm)
      have hr : ∀ n ∈ r, 0 < n := fun m hm => hns m (happ ▸ List.mem_append_right _ hm)
      have hrfit : elements r < 2 ^ 63 := by
        rw [happ, elements_append] at hfit
        exact Nat.lt_of_le_of_lt (Nat.le_mul_of_pos_left _ (elements_pos hg)) hfit
      have ih := reshapeSimplified_written hgs' hr her hrfit
      simp only [hve, ne_eq, not_true_eq_false, if_false]
      have hinner : stepStrides (element (view word ((e, s) :: gs))) (r.map extent) =
          stepStrides (element (view word gs)) (r.map extent) := by
        cases r with
        | nil => rfl
        | cons n' r' =>
          refine stepStrides_congr fun v hv => element_of_lt _ ?_
          have hr' : 0 < elements r' := elements_pos fun m hm => hr m (.tail _ hm)
          have hle : v ≤ elements r' := Nat.le_of_dvd hr' hv.dvd
          refine Nat.lt_of_lt_of_eq ?_ (her.trans (size_view word gs).symm)
          rw [elements_cons]
          calc v ≤ 1 * elements r' := by rwa [Nat.one_mul]
            _ < _ := Nat.mul_lt_mul_of_pos_right (hhead n' r' rfl) hr'
      rw [List.map_append, ih, happ, List.map_append, stepStrides_append, List.length_append,
        hinner, map_groupStrides hgs' hg her]
      rw [show (groupStrides s g).1.length = (stepStrides (fun v =>
          element (view word ((e, s) :: gs)) (v * elements r)) (g.map extent)).length by
        rw [length_groupStrides, length_stepStrides, List.length_map]]
      exact (List.take_length_add_append _).symm

/-- Inside of a first dimension that extends there are fewer elements. -/
theorem elements_drop_lt {r : List Int64} (hr : ∀ n ∈ r, 0 < n)
    (hhead : ∀ n r', r = n :: r' → 1 < extent n) (h0 : 0 < r.length) (i : Nat) :
    elements (r.drop (i + 1)) < elements r := by
  cases r with
  | nil => exact absurd h0 (Nat.lt_irrefl 0)
  | cons n r =>
    have hpos : ∀ m ∈ r, 0 < m := fun m hm => hr m (.tail _ hm)
    have hle : elements (r.drop i) ≤ elements r := by
      conv_rhs => rw [← List.take_append_drop i r, elements_append]
      exact Nat.le_mul_of_pos_left _ (elements_pos fun m hm => hpos m (List.mem_of_mem_take hm))
    rw [List.drop_succ_cons, elements_cons]
    calc elements (r.drop i) ≤ 1 * elements r := by rwa [Nat.one_mul]
      _ < _ := Nat.mul_lt_mul_of_pos_right (hhead n r rfl) (elements_pos hpos)

/-- **How far a walk that fails has come**: outside a group all of whose outer groups are
matched. -/
theorem reshapeSimplified_length : ∀ {gs : List (Int64 × Int64)} {ns : List Int64},
    (∀ g ∈ gs, 0 < g.1) → (∀ n ∈ ns, 0 < n) → elements ns = elements (gs.map Prod.fst) →
    elements ns < 2 ^ 63 → (reshapeSimplified gs ns).2 = false → ∀ i < ns.length,
    (i < (reshapeSimplified gs ns).1.length ↔
      ∃ w, Cut (innerSizes gs) w ∧ w ≤ elements (ns.drop (i + 1)) ∧
        ∀ v ≥ w, Cut (innerSizes gs) v → Cut (ns.map extent) v)
  | [], ns, _, _, _, _, hfail, _, _ => Bool.noConfusion (hfail : true = false)
  | g :: gs, [], _, _, he, _, hfail, _, _ => Bool.noConfusion (hfail : true = false)
  | (e, s) :: gs, n :: ns, hgs, hns, he, hfit, hfail, i, hi => by
    have hgs' : ∀ g ∈ gs, 0 < g.1 := fun g hg => hgs g (.tail _ hg)
    obtain ⟨v, g, r, htake, happ, hv, hcut, hrest⟩ :=
      takeGroup_cut (c := elements (gs.map Prod.fst)) (hgs (e, s) (.head _)) hns he hfit
    have hgs0 : 0 < elements (gs.map Prod.fst) := elements_pos (by simpa using hgs')
    have hinner : ∀ v, v = elements (gs.map Prod.fst) ∨ Cut (innerSizes gs) v →
        v ∣ elements (gs.map Prod.fst) :=
      fun v hv => hv.elim (fun h => h ▸ Nat.dvd_refl v) cut_innerSizes_dvd
    simp only [cut_innerSizes]
    rw [reshapeSimplified, htake] at hfail ⊢
    by_cases hve : v ≠ e
    · simp only [if_pos hve]
      refine iff_of_false (Nat.not_lt_zero i) ?_
      rintro ⟨w, hw, -, hall⟩
      exact hve (hcut.2 (hall _ (Nat.le_of_dvd hgs0 (hinner w hw)) (.inl rfl)))
    · have hve := not_not.1 hve
      obtain ⟨her, hhead⟩ := hrest hve
      have hg : ∀ n ∈ g, 0 < n := fun m hm => hns m (happ ▸ List.mem_append_left _ hm)
      have hr : ∀ n ∈ r, 0 < n := fun m hm => hns m (happ ▸ List.mem_append_right _ hm)
      have hrfit : elements r < 2 ^ 63 := by
        rw [happ, elements_append] at hfit
        exact Nat.lt_of_le_of_lt (Nat.le_mul_of_pos_left _ (elements_pos hg)) hfit
      simp only [hve, ne_eq, not_true_eq_false, if_false] at hfail ⊢
      have ih := reshapeSimplified_length hgs' hr her hrfit hfail
      rw [List.length_append, length_groupStrides]
      rw [happ] at hi hcut ⊢
      by_cases hig : i < g.length
      · refine iff_of_true (Nat.lt_add_right _ hig)
          ⟨elements r, .inl her, ?_, fun v hle hv => ?_⟩
        · rw [List.drop_append_of_le_length (by omega), elements_append]
          exact Nat.le_mul_of_pos_left _
            (elements_pos fun m hm => hg m (List.mem_of_mem_drop hm))
        · have hle' : v ≤ elements r := her ▸ Nat.le_of_dvd hgs0 (hinner v hv)
          rw [Nat.le_antisymm hle' hle, her]
          exact hcut.1 hve
      · have hdrop : (g ++ r).drop (i + 1) = r.drop (i - g.length + 1) := by
          rw [List.drop_append, List.drop_eq_nil_of_le (by omega), List.nil_append]
          congr 1
          omega
        rw [List.length_append] at hi
        have hir : i - g.length < r.length := by omega
        rw [hdrop, show i < g.length + (reshapeSimplified gs r).1.length ↔
          i - g.length < (reshapeSimplified gs r).1.length by omega, ih _ hir]
        constructor
        · rintro ⟨w, hw, hle, hall⟩
          refine ⟨w, .inr hw, hle, ?_⟩
          rintro v hv (rfl | hc)
          · exact hcut.1 hve
          · exact (cut_append_iff (her ▸ cut_innerSizes_dvd hc)).2 (hall v hv hc)
        · rintro ⟨w, hw | hw, hle, hall⟩
          · have hlt := elements_drop_lt hr hhead (Nat.zero_lt_of_lt hir) (i - g.length)
            exact absurd hle (Nat.not_le.2 (by rwa [hw, ← her]))
          · exact ⟨w, hw, hle, fun v hv hc =>
              (cut_append_iff (her ▸ cut_innerSizes_dvd hc)).1 (hall v hv (.inr hc))⟩

/-! ## Main result -/

/-- The call is refused for the rank, or for a layout of another rank. -/
def RankRefused (newRank : Int32) (newLayout : TensorLayout) : Prop :=
  (newRank < 1 ∨ newRank > 15) ∨ newLayout.rank > 0 ∧ newLayout.rank ≠ newRank

/-- Some strides give the `k`-th element of the shape the byte offset of the tensor's. -/
def StridesExist (t : TensorData) (sh : List Int64) : Prop :=
  ∃ ss : List Int, ss.length = sh.length ∧
    ∀ k < t.elements, offset (sh.map extent) ss k = t.byteOffset k

/-- The call succeeds where strides exist, and where it fails the data is as it was. -/
def ReshapeComplete (t : TensorData) (newRank : Int32) (newShape : Nat → Int64)
    (newLayout : TensorLayout) : Prop :=
  (StridesExist t (targetShape newRank newShape) →
    (reshapeTensorData t newRank newShape newLayout).1 = .ok ()) ∧
  ((reshapeTensorData t newRank newShape newLayout).1 ≠ .ok () →
    (reshapeTensorData t newRank newShape newLayout).2 = t)

/-- Every break of a view is a cut of the shape. -/
def BreaksCut {R : Type*} [AddCommGroup R] (ds : List (Nat × R)) (sh : List Int64) : Prop :=
  ∀ v, Break ds v → Cut (sh.map extent) v

/-- The array of strides holds, for each target dimension outside of a break that is a cut as are
the breaks outside of it, the offset of the element the dimension steps to. -/
def StridesKept (t : TensorData) (sh : List Int64) : Prop :=
  ∀ i : Fin tensorMaxRank, i.1 < sh.length →
    (∃ w, Break (view word t.dims) w ∧ w ≤ elements (sh.drop (i.1 + 1)) ∧
      ∀ v ≥ w, Break (view word t.dims) v → Cut (sh.map extent) v) →
    (t.strides.get i).toInt ≡ t.byteOffset (elements (sh.drop (i.1 + 1))) [ZMOD 2 ^ 64]

theorem throw_ne_ok {e : Exception} : (.error e : Except Exception Unit) ≠ .ok () := by simp

theorem reshape_refused {t : TensorData} {newRank : Int32} {newShape : Nat → Int64}
    {newLayout : TensorLayout} (h : RankRefused newRank newLayout) :
    (reshapeTensorData t newRank newShape newLayout).1 ≠ .ok () ∧
      (reshapeTensorData t newRank newShape newLayout).2 = t := by
  unfold reshapeTensorData
  by_cases hr : newRank < 1 ∨ newRank > 15
  · rw [dif_pos hr]
    exact ⟨throw_ne_ok, rfl⟩
  rw [dif_neg hr]
  by_cases hv : volume (targetShape newRank newShape) ≠ volume (t.dims.map Prod.fst)
  · simp only [if_pos hv]
    exact ⟨throw_ne_ok, trivial⟩
  simp only [if_neg hv, if_pos (h.resolve_left hr)]
  exact ⟨throw_ne_ok, trivial⟩

/-- A call with a target of as many elements and a proper rank is decided by the walk. -/
theorem reshape_walk {t : TensorData} {newRank : Int32} {newShape : Nat → Int64}
    {newLayout : TensorLayout} (h : ¬RankRefused newRank newLayout)
    (hv : volume (targetShape newRank newShape) = volume (t.dims.map Prod.fst)) :
    ((reshapeTensorData t newRank newShape newLayout).1 = .ok () ↔
      (reshapeSimplified (simplify t.dims) (targetShape newRank newShape)).2 = true) ∧
    ((reshapeSimplified (simplify t.dims) (targetShape newRank newShape)).2 = false →
      (reshapeTensorData t newRank newShape newLayout).2 =
        { t with
          layout := newLayout
          strides := overwrite t.strides
            (reshapeSimplified (simplify t.dims) (targetShape newRank newShape)).1 }) := by
  rw [RankRefused, not_or] at h
  unfold reshapeTensorData
  rw [dif_neg h.1]
  simp only [hv, ne_eq, not_true_eq_false, if_false]
  rw [if_neg h.2]
  cases (reshapeSimplified (simplify t.dims) (targetShape newRank newShape)).2 with
  | true =>
    rw [if_neg (by decide)]
    exact ⟨iff_of_true rfl rfl, fun h => Bool.noConfusion h⟩
  | false =>
    rw [if_pos rfl]
    exact ⟨iff_of_false (throw_ne_ok) Bool.false_ne_true, fun _ => rfl⟩

theorem get_overwrite (a : Vector Int64 tensorMaxRank) (xs : List Int64) (i : Fin tensorMaxRank) :
    (overwrite a xs).get i = xs.getD i.1 (a.get i) := by
  show (overwrite a xs)[i.1] = _
  rw [overwrite, Vector.getElem_ofFn]
  rfl

theorem overwrite_eq_iff (a : Vector Int64 tensorMaxRank) (xs : List Int64) :
    overwrite a xs = a ↔ ∀ i : Fin tensorMaxRank, ∀ h : i.1 < xs.length, xs[i.1] = a.get i := by
  constructor
  · intro h i hi
    rw [← h, get_overwrite, List.getD_eq_getElem _ _ hi]
  · intro h
    refine Vector.ext fun i hi => ?_
    show (overwrite a xs).get ⟨i, hi⟩ = a.get ⟨i, hi⟩
    rw [get_overwrite]
    by_cases hx : i < xs.length
    · rw [List.getD_eq_getElem _ _ hx, h ⟨i, hi⟩ hx]
    · rw [List.getD_eq_default _ _ (Nat.not_lt.1 hx)]

/-- **A walk that fails** leaves the array of strides as it was exactly when what it writes is
there already. -/
theorem overwrite_walk_iff {t : TensorData} {sh : List Int64} (hpos : ∀ d ∈ t.dims, 0 < d.1)
    (hsh : ∀ n ∈ sh, 0 < n) (hvol : elements sh = t.elements) (hfit : t.elements < 2 ^ 63)
    (hseen : ¬BreaksCut (view word t.dims) sh)
    (hfail : (reshapeSimplified (simplify t.dims) sh).2 = false) :
    overwrite t.strides (reshapeSimplified (simplify t.dims) sh).1 = t.strides ↔
      StridesKept t sh := by
  obtain ⟨hg, hge, hgo⟩ := simplify_spec (σ := word) hpos hfit
    fun d hd => cast_mul_zmod d.1 d.2 (hpos d (List.mem_of_mem_tail hd))
  have hsize := hvol.trans hge.symm
  have hwrite := reshapeSimplified_written hg hsh hsize (hvol ▸ hfit)
  have hlen := reshapeSimplified_length hg hsh hsize (hvol ▸ hfit) hfail
  have hcut := cut_simplify hpos hfit
  simp only [innerSizes, hcut] at hlen
  generalize (reshapeSimplified (simplify t.dims) sh).1 = written at hwrite hlen ⊢
  have hle : written.length ≤ sh.length := by
    have := congrArg List.length hwrite
    rw [List.length_map, List.length_take, length_stepStrides, List.length_map] at this
    omega
  have hval : ∀ i, ∀ h : i < written.length,
      word written[i] = ((t.byteOffset (elements (sh.drop (i + 1))) : Int) : ZMod (2 ^ 64)) := by
    intro i hi
    have hi' : i < (written.map word).length := by rwa [List.length_map]
    rw [← List.getElem_map word (h := hi')]
    simp only [hwrite, List.getElem_take, getElem_stepStrides]
    rw [element_view, hgo, byteOffset_cast, ← List.map_drop]
    rfl
  have hwritten : ∀ i < sh.length, (i < written.length ↔
      ∃ w, Break (view word t.dims) w ∧ w ≤ elements (sh.drop (i + 1)) ∧
        ∀ v ≥ w, Break (view word t.dims) v → Cut (sh.map extent) v) := by
    intro i hi
    rw [hlen i hi]
    constructor
    · rintro ⟨w, rfl | hw, hle, hall⟩
      · exact absurd (fun v hv => hall v (hv.pos (view_pos word hpos)) (.inr hv)) hseen
      · exact ⟨w, hw, hle, fun v hv hb => hall v hv (.inr hb)⟩
    · rintro ⟨w, hw, hle, hall⟩
      exact ⟨w, .inr hw, hle, fun v hv hb => hb.elim (fun h => h ▸ cut_one _) (hall v hv)⟩
  have hmod : ∀ (i : Fin tensorMaxRank) (h : i.1 < written.length),
      written[i.1] = t.strides.get i ↔
        (t.strides.get i).toInt ≡ t.byteOffset (elements (sh.drop (i.1 + 1))) [ZMOD 2 ^ 64] := by
    intro i hi
    have hcast := ZMod.intCast_eq_intCast_iff (t.strides.get i).toInt
      (t.byteOffset (elements (sh.drop (i.1 + 1)))) (2 ^ 64)
    rw [← hval i hi] at hcast
    exact ⟨fun h => hcast.1 (by rw [h]; rfl), fun h => (word_injective (hcast.2 h)).symm⟩
  rw [overwrite_eq_iff]
  constructor
  · intro h i hi hw
    have hi' := (hwritten i hi).2 hw
    exact (hmod i hi').1 (h i hi')
  · intro h i hi
    have hi' := Nat.lt_of_lt_of_le hi hle
    exact (hmod i hi).2 (h i hi' ((hwritten i hi').1 hi))

theorem rewritten_eq_iff (t : TensorData) (layout : TensorLayout)
    (strides : Vector Int64 tensorMaxRank) :
    { t with layout := layout, strides := strides } = t ↔
      layout = t.layout ∧ strides = t.strides := by
  cases t
  simp

/-- A positive extent determines the dimension. -/
theorem eq_of_extent {a b : Int64} (h0 : 0 < extent a) (h : extent a = extent b) : a = b := by
  unfold extent at h0 h
  exact Int64.toInt_inj.1 (by omega)

theorem stridesExist_iff {t : TensorData} {sh : List Int64} (hpos : ∀ d ∈ t.dims, 0 < d.1)
    (hsh : ∀ n ∈ sh, 0 < n) (hvol : elements sh = t.elements) :
    StridesExist t sh ↔ BreaksCut (extended (view Int64.toInt t.dims)) sh := by
  have h := exists_strides_iff (view_pos Int64.toInt hpos) (extents_pos hsh)
    (hvol.trans (size_view _ _).symm)
  rw [size_view] at h
  simp only [element_view, List.length_map] at h
  exact h

/-- **When a reshape is complete.** For positive dimensions and a target shape of as many
elements, which are fewer than `2 ^ 63`: wherever the breaks of the source that do not come from
dimensions of size 1 are cuts of the target, the rank and the layout are accepted and the breaks
that the code meets are cuts too; and where one of these is not, the layout and the strides
written before are those already there. -/
theorem reshape_complete_iff {t : TensorData} {newRank : Int32} {newShape : Nat → Int64}
    {newLayout : TensorLayout} (hpos : ∀ d ∈ t.dims, 0 < d.1)
    (hnew : ∀ n ∈ targetShape newRank newShape, 0 < n)
    (hvol : elements (targetShape newRank newShape) = t.elements) (hfit : t.elements < 2 ^ 63) :
    ReshapeComplete t newRank newShape newLayout ↔
      (BreaksCut (extended (view Int64.toInt t.dims)) (targetShape newRank newShape) →
        ¬RankRefused newRank newLayout ∧
          BreaksCut (view word t.dims) (targetShape newRank newShape)) ∧
      (¬RankRefused newRank newLayout →
        ¬BreaksCut (view word t.dims) (targetShape newRank newShape) →
          newLayout = t.layout ∧ StridesKept t (targetShape newRank newShape)) := by
  rw [ReshapeComplete, stridesExist_iff hpos hnew hvol]
  by_cases hr : RankRefused newRank newLayout
  · obtain ⟨hne, hsame⟩ := @reshape_refused t _ newShape _ hr
    simp [hr, hne, hsame]
  have hvolume : volume (targetShape newRank newShape) = volume (t.dims.map Prod.fst) := by
    have hold : ∀ n ∈ t.dims.map Prod.fst, 0 < n := by simpa using hpos
    refine eq_of_extent ?_ ?_
    · rw [extent_volume hnew (hvol ▸ hfit)]
      exact elements_pos hnew
    · rw [extent_volume hnew (hvol ▸ hfit), extent_volume hold hfit]
      exact hvol
  obtain ⟨hok, hfail⟩ := reshape_walk hr hvolume
  obtain ⟨hg, hge, -⟩ := simplify_spec (σ := word) hpos hfit
    fun d hd => cast_mul_zmod d.1 d.2 (hpos d (List.mem_of_mem_tail hd))
  have hiff := reshapeSimplified_iff hg hnew (hvol.trans hge.symm) (hvol ▸ hfit)
  have hseen : (∀ v, Cut (innerSizes (simplify t.dims)) v →
      Cut ((targetShape newRank newShape).map extent) v) ↔
      BreaksCut (view word t.dims) (targetShape newRank newShape) := by
    simp only [innerSizes, cut_simplify hpos hfit]
    exact ⟨fun h v hv => h v (.inr hv), fun h v hv => hv.elim (fun h1 => h1 ▸ cut_one _) (h v)⟩
  rw [hseen] at hiff
  simp only [ne_eq, hok, hiff, hr, not_false_eq_true, true_and, true_implies]
  refine and_congr_right fun _ => ?_
  refine imp_congr_right fun hns => ?_
  have hwalk : (reshapeSimplified (simplify t.dims) (targetShape newRank newShape)).2 = false :=
    Bool.eq_false_iff.2 fun h => hns (hiff.1 h)
  rw [hfail hwalk, ← overwrite_walk_iff hpos hnew hvol hfit hns hwalk]
  exact rewritten_eq_iff t newLayout _

theorem reshape_complete_iff_padded :
    let newShape : Nat → Int64 := fun d => if d = 0 then 6 else 2
    ReshapeComplete paddedRows 2 newShape paddedRows.layout ↔
      (BreaksCut (extended (view Int64.toInt paddedRows.dims)) (targetShape 2 newShape) →
        ¬RankRefused 2 paddedRows.layout ∧
          BreaksCut (view word paddedRows.dims) (targetShape 2 newShape)) ∧
      (¬RankRefused 2 paddedRows.layout →
        ¬BreaksCut (view word paddedRows.dims) (targetShape 2 newShape) →
          paddedRows.layout = paddedRows.layout ∧
            StridesKept paddedRows (targetShape 2 newShape)) :=
  reshape_complete_iff (forall_mem_of_all rfl) (forall_mem_of_all rfl) rfl (by decide)

/-- **Two calls that are not complete**: the middle dimension of size 1 hides from the code that
six elements lie in a row, and a target that is refused for its last dimensions has the strides
of its first dimensions written. -/
theorem reshape_incomplete :
    let t := stridedTensor [(2, 3), (1, 100), (3, 1)] (by decide)
    let row : Nat → Int64 := fun _ => 6
    let u := stridedTensor [(2, 100), (2, 10), (3, 1)] (by decide)
    let shape : Nat → Int64 := fun d => if d = 0 then 1 else if d = 2 then 3 else 2
    (StridesExist t (targetShape 1 row) ∧ elements (targetShape 1 row) = t.elements ∧
      (reshapeTensorData t 1 row t.layout).1 ≠ .ok () ∧ ¬ReshapeComplete t 1 row t.layout) ∧
    (elements (targetShape 4 shape) = u.elements ∧
      (reshapeTensorData u 4 shape u.layout).1 ≠ .ok () ∧
      (reshapeTensorData u 4 shape u.layout).2.strides.toList.take 3 = [200, 100, 1] ∧
      ¬ReshapeComplete u 4 shape u.layout) := by
  intro t row u shape
  have hrow : (reshapeTensorData t 1 row t.layout).1 ≠ .ok () := throw_ne_ok
  have hshape : (reshapeTensorData u 4 shape u.layout).1 ≠ .ok () := throw_ne_ok
  have hstrides : StridesExist t (targetShape 1 row) := by
    have hdims : view Int64.toInt t.dims = [(2, 3), (1, 100), (3, 1)] := rfl
    have hiff : StridesExist t (targetShape 1 row) ↔ _ :=
      stridesExist_iff (forall_mem_of_all rfl) (forall_mem_of_all rfl) rfl
    refine hiff.2 fun v hv => ?_
    rw [hdims] at hv
    have hext : extended [(2, (3 : Int)), (1, 100), (3, 1)] = [(2, 3), (3, 1)] := rfl
    rw [hext, break_cons_cons] at hv
    rcases hv with ⟨hne, -⟩ | hv
    · exact absurd (by norm_num) hne
    · exact absurd hv (not_break_singleton _ v)
  have hwritten : (reshapeTensorData u 4 shape u.layout).2.strides.toList.take 3 =
      [200, 100, 1] := rfl
  refine ⟨⟨hstrides, rfl, hrow, fun h => hrow (h.1 hstrides)⟩, rfl, hshape, hwritten, fun h => ?_⟩
  rw [h.2 hshape] at hwritten
  exact absurd hwritten (by decide)

end Nvcv
