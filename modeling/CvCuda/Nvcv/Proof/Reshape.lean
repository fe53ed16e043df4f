import CvCuda.Lib.Int32
import CvCuda.Lib.RowMajor
import CvCuda.Nvcv.TensorData
import Mathlib.Data.ZMod.Basic
import Mathlib.Data.Int.ModEq

/-! # A reshaped tensor has the same elements

A view is compared through the library of row-major offsets. A map `σ` sends the strides of the
code to a monoid; where the code's products are exact under `σ` (`Exact`), `simplify` and
`reshapeSimplified` keep the offset of every element (`simplify_offset`, `reshape_offset`). Modulo
`2 ^ 64` every product of strides is exact, over the integers those of strides with in-range
extents are (`exact_zmod`, `Fits`).

* `reshape_same_elements`: on the calls that succeed the new view has the old one's elements
  exactly when its number of elements is representable: the volume check compares products that
  wrap.
* `reshape_wrapped`: a target shape with too many elements that the check accepts.
-/

namespace Nvcv

open RowMajor

/-! ## Exact products of `int64_t` -/

/-- A dimension as a natural number. -/
def extent (n : Int64) : Nat := n.toInt.toNat

theorem toInt_eq_extent {n : Int64} (h : 0 < n) : n.toInt = extent n := by
  rw [Int64.lt_iff_toInt_lt] at h
  exact (Int.toNat_of_nonneg (Int.le_of_lt h)).symm

theorem extent_pos {n : Int64} (h : 0 < n) : 0 < extent n := by
  rw [Int64.lt_iff_toInt_lt] at h
  have h0 : (0 : Int64).toInt = 0 := rfl
  unfold extent
  omega

/-- A product in the range of `int64_t` does not wrap. -/
theorem toInt_mul_of_fits {a b : Int64} (h : |a.toInt * b.toInt| < 2 ^ 63) :
    (a * b).toInt = a.toInt * b.toInt := by
  rw [abs_lt] at h
  rw [Int64.toInt_mul]
  exact Int.bmod_eq_of_le (by omega) (by omega)

theorem extent_mul {n m : Int64} (hn : 0 < n) (hm : 0 < m)
    (h : extent n * extent m < 2 ^ 63) : extent (n * m) = extent n * extent m ∧ 0 < n * m := by
  have hmul : (n * m).toInt = (extent n * extent m : Nat) := by
    rw [toInt_mul_of_fits, toInt_eq_extent hn, toInt_eq_extent hm, Nat.cast_mul]
    rw [toInt_eq_extent hn, toInt_eq_extent hm, ← Nat.cast_mul, Nat.abs_cast]
    exact_mod_cast h
  refine ⟨by rw [extent, hmul, Int.toNat_natCast], ?_⟩
  rw [Int64.lt_iff_toInt_lt, hmul]
  exact Int.natCast_pos.2 (Nat.mul_pos (extent_pos hn) (extent_pos hm))

/-- The number of elements of a shape. -/
def elements (sh : List Int64) : Nat := (sh.map extent).prod

theorem elements_pos {sh : List Int64} (h : ∀ n ∈ sh, 0 < n) : 0 < elements sh := by
  induction sh with
  | nil => exact Nat.one_pos
  | cons n sh ih =>
    exact Nat.mul_pos (extent_pos (h n (.head _))) (ih fun m hm => h m (.tail _ hm))

@[simp] theorem elements_cons (n : Int64) (sh : List Int64) :
    elements (n :: sh) = extent n * elements sh := rfl

@[simp] theorem elements_append (sh sh' : List Int64) :
    elements (sh ++ sh') = elements sh * elements sh' := by
  simp [elements]

theorem extent_foldl {v : Int64} {sh : List Int64} (hv : 0 < v) (h : ∀ n ∈ sh, 0 < n)
    (hfit : extent v * elements sh < 2 ^ 63) :
    extent (sh.foldl (· * ·) v) = extent v * elements sh := by
  induction sh generalizing v with
  | nil => exact (Nat.mul_one _).symm
  | cons n sh ih =>
    have hn := h n (.head _)
    have hsh : ∀ m ∈ sh, 0 < m := fun m hm => h m (.tail _ hm)
    rw [elements_cons, ← Nat.mul_assoc] at hfit
    obtain ⟨hmul, hpos⟩ := extent_mul hv hn
      (Nat.lt_of_le_of_lt (Nat.le_mul_of_pos_right _ (elements_pos hsh)) hfit)
    rw [List.foldl_cons, ih hpos hsh (by rwa [hmul]), hmul, elements_cons, Nat.mul_assoc]

/-- The volume the code computes is the number of elements when that is representable. -/
theorem extent_volume {sh : List Int64} (h : ∀ n ∈ sh, 0 < n) (hfit : elements sh < 2 ^ 63) :
    extent (volume sh) = elements sh := by
  have h1 : extent 1 = 1 := rfl
  have := extent_foldl (v := 1) (by decide) h (by rwa [h1, Nat.one_mul])
  rwa [h1, Nat.one_mul] at this

/-! ## Views under a map of the strides -/

section
variable {R : Type*} [AddCommMonoid R] (σ : Int64 → R)

/-- The offset of the `k`-th element of a view, its strides mapped by `σ`. -/
def viewOffset (ds : List (Int64 × Int64)) (k : Nat) : R :=
  offset (ds.map fun d => extent d.1) (ds.map fun d => σ d.2) k

/-- The product of a dimension and a stride is exact under `σ`. -/
def Exact (n s : Int64) : Prop := σ (n * s) = extent n • σ s

variable {σ}

theorem viewOffset_cons (d : Int64 × Int64) (ds : List (Int64 × Int64)) (k : Nat) :
    viewOffset σ (d :: ds) k =
      (k / elements (ds.map Prod.fst)) • σ d.2 +
        viewOffset σ ds (k % elements (ds.map Prod.fst)) := by
  simp [viewOffset, offset, elements, Function.comp_def]

/-- What the collapsing of dimensions keeps: positive dimensions, the number of elements and
their offsets. -/
theorem simplifyLoop_spec : ∀ {ds : List (Int64 × Int64)} {vol : Int64} (stride : Int64),
    0 < vol → (∀ d ∈ ds, 0 < d.1) → extent vol * elements (ds.map Prod.fst) < 2 ^ 63 →
    (∀ d ∈ ds, Exact σ d.1 d.2) →
    (∀ g ∈ simplifyLoop vol stride ds, 0 < g.1) ∧
      elements ((simplifyLoop vol stride ds).map Prod.fst) =
        extent vol * elements (ds.map Prod.fst) ∧
      ∀ k, viewOffset σ (simplifyLoop vol stride ds) k = viewOffset σ ((vol, stride) :: ds) k
  | [], vol, stride, hv, _, _, _ => by
    refine ⟨fun g hg => ?_, rfl, fun _ => rfl⟩
    obtain rfl := List.mem_singleton.1 hg
    exact hv
  | (n, s) :: ds, vol, stride, hv, hpos, hfit, hex => by
    have hn : 0 < n := hpos (n, s) (.head _)
    have hds : ∀ d ∈ ds, 0 < d.1 := fun d hd => hpos d (.tail _ hd)
    have hexs : ∀ d ∈ ds, Exact σ d.1 d.2 := fun d hd => hex d (.tail _ hd)
    have he : 0 < elements (ds.map Prod.fst) := elements_pos (by simpa using hds)
    simp only [List.map_cons, elements_cons] at hfit ⊢
    unfold simplifyLoop
    by_cases hs : stride ≠ n * s
    · rw [if_pos hs]
      obtain ⟨i1, i2, i3⟩ := simplifyLoop_spec s hn hds
        (Nat.lt_of_le_of_lt (Nat.le_mul_of_pos_left _ (extent_pos hv)) hfit) hexs
      refine ⟨fun g hg => ?_, ?_, fun k => ?_⟩
      · rcases List.mem_cons.1 hg with rfl | hg
        · exact hv
        · exact i1 g hg
      · rw [List.map_cons, elements_cons, i2]
      · rw [viewOffset_cons, viewOffset_cons (vol, stride), i3, i2]
        rfl
    · rw [if_neg hs]
      obtain rfl := not_not.1 hs
      rw [← Nat.mul_assoc] at hfit
      obtain ⟨hmul, hmpos⟩ := extent_mul hv hn
        (Nat.lt_of_le_of_lt (Nat.le_mul_of_pos_right _ he) hfit)
      obtain ⟨i1, i2, i3⟩ := simplifyLoop_spec s hmpos hds (by rwa [hmul]) hexs
      refine ⟨i1, by rw [i2, hmul, Nat.mul_assoc], fun k => ?_⟩
      have hns : σ (n * s) = extent n • σ s := hex (n, s) (.head _)
      rw [i3]
      simp only [viewOffset, List.map_cons, hmul, hns]
      exact (offset_merge _ _ _ _ _ k).symm

theorem simplify_spec {ds : List (Int64 × Int64)} (hpos : ∀ d ∈ ds, 0 < d.1)
    (hfit : elements (ds.map Prod.fst) < 2 ^ 63) (hex : ∀ d ∈ ds.tail, Exact σ d.1 d.2) :
    (∀ g ∈ simplify ds, 0 < g.1) ∧
      elements ((simplify ds).map Prod.fst) = elements (ds.map Prod.fst) ∧
      ∀ k, viewOffset σ (simplify ds) k = viewOffset σ ds k := by
  cases ds with
  | nil => exact ⟨fun _ h => (nomatch h), rfl, fun _ => rfl⟩
  | cons d ds =>
    exact simplifyLoop_spec d.2 (hpos d (.head _)) (fun d hd => hpos d (.tail _ hd)) hfit hex

/-- The group taken is a prefix, and its product is exact while it is representable. -/
theorem takeGroup_spec (inE : Int64) : ∀ {ns : List Int64} {outV : Int64},
    0 < outV → (∀ n ∈ ns, 0 < n) → extent outV * elements ns < 2 ^ 63 →
    ∃ v g r, takeGroup inE outV ns = (v, g, r) ∧ ns = g ++ r ∧
      extent v = extent outV * elements g
  | [], outV, _, _, _ => ⟨outV, [], [], rfl, rfl, (Nat.mul_one _).symm⟩
  | n :: ns, outV, hv, hpos, hfit => by
    have hn := hpos n (.head _)
    have hns : ∀ m ∈ ns, 0 < m := fun m hm => hpos m (.tail _ hm)
    rw [elements_cons, ← Nat.mul_assoc] at hfit
    obtain ⟨hmul, hmpos⟩ := extent_mul hv hn
      (Nat.lt_of_le_of_lt (Nat.le_mul_of_pos_right _ (elements_pos hns)) hfit)
    unfold takeGroup
    by_cases hle : outV * n ≤ inE
    · obtain ⟨v, g, r, h1, rfl, h3⟩ := takeGroup_spec inE hmpos hns (by rwa [hmul])
      rw [if_pos hle, h1]
      refine ⟨v, n :: g, r, rfl, rfl, ?_⟩
      rw [h3, hmul, elements_cons, Nat.mul_assoc]
    · rw [if_neg hle]
      exact ⟨outV, [], n :: ns, rfl, rfl, (Nat.mul_one _).symm⟩

variable (σ) in
/-- Multiples of a stride up to `m` times the stride are computed exactly under `σ`. -/
def Scales (s : Int64) (m : Nat) : Prop :=
  ∀ n s' p, 0 < n → σ s' = p • σ s → extent n * p ≤ m → σ (s' * n) = (extent n * p) • σ s

/-- The strides of a group are those of dimensions packed over the innermost one. -/
theorem groupStrides_spec {s : Int64} {m : Nat} (hs : Scales σ s m) : ∀ {g : List Int64},
    (∀ n ∈ g, 0 < n) → elements g ≤ m →
    (groupStrides s g).1.map σ = packed (g.map extent) (σ s) ∧
      σ (groupStrides s g).2 = elements g • σ s
  | [], _, _ => ⟨rfl, (one_smul Nat _).symm⟩
  | n :: g, hpos, hm => by
    have hn := hpos n (.head _)
    rw [elements_cons] at hm
    obtain ⟨i1, i2⟩ := groupStrides_spec hs (g := g) (fun m hm => hpos m (.tail _ hm))
      ((Nat.le_mul_of_pos_left _ (extent_pos hn)).trans hm)
    refine ⟨?_, hs n _ _ hn i2 hm⟩
    simp only [groupStrides, List.map_cons, packed, i1, i2]
    rfl

theorem length_groupStrides (s : Int64) (g : List Int64) :
    (groupStrides s g).1.length = g.length := by
  induction g with
  | nil => rfl
  | cons n g ih => simp [groupStrides, ih]

/-- **The walk over the simplified shape** gives the target shape the same offsets, whatever the
strides are that it leaves unwritten. -/
theorem reshapeSimplified_spec : ∀ {gs : List (Int64 × Int64)} {ns ss : List Int64},
    (∀ g ∈ gs, 0 < g.1) → (∀ n ∈ ns, 0 < n) → elements ns = elements (gs.map Prod.fst) →
    elements ns < 2 ^ 63 → (∀ g ∈ gs, Scales σ g.2 (extent g.1)) →
    reshapeSimplified gs ns = (ss, true) →
    ss.length ≤ ns.length ∧ ∀ ts k, k < elements ns →
      offset (ns.map extent) ((ss ++ ts).map σ) k = viewOffset σ gs k
  | [], ns, ss, _, _, he, _, _, h => by
    obtain ⟨rfl, -⟩ := Prod.mk.inj h
    refine ⟨Nat.zero_le _, fun ts k hk => ?_⟩
    have h1 : elements ns = 1 := he
    obtain rfl : k = 0 := by omega
    exact offset_of_prod_one _ h1
  | (e, s) :: gs, [], ss, _, _, he, _, _, h => by
    obtain ⟨rfl, -⟩ := Prod.mk.inj h
    refine ⟨Nat.le_refl _, fun ts k hk => ?_⟩
    obtain rfl : k = 0 := Nat.lt_one_iff.1 hk
    refine (offset_of_prod_one (((e, s) :: gs).map fun d => σ d.2) ?_).symm
    simpa [elements, Function.comp_def] using he.symm
  | (e, s) :: gs, n :: ns, ss, hgs, hns, he, hfit, hsc, h => by
    obtain ⟨v, g, r, h1, h2, h3⟩ := takeGroup_spec e (show (0 : Int64) < 1 by decide) hns
      (by rwa [show extent 1 = 1 by rfl, Nat.one_mul])
    rw [reshapeSimplified, h1] at h
    by_cases hv : v ≠ e
    · simp only [if_pos hv, Prod.mk.injEq, Bool.false_eq_true, and_false] at h
    obtain rfl := not_not.1 hv
    rcases hrec : reshapeSimplified gs r with ⟨ss', ok⟩
    simp only [if_neg hv, hrec, Prod.mk.injEq] at h
    obtain ⟨rfl, rfl⟩ := h
    rw [show extent 1 = 1 by rfl, Nat.one_mul] at h3
    rw [h2] at hns he hfit ⊢
    have hg : ∀ m ∈ g, 0 < m := fun m hm => hns m (List.mem_append_left _ hm)
    have hr : ∀ m ∈ r, 0 < m := fun m hm => hns m (List.mem_append_right _ hm)
    have her : elements r = elements (gs.map Prod.fst) := by
      rw [elements_append, List.map_cons, elements_cons, h3] at he
      exact Nat.eq_of_mul_eq_mul_left (elements_pos hg) he
    rw [elements_append] at hfit
    obtain ⟨i1, i2⟩ := reshapeSimplified_spec (fun g hg => hgs g (.tail _ hg)) hr her
      (Nat.lt_of_le_of_lt (Nat.le_mul_of_pos_left _ (elements_pos hg)) hfit)
      (fun g hg => hsc g (.tail _ hg)) hrec
    obtain ⟨j1, -⟩ := groupStrides_spec (hsc (v, s) (.head _)) hg (by rw [h3])
    refine ⟨?_, fun ts k hk => ?_⟩
    · rw [List.length_append, List.length_append, length_groupStrides]
      omega
    · rw [List.append_assoc, List.map_append, List.map_append, j1]
      rw [elements_append, ← h3, her] at hk
      refine offset_regroup (σ s) h3.symm ?_ (fun k hk => ?_) (by
        simpa [elements, Function.comp_def] using hk)
      · simpa [elements, Function.comp_def] using her
      · exact i2 ts k (by rw [her]; simpa [elements, Function.comp_def] using hk)

end

/-! ## The two maps of the strides -/

theorem cast_mul_zmod (n s : Int64) (hn : 0 < n) :
    (((n * s).toInt : Int) : ZMod (2 ^ 64)) = extent n • ((s.toInt : Int) : ZMod (2 ^ 64)) := by
  have hmod : (((n * s).toInt : Int) : ZMod (2 ^ 64)) = ((n.toInt * s.toInt : Int) : ZMod _) := by
    rw [ZMod.intCast_eq_intCast_iff, Int64.toInt_mul]
    exact Int.bmod_emod
  rw [hmod, toInt_eq_extent hn, Int.cast_mul, Int.cast_natCast, nsmul_eq_mul]

/-- Modulo `2 ^ 64` every multiple of a stride is exact. -/
theorem scales_zmod (s : Int64) (m : Nat) :
    Scales (fun s => ((s.toInt : Int) : ZMod (2 ^ 64))) s m := by
  intro n s' p hn hs' _
  simp only at hs' ⊢
  rw [Int64.mul_comm, cast_mul_zmod n s' hn, hs', smul_smul]

/-- The extent of a dimension in bytes is in the range of `int64_t`. -/
def Fits (d : Int64 × Int64) : Prop := |(extent d.1 : Int) * d.2.toInt| < 2 ^ 63

theorem exact_of_fits {d : Int64 × Int64} (hd : 0 < d.1) (h : Fits d) :
    Exact Int64.toInt d.1 d.2 := by
  unfold Exact
  unfold Fits at h
  rw [← toInt_eq_extent hd] at h
  rw [toInt_mul_of_fits h, toInt_eq_extent hd, nsmul_eq_mul]

/-- Over the integers the multiples of a stride up to an extent in range are exact. -/
theorem scales_of_fits {s : Int64} {m : Nat} (h : |(m : Int) * s.toInt| < 2 ^ 63) :
    Scales Int64.toInt s m := by
  intro n s' p hn hs' hm
  have hle : |((extent n * p : Nat) : Int) * s.toInt| ≤ |(m : Int) * s.toInt| := by
    rw [abs_mul, abs_mul, Nat.abs_cast, Nat.abs_cast]
    exact mul_le_mul_of_nonneg_right (by exact_mod_cast hm) (abs_nonneg _)
  have hprod : s'.toInt * n.toInt = ((extent n * p : Nat) : Int) * s.toInt := by
    rw [hs', toInt_eq_extent hn, nsmul_eq_mul]
    push_cast
    ring
  rw [toInt_mul_of_fits (by rw [hprod]; omega), hprod, nsmul_eq_mul]

/-- The collapsed dimensions have the extents of source dimensions. -/
theorem simplifyLoop_fits : ∀ {ds : List (Int64 × Int64)} {vol stride : Int64},
    0 < vol → (∀ d ∈ ds, 0 < d.1) → extent vol * elements (ds.map Prod.fst) < 2 ^ 63 →
    Fits (vol, stride) → (∀ d ∈ ds, Fits d) → ∀ g ∈ simplifyLoop vol stride ds, Fits g
  | [], vol, stride, _, _, _, hf, _, g, hg => List.mem_singleton.1 hg ▸ hf
  | (n, s) :: ds, vol, stride, hv, hpos, hfit, hf, hfs, g, hg => by
    have hn : 0 < n := hpos (n, s) (.head _)
    have hds : ∀ d ∈ ds, 0 < d.1 := fun d hd => hpos d (.tail _ hd)
    have hfds : ∀ d ∈ ds, Fits d := fun d hd => hfs d (.tail _ hd)
    have he : 0 < elements (ds.map Prod.fst) := elements_pos (by simpa using hds)
    simp only [List.map_cons, elements_cons] at hfit
    unfold simplifyLoop at hg
    by_cases hs : stride ≠ n * s
    · rw [if_pos hs] at hg
      rcases List.mem_cons.1 hg with rfl | hg
      · exact hf
      · exact simplifyLoop_fits hn hds
          (Nat.lt_of_le_of_lt (Nat.le_mul_of_pos_left _ (extent_pos hv)) hfit)
          (hfs (n, s) (.head _)) hfds g hg
    · rw [if_neg hs] at hg
      obtain rfl := not_not.1 hs
      rw [← Nat.mul_assoc] at hfit
      obtain ⟨hmul, hmpos⟩ := extent_mul hv hn
        (Nat.lt_of_le_of_lt (Nat.le_mul_of_pos_right _ he) hfit)
      refine simplifyLoop_fits hmpos hds (by rwa [hmul]) ?_ hfds g hg
      -- the outer stride is the whole inner dimension, so the group's extent is the outer one
      have hns : Exact Int64.toInt n s := exact_of_fits (d := (n, s)) hn (hfs _ (.head _))
      have hext : (extent (vol * n) : Int) * s.toInt = extent vol * (n * s).toInt := by
        rw [show (n * s).toInt = _ from hns, hmul, nsmul_eq_mul, Nat.cast_mul, mul_assoc]
      show |(extent (vol * n) : Int) * s.toInt| < 2 ^ 63
      rw [hext]
      exact hf

theorem simplify_fits {ds : List (Int64 × Int64)} (hpos : ∀ d ∈ ds, 0 < d.1)
    (hfit : elements (ds.map Prod.fst) < 2 ^ 63) (hf : ∀ d ∈ ds, Fits d) :
    ∀ g ∈ simplify ds, Fits g := by
  cases ds with
  | nil => exact fun _ h => nomatch h
  | cons d ds =>
    exact simplifyLoop_fits (hpos d (.head _)) (fun d hd => hpos d (.tail _ hd)) hfit
      (hf d (.head _)) fun d hd => hf d (.tail _ hd)

/-! ## The reshaped tensor data -/

theorem toList_overwrite (a : Vector Int64 tensorMaxRank) {xs : List Int64}
    (h : xs.length ≤ tensorMaxRank) :
    (overwrite a xs).toList = xs ++ a.toList.drop xs.length := by
  apply List.ext_getElem
  · simp only [Vector.length_toList, List.length_append, List.length_drop]
    omega
  · intro i h1 h2
    simp only [overwrite, Vector.getElem_toList, Vector.getElem_ofFn, List.getElem_append,
      List.getElem_drop]
    by_cases hi : i < xs.length
    · simp [hi]
    · simp [hi, show xs.length + (i - xs.length) = i by omega]

/-- **A call that succeeds** found the volumes equal and walked the simplified shape, and leaves
the target shape with the strides written, then what the array of strides held. -/
theorem reshape_ok {t td : TensorData} {newRank : Int32} {newShape : Nat → Int64}
    {newLayout : TensorLayout}
    (h : reshapeTensorData t newRank newShape newLayout = (.ok (), td)) :
    volume (targetShape newRank newShape) = volume (t.dims.map Prod.fst) ∧
      td.dims.map Prod.fst = targetShape newRank newShape ∧
      ∃ written, reshapeSimplified (simplify t.dims) (targetShape newRank newShape) =
          (written, true) ∧
        (written.length ≤ (targetShape newRank newShape).length →
          ∃ ts, td.dims.map Prod.snd = written ++ ts) := by
  have hlen : (targetShape newRank newShape).length = newRank.toInt.toNat := by
    simp [targetShape]
  unfold reshapeTensorData at h
  generalize targetShape newRank newShape = sh at h hlen ⊢
  by_cases hr : newRank < 1 ∨ newRank > 15
  · simp [hr] at h
  have hmax := toNat_toInt_le hr
  rw [dif_neg hr] at h
  by_cases hv : volume sh ≠ volume (t.dims.map Prod.fst)
  · simp [hv] at h
  simp only [if_neg hv] at h
  by_cases hl : newLayout.rank > 0 ∧ newLayout.rank ≠ newRank
  · simp [hl] at h
  rw [if_neg hl] at h
  rcases hs : reshapeSimplified (simplify t.dims) sh with ⟨written, ret⟩
  rw [hs] at h
  cases ret with
  | false => simp at h
  | true =>
    obtain ⟨-, rfl⟩ := Prod.mk.inj h
    have hshape : (overwrite t.shape sh).toList.take newRank.toInt.toNat = sh := by
      rw [toList_overwrite _ (by omega), List.take_left' hlen]
    refine ⟨not_not.1 hv, ?_, written, rfl, fun hw =>
      ⟨(t.strides.toList.drop written.length).take (newRank.toInt.toNat - written.length), ?_⟩⟩
    · show List.map Prod.fst (List.zip (List.take newRank.toInt.toNat _)
        (List.take newRank.toInt.toNat _)) = sh
      rw [hshape]
      refine List.map_fst_zip ?_
      rw [List.length_take, Vector.length_toList]
      omega
    · show List.map Prod.snd (List.zip (List.take newRank.toInt.toNat _)
        (List.take newRank.toInt.toNat _)) = _
      rw [hshape, toList_overwrite _ (by omega : written.length ≤ tensorMaxRank),
        List.take_append, List.take_of_length_le (by omega)]
      refine List.map_snd_zip ?_
      simp only [List.length_append, List.length_take, List.length_drop, Vector.length_toList]
      omega

/-! ## Main result -/

/-- The number of elements of a tensor. -/
def TensorData.elements (t : TensorData) : Nat := Nvcv.elements (t.dims.map Prod.fst)

/-- The byte offset of the `k`-th element in row-major order. -/
def TensorData.byteOffset (t : TensorData) (k : Nat) : Int := viewOffset Int64.toInt t.dims k

/-- The view `td` has the elements of `t`, in order: as many, each at the same address (a sum of
64-bit words). -/
def SameElements (t td : TensorData) : Prop :=
  td.elements = t.elements ∧
    ∀ k < t.elements, td.byteOffset k ≡ t.byteOffset k [ZMOD 2 ^ 64]

theorem byteOffset_cast (t : TensorData) (k : Nat) :
    ((t.byteOffset k : Int) : ZMod (2 ^ 64)) =
      viewOffset (fun s => ((s.toInt : Int) : ZMod (2 ^ 64))) t.dims k := by
  have := offset_map (Int.castAddHom (ZMod (2 ^ 64))) (t.dims.map fun d => extent d.1)
    (t.dims.map fun d => d.2.toInt) k
  rw [List.map_map] at this
  exact this

/-- Under a map of the strides for which the products of the code are exact, a successful call
keeps the offset of every element. -/
theorem reshape_viewOffset {R : Type*} [AddCommMonoid R] {σ : Int64 → R} {t td : TensorData}
    {newRank : Int32} {newShape : Nat → Int64} {newLayout : TensorLayout}
    (h : reshapeTensorData t newRank newShape newLayout = (.ok (), td))
    (hpos : ∀ d ∈ t.dims, 0 < d.1) (hnew : ∀ n ∈ targetShape newRank newShape, 0 < n)
    (hold : t.elements < 2 ^ 63) (hfit : elements (targetShape newRank newShape) < 2 ^ 63)
    (hex : ∀ d ∈ t.dims, Exact σ d.1 d.2)
    (hsc : ∀ g ∈ simplify t.dims, Scales σ g.2 (extent g.1)) :
    td.elements = t.elements ∧ ∀ k < t.elements, viewOffset σ td.dims k = viewOffset σ t.dims k := by
  obtain ⟨hvol, hfst, written, hwalk, hdims⟩ := reshape_ok h
  obtain ⟨hg, hge, hgo⟩ := simplify_spec hpos hold fun d hd => hex d (List.mem_of_mem_tail hd)
  have hvols : elements (targetShape newRank newShape) = t.elements := by
    rw [← extent_volume hnew hfit, hvol]
    exact extent_volume (by simpa using hpos) hold
  obtain ⟨hlen, hoff⟩ := reshapeSimplified_spec hg hnew (hvols.trans hge.symm) hfit hsc hwalk
  obtain ⟨ts, hsnd⟩ := hdims hlen
  refine ⟨by rw [TensorData.elements, hfst, hvols], fun k hk => ?_⟩
  have := hoff ts k (by rwa [hvols])
  rw [hgo, ← hfst, ← hsnd, List.map_map, List.map_map] at this
  exact this

/-- **Reshape keeps the elements** of a tensor exactly when the numbers of elements of both
shapes are representable (one of them is: the volumes are compared as wrapped products). Then, if
the extents in bytes of the source dimensions are representable too, the byte offsets are equal
as integers. -/
theorem reshape_same_elements {t td : TensorData} {newRank : Int32} {newShape : Nat → Int64}
    {newLayout : TensorLayout}
    (h : reshapeTensorData t newRank newShape newLayout = (.ok (), td))
    (hpos : ∀ d ∈ t.dims, 0 < d.1) (hnew : ∀ n ∈ targetShape newRank newShape, 0 < n)
    (hone : t.elements < 2 ^ 63 ∨ elements (targetShape newRank newShape) < 2 ^ 63) :
    (SameElements t td ↔
      t.elements < 2 ^ 63 ∧ elements (targetShape newRank newShape) < 2 ^ 63) ∧
    (t.elements < 2 ^ 63 → elements (targetShape newRank newShape) < 2 ^ 63 →
      (∀ d ∈ t.dims, Fits d) → ∀ k < t.elements, td.byteOffset k = t.byteOffset k) := by
  refine ⟨⟨fun hs => ?_, fun ⟨hold, hfit⟩ => ?_⟩, fun hold hfit hf => ?_⟩
  · have hdims : elements (targetShape newRank newShape) = td.elements := by
      rw [TensorData.elements, (reshape_ok h).2.1]
    rw [hdims, hs.1] at hone ⊢
    exact ⟨hone.elim id id, hone.elim id id⟩
  · obtain ⟨he, ho⟩ := reshape_viewOffset (σ := fun s => ((s.toInt : Int) : ZMod (2 ^ 64))) h
      hpos hnew hold hfit (fun d hd => cast_mul_zmod d.1 d.2 (hpos d hd))
      fun g _ => scales_zmod g.2 _
    refine ⟨he, fun k hk => ?_⟩
    have := ho k hk
    rw [← byteOffset_cast, ← byteOffset_cast, ZMod.intCast_eq_intCast_iff] at this
    exact this
  · exact (reshape_viewOffset h hpos hnew hold hfit
      (fun d hd => exact_of_fits (hpos d hd) (hf d hd))
      fun g hg => scales_of_fits (simplify_fits hpos hold hf g hg)).2

/-- A tensor with the given dimensions and strides, and no layout. -/
def stridedTensor (dims : List (Int64 × Int64)) (h : dims.length ≤ tensorMaxRank) : TensorData where
  dtype := 0
  layout := { data := .replicate _ 0, rank := 0 }
  rank := dims.length
  rank_le := h
  shape := overwrite (.replicate _ 0) (dims.map Prod.fst)
  strides := overwrite (.replicate _ 0) (dims.map Prod.snd)
  basePtr := 0

/-- Two matrices with rows padded to 4 bytes: reshaping joins the first two dimensions. -/
def paddedRows : TensorData := stridedTensor [(2, 12), (3, 4), (2, 1)] (by decide)

theorem reshape_same_elements_padded :
    let newShape : Nat → Int64 := fun d => if d = 0 then 6 else 2
    let td := (reshapeTensorData paddedRows 2 newShape paddedRows.layout).2
    (SameElements paddedRows td ↔
      paddedRows.elements < 2 ^ 63 ∧ elements (targetShape 2 newShape) < 2 ^ 63) ∧
    (paddedRows.elements < 2 ^ 63 → elements (targetShape 2 newShape) < 2 ^ 63 →
      (∀ d ∈ paddedRows.dims, Fits d) →
      ∀ k < paddedRows.elements, td.byteOffset k = paddedRows.byteOffset k) := by
  intro newShape td
  have h : reshapeTensorData paddedRows 2 newShape paddedRows.layout = (.ok (), td) := rfl
  exact reshape_same_elements h (forall_mem_of_all rfl) (forall_mem_of_all rfl) (.inl (by decide))

/-- **The volume check wraps**: two elements are reshaped to `2 * (2 ^ 63 - 1) ^ 2`, whose product
in 64 bits is 2. -/
theorem reshape_wrapped :
    let t := stridedTensor [(2, 1)] (by decide)
    let newShape : Nat → Int64 := fun d => if d = 0 then 2 else Int64.maxValue
    (∀ d ∈ t.dims, 0 < d.1) ∧ (∀ n ∈ targetShape 3 newShape, 0 < n) ∧
      (reshapeTensorData t 3 newShape t.layout).1 = .ok () ∧
      ¬SameElements t (reshapeTensorData t 3 newShape t.layout).2 :=
  ⟨forall_mem_of_all rfl, forall_mem_of_all rfl, rfl, fun h => absurd h.1 (by decide)⟩

end Nvcv
