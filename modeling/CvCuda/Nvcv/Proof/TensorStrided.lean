import Mathlib
import CvCuda.Lib.Strides
import CvCuda.Nvcv.Proof.TensorWrap

/-! # What the validation of strided data says about its elements

`ValidateTensorBufferStrided` starts from the stride of the last dimension, which it has not
checked when that dimension has size 1, and compares with products of an `int` stride and an `int`
size.

* `testDims_spans`: where these products fit and the innermost dimension larger than 1 strides
  over an element, dimensions that pass stride over what is inside them.
* `testDims_packed`: packed dimensions pass, but for wide rows that the layout takes for packed.
* `validate_apart_iff`: **accepted data has disjoint elements and packed data is accepted**, when
  exactly.
* `validate_overlap`: data that is accepted and overlaps, and packed data that is refused.
-/

namespace Nvcv

open Outcome Strides

/-- Sizes and strides as integers. -/
def ints (ds : List (Int64 × Int64)) : List (ℤ × ℤ) := ds.map fun d => (d.1.toInt, d.2.toInt)

/-- The bytes of the element with the index. -/
def TensorData.elementBytes (t : TensorData) (is : List ℤ) : Set ℤ :=
  Set.Ico (address ((ints t.dims).map Prod.snd) is)
    (address ((ints t.dims).map Prod.snd) is + t.dtype.strideBytes.toInt)

/-- Two different elements have no byte in common. -/
def TensorData.Apart (t : TensorData) : Prop :=
  ∀ is js, Within ((ints t.dims).map Prod.fst) is → Within ((ints t.dims).map Prod.fst) js →
    is ≠ js → Disjoint (t.elementBytes is) (t.elementBytes js)

/-- The innermost dimension larger than 1 strides over an element of `e` bytes. -/
def InnerCovers (e : ℤ) (ds : List (Int64 × Int64)) : Prop :=
  ∀ pre n s post, ds = pre ++ (n, s) :: post → 1 < n.toInt → (∀ d ∈ post, d.1.toInt ≤ 1) →
    e ≤ s.toInt

/-- No stride that counts is negative, and the extents of the dimensions larger than 1, but for
the outermost, fit in an `int`. -/
def FitsInt (ds : List (Int64 × Int64)) : Prop :=
  ∀ pre n s post, ds = pre ++ (n, s) :: post → 1 < n.toInt →
    0 ≤ s.toInt ∧ ((∃ d ∈ pre, 1 < d.1.toInt) → n.toInt * s.toInt < 2 ^ 31)

/-- The strides are those of packed elements. -/
def Packed (e : ℤ) : List (Int64 × Int64) → Prop
  | [] => True
  | [(_, s)] => s.toInt = e
  | (_, t) :: (n, s) :: ds => t.toInt = n.toInt * s.toInt ∧ Packed e ((n, s) :: ds)

/-- A row that the layout takes for packed and that has `2 ^ 31` bytes or more, in a dimension
larger than 1. -/
def TensorData.WideRow (t : TensorData) : Prop :=
  t.layout.ChannelLast ∧ ∃ pre m n, t.dims.map Prod.fst = pre ++ [m, n] ∧ 1 < m.toInt ∧
    2 ^ 31 ≤ n.toInt * t.dtype.strideBytes.toInt

/-! ## Soundness -/

theorem InnerCovers.tail {e : ℤ} {d : Int64 × Int64} {ds : List (Int64 × Int64)}
    (h : InnerCovers e (d :: ds)) : InnerCovers e ds :=
  fun pre n s post he => h (d :: pre) n s post (by rw [he, List.cons_append])

theorem FitsInt.tail {d : Int64 × Int64} {ds : List (Int64 × Int64)} (h : FitsInt (d :: ds)) :
    FitsInt ds := by
  intro pre n s post he hn
  obtain ⟨h0, h1⟩ := h (d :: pre) n s post (by rw [he, List.cons_append]) hn
  exact ⟨h0, fun ⟨x, hx, hlt⟩ => h1 ⟨x, .tail _ hx, hlt⟩⟩

theorem spans_of_ones {e : ℤ} {ds : List (Int64 × Int64)} (h : ∀ d ∈ ds, d.1.toInt = 1) :
    Spans e (ints ds) e := by
  induction ds with
  | nil => exact .nil
  | cons d ds ih =>
    have := Spans.one d.2.toInt (ih fun x hx => h x (.tail _ hx))
    rwa [← h d (.head _)] at this

/-- The product of a size and a stride whose extent fits in an `int`. -/
theorem toInt_mul_toInt32 {n s : Int64} (h0 : 0 ≤ n.toInt * s.toInt)
    (h : n.toInt * s.toInt < 2 ^ 31) :
    (s.toInt32 * n.toInt32).toInt64.toInt = n.toInt * s.toInt := by
  rw [Int32.toInt_toInt64, ← Int32.ofInt_int64ToInt, ← Int32.ofInt_int64ToInt, ← Int32.ofInt_mul,
    Int32.toInt_ofInt, Int.mul_comm]
  have hsize : (Int32.size : ℤ) = 2 ^ 32 := rfl
  exact Int.bmod_eq_of_le (by omega) (by omega)

theorem le_one_iff {n : Int64} : n ≤ 1 ↔ n.toInt ≤ 1 := Int64.le_iff_toInt_le

/-- The last dimension, which is always packed. -/
theorem testDims_singleton {e : Int32} {fp d : Nat} (hd : fp ≤ d) {m t : Int64}
    {r : Int32 × Int32} : testDims e fp d [(m, t)] = .ok r ↔
      r = (t.toInt32, m.toInt32) ∧ (m ≤ 1 ∨ t = e.toInt64) := by
  rw [testDims, if_pos rfl]
  simp only [bind, Except.bind, pure, Except.pure, if_true, throw, throwThe,
    MonadExceptOf.throw]
  by_cases hm : m ≤ 1
  · simp [hm, eq_comm]
  · by_cases ht : t = e.toInt64
    · simp [hm, hd, ht, eq_comm]
    · simp [hm, hd, ht]

/-- **Dimensions that pass**: either all of them have size 1, or they span their outermost one
larger than 1, which is considered next. -/
theorem testDims_spans {e : Int32} {fp : Nat} (he : 0 ≤ e.toInt) :
    ∀ {d : Nat} {ds : List (Int64 × Int64)} {r : Int32 × Int32}, ds ≠ [] →
    fp < d + ds.length → testDims e fp d ds = .ok r → (∀ x ∈ ds, 1 ≤ x.1.toInt) →
    InnerCovers e.toInt ds → FitsInt ds →
    (∀ x ∈ ds, x.1.toInt ≤ 1) ∨
      ∃ pre n s post, ds = pre ++ (n, s) :: post ∧ (∀ x ∈ pre, x.1.toInt ≤ 1) ∧ 1 < n.toInt ∧
        r = (s.toInt32, n.toInt32) ∧ Spans e.toInt (ints ds) (n.toInt * s.toInt)
  | d, [], r, hne, _, _, _, _, _ => absurd rfl hne
  | d, [(m, t)], r, _, hfp, h, hpos, hin, hfit => by
    obtain ⟨rfl, hm⟩ := (testDims_singleton (Nat.le_of_lt_succ hfp)).1 h
    rw [le_one_iff] at hm
    by_cases hm1 : m.toInt ≤ 1
    · refine .inl fun x hx => ?_
      obtain rfl := List.mem_singleton.1 hx
      exact hm1
    · obtain rfl := hm.resolve_left hm1
      refine .inr ⟨[], m, _, [], rfl, fun x hx => absurd hx List.not_mem_nil, by omega, rfl, ?_⟩
      exact Spans.cons m.toInt (by rw [Int32.toInt_toInt64]) .nil
  | d, (m, t) :: x :: ds, r, _, hfp, h, hpos, hin, hfit => by
    obtain ⟨p, hp, hr⟩ := testDims_cons.1 h
    have hpos' : ∀ y ∈ x :: ds, 1 ≤ y.1.toInt := fun y hy => hpos y (.tail _ hy)
    have hfp' : fp < d + 1 + (x :: ds).length := by
      simp only [List.length_cons] at hfp ⊢
      omega
    have ih := testDims_spans he (List.cons_ne_nil x ds) hfp' hp hpos' hin.tail hfit.tail
    have hm := hpos (m, t) (.head _)
    by_cases hm1 : m ≤ 1
    · have hone : m.toInt = 1 := le_antisymm (le_one_iff.1 hm1) hm
      rw [if_pos hm1] at hr
      subst hr
      rcases ih with hall | ⟨pre, n, s, post, hds, hpre, hn, hr, hspans⟩
      · exact .inl fun y hy => (List.mem_cons.1 hy).elim (fun h => h ▸ hone.le) (hall y)
      · refine .inr ⟨(m, t) :: pre, n, s, post, by rw [hds, List.cons_append], ?_, hn, hr, ?_⟩
        · exact fun y hy => (List.mem_cons.1 hy).elim (fun h => h ▸ hone.le) (hpre y)
        · have := Spans.one t.toInt hspans
          rwa [← hone] at this
    · rw [if_neg hm1] at hr
      obtain ⟨rfl, hpitch⟩ := hr
      have hm1 : 1 < m.toInt := by
        rw [le_one_iff] at hm1
        omega
      refine .inr ⟨[], m, t, x :: ds, rfl, fun y hy => absurd hy List.not_mem_nil, hm1, rfl, ?_⟩
      rcases ih with hall | ⟨pre, n, s, post, hds, hpre, hn, hr, hspans⟩
      · -- the innermost dimension larger than 1
        refine Spans.cons m.toInt (hin [] m t (x :: ds) rfl hm1 hall) (spans_of_ones fun y hy => ?_)
        exact le_antisymm (hall y hy) (hpos' y hy)
      · refine Spans.cons m.toInt ?_ hspans
        obtain ⟨hs0, hlt⟩ := hfit ((m, t) :: pre) n s post (by rw [hds, List.cons_append]) hn
        have hprod := toInt_mul_toInt32 (Int.mul_nonneg (by omega) hs0)
          (hlt ⟨(m, t), .head _, hm1⟩)
        subst hr
        split_ifs at hpitch with hd
        · rw [hpitch, hprod]
        · rw [Int64.le_iff_toInt_le, hprod] at hpitch
          exact hpitch

theorem apart_of_spans {t : TensorData} {r : ℤ} (he : 0 ≤ t.dtype.strideBytes.toInt)
    (h : Spans t.dtype.strideBytes.toInt (ints t.dims) r) : t.Apart := by
  intro is js hi hj hne
  rw [TensorData.elementBytes, TensorData.elementBytes, Set.Ico_disjoint_Ico]
  rcases h.apart he hi hj hne with h | h
  · exact (min_le_left _ _).trans (h.trans (le_max_right _ _))
  · exact (min_le_right _ _).trans (h.trans (le_max_left _ _))

theorem within_zeros {ds : List (Int64 × Int64)} (h : ∀ d ∈ ds, 1 ≤ d.1.toInt) :
    Within ((ints ds).map Prod.fst) (List.replicate ds.length 0) := by
  induction ds with
  | nil => exact .nil
  | cons d ds ih =>
    exact .cons ⟨le_rfl, Int.one_pos.trans_le (h d (.head _))⟩ (ih fun x hx => h x (.tail _ hx))

theorem address_zeros (ss : List ℤ) (k : Nat) : address ss (List.replicate k 0) = 0 := by
  induction ss generalizing k with
  | nil => simp [address]
  | cons s ss ih =>
    cases k with
    | zero => rfl
    | succ k => rw [List.replicate_succ, address_cons, ih, zero_mul, zero_add]

/-- The two first elements along a dimension. -/
theorem exists_step {pre post : List (Int64 × Int64)} {n s : Int64}
    (hpos : ∀ d ∈ pre ++ (n, s) :: post, 1 ≤ d.1.toInt) (hn : 1 < n.toInt) :
    ∃ is js, Within ((ints (pre ++ (n, s) :: post)).map Prod.fst) is ∧
      Within ((ints (pre ++ (n, s) :: post)).map Prod.fst) js ∧ is ≠ js ∧
      address ((ints (pre ++ (n, s) :: post)).map Prod.snd) is = 0 ∧
      address ((ints (pre ++ (n, s) :: post)).map Prod.snd) js = s.toInt := by
  induction pre with
  | nil =>
    have hpost : ∀ d ∈ post, 1 ≤ d.1.toInt := fun d hd => hpos d (.tail _ hd)
    refine ⟨0 :: List.replicate post.length 0, 1 :: List.replicate post.length 0,
      .cons ⟨le_rfl, Int.one_pos.trans hn⟩ (within_zeros hpost),
      .cons ⟨Int.one_nonneg, hn⟩ (within_zeros hpost),
      by simp, ?_, ?_⟩
    · exact address_zeros _ (post.length + 1)
    · show address (s.toInt :: _) _ = _
      rw [address_cons, address_zeros, one_mul, add_zero]
  | cons d pre ih =>
    obtain ⟨is, js, hi, hj, hne, hai, haj⟩ := ih fun x hx => hpos x (.tail _ hx)
    have hd := Int.one_pos.trans_le (hpos d (.head _))
    refine ⟨0 :: is, 0 :: js, .cons ⟨le_rfl, hd⟩ hi, .cons ⟨le_rfl, hd⟩ hj,
      by simpa using hne, ?_, ?_⟩
    · show address (d.2.toInt :: _) _ = _
      rw [address_cons, zero_mul, zero_add]
      exact hai
    · show address (d.2.toInt :: _) _ = _
      rw [address_cons, zero_mul, zero_add]
      exact haj

theorem innerCovers_of_apart {t : TensorData} (hpos : ∀ d ∈ t.dims, 1 ≤ d.1.toInt)
    (hfit : FitsInt t.dims) (h : t.Apart) :
    InnerCovers t.dtype.strideBytes.toInt t.dims := by
  intro pre n s post hds hn _
  obtain ⟨hs0, -⟩ := hfit pre n s post hds hn
  obtain ⟨is, js, hi, hj, hne, hai, haj⟩ := exists_step (hds ▸ hpos) hn
  rw [← hds] at hi hj hai haj
  have := h is js hi hj hne
  rw [TensorData.elementBytes, TensorData.elementBytes, hai, haj, Set.Ico_disjoint_Ico] at this
  rw [max_eq_right hs0, zero_add, min_le_iff] at this
  omega

/-! ## Completeness -/

/-- Dimensions with no bytes pass whatever their sizes. -/
theorem testDims_zero {fp : Nat} : ∀ {d : Nat} {ds : List (Int64 × Int64)},
    Packed 0 ds → ∃ r : Int32 × Int32, r.1 = 0 ∧ testDims 0 fp d ds = .ok r ∧
      ∀ x ∈ ds.head?, x.2 = 0
  | d, [], _ => ⟨(0, 0), rfl, rfl, fun x hx => absurd hx (by simp)⟩
  | d, [(m, t)], h => by
    obtain rfl : t = 0 := Int64.toInt_inj.1 h
    refine ⟨(0, m.toInt32), rfl, ?_, fun x hx => by cases hx; rfl⟩
    rw [testDims, if_pos rfl]
    simp only [bind, Except.bind, pure, Except.pure, if_true]
    split_ifs with h1 h2 h3 h4
    · rfl
    · exact absurd rfl h3
    · rfl
    · rw [show Int64.toInt32 0 = 0 from rfl, Int32.zero_mul] at h4
      exact absurd h4 (by decide)
    · rfl
  | d, (m, t) :: (n, s) :: ds, h => by
    obtain ⟨p, hp0, hp, hs⟩ := @testDims_zero fp (d + 1) _ h.2
    obtain rfl : s = 0 := hs (n, s) rfl
    obtain rfl : t = 0 := Int64.toInt_inj.1 (h.1.trans (by simp))
    by_cases hm : m ≤ 1
    · exact ⟨p, hp0, testDims_cons.2 ⟨p, hp, by rw [if_pos hm]⟩, fun x hx => by cases hx; rfl⟩
    · refine ⟨(0, m.toInt32), rfl, testDims_cons.2 ⟨p, hp, ?_⟩, fun x hx => by cases hx; rfl⟩
      rw [if_neg hm, hp0, Int32.zero_mul]
      refine ⟨rfl, ?_⟩
      split_ifs
      · rfl
      · exact Int64.le_refl 0

/-- Packed strides are those that are computed where no row is padded. -/
theorem calcStrides_of_packed {e : Int32} : ∀ {d : Nat} {ds : List (Int64 × Int64)},
    Packed e.toInt ds → Tensor.calcStrides e.toInt64 0 1 d (ds.map Prod.fst) = some (ds.map Prod.snd)
  | d, [], _ => rfl
  | d, [(m, t)], h => by
    obtain rfl : t = e.toInt64 := Int64.toInt_inj.1 (h.trans (Int32.toInt_toInt64 e).symm)
    rfl
  | d, (m, t) :: (n, s) :: ds, h => by
    have ih := calcStrides_of_packed (d := d + 1) h.2
    simp only [List.map_cons] at ih ⊢
    have hv : int64? (n.toInt * s.toInt) = some t := by
      rw [← h.1]
      exact int64?_eq_some.2 ⟨⟨t.le_toInt, t.toInt_lt⟩, rfl⟩
    rw [Tensor.calcStrides, ih]
    simp [hv]

/-- **Packed dimensions** pass, but for a wide row. -/
theorem testDims_packed {e : Int32} (he : 0 ≤ e.toInt) (channelLast : Bool)
    {ds : List (Int64 × Int64)} (h : Packed e.toInt ds) (hpos : ∀ d ∈ ds, 1 ≤ d.1.toInt)
    (hne : ds ≠ []) :
    (∃ r, testDims e (if channelLast then ds.length - 2 else ds.length - 1) 0 ds = .ok r) ↔
      ¬(channelLast ∧ ∃ pre m n, ds.map Prod.fst = pre ++ [m, n] ∧ 1 < m.toInt ∧
        2 ^ 31 ≤ n.toInt * e.toInt) := by
  rcases he.eq_or_lt with h0 | h0
  · have he0 : e = 0 := Int32.toInt_inj.1 h0.symm
    subst he0
    obtain ⟨r, -, hr, -⟩ := @testDims_zero (if channelLast then ds.length - 2
      else ds.length - 1) 0 _ h
    refine iff_of_true ⟨r, hr⟩ ?_
    rintro ⟨-, pre, m, n, -, -, hrow⟩
    rw [Int32.toInt_zero, Int.mul_zero] at hrow
    omega
  · have hzip : (ds.map Prod.fst).zip (ds.map Prod.snd) = ds :=
      (List.zip_of_prod rfl rfl).symm
    have hrows := testDims_rows_iff (k := 0) h0 (by decide) rfl channelLast
      (calcStrides_of_packed h) (by simpa using hpos) (by simpa using hne)
    rw [hzip, List.length_map] at hrows
    rw [hrows]
    constructor
    · rintro h ⟨hcl, pre, m, n, heq, hm, hrow⟩
      rcases h hcl pre m n heq with rfl | ⟨hlt, -⟩
      · exact absurd hm (by decide)
      · omega
    · intro h hcl pre m n heq
      by_cases hm : m = 1
      · exact .inl hm
      · refine .inr ⟨?_, .inl (Nat.succ_ne_zero _)⟩
        refine lt_of_not_ge fun hrow => h ⟨hcl, pre, m, n, heq, ?_, hrow⟩
        have hm1 : 1 ≤ m.toInt := by
          obtain ⟨d, hd, rfl⟩ := List.mem_map.1
            (show m ∈ ds.map Prod.fst by rw [heq]; exact List.mem_append_right _ (.head _))
          exact hpos d hd
        have hne : m.toInt ≠ 1 := fun h => hm (Int64.toInt_inj.1 h)
        omega

/-! ## Main result -/

theorem length_dims (t : TensorData) : t.dims.length = t.rank := by
  have := t.rank_le
  rw [TensorData.dims, List.length_zip, List.length_take, List.length_take, Vector.length_toList,
    Vector.length_toList]
  omega

theorem strideBytes_nonneg (dtype : DataType) : 0 ≤ dtype.strideBytes.toInt := by
  by_cases h : dtype.strideBytes = 0
  · rw [h]
    rfl
  · exact (strideBytes_pos h).le

/-- **When the validation is sound and complete.** Elements are disjoint where every dimension
larger than 1 strides over what is inside it. Of accepted data with extents that fit in an `int`
they are exactly when the innermost such dimension strides over an element; packed data is
accepted exactly when it has no wide row. -/
theorem validate_apart_iff {t : TensorData} (hbuf : t.basePtr ≠ 0#64) (hrank : t.rank ≠ 0)
    (hb : t.layout.InBounds) (hpos : ∀ d ∈ t.dims, 1 ≤ d.1.toInt) :
    ((∃ r, Spans t.dtype.strideBytes.toInt (ints t.dims) r) → t.Apart) ∧
    (Returns (validateTensorBufferStrided t) () → FitsInt t.dims →
      (t.Apart ↔ InnerCovers t.dtype.strideBytes.toInt t.dims)) ∧
    (Packed t.dtype.strideBytes.toInt t.dims →
      (Returns (validateTensorBufferStrided t) () ↔ ¬t.WideRow)) := by
  have he := strideBytes_nonneg t.dtype
  have hlen := length_dims t
  have hne : t.dims ≠ [] := List.length_pos_iff.1 (by omega)
  rw [validate_iff hbuf hrank hb, ← hlen]
  refine ⟨fun ⟨r, h⟩ => apart_of_spans he h, ?_, fun hpacked => ?_⟩
  · rintro ⟨-, r, hr⟩ hfit
    refine ⟨innerCovers_of_apart hpos hfit, fun hin => ?_⟩
    have hlen0 := List.length_pos_iff.2 hne
    rcases testDims_spans he hne (by split_ifs <;> omega) hr hpos hin hfit with
      hall | ⟨pre, n, s, post, -, -, -, -, h⟩
    · exact apart_of_spans he (spans_of_ones fun x hx => le_antisymm (hall x hx) (hpos x hx))
    · exact apart_of_spans he h
  · have h := testDims_packed he (decide t.layout.ChannelLast) hpacked hpos hne
    simp only [decide_eq_true_eq] at h
    rw [h, testShape_ok]
    exact and_iff_right (by simpa using hpos)

theorem strideBytes_u8 : u8.strideBytes.toInt = 1 := by decide +kernel

/-- Two rows of four packed pixels with three channels. -/
theorem validate_apart_iff_hwc :
    let t : TensorData := { stridedTensor [(2, 12), (4, 3), (3, 1)] (by decide) with
      dtype := u8, layout := layoutOf ['H', 'W', 'C'], basePtr := 512#64 }
    Returns (validateTensorBufferStrided t) () ∧ t.Apart := by
  intro t
  have hdims : t.dims = [(2, 12), (4, 3), (3, 1)] := rfl
  have helem : t.dtype.strideBytes.toInt = 1 := strideBytes_u8
  have hrow : ¬t.WideRow := by
    rintro ⟨-, pre, m, n, heq, -, hn⟩
    have heq : [2] ++ [4, 3] = pre ++ [m, n] := heq
    obtain ⟨-, hmn⟩ := List.append_inj' heq rfl
    cases hmn
    rw [helem] at hn
    exact absurd hn (by decide)
  have hspans : Spans 1 (ints t.dims) 24 :=
    .cons 2 (by decide) (.cons 4 (by decide) (.cons 3 (by decide) .nil))
  have hpacked : Packed 1 t.dims := hdims ▸ ⟨rfl, rfl, rfl⟩
  have h := validate_apart_iff (t := t) (by decide) (by decide) (by decide) (forall_mem_of_all rfl)
  rw [helem] at h
  exact ⟨(h.2.2 hpacked).2 hrow, h.1 ⟨24, hspans⟩⟩

/-- **Accepted data that overlaps, and packed data that is refused**: both elements of a column
without a layout at stride 0, and two packed rows of `2 ^ 31` bytes. -/
theorem validate_overlap :
    let t : TensorData := { stridedTensor [(2, 0), (1, 0)] (by decide) with
      dtype := u8, basePtr := 512#64 }
    let u : TensorData := { stridedTensor [(2, 2147483648), (2147483648, 1)] (by decide) with
      dtype := u8, basePtr := 512#64 }
    (Returns (validateTensorBufferStrided t) () ∧ ¬t.Apart) ∧
      Packed u.dtype.strideBytes.toInt u.dims ∧
      (validateTensorBufferStrided u).run =
        some (.error (.nvcv .invalidArgument
          "Pitch of dimension 0 must be == -2147483648 (packed), but it is 2147483648")) := by
  intro t u
  have hu : u.dims = [(2, 2147483648), (2147483648, 1)] := rfl
  have hpacked : Packed 1 u.dims := hu ▸ ⟨rfl, rfl⟩
  rw [← strideBytes_u8] at hpacked
  refine ⟨⟨by decide +kernel, fun h => ?_⟩, hpacked, by decide +kernel⟩
  have hzero : Within ((ints t.dims).map Prod.fst) [0, 0] :=
    .cons (by decide) (.cons (by decide) .nil)
  have hone : Within ((ints t.dims).map Prod.fst) [1, 0] :=
    .cons (by decide) (.cons (by decide) .nil)
  have := h _ _ hzero hone (by decide)
  have hbytes : t.elementBytes [0, 0] = Set.Ico 0 (0 + u8.strideBytes.toInt) := rfl
  have hbytes' : t.elementBytes [1, 0] = Set.Ico 0 (0 + u8.strideBytes.toInt) := rfl
  rw [hbytes, hbytes', strideBytes_u8, Set.Ico_disjoint_Ico] at this
  exact absurd this (by decide)

end Nvcv
