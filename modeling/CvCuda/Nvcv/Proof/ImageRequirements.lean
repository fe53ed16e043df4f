import Mathlib
import CvCuda.Nvcv.ImageRequirements
import CvCuda.Nvcv.PackingParams
import CvCuda.Nvcv.Proof.FormatSetters
import CvCuda.Nvcv.Proof.TensorRequirements

/-! # Where the planes of an image are

`CalcRequirements` rounds the rows of each plane up and adds their bytes; `exportData` adds them up
again, to place the planes.

* `addPlanes_spec`: the row strides, narrowed, and the bytes, after the loop over the planes.
* `exported`: the planes as they are exported, the place of each up to a wrap.
* `Placed`: where they have to be. `placed_iff`: they are there exactly when the row strides fit
  an `int` and the rows happen to be aligned to the pixels of every plane.
* `defined_calcRequirements`: which calls have an outcome.
* `calcRequirements_iff`: both, and `calcRequirements_deviates`: planes that are not in place.
-/

namespace Nvcv

open Bitfield Outcome

/-! ## Planes -/

theorem DataType.ofValues_eq_make (dataKind : DataKind) (packing : Packing) :
    DataType.ofValues dataKind.value packing.value = DataType.make dataKind packing := by
  have hs : ∀ p : Packing, get p.value 4 2 + 1#64 =
      (Swizzle.ofNat ((get p.value 4 2).toNat + 1)).value := by
    intro p
    cases p <;> decide
  rw [DataType.ofValues, DataType.make, hs]
  rfl

namespace ImageFormat
variable (f : ImageFormat)

theorem numPlanes_le : f.numPlanes ≤ 4 := by
  unfold numPlanes
  split_ifs <;> omega

theorem exists_css : ∃ css, ChromaSubsampling.ofValue f.css = some css := by
  have hlt : f.css.toNat < 8 := by
    unfold css
    split_ifs
    · exact toNat_get_lt f 17 3
    · decide
  have he : f.css = .ofNat 64 f.css.toNat := by
    rw [BitVec.ofNat_toNat, BitVec.setWidth_eq]
  rw [he]
  generalize f.css.toNat = n at hlt
  interval_cases n <;> exact ⟨_, rfl⟩

end ImageFormat

/-! ## Alignments -/

namespace Image
variable {dev : Device} {size : Size2D} {fmt : ImageFormat} {userBaseAlign userRowAlign : Int32}

variable (dev userRowAlign) in
/-- The row alignment that is asked for. -/
def RowAlign (r : Int) : Prop :=
  if userRowAlign = 0 then ∃ p, dev.texturePitchAlignment = .ok p ∧ r = p.toInt
  else isPowerOfTwo userRowAlign ∧ r = userRowAlign.toInt

theorem returns_rowAlignment {x : Int32} :
    Returns (rowAlignment dev userRowAlign) x ↔ RowAlign dev userRowAlign x.toInt := by
  unfold rowAlignment RowAlign
  by_cases h : userRowAlign = 0
  · rw [if_pos h, if_pos h, returns_ofExcept]
    constructor
    · exact fun hp => ⟨x, hp, rfl⟩
    · rintro ⟨p, hp, he⟩
      rw [hp, Int32.toInt_inj.1 he]
  · rw [if_neg h, if_neg h, returns_refuse_bind, returns_pure, not_not, Int32.toInt_inj, eq_comm]

/-- The row alignment is a power of two, or the least `int`. -/
theorem rowAlign_cases {x : Int32} (h : RowAlign dev userRowAlign x.toInt) :
    (∃ k < 31, x.toInt = 2 ^ k) ∨ x = Int32.minValue := by
  unfold RowAlign at h
  split_ifs at h with h0
  · obtain ⟨p, hp, he⟩ := h
    rw [he]
    exact .inl (dev.isPow2 p hp)
  · obtain ⟨hp, he⟩ := h
    rw [Int32.toInt_inj] at he
    subst he
    by_cases hm : x = Int32.minValue
    · exact .inr hm
    · refine .inl (toInt_of_isPowerOfTwo hp h0 ?_)
      have hle := x.le_toInt
      have hlt := x.toInt_lt
      have hne : x.toInt ≠ -2 ^ 31 := fun hc => hm (Int32.toInt_inj.1 hc)
      omega

/-- The next power of two is the one that is there. -/
theorem roundUp_rowAlign {x : Int32} (h : RowAlign dev userRowAlign x.toInt) :
    (roundUpNextPowerOfTwo x).toInt32 = x := by
  rcases rowAlign_cases h with ⟨k, hk, hx⟩ | rfl
  · have h2k : (0 : Int) < 2 ^ k := by positivity
    have hs : (x.toInt.toNat - 1).size = k := by
      have hn : x.toInt.toNat = 2 ^ k := by
        rw [hx]
        exact_mod_cast Int.toNat_natCast (2 ^ k)
      rw [hn]
      refine le_antisymm (Nat.size_le.2 (by have := Nat.two_pow_pos k; omega)) ?_
      rcases k with _ | k
      · exact Nat.zero_le _
      · refine Nat.lt_size.2 ?_
        have := Nat.two_pow_pos k
        rw [pow_succ]
        omega
    apply Int32.toInt_inj.1
    rw [Int64.toInt_toInt32, toInt_roundUpNextPowerOfTwo (by omega), hs, ← hx]
    have hle := x.le_toInt
    have hlt := x.toInt_lt
    exact Int.bmod_eq_of_le (by omega) (by omega)
  · decide

variable (dev userBaseAlign) in
/-- The address alignment that is asked for. -/
def AddressAlign (t : Int32) : Prop :=
  if userBaseAlign = 0 then dev.textureAlignment = .ok t
  else isPowerOfTwo userBaseAlign ∧ t = userBaseAlign

theorem returns_addressAlignment {t : Int32} :
    Returns (addressAlignment dev userBaseAlign) t ↔ AddressAlign dev userBaseAlign t := by
  unfold addressAlignment AddressAlign
  split_ifs with h
  · rw [returns_ofExcept]
  · rw [returns_refuse_bind, returns_pure, not_not, eq_comm]

theorem AddressAlign.unique {t t' : Int32} (h : AddressAlign dev userBaseAlign t)
    (h' : AddressAlign dev userBaseAlign t') : t = t' :=
  (returns_addressAlignment.2 h).unique (returns_addressAlignment.2 h')

theorem RowAlign.unique {x y : Int32} (h : RowAlign dev userRowAlign x.toInt)
    (h' : RowAlign dev userRowAlign y.toInt) : x = y :=
  (returns_rowAlignment.2 h).unique (returns_rowAlignment.2 h')

/-- **The alignment of the buffer** is the common multiple, where it is an `int`. -/
theorem returns_baseAlignment {r x : Int32} :
    Returns (baseAlignment dev r userBaseAlign) x ↔
      ∃ t, AddressAlign dev userBaseAlign t ∧ lcm t r = some x := by
  have hle : ∀ y : Int32, ¬y.toInt > 2 ^ maxLog2BlockSize := by
    intro y
    have := y.toInt_lt
    unfold maxLog2BlockSize
    omega
  unfold baseAlignment
  constructor
  · intro h
    obtain ⟨t, ht, h⟩ := returns_bind.1 h
    obtain ⟨y, hy, h⟩ := returns_bind.1 h
    obtain ⟨-, h⟩ := returns_refuse_bind.1 h
    rw [← returns_pure.1 h]
    exact ⟨t, returns_addressAlignment.1 ht, returns_lift.1 hy⟩
  · rintro ⟨t, ht, hx⟩
    refine returns_bind.2 ⟨t, returns_addressAlignment.2 ht, returns_bind.2 ⟨x, ?_, ?_⟩⟩
    · exact returns_lift.2 hx
    · exact returns_refuse_bind.2 ⟨hle x, returns_pure.2 rfl⟩

theorem defined_rowAlignment : Defined (rowAlignment dev userRowAlign) := by
  unfold rowAlignment
  split_ifs
  · exact defined_ofExcept
  · exact defined_refuse_bind.2 fun _ => defined_pure

theorem defined_addressAlignment : Defined (addressAlignment dev userBaseAlign) := by
  unfold addressAlignment
  split_ifs
  · exact defined_ofExcept
  · exact defined_refuse_bind.2 fun _ => defined_pure

theorem defined_baseAlignment {r : Int32} :
    Defined (baseAlignment dev r userBaseAlign) ↔
      ∀ t, AddressAlign dev userBaseAlign t → Int.lcm t.toInt r.toInt < 2 ^ 31 := by
  unfold baseAlignment
  rw [defined_bind, and_iff_right defined_addressAlignment]
  refine forall_congr' fun t => ?_
  rw [returns_addressAlignment, defined_bind, defined_lift, exists_lcm]
  refine imp_congr_right fun _ => and_iff_left fun _ _ => ?_
  exact defined_refuse_bind.2 fun _ => defined_pure

/-- What is a multiple of the alignment of the buffer is one of the row alignment. -/
theorem dvd_of_lcm {t r x : Int32} (h : lcm t r = some x) {n : Int} (hn : x.toInt ∣ n) :
    r.toInt ∣ n := by
  rw [(lcm_eq_some.1 h).2] at hn
  exact (Int.dvd_lcm_right t.toInt r.toInt).trans hn

end Image

/-! ## Planes as they are meant -/

namespace ImageFormat
variable (f : ImageFormat) (size : Size2D)

/-- The samples of the chroma subsampling, horizontal and vertical. -/
def samples : Int32 × Int32 :=
  ((ChromaSubsampling.ofValue f.css).getD .none).getChromaSamples

/-- Width and height of a plane. -/
def planeDims (plane : Nat) : Int × Int :=
  if 1 ≤ plane ∧ f.css ≠ ChromaSubsampling.none.value then
    ((size.w.toInt * f.samples.1.toInt + 3).tdiv 4, (size.h.toInt * f.samples.2.toInt + 3).tdiv 4)
  else (size.w.toInt, size.h.toInt)

/-- A value of type `int`. -/
def InInt32 (x : Int) : Prop := -2 ^ 31 ≤ x ∧ x < 2 ^ 31

/-- The sizes of the planes are computed without overflow. -/
def SizesFit : Prop :=
  f.css ≠ ChromaSubsampling.none.value →
    (InInt32 (size.w.toInt * f.samples.1.toInt) ∧ InInt32 (size.w.toInt * f.samples.1.toInt + 3)) ∧
      InInt32 (size.h.toInt * f.samples.2.toInt) ∧ InInt32 (size.h.toInt * f.samples.2.toInt + 3)

theorem exists_int32? {x : Int} : (∃ y, int32? x = some y) ↔ InInt32 x := by
  constructor
  · rintro ⟨y, hy⟩
    exact (int32?_eq_some.1 hy).1
  · intro h
    exact ⟨_, int32?_eq_some.2 ⟨h, Int32.toInt_ofInt_of_le h.1 h.2⟩⟩

theorem subsampled_eq_some {x samples y : Int32} :
    subsampled x samples = some y ↔
      (InInt32 (x.toInt * samples.toInt) ∧ InInt32 (x.toInt * samples.toInt + 3)) ∧
        y.toInt = (x.toInt * samples.toInt + 3).tdiv 4 := by
  have hdiv : ∀ z : Int32, (z / 4).toInt = z.toInt.tdiv 4 := by
    intro z
    exact Int32.toInt_div_of_ne_right z 4 (by decide)
  unfold subsampled
  simp only [Option.bind_eq_bind, Option.bind_eq_some_iff, int32?_eq_some, Option.pure_def,
    Option.some.injEq]
  constructor
  · rintro ⟨a, ⟨h1, ha⟩, b, ⟨h2, hb⟩, rfl⟩
    rw [ha] at h2 hb
    exact ⟨⟨h1, h2⟩, by rw [hdiv, hb]⟩
  · rintro ⟨⟨h1, h2⟩, hy⟩
    have ha := Int32.toInt_ofInt_of_le h1.1 h1.2
    have hb := Int32.toInt_ofInt_of_le h2.1 h2.2
    refine ⟨_, ⟨h1, ha⟩, .ofInt (x.toInt * samples.toInt + 3), ⟨by rwa [ha], by rw [ha, hb]⟩, ?_⟩
    rw [← Int32.toInt_inj, hdiv, hb, hy]

variable {f size} in
/-- **The size of a plane** is the one that is meant. -/
theorem planeSize_eq_some {plane : Nat} {s : Size2D} :
    f.planeSize size plane = some s ↔
      (1 ≤ plane → f.SizesFit size) ∧ (s.w.toInt, s.h.toInt) = f.planeDims size plane := by
  obtain ⟨css, hcss⟩ := f.exists_css
  have hsamples : f.samples = css.getChromaSamples := by rw [samples, hcss]; rfl
  unfold planeSize planeDims
  by_cases h : 1 ≤ plane ∧ f.css ≠ ChromaSubsampling.none.value
  · rw [if_pos h, if_pos h, hcss, forall_prop_of_true h.1, SizesFit, forall_prop_of_true h.2]
    simp only [Option.bind_eq_bind, Option.bind_some, Option.bind_eq_some_iff, ← hsamples,
      subsampled_eq_some, Option.pure_def, Option.some.injEq, Prod.mk.injEq]
    constructor
    · rintro ⟨w, ⟨hwf, hw⟩, h, ⟨hhf, hh⟩, rfl⟩
      exact ⟨⟨hwf, hhf⟩, hw, hh⟩
    · rintro ⟨⟨hwf, hhf⟩, hw, hh⟩
      exact ⟨s.w, ⟨hwf, hw⟩, s.h, ⟨hhf, hh⟩, rfl⟩
  · have hfit : 1 ≤ plane → f.SizesFit size := fun hp hc => absurd ⟨hp, hc⟩ h
    rw [if_neg h, if_neg h, Option.some.injEq, Prod.mk.injEq, Int32.toInt_inj, Int32.toInt_inj,
      and_iff_right hfit]
    constructor
    · rintro rfl
      exact ⟨rfl, rfl⟩
    · rintro ⟨hw, hh⟩
      cases s
      cases hw
      cases hh
      rfl

/-- The bytes of the pixels of a row. -/
def rowBytes (plane : Nat) : Int :=
  (f.planeDims size plane).1 * (f.planePixelStrideBytes plane).toInt

/-- The row stride of a plane, with rows aligned to `r`. -/
def rowStride (r : Int) (plane : Nat) : Int := (f.rowBytes size plane + (r - 1)) / r * r

/-- Where a plane starts. -/
def planeOffset (r : Int) (plane : Nat) : Int :=
  ∑ p ∈ Finset.range plane, f.rowStride size r p * (f.planeDims size p).2

/-- The row strides are computed without overflow. -/
def RowsFit (r : Int) : Prop := ∀ p < f.numPlanes, InInt32 (f.rowStride size r p)

theorem planePixelStrideBytes_mem (plane : Nat) : 0 ≤ (f.planePixelStrideBytes plane).toInt ∧
    (f.planePixelStrideBytes plane).toInt ≤ 32 := by
  have h := strideBytes_mem (f.planeDataType plane)
  have key : ∀ s ∈ ([0, 1, 2, 3, 4, 6, 8, 12, 16, 24, 32] : List Int32),
      0 ≤ s.toInt ∧ s.toInt ≤ 32 := forall_mem_of_all (by decide)
  exact key _ h

theorem samples_mem : (1 ≤ f.samples.1.toInt ∧ f.samples.1.toInt ≤ 4) ∧
    1 ≤ f.samples.2.toInt ∧ f.samples.2.toInt ≤ 4 := by
  unfold samples
  generalize (ChromaSubsampling.ofValue f.css).getD .none = css
  cases css <;> decide

/-- A plane is as empty as the image. -/
theorem planeDims_pos (plane : Nat) :
    (0 < (f.planeDims size plane).1 ↔ 0 < size.w.toInt) ∧
      (0 < (f.planeDims size plane).2 ↔ 0 < size.h.toInt) := by
  have hdiv : ∀ x s : Int, 1 ≤ s → (0 < (x * s + 3).tdiv 4 ↔ 0 < x) := by
    intro x s hs
    constructor
    · intro h
      by_contra hx
      have hxs : x * s ≤ 0 := Int.mul_nonpos_of_nonpos_of_nonneg (by omega) (by omega)
      by_cases h0 : 0 ≤ x * s + 3
      · rw [Int.tdiv_eq_ediv_of_nonneg h0] at h
        omega
      · have hneg := Int.tdiv_nonneg (a := -(x * s + 3)) (b := 4) (by omega) (by decide)
        rw [Int.neg_tdiv] at hneg
        omega
    · intro hx
      have hxs : 1 * 1 ≤ x * s := Int.mul_le_mul hx hs (by decide) (by omega)
      rw [Int.tdiv_eq_ediv_of_nonneg (by omega)]
      omega
  obtain ⟨⟨hw, -⟩, hh, -⟩ := f.samples_mem
  unfold planeDims
  split_ifs
  · exact ⟨hdiv _ _ hw, hdiv _ _ hh⟩
  · exact ⟨Iff.rfl, Iff.rfl⟩

section
variable {f size} {r : Int} (hr : 0 < r)
include hr

theorem le_rowStride (plane : Nat) : f.rowBytes size plane ≤ f.rowStride size r plane := by
  have hdm := Int.mul_ediv_add_emod (f.rowBytes size plane + (r - 1)) r
  have hm := Int.emod_lt_of_pos (f.rowBytes size plane + (r - 1)) hr
  rw [mul_comm] at hdm
  unfold rowStride
  omega

theorem rowStride_nonneg (hw : 0 < size.w.toInt) (plane : Nat) :
    0 ≤ f.rowStride size r plane := by
  refine le_trans ?_ (le_rowStride hr plane)
  exact Int.mul_nonneg ((f.planeDims_pos size plane).1.2 hw).le (f.planePixelStrideBytes_mem plane).1

theorem rowStride_nonpos (hw : size.w.toInt ≤ 0) (plane : Nat) :
    f.rowStride size r plane ≤ 0 := by
  have hd : (f.planeDims size plane).1 ≤ 0 :=
    not_lt.1 fun h => absurd ((f.planeDims_pos size plane).1.1 h) (not_lt.2 hw)
  have hb : f.rowBytes size plane ≤ 0 :=
    Int.mul_nonpos_of_nonpos_of_nonneg hd (f.planePixelStrideBytes_mem plane).1
  have hq : (f.rowBytes size plane + (r - 1)) / r < 1 := Int.ediv_lt_of_lt_mul hr (by omega)
  exact Int.mul_nonpos_of_nonpos_of_nonneg (by omega) hr.le

theorem planeOffset_mono (hw : 0 < size.w.toInt) (hh : 0 < size.h.toInt) {p q : Nat} (h : p ≤ q) :
    f.planeOffset size r p ≤ f.planeOffset size r q := by
  have hterm : ∀ i, 0 ≤ f.rowStride size r i * (f.planeDims size i).2 := fun i =>
    Int.mul_nonneg (rowStride_nonneg hr hw i) ((f.planeDims_pos size i).2.2 hh).le
  exact Finset.sum_le_sum_of_subset_of_nonneg (Finset.range_mono h) fun i _ _ => hterm i

theorem planeOffset_nonneg (hw : 0 < size.w.toInt) (hh : 0 < size.h.toInt) (p : Nat) :
    0 ≤ f.planeOffset size r p :=
  Finset.sum_nonneg fun i _ =>
    Int.mul_nonneg (rowStride_nonneg hr hw i) ((f.planeDims_pos size i).2.2 hh).le

end

end ImageFormat

/-! ## The planes are added -/

namespace Image
variable {size : Size2D} {fmt : ImageFormat} {rowAlign baseAlign : Int32} {k : Nat}

/-- The row stride as it is narrowed. -/
def rowStrideWord (size : Size2D) (fmt : ImageFormat) (rowAlign : Int32) (p : Nat) : Int32 :=
  .ofInt (fmt.rowStride size rowAlign.toInt p)

/-- The bytes of a plane, from the row stride that is narrowed. -/
def planeBytes (size : Size2D) (fmt : ImageFormat) (rowAlign : Int32) (p : Nat) : Int :=
  (rowStrideWord size fmt rowAlign p).toInt * (fmt.planeDims size p).2

/-- The requirements after a plane. -/
def withPlane (size : Size2D) (fmt : ImageFormat) (rowAlign : Int32) (p : Nat)
    (reqs : ImageRequirements) (cudaMem : MemRequirements) : ImageRequirements :=
  { reqs with
    planeRowStride := reqs.planeRowStride.setIfInBounds p (rowStrideWord size fmt rowAlign p)
    cudaMem }

theorem mul_int_bounds (x y : Int32) :
    -2 ^ 62 ≤ x.toInt * y.toInt ∧ x.toInt * y.toInt ≤ 2 ^ 62 := by
  have hx := x.le_toInt
  have hx' := x.toInt_lt
  have hy := y.le_toInt
  have hy' := y.toInt_lt
  have h : |x.toInt * y.toInt| ≤ 2 ^ 31 * 2 ^ 31 := by
    rw [abs_mul]
    exact mul_le_mul (abs_le.2 ⟨by omega, by omega⟩) (abs_le.2 ⟨by omega, by omega⟩)
      (abs_nonneg _) (by positivity)
  have := abs_le.1 h
  omega

theorem exists_toInt {x : Int} (hl : -2 ^ 62 ≤ x) (hr : x ≤ 2 ^ 62) :
    ∃ y : Int64, int64? x = some y ∧ y.toInt = x :=
  have hy := Int64.toInt_ofInt_of_le (show -2 ^ 63 ≤ x by omega) (show x < 2 ^ 63 by omega)
  ⟨.ofInt x, int64?_eq_some.2 ⟨⟨by omega, by omega⟩, hy⟩, hy⟩

variable (baseAlign) in
/-- One plane has a row stride, and its bytes are added. -/
theorem addPlanes_cons {p : Nat} {s : Size2D} (hs : fmt.planeSize size p = some s) :
    ∃ (v rs bufSize : Int64), v.toInt = fmt.rowBytes size p ∧ roundUpPowerOfTwo v rowAlign = some rs ∧
      bufSize.toInt = rs.toInt32.toInt * (fmt.planeDims size p).2 ∧ -2 ^ 62 ≤ bufSize.toInt ∧
      ∀ (ps : List Nat) (reqs : ImageRequirements),
        addPlanes size fmt rowAlign baseAlign (p :: ps) reqs = (do
          let cudaMem ← addBuffer reqs.cudaMem bufSize baseAlign.toInt64
          let planeRowStride := reqs.planeRowStride.setIfInBounds p rs.toInt32
          addPlanes size fmt rowAlign baseAlign ps { reqs with planeRowStride, cudaMem }) := by
  obtain ⟨-, hd⟩ := ImageFormat.planeSize_eq_some.1 hs
  have hw : s.w.toInt = (fmt.planeDims size p).1 := congrArg Prod.fst hd
  have hh : s.h.toInt = (fmt.planeDims size p).2 := congrArg Prod.snd hd
  obtain ⟨hbl, hbr⟩ := mul_int_bounds s.w (fmt.planePixelStrideBytes p)
  obtain ⟨v, hv, hvi⟩ := exists_toInt hbl hbr
  have hle := rowAlign.le_toInt
  have hlt := rowAlign.toInt_lt
  obtain ⟨rs, hrs⟩ := exists_roundUpPowerOfTwo (v := v) (m := rowAlign) ⟨by omega, by omega⟩
  obtain ⟨hpl, hpr⟩ := mul_int_bounds rs.toInt32 s.h
  obtain ⟨bufSize, hbuf, hbufi⟩ := exists_toInt hpl hpr
  refine ⟨v, rs, bufSize, by rw [hvi, hw, ImageFormat.rowBytes], hrs, by rw [hbufi, hh], by omega,
    fun ps reqs => ?_⟩
  simp only [addPlanes, hs, hv, hrs, hbuf, lift_some_bind]

variable (baseAlign) in
/-- **One plane** has its row stride rounded up and narrowed. -/
theorem addPlanes_cons_pow2 (hk : k < 31) (hra : rowAlign.toInt = 2 ^ k) {p : Nat} {s : Size2D}
    (hs : fmt.planeSize size p = some s) :
    ∃ bufSize : Int64, bufSize.toInt = planeBytes size fmt rowAlign p ∧ -2 ^ 62 ≤ bufSize.toInt ∧
      ∀ (ps : List Nat) (reqs : ImageRequirements),
        addPlanes size fmt rowAlign baseAlign (p :: ps) reqs = (do
          let cudaMem ← addBuffer reqs.cudaMem bufSize baseAlign.toInt64
          addPlanes size fmt rowAlign baseAlign ps
            (withPlane size fmt rowAlign p reqs cudaMem)) := by
  obtain ⟨v, rs, bufSize, hv, hrs, hbuf, hle, heq⟩ := addPlanes_cons baseAlign hs
  have hrsi := ((roundUpPowerOfTwo_iff (.inr ⟨k, hk, hra⟩)).1 hrs).2
  rw [hv] at hrsi
  have hword : rs.toInt32 = rowStrideWord size fmt rowAlign p := by
    rw [← Int32.toInt_inj, Int64.toInt_toInt32, hrsi, rowStrideWord, Int32.toInt_ofInt]
    rfl
  refine ⟨bufSize, by rw [hbuf, hword, planeBytes], hle, fun ps reqs => ?_⟩
  rw [heq, hword]
  rfl

/-- What the planes given leave as it is, and the row strides they are given. -/
structure Planned (size : Size2D) (fmt : ImageFormat) (rowAlign : Int32) (ps : List Nat)
    (reqs reqs' : ImageRequirements) : Prop where
  width : reqs'.width = reqs.width
  height : reqs'.height = reqs.height
  format : reqs'.format = reqs.format
  alignBytes : reqs'.alignBytes = reqs.alignBytes
  sizes : ∀ p ∈ ps, ∃ s, fmt.planeSize size p = some s
  stride : ∀ p ∈ ps, p < maxPlaneCount →
    reqs'.planeRowStride.toList.getD p 0 = rowStrideWord size fmt rowAlign p
  frame : ∀ p, p ∉ ps →
    reqs'.planeRowStride.toList.getD p 0 = reqs.planeRowStride.toList.getD p 0

/-- The bytes of the planes given. -/
def totalBytes (size : Size2D) (fmt : ImageFormat) (rowAlign : Int32) (ps : List Nat) : Int :=
  (ps.map (planeBytes size fmt rowAlign)).sum

/-- The memory holds what was there and the planes given, each rounded up to a block. -/
structure Held (size : Size2D) (fmt : ImageFormat) (rowAlign baseAlign : Int32) (ps : List Nat)
    (m m' : MemRequirements) : Prop where
  nonneg : ∀ i : Fin maxLog2BlockSize, 0 ≤ (m'.get i).toInt
  lower : totalSize m + totalBytes size fmt rowAlign ps ≤ totalSize m'
  upper : totalSize m' ≤
    totalSize m + totalBytes size fmt rowAlign ps + ps.length * baseAlign.toInt

theorem addBuffer_bounds {m m' : MemRequirements} {bufSize a : Int64} (hb : 0 ≤ bufSize.toInt)
    (hm : ∀ i : Fin maxLog2BlockSize, 0 ≤ (m.get i).toInt)
    (h : Returns (addBuffer m bufSize a) m') :
    totalSize m + bufSize.toInt ≤ totalSize m' ∧
      totalSize m' ≤ totalSize m + bufSize.toInt + a.toInt := by
  obtain ⟨n, ⟨⟨-, hn⟩, hleast⟩, ht⟩ := addBuffer_exact hb hm h
  obtain ⟨k, -, ha, -⟩ := returns_addBuffer h
  have ha0 : 0 < a.toInt := by
    rw [ha]
    positivity
  have hdm := Int.mul_ediv_add_emod bufSize.toInt a.toInt
  have hmod := Int.emod_lt_of_pos bufSize.toInt ha0
  have hmod0 := Int.emod_nonneg bufSize.toInt ha0.ne'
  have hle : n ≤ a.toInt * (bufSize.toInt / a.toInt + 1) := by
    refine hleast ⟨Int.dvd_mul_right _ _, ?_⟩
    rw [mul_add, mul_one]
    omega
  rw [mul_add, mul_one] at hle
  omega

theorem getD_setIfInBounds {n : Nat} (v : Vector Int32 n) (p q : Nat) (x : Int32) :
    (v.setIfInBounds p x).toList.getD q 0 = if p = q ∧ p < n then x else v.toList.getD q 0 := by
  have hlen : v.toList.length = n := v.length_toList
  rw [Vector.toList_setIfInBounds, List.getD_eq_getElem?_getD, List.getD_eq_getElem?_getD,
    List.getElem?_set, hlen]
  by_cases hpq : p = q
  · subst hpq
    by_cases hp : p < n
    · simp [hp]
    · simp [hp]
  · simp [hpq]

/-- **The planes** are added one after the other. -/
theorem addPlanes_spec (hk : k < 31) (hra : rowAlign.toInt = 2 ^ k) {ps : List Nat}
    {reqs reqs' : ImageRequirements}
    (h : Returns (addPlanes size fmt rowAlign baseAlign ps reqs) reqs') :
    Planned size fmt rowAlign ps reqs reqs' ∧
      ((∀ p ∈ ps, 0 ≤ planeBytes size fmt rowAlign p) →
        (∀ i : Fin maxLog2BlockSize, 0 ≤ (reqs.cudaMem.get i).toInt) →
        Held size fmt rowAlign baseAlign ps reqs.cudaMem reqs'.cudaMem) := by
  induction ps generalizing reqs with
  | nil =>
    obtain rfl := returns_pure.1 h
    refine ⟨⟨rfl, rfl, rfl, rfl, ?_, ?_, fun _ _ => rfl⟩, fun _ hm => ⟨hm, ?_, ?_⟩⟩
    · exact fun p hp => absurd hp List.not_mem_nil
    · exact fun p hp => absurd hp List.not_mem_nil
    · simp [totalBytes]
    · simp [totalBytes]
  | cons p ps ih =>
    have hsize : ∃ s, fmt.planeSize size p = some s := by
      obtain ⟨s, hs, -⟩ := returns_bind.1 h
      exact ⟨s, returns_lift.1 hs⟩
    obtain ⟨s, hs⟩ := hsize
    obtain ⟨bufSize, hbuf, -, heq⟩ := addPlanes_cons_pow2 baseAlign hk hra hs
    rw [heq] at h
    obtain ⟨cudaMem, hadd, h⟩ := returns_bind.1 h
    obtain ⟨hp, hheld⟩ := ih h
    have hset := getD_setIfInBounds reqs.planeRowStride p
    refine ⟨⟨hp.width, hp.height, hp.format, hp.alignBytes, ?_, fun q hq hlt => ?_,
      fun q hq => ?_⟩, fun hpos hm => ?_⟩
    · exact List.forall_mem_cons.2 ⟨⟨s, hs⟩, hp.sizes⟩
    · by_cases hmem : q ∈ ps
      · exact hp.stride q hmem hlt
      · obtain rfl : q = p := (List.mem_cons.1 hq).resolve_right hmem
        exact (hp.frame q hmem).trans ((hset q _).trans (if_pos ⟨rfl, hlt⟩))
    · rw [List.mem_cons, not_or] at hq
      exact (hp.frame q hq.2).trans ((hset q _).trans (if_neg fun hc => hq.1 hc.1.symm))
    · have hb : 0 ≤ bufSize.toInt := by
        rw [hbuf]
        exact hpos p List.mem_cons_self
      obtain ⟨hlo, hup⟩ := addBuffer_bounds hb hm hadd
      have hheld := hheld (fun q hq => hpos q (List.mem_cons_of_mem p hq))
        (addBuffer_nonneg hm hadd)
      have hlower := hheld.lower
      have hupper := hheld.upper
      have htotal : totalBytes size fmt rowAlign (p :: ps) =
          bufSize.toInt + totalBytes size fmt rowAlign ps := by
        rw [totalBytes, List.map_cons, List.sum_cons, hbuf, totalBytes]
      have hmem : (withPlane size fmt rowAlign p reqs cudaMem).cudaMem = cudaMem := rfl
      have hlen : ((p :: ps).length : Int) * baseAlign.toInt =
          ps.length * baseAlign.toInt + baseAlign.toInt := by
        rw [List.length_cons]
        push_cast
        ring
      rw [hmem] at hlower hupper
      rw [Int32.toInt_toInt64] at hup
      exact ⟨hheld.nonneg, by omega, by omega⟩

variable {dev : Device} {userBaseAlign userRowAlign : Int32}

/-- The requirements before the planes are added. -/
def initial (size : Size2D) (fmt : ImageFormat) (baseAlign : Int32) : ImageRequirements where
  width := size.w
  height := size.h
  format := fmt
  planeRowStride := .replicate _ 0
  alignBytes := baseAlign
  cudaMem := .replicate _ 0

/-- **What `CalcRequirements` does** when it returns: the loop over the planes that has a row
alignment of its own leaves the one that was asked for. -/
theorem returns_calcRequirements {reqs : ImageRequirements}
    (h : Returns (calcRequirements dev size fmt userBaseAlign userRowAlign) reqs) :
    ∃ r t b : Int32, RowAlign dev userRowAlign r.toInt ∧ AddressAlign dev userBaseAlign t ∧
      lcm t r = some b ∧
        Returns (addPlanes size fmt r b (List.range fmt.numPlanes) (initial size fmt b)) reqs := by
  obtain ⟨-, -, h⟩ := returns_bind.1 h
  obtain ⟨r, hr, h⟩ := returns_bind.1 h
  obtain ⟨-, -, h⟩ := returns_bind.1 h
  obtain ⟨b, hb, h⟩ := returns_bind.1 h
  have hr := returns_rowAlignment.1 hr
  rw [roundUp_rowAlign hr] at hb h
  obtain ⟨t, ht, hlcm⟩ := returns_baseAlignment.1 hb
  exact ⟨r, t, b, hr, ht, hlcm, h⟩

/-- A plane is added where the alignment of the buffer is a power of two. -/
theorem returns_addBuffer_pow2 {b : Int32} {m m' : MemRequirements} {bufSize : Int64}
    (h : Returns (addBuffer m bufSize b.toInt64) m') : ∃ k < 31, b.toInt = 2 ^ k := by
  obtain ⟨k, -, hk, -⟩ := returns_addBuffer h
  rw [Int32.toInt_toInt64] at hk
  refine ⟨k, ?_, hk⟩
  have hlt := b.toInt_lt
  refine (Nat.pow_lt_pow_iff_right (by decide : 1 < 2)).1 ?_
  have : ((2 ^ k : Nat) : Int) < (2 ^ 31 : Nat) := by
    push_cast
    omega
  exact_mod_cast this

/-- With a plane, both alignments are powers of two. -/
theorem align_pow2 {r t b : Int32} (hr : RowAlign dev userRowAlign r.toInt)
    (hlcm : lcm t r = some b) {p : Nat} {ps : List Nat} {reqs reqs' : ImageRequirements}
    (h : Returns (addPlanes size fmt r b (p :: ps) reqs) reqs') :
    (∃ k < 31, r.toInt = 2 ^ k) ∧ ∃ k < 31, b.toInt = 2 ^ k := by
  have hadd : ∃ m bufSize m', Returns (addBuffer m bufSize b.toInt64) m' := by
    obtain ⟨s, -, h⟩ := returns_bind.1 h
    obtain ⟨rowBytes, -, h⟩ := returns_bind.1 h
    obtain ⟨rowStride, -, h⟩ := returns_bind.1 h
    obtain ⟨bufSize, -, h⟩ := returns_bind.1 h
    obtain ⟨m', hm, -⟩ := returns_bind.1 h
    exact ⟨_, bufSize, m', hm⟩
  obtain ⟨m, bufSize, m', hadd⟩ := hadd
  obtain ⟨k, hk31, hk⟩ := returns_addBuffer_pow2 hadd
  refine ⟨(rowAlign_cases hr).resolve_right ?_, k, hk31, hk⟩
  rintro rfl
  -- no `int` but zero is a multiple of `2 ^ 31`
  have hdvd := dvd_of_lcm hlcm dvd_rfl
  have hlt := b.toInt_lt
  have h2k : (0 : Int) < 2 ^ k := by positivity
  have hmin : (Int32.minValue).toInt = -2 ^ 31 := rfl
  rw [hmin, Int.neg_dvd] at hdvd
  have := Int.le_of_dvd (by omega) hdvd
  omega

end Image

/-! ## The planes are exported -/

namespace ImageRequirements
variable {reqs : ImageRequirements} {size : Size2D} {memBuffer : BitVec 64} {r : Int}

theorem bmod_modEq (x : Int) : x.bmod (2 ^ 64) ≡ x [ZMOD 2 ^ 64] := Int.bmod_emod

theorem toNat_add_modEq (x : BitVec 64) (y : Int64) :
    ((x + y.toBitVec).toNat : Int) ≡ x.toNat + y.toInt [ZMOD 2 ^ 64] := by
  have hy : (y.toBitVec.toNat : Int) ≡ y.toInt [ZMOD 2 ^ 64] := by
    rw [← Int64.toInt_toBitVec, BitVec.toInt_eq_toNat_bmod]
    exact (bmod_modEq _).symm
  rw [BitVec.toNat_add]
  push_cast
  exact (Int.mod_modEq _ _).trans (Int.ModEq.add_left _ hy)

variable (memBuffer) in
/-- **The planes that are exported** have the sizes and strides that are meant, and start where
they are meant to, modulo the address space. -/
theorem exportPlanes_spec (hw : reqs.width = size.w) (hh : reqs.height = size.h) {m : Nat} :
    ∀ {s : Nat} {off : Int64},
      (∀ p, s ≤ p → p < s + m → (∃ d, reqs.format.planeSize size p = some d) ∧
        (reqs.planeRowStride.toList.getD p 0).toInt = reqs.format.rowStride size r p) →
      off.toInt ≡ reqs.format.planeOffset size r s [ZMOD 2 ^ 64] →
      ∃ planes, reqs.exportPlanes memBuffer (List.range' s m) off = some planes ∧
        planes.length = m ∧ ∀ i plane, planes[i]? = some plane →
          (plane.width.toInt, plane.height.toInt) = reqs.format.planeDims size (s + i) ∧
            plane.rowStride.toInt = reqs.format.rowStride size r (s + i) ∧
            (plane.basePtr.toNat : Int) ≡
              memBuffer.toNat + reqs.format.planeOffset size r (s + i) [ZMOD 2 ^ 64] := by
  induction m with
  | zero =>
    intro s off _ _
    exact ⟨[], rfl, rfl, fun i plane h => by simp at h⟩
  | succ m ih =>
    intro s off hp hoff
    obtain ⟨⟨d, hd⟩, hstride⟩ := hp s le_rfl (by omega)
    obtain ⟨-, hdims⟩ := ImageFormat.planeSize_eq_some.1 hd
    have hdh : d.h.toInt = (reqs.format.planeDims size s).2 := congrArg Prod.snd hdims
    have hnext : (off + d.h.toInt64 * (reqs.planeRowStride.toList.getD s 0).toInt64).toInt ≡
        reqs.format.planeOffset size r (s + 1) [ZMOD 2 ^ 64] := by
      rw [ImageFormat.planeOffset, Finset.sum_range_succ, ← ImageFormat.planeOffset, Int64.toInt_add,
        Int64.toInt_mul, Int32.toInt_toInt64, Int32.toInt_toInt64, hdh, hstride, mul_comm]
      exact (bmod_modEq _).trans (hoff.add (bmod_modEq _))
    obtain ⟨planes, he, hlen, hspec⟩ := ih (s := s + 1)
      (fun p hl hr => hp p (by omega) (by omega)) hnext
    have hsize : reqs.format.planeSize ⟨reqs.width, reqs.height⟩ s = some d := by rw [hw, hh, hd]
    refine ⟨⟨d.w, d.h, reqs.planeRowStride.toList.getD s 0, memBuffer + off.toBitVec⟩ :: planes,
      ?_, ?_, fun i plane hi => ?_⟩
    · simp only [List.range'_succ, exportPlanes, hsize, he, Option.bind_eq_bind, Option.bind_some,
        Option.pure_def]
    · rw [List.length_cons, hlen]
    · rcases i with _ | i
      · obtain rfl := Option.some.inj hi
        refine ⟨hdims, hstride, (toNat_add_modEq _ _).trans ?_⟩
        exact Int.ModEq.add_left _ hoff
      · have hi : planes[i]? = some plane := by simpa using hi
        rw [show s + (i + 1) = s + 1 + i by omega]
        exact hspec i plane hi

end ImageRequirements

/-! ## Where the planes have to be -/

/-- The bytes of the rows of a plane. -/
def ImagePlaneStrided.bytes (plane : ImagePlaneStrided) : Set Int :=
  {x | ∃ y i : Int, (0 ≤ y ∧ y < plane.height.toInt) ∧ (0 ≤ i ∧ i < plane.rowStride.toInt) ∧
    x = plane.basePtr.toNat + y * plane.rowStride.toInt + i}

/-- A multiple of the alignment of a plane's pixels. Pixels of less than a byte have none. -/
def PixelAligned (fmt : ImageFormat) (p : Nat) (n : Int) : Prop :=
  ∀ a, fmt.planeRowAlignment p = some a → a ≠ 0 → a.toInt ∣ n

instance (fmt : ImageFormat) (p : Nat) (n : Int) : Decidable (PixelAligned fmt p n) :=
  match h : fmt.planeRowAlignment p with
  | some a => decidable_of_iff (a ≠ 0 → a.toInt ∣ n) (by
      unfold PixelAligned
      rw [h]
      exact ⟨fun hd b hb => by cases hb; exact hd, fun hd => hd a rfl⟩)
  | none => .isTrue fun a ha => by rw [h] at ha; cases ha

/-- The place of one plane in a buffer of a size, with rows aligned to `r`. -/
structure PlanePlaced (fmt : ImageFormat) (r : Int) (memBuffer : BitVec 64) (total : Int64)
    (p : Nat) (plane : ImagePlaneStrided) : Prop where
  covers : plane.width.toInt * (fmt.planePixelStrideBytes p).toInt ≤ plane.rowStride.toInt
  rows : r ∣ plane.rowStride.toInt
  pixelRows : PixelAligned fmt p plane.rowStride.toInt
  base : r ∣ plane.basePtr.toNat
  pixelBase : PixelAligned fmt p plane.basePtr.toNat
  inside : ∀ x ∈ plane.bytes, memBuffer.toNat ≤ x ∧ x < memBuffer.toNat + total.toInt

namespace ImageRequirements
variable (reqs : ImageRequirements) (size : Size2D) (r : Int) (memBuffer : BitVec 64)
  (total : Int64)

/-- No row stride is other than it is meant. -/
def StridesExact : Prop := ∀ p < reqs.format.numPlanes,
  (reqs.planeRowStride.toList.getD p 0).toInt = reqs.format.rowStride size r p

/-- **Where the planes have to be**: each in its place and apart from the others. -/
structure Placed : Prop where
  exact : reqs.StridesExact size r
  planes : ∃ planes, reqs.exportData memBuffer = some planes ∧
    planes.length = reqs.format.numPlanes ∧
    (∀ p plane, planes[p]? = some plane →
      (plane.width.toInt, plane.height.toInt) = reqs.format.planeDims size p ∧
        PlanePlaced reqs.format r memBuffer total p plane) ∧
    planes.Pairwise fun plane plane' => Disjoint plane.bytes plane'.bytes

/-- A buffer from the allocator. -/
structure Allocated : Prop where
  size : reqs.bufferSize = .ok total
  aligned : reqs.alignBytes.toInt ∣ memBuffer.toNat
  fits : memBuffer.toNat + total.toInt ≤ 2 ^ 64

end ImageRequirements

namespace ImageFormat
variable (f : ImageFormat) (size : Size2D) (r : Int) (memBuffer : BitVec 64)

/-- The rows of each plane, and its start, have the alignment of its pixels. -/
def Compatible : Prop := ∀ p < f.numPlanes,
  PixelAligned f p (f.rowStride size r p) ∧
    PixelAligned f p (memBuffer.toNat + f.planeOffset size r p)

instance : Decidable (f.RowsFit size r) := inferInstanceAs (Decidable (∀ p < _, _ ∧ _))

instance : Decidable (f.Compatible size r memBuffer) :=
  inferInstanceAs (Decidable (∀ p < _, _))

/-- An alignment of pixels is a power of two. -/
theorem planeRowAlignment_pow2 {p : Nat} {a : Int32} (h : f.planeRowAlignment p = some a)
    (h0 : a ≠ 0) : ∃ k < 6, a.toInt = 2 ^ k :=
  (alignment_spec h h0).1

variable {f size r memBuffer}

theorem pixelAligned_modEq {p : Nat} {m n : Int} (h : m ≡ n [ZMOD 2 ^ 64]) :
    PixelAligned f p m ↔ PixelAligned f p n := by
  refine forall_congr' fun a => imp_congr_right fun ha => imp_congr_right fun h0 => ?_
  obtain ⟨k, hk, hak⟩ := f.planeRowAlignment_pow2 ha h0
  rw [hak]
  have hd : (2 : Int) ^ k ∣ 2 ^ 64 := pow_dvd_pow 2 (by omega)
  exact (h.of_dvd hd).dvd_iff

/-- **Rows aligned to all pixels** make everything compatible. -/
theorem compatible_of_dvd (hb : r ∣ memBuffer.toNat)
    (h : ∀ p < f.numPlanes, ∀ a, f.planeRowAlignment p = some a → a ≠ 0 → a.toInt ∣ r) :
    f.Compatible size r memBuffer := by
  have hs : ∀ p, r ∣ f.rowStride size r p := fun p => Int.dvd_mul_left _ _
  have ho : ∀ p, r ∣ f.planeOffset size r p := fun p =>
    Finset.dvd_sum fun q _ => (hs q).mul_right _
  refine fun p hp => ⟨fun a ha h0 => (h p hp a ha h0).trans (hs p), fun a ha h0 => ?_⟩
  exact (h p hp a ha h0).trans (dvd_add hb (ho p))

end ImageFormat

/-! ## The planes in the buffer -/

namespace ImagePlaneStrided
variable {plane : ImagePlaneStrided}

/-- A plane without rows, or of rows without bytes, has no bytes. -/
theorem bytes_empty (h : plane.height.toInt ≤ 0 ∨ plane.rowStride.toInt ≤ 0) :
    plane.bytes = ∅ := by
  refine Set.eq_empty_of_forall_notMem fun x hx => ?_
  obtain ⟨y, i, hy, hi, -⟩ := hx
  omega

/-- The bytes of a plane whose place is known modulo the address space. -/
theorem bytes_subset {a : Int} (hbase : (plane.basePtr.toNat : Int) ≡ a [ZMOD 2 ^ 64]) (ha : 0 ≤ a)
    (hend : a + plane.rowStride.toInt * plane.height.toInt ≤ 2 ^ 64) :
    plane.bytes ⊆ Set.Ico a (a + plane.rowStride.toInt * plane.height.toInt) := by
  rintro x ⟨y, i, hy, hi, rfl⟩
  have hpos : 0 < plane.rowStride.toInt * plane.height.toInt :=
    Int.mul_pos (by omega) (by omega)
  have hp : (plane.basePtr.toNat : Int) = a := by
    have hlt := plane.basePtr.isLt
    have := hbase.eq
    rwa [Int.emod_eq_of_lt (by omega) (by omega), Int.emod_eq_of_lt ha (by omega)] at this
  -- the last row ends where the plane does
  have hrow : (y + 1) * plane.rowStride.toInt ≤ plane.rowStride.toInt * plane.height.toInt := by
    rw [mul_comm plane.rowStride.toInt]
    exact Int.mul_le_mul_of_nonneg_right (by omega) (by omega)
  have hy0 : 0 ≤ y * plane.rowStride.toInt := Int.mul_nonneg hy.1 (by omega)
  rw [add_mul, one_mul] at hrow
  rw [hp]
  exact ⟨by omega, by omega⟩

end ImagePlaneStrided

namespace Image
variable {dev : Device} {size : Size2D} {fmt : ImageFormat} {userBaseAlign userRowAlign : Int32}
  {reqs : ImageRequirements} {r b : Int32} {memBuffer : BitVec 64} {total : Int64}

theorem initial_stride (p : Nat) : (initial size fmt b).planeRowStride.toList.getD p 0 = 0 := by
  have h : (initial size fmt b).planeRowStride.toList = List.replicate maxPlaneCount 0 := rfl
  rw [h, List.getD_eq_getElem?_getD, List.getElem?_replicate]
  split_ifs <;> rfl

theorem numPlanes_lt {p : Nat} (hp : p < fmt.numPlanes) : p < maxPlaneCount := by
  have := fmt.numPlanes_le
  unfold maxPlaneCount
  omega

/-- **The row strides are exact** when they fit. -/
theorem stridesExact_iff
    (h : Planned size fmt r (List.range fmt.numPlanes) (initial size fmt b) reqs) :
    reqs.StridesExact size r.toInt ↔ fmt.RowsFit size r.toInt := by
  have hf : reqs.format = fmt := h.format
  unfold ImageRequirements.StridesExact ImageFormat.RowsFit
  rw [hf]
  refine forall_congr' fun p => imp_congr_right fun hp => ?_
  rw [h.stride p (List.mem_range.2 hp) (numPlanes_lt hp), rowStrideWord]
  constructor
  · intro he
    rw [← he]
    exact ⟨Int32.le_toInt _, Int32.toInt_lt _⟩
  · exact fun hfit => Int32.toInt_ofInt_of_le hfit.1 hfit.2

theorem planeBytes_eq (hfit : fmt.RowsFit size r.toInt) {p : Nat} (hp : p < fmt.numPlanes) :
    planeBytes size fmt r p = fmt.rowStride size r.toInt p * (fmt.planeDims size p).2 := by
  obtain ⟨hl, hr⟩ := hfit p hp
  rw [planeBytes, rowStrideWord, Int32.toInt_ofInt_of_le hl hr]

theorem totalBytes_eq (hfit : fmt.RowsFit size r.toInt) :
    totalBytes size fmt r (List.range fmt.numPlanes) =
      fmt.planeOffset size r.toInt fmt.numPlanes := by
  have hmap : (List.range fmt.numPlanes).map (planeBytes size fmt r) =
      (List.range fmt.numPlanes).map fun p =>
        fmt.rowStride size r.toInt p * (fmt.planeDims size p).2 :=
    List.map_congr_left fun p hp => planeBytes_eq hfit (List.mem_range.1 hp)
  rw [totalBytes, hmap]
  rfl

/-- The total is the sum of the blocks, where these do not reach the modulus. -/
theorem total_eq {m : MemRequirements} (hm : ∀ i : Fin maxLog2BlockSize, 0 ≤ (m.get i).toInt)
    (hlt : totalSize m < 2 ^ 64) (h : calcTotalSizeBytes m = .ok total) :
    total.toInt = totalSize m := by
  have hterm : ∀ i : Fin maxLog2BlockSize, 0 ≤ (m.get i).toInt * 2 ^ i.1 :=
    fun i => Int.mul_nonneg (hm i) (by positivity)
  have heq : computedSize m = totalSize m := by
    refine Finset.sum_congr rfl fun i _ => Int.emod_eq_of_lt (hterm i) ?_
    have : (m.get i).toInt * 2 ^ i.1 ≤ totalSize m :=
      Finset.single_le_sum (fun j _ => hterm j) (Finset.mem_univ i)
    omega
  obtain ⟨hok, herr⟩ := calcTotalSizeBytes_spec hm
  by_cases hc : computedSize m < 2 ^ 63
  · obtain ⟨t, ht, hti⟩ := hok hc
    rw [h] at ht
    cases ht
    rw [hti, heq]
  · obtain ⟨e, he⟩ := herr (not_lt.1 hc)
    rw [h] at he
    cases he

/-- **The buffer holds the planes**: four planes and their padding do not reach the modulus of the
total. -/
theorem planeOffset_le_total (hw : 0 < size.w.toInt) (hr0 : 0 < r.toInt)
    (hfit : fmt.RowsFit size r.toInt)
    (hsizes : ∀ p ∈ List.range fmt.numPlanes, ∃ s, fmt.planeSize size p = some s)
    (hheld : Held size fmt r b (List.range fmt.numPlanes) (.replicate _ 0) reqs.cudaMem)
    (htotal : calcTotalSizeBytes reqs.cudaMem = .ok total) :
    fmt.planeOffset size r.toInt fmt.numPlanes ≤ total.toInt := by
  have hlower := hheld.lower
  have hupper := hheld.upper
  rw [totalBytes_eq hfit, totalSize_replicate, List.length_range] at hupper
  rw [totalBytes_eq hfit, totalSize_replicate] at hlower
  have hplanes : fmt.planeOffset size r.toInt fmt.numPlanes ≤
      fmt.numPlanes * ((2 ^ 31 - 1) * (2 ^ 31 - 1)) := by
    have hterm : ∀ p ∈ Finset.range fmt.numPlanes,
        fmt.rowStride size r.toInt p * (fmt.planeDims size p).2 ≤
          (2 ^ 31 - 1) * (2 ^ 31 - 1) := by
      intro p hp
      have hs := (hfit p (Finset.mem_range.1 hp)).2
      have hs0 := ImageFormat.rowStride_nonneg (f := fmt) hr0 hw p
      obtain ⟨s, hs'⟩ := hsizes p (List.mem_range.2 (Finset.mem_range.1 hp))
      have hd : s.h.toInt = (fmt.planeDims size p).2 :=
        congrArg Prod.snd (ImageFormat.planeSize_eq_some.1 hs').2
      have hlt := s.h.toInt_lt
      rw [← hd]
      refine (Int.mul_le_mul_of_nonneg_left (show s.h.toInt ≤ 2 ^ 31 - 1 by omega) hs0).trans ?_
      exact Int.mul_le_mul_of_nonneg_right (by omega) (by decide)
    have := Finset.sum_le_card_nsmul _ _ _ hterm
    rwa [Finset.card_range, nsmul_eq_mul] at this
  have hn := fmt.numPlanes_le
  have hb := b.toInt_lt
  have hpad : fmt.numPlanes * b.toInt ≤ fmt.numPlanes * (2 ^ 31 - 1) :=
    Int.mul_le_mul_of_nonneg_left (by omega) (by omega)
  rw [total_eq hheld.nonneg (by omega) htotal]
  omega

/-- What is known of the planes of an image whose row strides fit. -/
structure Exported (size : Size2D) (fmt : ImageFormat) (r : Int) (memBuffer : BitVec 64)
    (planes : List ImagePlaneStrided) : Prop where
  length : planes.length = fmt.numPlanes
  dims : ∀ p plane, planes[p]? = some plane →
    (plane.width.toInt, plane.height.toInt) = fmt.planeDims size p
  stride : ∀ p plane, planes[p]? = some plane → plane.rowStride.toInt = fmt.rowStride size r p
  base : ∀ p plane, planes[p]? = some plane →
    (plane.basePtr.toNat : Int) ≡ memBuffer.toNat + fmt.planeOffset size r p [ZMOD 2 ^ 64]

theorem exported (h : Planned size fmt r (List.range fmt.numPlanes) (initial size fmt b) reqs)
    (hfit : fmt.RowsFit size r.toInt) (memBuffer : BitVec 64) :
    ∃ planes, reqs.exportData memBuffer = some planes ∧
      Exported size fmt r.toInt memBuffer planes := by
  have hf : reqs.format = fmt := h.format
  have hexact := (stridesExact_iff h).2 hfit
  have hplane : ∀ p, 0 ≤ p → p < 0 + fmt.numPlanes →
      (∃ d, reqs.format.planeSize size p = some d) ∧
        (reqs.planeRowStride.toList.getD p 0).toInt = reqs.format.rowStride size r.toInt p := by
    intro p _ hp
    rw [Nat.zero_add] at hp
    refine ⟨?_, hexact p (by rwa [hf])⟩
    rw [hf]
    exact h.sizes p (List.mem_range.2 hp)
  have hoff : (0 : Int64).toInt ≡ reqs.format.planeOffset size r.toInt 0 [ZMOD 2 ^ 64] := by
    rw [ImageFormat.planeOffset, Finset.sum_range_zero]
    rfl
  obtain ⟨planes, he, hlen, hspec⟩ := ImageRequirements.exportPlanes_spec
    memBuffer h.width h.height hplane hoff
  rw [hf] at hspec
  simp only [Nat.zero_add] at hspec
  refine ⟨planes, ?_, hlen, fun p plane hp => (hspec p plane hp).1,
    fun p plane hp => (hspec p plane hp).2.1, fun p plane hp => (hspec p plane hp).2.2⟩
  rw [ImageRequirements.exportData, hf, List.range_eq_range', he]

theorem exists_plane {planes : List ImagePlaneStrided} (hlen : planes.length = fmt.numPlanes)
    {p : Nat} (hp : p < fmt.numPlanes) : ∃ plane, planes[p]? = some plane :=
  ⟨_, List.getElem?_eq_getElem (by omega)⟩

theorem lt_numPlanes {planes : List ImagePlaneStrided} (hlen : planes.length = fmt.numPlanes)
    {p : Nat} {plane : ImagePlaneStrided} (hp : planes[p]? = some plane) : p < fmt.numPlanes := by
  rw [← hlen]
  exact (List.getElem?_eq_some_iff.1 hp).1

section
variable {planes : List ImagePlaneStrided} (h : Exported size fmt r.toInt memBuffer planes)
include h

/-- The bytes of a plane are where it is meant to be. -/
theorem bytes_subset_place (hr0 : 0 < r.toInt)
    (htotal : 0 < size.w.toInt → 0 < size.h.toInt →
      memBuffer.toNat + fmt.planeOffset size r.toInt fmt.numPlanes ≤ 2 ^ 64)
    {p : Nat} {plane : ImagePlaneStrided} (hp : planes[p]? = some plane) :
    plane.bytes ⊆ {x | 0 < size.w.toInt ∧ 0 < size.h.toInt ∧
      memBuffer.toNat + fmt.planeOffset size r.toInt p ≤ x ∧
      x < memBuffer.toNat + fmt.planeOffset size r.toInt (p + 1)} := by
  have hdims := h.dims p plane hp
  have hs := h.stride p plane hp
  have hh : plane.height.toInt = (fmt.planeDims size p).2 := congrArg Prod.snd hdims
  obtain ⟨-, hdh⟩ := fmt.planeDims_pos size p
  by_cases hw : 0 < size.w.toInt
  · by_cases hhp : 0 < size.h.toInt
    · have hoff := ImageFormat.planeOffset_nonneg (f := fmt) hr0 hw hhp p
      have hnext : fmt.planeOffset size r.toInt (p + 1) =
          fmt.planeOffset size r.toInt p + plane.rowStride.toInt * plane.height.toInt := by
        rw [ImageFormat.planeOffset, Finset.sum_range_succ, ← ImageFormat.planeOffset, hs, hh]
      have hend : fmt.planeOffset size r.toInt (p + 1) ≤
          fmt.planeOffset size r.toInt fmt.numPlanes :=
        ImageFormat.planeOffset_mono hr0 hw hhp (Nat.succ_le_of_lt (lt_numPlanes h.length hp))
      have ht := htotal hw hhp
      intro x hx
      obtain ⟨hl, hr⟩ := ImagePlaneStrided.bytes_subset (h.base p plane hp) (by omega)
        (by omega) hx
      exact ⟨hw, hhp, hl, by omega⟩
    · rw [ImagePlaneStrided.bytes_empty (.inl (by omega))]
      exact Set.empty_subset _
  · rw [ImagePlaneStrided.bytes_empty (.inr ?_)]
    · exact Set.empty_subset _
    · rw [hs]
      exact ImageFormat.rowStride_nonpos hr0 (not_lt.1 hw) p

/-- A plane of compatible alignment is in its place. -/
theorem planePlaced {k : Nat} (hk : k < 31) (hrk : r.toInt = 2 ^ k) (hrb : r.toInt ∣ memBuffer.toNat)
    (htotal : 0 < size.w.toInt → 0 < size.h.toInt →
      fmt.planeOffset size r.toInt fmt.numPlanes ≤ total.toInt)
    (hfits : memBuffer.toNat + total.toInt ≤ 2 ^ 64)
    (hcomp : fmt.Compatible size r.toInt memBuffer) {p : Nat} {plane : ImagePlaneStrided}
    (hp : planes[p]? = some plane) : PlanePlaced fmt r.toInt memBuffer total p plane := by
  have hr0 : 0 < r.toInt := by
    rw [hrk]
    positivity
  have hlt := lt_numPlanes h.length hp
  have hstride := h.stride p plane hp
  have hbase := h.base p plane hp
  obtain ⟨hc, hc'⟩ := hcomp p hlt
  have hoff : r.toInt ∣ fmt.planeOffset size r.toInt p :=
    Finset.dvd_sum fun q _ => (Int.dvd_mul_left _ _).mul_right _
  refine ⟨?_, ?_, ?_, ?_, ?_, fun x hx => ?_⟩
  · have hw : plane.width.toInt = (fmt.planeDims size p).1 := congrArg Prod.fst (h.dims p plane hp)
    rw [hstride, hw]
    exact ImageFormat.le_rowStride (f := fmt) hr0 p
  · rw [hstride]
    exact Int.dvd_mul_left _ _
  · rwa [hstride]
  · have hd : r.toInt ∣ (2 : Int) ^ 64 := by
      rw [hrk]
      exact pow_dvd_pow 2 (by omega)
    exact (hbase.of_dvd hd).dvd_iff.2 (dvd_add hrb hoff)
  · exact (ImageFormat.pixelAligned_modEq hbase).2 hc'
  · have hspace := fun hw hh => le_trans (add_le_add_right (htotal hw hh) _) hfits
    obtain ⟨hw, hh, hl, hr⟩ := bytes_subset_place h hr0 hspace hp hx
    have h0 := ImageFormat.planeOffset_nonneg (f := fmt) hr0 hw hh p
    have hle : fmt.planeOffset size r.toInt (p + 1) ≤ _ :=
      ImageFormat.planeOffset_mono hr0 hw hh (Nat.succ_le_of_lt hlt)
    have := htotal hw hh
    exact ⟨by omega, by omega⟩

theorem planes_apart (hr0 : 0 < r.toInt)
    (hspace : 0 < size.w.toInt → 0 < size.h.toInt →
      memBuffer.toNat + fmt.planeOffset size r.toInt fmt.numPlanes ≤ 2 ^ 64) :
    planes.Pairwise fun plane plane' => Disjoint plane.bytes plane'.bytes := by
  refine List.pairwise_iff_getElem.2 fun p q hp hq hpq => ?_
  refine Set.disjoint_left.2 fun x hx hx' => ?_
  obtain ⟨hw, hh, -, hr⟩ := bytes_subset_place h hr0 hspace (List.getElem?_eq_getElem hp) hx
  obtain ⟨-, -, hl, -⟩ := bytes_subset_place h hr0 hspace (List.getElem?_eq_getElem hq) hx'
  have hle : fmt.planeOffset size r.toInt (p + 1) ≤ _ :=
    ImageFormat.planeOffset_mono hr0 hw hh (Nat.succ_le_of_lt hpq)
  omega

end

/-- A format without planes has nothing to place. -/
theorem stridesExact_of_returns (hr : RowAlign dev userRowAlign r.toInt) {t : Int32}
    (hlcm : lcm t r = some b)
    (h : Returns (addPlanes size fmt r b (List.range fmt.numPlanes) (initial size fmt b)) reqs) :
    reqs.StridesExact size r.toInt ↔ fmt.RowsFit size r.toInt := by
  rcases Nat.eq_zero_or_pos fmt.numPlanes with h0 | hpos
  · rw [h0] at h
    obtain rfl := returns_pure.1 h
    have hf : (initial size fmt b).format.numPlanes = 0 := h0
    exact iff_of_true (fun p hp => absurd hp (by omega)) fun p hp => absurd hp (by omega)
  · have hcons : List.range fmt.numPlanes = 0 :: (List.range (fmt.numPlanes - 1)).map Nat.succ := by
      rw [← List.range_succ_eq_map, Nat.sub_add_cancel hpos]
    obtain ⟨k, hk, hrk⟩ := (align_pow2 hr hlcm (hcons ▸ h)).1
    exact stridesExact_iff (addPlanes_spec hk hrk h).1

/-- **An accepted image** has its planes in place exactly when the row strides fit and the
alignments happen to be compatible. -/
theorem placed_iff
    (h : Returns (calcRequirements dev size fmt userBaseAlign userRowAlign) reqs)
    (ha : reqs.Allocated memBuffer total) (hr : RowAlign dev userRowAlign r.toInt) :
    reqs.Placed size r.toInt memBuffer total ↔
      fmt.RowsFit size r.toInt ∧ fmt.Compatible size r.toInt memBuffer := by
  obtain ⟨r', t, b, hr', -, hlcm, hadd⟩ := returns_calcRequirements h
  obtain rfl := hr'.unique hr
  rcases Nat.eq_zero_or_pos fmt.numPlanes with h0 | hpos
  · -- an image without planes
    rw [h0] at hadd
    obtain rfl := returns_pure.1 hadd
    have hf : (initial size fmt b).format.numPlanes = 0 := h0
    refine iff_of_true ⟨fun p hp => ?_, [], ?_, ?_, ?_, .nil⟩ ⟨fun p hp => ?_, fun p hp => ?_⟩
    · exact absurd hp (by omega)
    · rw [ImageRequirements.exportData, hf]
      rfl
    · exact hf.symm
    · exact fun p plane hp => by simp at hp
    · exact absurd hp (by omega)
    · exact absurd hp (by omega)
  · have hcons : List.range fmt.numPlanes = 0 :: (List.range (fmt.numPlanes - 1)).map Nat.succ := by
      rw [← List.range_succ_eq_map, Nat.sub_add_cancel hpos]
    obtain ⟨k, hk, hrk⟩ := (align_pow2 hr hlcm (hcons ▸ hadd)).1
    have hr0 : 0 < r'.toInt := by
      rw [hrk]
      positivity
    obtain ⟨hplanned, hheld⟩ := addPlanes_spec hk hrk hadd
    have hf : reqs.format = fmt := hplanned.format
    have hrb : r'.toInt ∣ memBuffer.toNat := by
      refine dvd_of_lcm hlcm ?_
      rw [← show reqs.alignBytes = b from hplanned.alignBytes]
      exact ha.aligned
    constructor
    · rintro ⟨hexact, planes, he, -, hplaces, -⟩
      have hfit := (stridesExact_iff hplanned).1 hexact
      refine ⟨hfit, fun p hp => ?_⟩
      obtain ⟨planes', he', hexp⟩ := exported hplanned hfit memBuffer
      obtain rfl : planes = planes' := Option.some.inj (he.symm.trans he')
      obtain ⟨plane, hplane⟩ := exists_plane hexp.length hp
      obtain ⟨-, hplace⟩ := hplaces p plane hplane
      rw [hf] at hplace
      rw [← hexp.stride p plane hplane]
      exact ⟨hplace.pixelRows,
        (ImageFormat.pixelAligned_modEq (hexp.base p plane hplane)).1 hplace.pixelBase⟩
    · rintro ⟨hfit, hcomp⟩
      obtain ⟨planes, he, hexp⟩ := exported hplanned hfit memBuffer
      have htotal : 0 < size.w.toInt → 0 < size.h.toInt →
          fmt.planeOffset size r'.toInt fmt.numPlanes ≤ total.toInt := by
        intro hw hh
        refine planeOffset_le_total hw hr0 hfit hplanned.sizes (hheld ?_ ?_) ?_
        · intro p hp
          rw [planeBytes_eq hfit (List.mem_range.1 hp)]
          exact Int.mul_nonneg (ImageFormat.rowStride_nonneg (f := fmt) hr0 hw p)
            ((fmt.planeDims_pos size p).2.2 hh).le
        · exact fun i => (toInt_get_replicate i).ge
        · have hsize := ha.size
          unfold ImageRequirements.bufferSize at hsize
          split_ifs at hsize
          exact hsize
      have hspace := fun hw hh => le_trans (add_le_add_right (htotal hw hh) _) ha.fits
      refine ⟨(stridesExact_iff hplanned).2 hfit, planes, he, by rw [hf, hexp.length],
        fun p plane hp => ?_, planes_apart hexp hr0 hspace⟩
      rw [hf]
      exact ⟨hexp.dims p plane hp, planePlaced hexp hk hrk hrb htotal ha.fits hcomp hp⟩

/-! ## When there is an outcome -/

theorem planeSize_defined {p : Nat} :
    (∃ s, fmt.planeSize size p = some s) ↔ (1 ≤ p → fmt.SizesFit size) := by
  constructor
  · rintro ⟨s, hs⟩
    exact (ImageFormat.planeSize_eq_some.1 hs).1
  · intro h
    by_cases hsub : 1 ≤ p ∧ fmt.css ≠ ChromaSubsampling.none.value
    · obtain ⟨⟨hw, hw'⟩, hh, hh'⟩ := h hsub.1 hsub.2
      have hdims : fmt.planeDims size p =
          ((size.w.toInt * fmt.samples.1.toInt + 3).tdiv 4,
            (size.h.toInt * fmt.samples.2.toInt + 3).tdiv 4) := if_pos hsub
      have hfit : ∀ x : Int, -2 ^ 31 ≤ x ∧ x < 2 ^ 31 → (Int32.ofInt (x.tdiv 4)).toInt = x.tdiv 4 := by
        intro x hx
        by_cases h0 : 0 ≤ x
        · rw [Int.tdiv_eq_ediv_of_nonneg h0]
          exact Int32.toInt_ofInt_of_le (by omega) (by omega)
        · have hneg := Int.tdiv_eq_ediv_of_nonneg (a := -x) (b := 4) (by omega)
          rw [Int.neg_tdiv] at hneg
          exact Int32.toInt_ofInt_of_le (by omega) (by omega)
      refine ⟨⟨.ofInt (fmt.planeDims size p).1, .ofInt (fmt.planeDims size p).2⟩,
        ImageFormat.planeSize_eq_some.2 ⟨h, ?_⟩⟩
      rw [hdims]
      exact Prod.ext (hfit _ hw') (hfit _ hh')
    · exact ⟨size, if_neg hsub⟩

theorem lcm_self {a : Int32} (h : 0 ≤ a.toInt) : lcm a a = some a := by
  have hlt := a.toInt_lt
  have hn : Int.lcm a.toInt a.toInt = a.toInt.natAbs := Nat.lcm_self _
  exact lcm_eq_some.2 ⟨by omega, by omega⟩

theorem planeRowAlignment_nonneg {p : Nat} {a : Int32} (h : fmt.planeRowAlignment p = some a) :
    0 ≤ a.toInt := by
  by_cases h0 : a = 0
  · rw [h0]
    decide
  · obtain ⟨k, -, hk⟩ := fmt.planeRowAlignment_pow2 h h0
    rw [hk]
    positivity

/-- The alignments the loop over the planes computes. -/
def planeAlignment (fmt : ImageFormat) (userRowAlign : Int32) (p : Nat) : Option Int32 :=
  if userRowAlign = 0 then some (fmt.planePixelStrideBytes p) else fmt.planeRowAlignment p

theorem planeAlignment_nonneg {p : Nat} {a : Int32}
    (h : planeAlignment fmt userRowAlign p = some a) : 0 ≤ a.toInt := by
  unfold planeAlignment at h
  split_ifs at h
  · rw [← Option.some.inj h]
    exact (fmt.planePixelStrideBytes_mem p).1
  · exact planeRowAlignment_nonneg h

theorem alignPlanes_cons {p : Nat} {a : Int32} (h : planeAlignment fmt userRowAlign p = some a)
    (ps : List Nat) : alignPlanes fmt userRowAlign (p :: ps) = alignPlanes fmt userRowAlign ps := by
  have hcons : alignPlanes fmt userRowAlign (p :: ps) =
      ((liftM (planeAlignment fmt userRowAlign p) : Call Int32) >>= fun rowAlign =>
        (liftM (lcm rowAlign rowAlign) : Call Int32) >>= fun _ =>
          alignPlanes fmt userRowAlign ps) := rfl
  rw [hcons, h, lift_some_bind, lcm_self (planeAlignment_nonneg h), lift_some_bind]

/-- The loop over the planes needs their alignments, to do nothing with them. -/
theorem returns_alignPlanes {ps : List Nat}
    (h : ∀ p ∈ ps, ∃ a, planeAlignment fmt userRowAlign p = some a) :
    Returns (alignPlanes fmt userRowAlign ps) () := by
  induction ps with
  | nil => exact returns_pure.2 rfl
  | cons p ps ih =>
    rw [List.forall_mem_cons] at h
    obtain ⟨a, ha⟩ := h.1
    rw [alignPlanes_cons ha]
    exact ih h.2

theorem planeAlignment_of_defined {ps : List Nat} (h : Defined (alignPlanes fmt userRowAlign ps)) :
    ∀ p ∈ ps, ∃ a, planeAlignment fmt userRowAlign p = some a := by
  induction ps with
  | nil => exact fun p hp => absurd hp List.not_mem_nil
  | cons p ps ih =>
    have hp : ∃ a, planeAlignment fmt userRowAlign p = some a :=
      defined_lift.1 (defined_bind.1 h).1
    obtain ⟨a, ha⟩ := hp
    rw [alignPlanes_cons ha] at h
    exact List.forall_mem_cons.2 ⟨⟨a, ha⟩, ih h⟩

theorem exists_planeAlignment {p : Nat} :
    (∃ a, planeAlignment fmt userRowAlign p = some a) ↔
      (userRowAlign ≠ 0 → ∃ a, fmt.planeRowAlignment p = some a) := by
  by_cases h : userRowAlign = 0
  · rw [planeAlignment, if_pos h]
    exact iff_of_true ⟨_, rfl⟩ fun hne => absurd h hne
  · rw [planeAlignment, if_neg h]
    exact ⟨fun hx _ => hx, fun hx => hx h⟩

theorem defined_addPlanes {ps : List Nat} {reqs : ImageRequirements}
    (h : ∀ p ∈ ps, 1 ≤ p → fmt.SizesFit size) : Defined (addPlanes size fmt r b ps reqs) := by
  induction ps generalizing reqs with
  | nil => exact defined_pure
  | cons p ps ih =>
    rw [List.forall_mem_cons] at h
    obtain ⟨s, hs⟩ := planeSize_defined.2 h.1
    obtain ⟨v, rs, bufSize, -, -, -, hle, heq⟩ := addPlanes_cons b hs
    rw [heq, defined_bind]
    exact ⟨addBuffer_defined (by omega), fun m _ => ih h.2⟩

/-- Memory without blocks has room for any buffer. -/
theorem exists_addBuffer {bufSize a : Int64} {k : Nat} (hk : k < maxLog2BlockSize)
    (ha : a.toInt = 2 ^ k) (hb : bufSize.toInt ≠ -2 ^ 63) :
    ∃ m, Returns (addBuffer (.replicate _ 0) bufSize a) m := by
  have h2k : (0 : Int) < 2 ^ k := by positivity
  have ha0 : ¬a ≤ 0 := by
    rw [Int64.le_iff_toInt_le, ha, Int64.toInt_zero]
    omega
  have hk63 : k < 63 := by
    unfold maxLog2BlockSize at hk
    omega
  have hp : ¬¬isPowerOfTwo a := not_not_intro (isPowerOfTwo_two_pow hk63 ha)
  have hlog := iLog2_lt hk ha
  obtain ⟨x, hx⟩ := exists_int64_natAbs.2 hb
  have hroom : ¬(Vector.replicate maxLog2BlockSize (0 : Int64))[iLog2 a] >
      Int64.maxValue - divUpPowerOfTwo x a := by
    have hd := (divUpPowerOfTwo x a).toInt_lt
    have hn := (divUpPowerOfTwo_spec hk63 ha (by rw [toInt_int64 hx]; omega)).1
    have hnn : 0 ≤ (divUpPowerOfTwo x a).toInt := by
      have hx0 : 0 ≤ x.toInt := by
        rw [toInt_int64 hx]
        omega
      exact le_of_mul_le_mul_right (by rw [zero_mul]; omega) h2k
    have hmax : (Int64.maxValue - divUpPowerOfTwo x a).toInt =
        2 ^ 63 - 1 - (divUpPowerOfTwo x a).toInt :=
      Int64.toInt_sub_of_range (by rw [show Int64.maxValue.toInt = 2 ^ 63 - 1 from rfl]; omega)
        (by rw [show Int64.maxValue.toInt = 2 ^ 63 - 1 from rfl]; omega)
    rw [Vector.getElem_replicate, gt_iff_lt, Int64.lt_iff_toInt_lt, hmax, Int64.toInt_zero]
    omega
  unfold addBuffer
  simp only [returns_refuse_bind, ha0, hp, not_false_eq_true, true_and, dif_pos hlog, hx,
    lift_some_bind]
  by_cases h0 : 0 ≤ bufSize
  · simp only [if_pos h0, returns_refuse_bind]
    exact ⟨_, hroom, returns_pure.2 rfl⟩
  · simp only [if_neg h0]
    exact ⟨_, returns_pure.2 rfl⟩

/-- **The loop over all planes** has an outcome unless it gets to the size of a subsampled plane
that is no `int`. -/
theorem defined_addPlanes_range :
    Defined (addPlanes size fmt r b (List.range fmt.numPlanes) (initial size fmt b)) ↔
      (2 ≤ fmt.numPlanes → (∃ k < 31, b.toInt = 2 ^ k) → fmt.SizesFit size) := by
  generalize fmt.numPlanes = n
  rcases n with _ | n
  · exact iff_of_true defined_pure fun h => absurd h (by omega)
  rw [List.range_succ_eq_map]
  have h0 : ¬1 ≤ 0 := by omega
  obtain ⟨s, hs⟩ := planeSize_defined.2 (fun h => absurd h h0 : 1 ≤ 0 → fmt.SizesFit size)
  obtain ⟨v, rs, bufSize, -, -, -, hle, heq⟩ := addPlanes_cons b hs
  rw [heq, defined_bind, and_iff_right (addBuffer_defined (by omega))]
  constructor
  · rintro h hn ⟨k, hk, hbk⟩
    rw [← Int32.toInt_toInt64] at hbk
    obtain ⟨m, hm⟩ := exists_addBuffer (hk.trans (by decide)) hbk
      (show bufSize.toInt ≠ -2 ^ 63 by omega)
    obtain ⟨n, rfl⟩ : ∃ n', n = n' + 1 := ⟨n - 1, by omega⟩
    have hrest := h m hm
    rw [List.range_succ_eq_map, List.map_cons] at hrest
    obtain ⟨hsize, -⟩ := defined_bind.1 hrest
    exact planeSize_defined.1 (defined_lift.1 hsize) le_rfl
  · intro h m hm
    refine defined_addPlanes fun p hp h1 => h ?_ ?_
    · obtain ⟨q, hq, rfl⟩ := List.mem_map.1 hp
      have := List.mem_range.1 hq
      omega
    · exact returns_addBuffer_pow2 hm

variable (dev size fmt userBaseAlign userRowAlign) in
/-- No `int` overflows, and no alignment of pixels fails an assertion, before an error is found. -/
def Computed : Prop :=
  dev.getDevice = .ok () → ∀ r : Int32, RowAlign dev userRowAlign r.toInt →
    (userRowAlign ≠ 0 → ∀ p < fmt.numPlanes, ∃ a, fmt.planeRowAlignment p = some a) ∧
      ∀ t : Int32, AddressAlign dev userBaseAlign t → Int.lcm t.toInt r.toInt < 2 ^ 31 ∧
        (2 ≤ fmt.numPlanes → (∃ k < 31, (Int.lcm t.toInt r.toInt : Int) = 2 ^ k) →
          fmt.SizesFit size)

theorem defined_calcRequirements :
    Defined (calcRequirements dev size fmt userBaseAlign userRowAlign) ↔
      Computed dev size fmt userBaseAlign userRowAlign := by
  unfold calcRequirements Computed
  rw [defined_bind, and_iff_right defined_ofExcept]
  have hdev : ∀ u, Returns (ExceptT.mk (some dev.getDevice) : Call Unit) u ↔
      dev.getDevice = .ok () := fun u => returns_ofExcept
  simp only [hdev, forall_const]
  refine imp_congr_right fun _ => ?_
  rw [defined_bind, and_iff_right defined_rowAlignment]
  refine forall_congr' fun r => ?_
  rw [returns_rowAlignment]
  refine imp_congr_right fun hr => ?_
  simp only [defined_bind, roundUp_rowAlign hr]
  have hplanes : Defined (alignPlanes fmt userRowAlign (List.range fmt.numPlanes)) ↔
      (userRowAlign ≠ 0 → ∀ p < fmt.numPlanes, ∃ a, fmt.planeRowAlignment p = some a) := by
    refine ⟨fun h h0 p hp => ?_, fun h => (returns_alignPlanes fun p hp => ?_).defined⟩
    · have ha := planeAlignment_of_defined h p (List.mem_range.2 hp)
      exact exists_planeAlignment.1 ha h0
    · exact exists_planeAlignment.2 fun h0 => h h0 p (List.mem_range.1 hp)
  rw [← hplanes]
  refine and_congr_right fun hdef => ?_
  have hrun := returns_alignPlanes (planeAlignment_of_defined hdef)
  refine Iff.trans ⟨fun h => h () hrun, fun h _ _ => h⟩ ?_
  rw [defined_baseAlignment]
  constructor
  · rintro ⟨hlcm, hadd⟩ t ht
    refine ⟨hlcm t ht, ?_⟩
    obtain ⟨b, hb⟩ := exists_lcm.2 (hlcm t ht)
    rw [← (lcm_eq_some.1 hb).2]
    exact defined_addPlanes_range.1 (hadd b (returns_baseAlignment.2 ⟨t, ht, hb⟩))
  · intro h
    refine ⟨fun t ht => (h t ht).1, fun b hb => defined_addPlanes_range.2 ?_⟩
    obtain ⟨t, ht, hlcm⟩ := returns_baseAlignment.1 hb
    rw [(lcm_eq_some.1 hlcm).2]
    exact (h t ht).2

/-- **Planes of images**: every call has an outcome exactly when its `int`s are computed, an image
it accepts has exact row strides exactly when they fit, and the planes in place exactly when they
fit and are compatible. -/
theorem calcRequirements_iff :
    (Defined (calcRequirements dev size fmt userBaseAlign userRowAlign) ↔
      Computed dev size fmt userBaseAlign userRowAlign) ∧
    ∀ (reqs : ImageRequirements) (r : Int32),
      Returns (calcRequirements dev size fmt userBaseAlign userRowAlign) reqs →
      RowAlign dev userRowAlign r.toInt →
      (reqs.StridesExact size r.toInt ↔ fmt.RowsFit size r.toInt) ∧
      ∀ (memBuffer : BitVec 64) (total : Int64), reqs.Allocated memBuffer total →
        (reqs.Placed size r.toInt memBuffer total ↔
          fmt.RowsFit size r.toInt ∧ fmt.Compatible size r.toInt memBuffer) := by
  refine ⟨defined_calcRequirements, fun reqs r h hr => ⟨?_, fun memBuffer total ha => ?_⟩⟩
  · obtain ⟨r', t, b, hr', -, hlcm, hadd⟩ := returns_calcRequirements h
    obtain rfl := hr'.unique hr
    exact stridesExact_of_returns hr' hlcm hadd
  · exact placed_iff h ha hr

theorem log2_512_lt : 9 < maxLog2BlockSize := by decide

/-- The requirements of a semi-planar image of 6 by 5 pixels. -/
def semiPlanarReqs : ImageRequirements where
  width := 6
  height := 5
  format := ImageFormat.semiPlanar
  planeRowStride := #v[32, 32, 0, 0, 0, 0]
  alignBytes := 512
  cudaMem := .set (.replicate _ 0) 9 2 log2_512_lt

theorem calcRequirements_iff_semiPlanar :
    Returns (calcRequirements device ⟨6, 5⟩ ImageFormat.semiPlanar 0 0) semiPlanarReqs ∧
      semiPlanarReqs.Placed ⟨6, 5⟩ 32 4096#64 1024 := by
  have h : Returns (calcRequirements device ⟨6, 5⟩ ImageFormat.semiPlanar 0 0) semiPlanarReqs := by
    decide +kernel
  have hr : RowAlign device 0 (32 : Int32).toInt := ⟨32, rfl, rfl⟩
  have ha : semiPlanarReqs.Allocated 4096#64 1024 := ⟨by decide +kernel, by decide, by decide⟩
  refine ⟨h, ((calcRequirements_iff.2 semiPlanarReqs 32 h hr).2 4096#64 1024 ha).2 ⟨?_, ?_⟩⟩
  · decide +kernel
  · decide +kernel

/-- An image with two planes of 8 and 16 bits, not subsampled. -/
def twoDepths : ImageFormat :=
  ImageFormat.makeFormat .undefined (ColorSpec.undefined.setWidth 64)
    ChromaSubsampling.none.value { ImageFormat.twoPlanes with swizzle := .SXY00, packing1 := .X16 }

/-- The requirements of one row of three such pixels. -/
def twoDepthsReqs : ImageRequirements where
  width := 3
  height := 1
  format := twoDepths
  planeRowStride := #v[3, 6, 0, 0, 0, 0]
  alignBytes := 1
  cudaMem := .set (.replicate _ 0) 0 9 (by decide)

/-- Pixels of two bytes that start at an odd address, and subsampled planes that overflow. -/
theorem calcRequirements_deviates :
    (Returns (calcRequirements device ⟨3, 1⟩ twoDepths 1 1) twoDepthsReqs ∧
      twoDepthsReqs.Allocated 4096#64 9 ∧ ¬twoDepthsReqs.Placed ⟨3, 1⟩ 1 4096#64 9) ∧
    ¬Defined (calcRequirements device ⟨2 ^ 30, 2⟩ ImageFormat.semiPlanar 0 0) := by
  have h : Returns (calcRequirements device ⟨3, 1⟩ twoDepths 1 1) twoDepthsReqs := by
    decide +kernel
  have hr : RowAlign device 1 (1 : Int32).toInt := ⟨by decide, rfl⟩
  have ha : twoDepthsReqs.Allocated 4096#64 9 := ⟨by decide +kernel, by decide, by decide⟩
  refine ⟨⟨h, ha, fun hp => ?_⟩, by decide +kernel⟩
  have hc := ((placed_iff h ha hr).1 hp).2
  revert hc
  decide +kernel

end Image

end Nvcv
