import Mathlib
import CvCuda.Lib.Wrapping
import CvCuda.Cvcuda.Ptr2dNHWC

/-! # Which tensors the pointers address

* `Tensor.address`: where an element is.
* `ptr_eq_iff`: when a pointer has it, one summand at a time.
* `ptr_iff`: for which tensors of the operators all pointers have it.
-/

namespace Cvcuda.Ptr2dNHWC

open Wrapping

variable {t inData outData : Tensor} {size : Nat} {b y x c : ℤ}

namespace Tensor

def elementSize (t : Tensor) : Nat := dataSize t.dataType * t.dtypeChannels

/-- The address of an element. -/
def address (t : Tensor) (b y x c : ℤ) : BitVec 64 :=
  t.basePtr + .ofInt 64 (b * t.sampleStride.toInt + y * t.rowStride.toInt +
    x * t.colStride.toInt + c * t.chStride.toInt)

/-- An index inside the shape. -/
structure Has (t : Tensor) (b y x c : ℤ) : Prop where
  b : 0 ≤ b ∧ b < t.numSamples.toInt
  y : 0 ≤ y ∧ y < t.numRows.toInt
  x : 0 ≤ x ∧ x < t.numCols.toInt
  c : 0 ≤ c ∧ c < t.numChannels.toInt

/-- Pixels are packed. -/
structure Packed (t : Tensor) : Prop where
  colStride : t.colStride.toInt = t.numChannels.toInt * t.elementSize
  chStride : t.chStride.toInt = t.elementSize

/-- The last sample, the last row and the last element of a row have offsets of 32 bits, and the
elements have the size that the pointer takes them to have. -/
structure Fits (t : Tensor) (size : Nat) : Prop where
  samples : Fits32 ((t.numSamples.toInt - 1) * t.sampleStride.toInt)
  rows : Fits32 ((t.numRows.toInt - 1) * t.rowStride.toInt)
  row : t.numCols.toInt * t.numChannels.toInt ≤ 2 ^ 31
  size : t.numCols.toInt * t.numChannels.toInt ≤ 1 ∨ t.elementSize = size

end Tensor

/-! ## Summands -/

theorem ofInt_eq_iff {z w : ℤ} : BitVec.ofInt 64 z = BitVec.ofInt 64 w ↔ (2 ^ 64 : ℤ) ∣ z - w := by
  rw [← BitVec.toNat_inj, BitVec.toNat_ofInt, BitVec.toNat_ofInt, dvd_sub_comm,
    ← Int.modEq_iff_dvd, Int.ModEq]
  omega

/-- An index and a stride, both as `int`. -/
theorem toInt_mul_stride (i : ℤ) (s : Int64) :
    (Int32.ofInt i * s.toInt32).toInt = (i * s.toInt).bmod (2 ^ 32) := by
  rw [Int32.toInt_mul, Int32.toInt_ofInt, Int64.toInt_toInt32, Int.bmod_mul_bmod,
    Int.mul_bmod_bmod]

theorem toInt_pixel (x c : ℤ) (n : Int64) :
    (Int32.ofInt x * n.toInt32 + Int32.ofInt c).toInt = (x * n.toInt + c).bmod (2 ^ 32) := by
  rw [Int32.toInt_add, toInt_mul_stride, Int32.toInt_ofInt, Int.bmod_add_bmod]
  exact Int.add_bmod_bmod

/-- The offsets of samples and of rows. -/
theorem stride_iff {n s : Int64} (hn : 1 ≤ n.toInt) :
    (∀ i, 0 ≤ i → i < n.toInt → BitVec.ofInt 64 (Int32.ofInt i * s.toInt32).toInt =
      BitVec.ofInt 64 (i * s.toInt)) ↔ Fits32 ((n.toInt - 1) * s.toInt) := by
  rw [← multiples_iff hn s.le_toInt s.toInt_lt]
  simp only [toInt_mul_stride, ofInt_eq_iff]

theorem elementSize_range (t : Tensor) : 1 ≤ t.elementSize ∧ t.elementSize ≤ 32 := by
  have hpos := t.dtypeChannels_pos
  have hle := t.dtypeChannels_le
  unfold Tensor.elementSize
  cases t.dataType <;> simp only [dataSize] <;> omega

/-- The offset of an element in its row. -/
theorem pixel_iff (ht : t.Packed) :
    BitVec.ofInt 64 (Int32.ofInt x * t.numChannels.toInt32 + Int32.ofInt c).toInt *
        BitVec.ofNat 64 size =
      BitVec.ofInt 64 (x * t.colStride.toInt + c * t.chStride.toInt) ↔
      (2 ^ 64 : ℤ) ∣ (x * t.numChannels.toInt + c).bmod (2 ^ 32) * size -
        (x * t.numChannels.toInt + c) * t.elementSize := by
  have hoffset : x * t.colStride.toInt + c * t.chStride.toInt =
      (x * t.numChannels.toInt + c) * t.elementSize := by
    rw [ht.colStride, ht.chStride]
    ring
  rw [toInt_pixel, hoffset, ← BitVec.ofInt_natCast, ← BitVec.ofInt_mul, ofInt_eq_iff]

/-- The offsets of the elements of a row. -/
theorem row_iff (ht : t.Packed) (hsize : 0 < size ∧ size ≤ 8) (hch : 1 ≤ t.numChannels.toInt) :
    (∀ x c, 0 ≤ x → x < t.numCols.toInt → 0 ≤ c → c < t.numChannels.toInt →
      BitVec.ofInt 64 (Int32.ofInt x * t.numChannels.toInt32 + Int32.ofInt c).toInt *
        BitVec.ofNat 64 size =
      BitVec.ofInt 64 (x * t.colStride.toInt + c * t.chStride.toInt)) ↔
      t.numCols.toInt * t.numChannels.toInt ≤ 2 ^ 31 ∧
        (t.numCols.toInt * t.numChannels.toInt ≤ 1 ∨ t.elementSize = size) := by
  obtain ⟨hpos, hle⟩ := elementSize_range t
  have hscaled := @scaled_iff (t.numCols.toInt * t.numChannels.toInt) (size : ℤ)
    (t.elementSize : ℤ) (by omega) (by omega) (by omega) (by omega)
  rw [Nat.cast_inj] at hscaled
  rw [← hscaled]
  simp only [pixel_iff ht]
  constructor
  · intro h p hp hlt
    have hx : p / t.numChannels.toInt < t.numCols.toInt := Int.ediv_lt_of_lt_mul (by omega) hlt
    have hdvd := h (p / t.numChannels.toInt) (p % t.numChannels.toInt)
      (Int.ediv_nonneg hp (by omega)) hx (Int.emod_nonneg p (by omega)) (Int.emod_lt_of_pos p hch)
    rwa [Int.ediv_mul_add_emod] at hdvd
  · intro h x c hx hxlt hc hclt
    refine h _ (by positivity) ?_
    nlinarith

/-! ## Pointers -/

theorem ptr_ofTensor : (Ptr.ofTensor t).ptr size (.ofInt b) (.ofInt y) (.ofInt x) (.ofInt c) =
    t.basePtr + .ofInt 64 (Int32.ofInt b * t.sampleStride.toInt32).toInt +
      .ofInt 64 (Int32.ofInt y * t.rowStride.toInt32).toInt +
      .ofInt 64 (Int32.ofInt x * t.numChannels.toInt32 + Int32.ofInt c).toInt * .ofNat 64 size := rfl

theorem address_eq : t.address b y x c = t.basePtr + .ofInt 64 (b * t.sampleStride.toInt) +
    .ofInt 64 (y * t.rowStride.toInt) +
    .ofInt 64 (x * t.colStride.toInt + c * t.chStride.toInt) := by
  rw [Tensor.address, add_assoc (b * _ + _), BitVec.ofInt_add, BitVec.ofInt_add, ← BitVec.add_assoc,
    ← BitVec.add_assoc]

/-- The pointers address the elements of a tensor. -/
def Addresses (p : Ptr) (t : Tensor) (size : Nat) : Prop :=
  ∀ b y x c, t.Has b y x c →
    p.ptr size (.ofInt b) (.ofInt y) (.ofInt x) (.ofInt c) = t.address b y x c

theorem stride_zero (s : Int64) :
    BitVec.ofInt 64 (Int32.ofInt 0 * s.toInt32).toInt = BitVec.ofInt 64 (0 * s.toInt) := by
  rw [toInt_mul_stride, zero_mul]
  rfl

theorem row_zero (t : Tensor) (size : Nat) :
    BitVec.ofInt 64 (Int32.ofInt 0 * t.numChannels.toInt32 + Int32.ofInt 0).toInt *
        BitVec.ofNat 64 size =
      BitVec.ofInt 64 (0 * t.colStride.toInt + 0 * t.chStride.toInt) := by
  rw [toInt_pixel, zero_mul, zero_mul, zero_mul]
  exact BitVec.zero_mul

/-- A summand of an address is right when the others are. -/
theorem addresses_iff (ht : t.Packed) (hsize : 0 < size ∧ size ≤ 8) :
    Addresses (.ofTensor t) t size ↔ ∀ b y x c, t.Has b y x c → t.Fits size := by
  constructor
  · intro h b y x c hhas
    obtain ⟨⟨hb, hb'⟩, ⟨hy, hy'⟩, ⟨hx, hx'⟩, ⟨hc, hc'⟩⟩ := hhas
    have hb0 : (0 : ℤ) ≤ 0 ∧ 0 < t.numSamples.toInt := ⟨le_rfl, by omega⟩
    have hy0 : (0 : ℤ) ≤ 0 ∧ 0 < t.numRows.toInt := ⟨le_rfl, by omega⟩
    have hx0 : (0 : ℤ) ≤ 0 ∧ 0 < t.numCols.toInt := ⟨le_rfl, by omega⟩
    have hc0 : (0 : ℤ) ≤ 0 ∧ 0 < t.numChannels.toInt := ⟨le_rfl, by omega⟩
    have hrow := (row_iff ht hsize hc0.2).1 fun x c hx hx' hc hc' => by
      have heq := h 0 0 x c ⟨hb0, hy0, ⟨hx, hx'⟩, ⟨hc, hc'⟩⟩
      rwa [ptr_ofTensor, address_eq, stride_zero, stride_zero, BitVec.add_right_inj] at heq
    refine ⟨(stride_iff hb0.2).1 fun i hi hi' => ?_, (stride_iff hy0.2).1 fun i hi hi' => ?_,
      hrow.1, hrow.2⟩
    · have heq := h i 0 0 0 ⟨⟨hi, hi'⟩, hy0, hx0, hc0⟩
      rwa [ptr_ofTensor, address_eq, stride_zero, row_zero, BitVec.add_left_inj,
        BitVec.add_left_inj, BitVec.add_right_inj] at heq
    · have heq := h 0 i 0 0 ⟨hb0, ⟨hi, hi'⟩, hx0, hc0⟩
      rwa [ptr_ofTensor, address_eq, stride_zero, row_zero, BitVec.add_left_inj,
        BitVec.add_right_inj] at heq
  · intro h b y x c hhas
    obtain ⟨hsamples, hrows, hrow⟩ := h b y x c hhas
    obtain ⟨⟨hb, hb'⟩, ⟨hy, hy'⟩, ⟨hx, hx'⟩, ⟨hc, hc'⟩⟩ := hhas
    rw [ptr_ofTensor, address_eq, (stride_iff (by omega)).2 hsamples b hb hb',
      (stride_iff (by omega)).2 hrows y hy hy',
      (row_iff ht hsize (by omega)).2 ⟨hrow, ‹_›⟩ x c hx hx' hc hc']

theorem launches_eq {l : Launch} (h : Launches inData outData l) :
    l = launch inData outData := by
  cases h with
  | medianBlur ksize h =>
    unfold medianBlurInfer at h
    split_ifs at h
    exact (Except.ok.inj h).symm
  | pillowResize interpolation h =>
    unfold pillowResizeInfer at h
    split_ifs at h
    exact (Except.ok.inj h).symm

/-- The pointers of an operator address the elements of both its tensors exactly when these have
none, or fit. -/
theorem ptr_iff {l : Launch} (h : Launches inData outData l) (hin : inData.Packed)
    (hout : outData.Packed) :
    Addresses l.src inData l.size ∧ Addresses l.dst outData l.size ↔
      (∀ b y x c, inData.Has b y x c → inData.Fits (dataSize inData.dataType)) ∧
        ∀ b y x c, outData.Has b y x c → outData.Fits (dataSize inData.dataType) := by
  obtain rfl := launches_eq h
  have hsize : 0 < dataSize inData.dataType ∧ dataSize inData.dataType ≤ 8 := by
    cases inData.dataType <;> decide
  exact and_congr (addresses_iff hin hsize) (addresses_iff hout hsize)

/-- Two pixels, one in each sample. -/
def twoPixels (sampleStride : Int64) : Tensor where
  layout := .nhwc
  dataType := .cv8U
  dtypeChannels := 1
  dtypeChannels_pos := Nat.one_pos
  dtypeChannels_le := by decide
  numSamples := 2
  numRows := 1
  numCols := 1
  numChannels := 1
  sampleStride := sampleStride
  rowStride := 1
  colStride := 1
  chStride := 1
  basePtr := 0

theorem twoPixels_packed (sampleStride : Int64) : (twoPixels sampleStride).Packed := ⟨rfl, rfl⟩

theorem twoPixels_launches (sampleStride : Int64) : Launches (twoPixels sampleStride)
    (twoPixels sampleStride) (launch (twoPixels sampleStride) (twoPixels sampleStride)) :=
  .medianBlur (1, 1) rfl

theorem ptr_iff_twoPixels :
    Addresses (launch (twoPixels 1) (twoPixels 1)).src (twoPixels 1)
      (launch (twoPixels 1) (twoPixels 1)).size := by
  have hfits : (twoPixels 1).Fits 1 := ⟨by decide, by decide, by decide, .inr rfl⟩
  exact ((ptr_iff (twoPixels_launches 1) (twoPixels_packed 1) (twoPixels_packed 1)).2
    ⟨fun _ _ _ _ _ => hfits, fun _ _ _ _ _ => hfits⟩).1

/-- The second of two samples of two gigabytes is looked for before the first. -/
theorem large_sample_not_addressed : ¬∀ (inData outData : Tensor) (l : Launch),
    Launches inData outData l → inData.Packed → outData.Packed → Addresses l.src inData l.size := by
  intro h
  have haddr := h (twoPixels (2 ^ 31)) (twoPixels (2 ^ 31)) _ (twoPixels_launches _)
    (twoPixels_packed _) (twoPixels_packed _) 1 0 0 0 ⟨by decide, by decide, by decide, by decide⟩
  exact absurd haddr (by decide +kernel)

end Cvcuda.Ptr2dNHWC
