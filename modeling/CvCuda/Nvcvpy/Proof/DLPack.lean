import CvCuda.Nvcvpy.DLPack
import CvCuda.Nvcv.Proof.Reshape
import CvCuda.Lib.Int64

/-! # Data exported and filled again

Tensor data has strides in bytes and a DLPack tensor in elements. The constructor for tensor data
divides, and both functions that fill data multiply; the constructor for array data does not divide.

* `supported_toDL`: data types of equal channels survive.
* `rewrap_iff`: which data is the same again.
* `wide_array`: floats.
* `not_arrayDataCuda`: nor does `Array::Wrap` take what is filled for arrays.
-/

namespace Nvcvpy

open Nvcv Outcome

/-! ## Data types -/

/-- The packings of equal channels of whole bytes: of so many bits, and so many of them. -/
def equalPacking : (bits n : Nat) → Option Packing
  | 8, 1 => some .X8
  | 8, 2 => some .X8_Y8
  | 8, 3 => some .X8_Y8_Z8
  | 8, 4 => some .X8_Y8_Z8_W8
  | 16, 1 => some .X16
  | 16, 2 => some .X16_Y16
  | 16, 3 => some .X16_Y16_Z16
  | 16, 4 => some .X16_Y16_Z16_W16
  | 32, 1 => some .X32
  | 32, 2 => some .X32_Y32
  | 32, 3 => some .X32_Y32_Z32
  | 32, 4 => some .X32_Y32_Z32_W32
  | 64, 1 => some .X64
  | 64, 2 => some .X64_Y64
  | 64, 3 => some .X64_Y64_Z64
  | 64, 4 => some .X64_Y64_Z64_W64
  | 128, 1 => some .X128
  | 128, 2 => some .X128_Y128
  | _, _ => none

/-- A data type of one to four equal channels of a supported base type. -/
def Supported (dtype : DataType) : Prop :=
  ∃ (t : BaseType) (n : Nat) (p : Packing),
    equalPacking (8 * t.sizeof) n = some p ∧ dtype = .make t.dataKind p

theorem equalPacking_le {bits n : Nat} {p : Packing} (h : equalPacking bits n = some p) :
    n = 1 ∨ n = 2 ∨ n = 3 ∨ n = 4 := by
  unfold equalPacking at h
  split at h
  all_goals first | omega | cases h

/-- The DLPack data type of equal channels. -/
def BaseType.toDL (t : BaseType) (n : Nat) : DLDataType where
  code :=
    match t.dataKind with
    | .unsigned => .uint
    | .signed => .int
    | .float => .float
    | _ => .complex
  bits := .ofNat 8 (8 * t.sizeof)
  lanes := .ofNat 16 n

theorem supported_toDL (t : BaseType) {n : Nat} {p : Packing}
    (h : equalPacking (8 * t.sizeof) n = some p) :
    Returns (toDLDataType (.make t.dataKind p)) (t.toDL n) ∧
      Returns (wrappedDataType (t.toDL n)) (.make t.dataKind p) ∧
      elemStrideBytes (t.toDL n) = (DataType.make t.dataKind p).strideBytes.toInt64 ∧
      (DataType.make t.dataKind p).strideBytes ∈ ([1, 2, 3, 4, 6, 8, 12, 16, 24, 32] : List _) := by
  rcases equalPacking_le h with rfl | rfl | rfl | rfl <;> cases t <;> cases h <;> decide +kernel

theorem stride_cases : ∀ e ∈ ([1, 2, 3, 4, 6, 8, 12, 16, 24, 32] : List Int32),
    e.toInt64 ≠ -1 ∧ (e = 1 ∨ e = 3 ∨ e.toInt64.toInt % 2 = 0) :=
  forall_mem_of_all (by decide)

/-! ## Export, and filling again -/

theorem returns_strideOf {dtype : DataType} {s : Int64} (h : s % dtype.strideBytes.toInt64 = 0) :
    Returns (DLPackTensor.strideOf dtype s) (s / dtype.strideBytes.toInt64) :=
  returns_refuse_bind.2 ⟨not_not_intro h, returns_pure.2 rfl⟩

/-- A DLPack tensor of the device. -/
def onDevice (data : SizeT) (dtype : DLDataType) (shape strides : List Int64) : DLTensor where
  data := data
  deviceType := .cuda
  dtype := dtype
  shape := shape
  strides := strides
  byteOffset := 0

/-- The export of tensor data, its strides in elements. -/
theorem returns_ofTensorData {t : TensorData} {d : DLDataType}
    (hd : Returns (toDLDataType t.dtype) d)
    (hs : ∀ s ∈ t.strides.toList.take t.rank, s % t.dtype.strideBytes.toInt64 = 0) :
    Returns (DLPackTensor.ofTensorData t) (onDevice t.basePtr d (t.shape.toList.take t.rank)
      ((t.strides.toList.take t.rank).map (· / t.dtype.strideBytes.toInt64))) := by
  refine returns_bind.2 ⟨d, hd, returns_bind.2 ⟨_, ?_, returns_pure.2 rfl⟩⟩
  exact returns_mapM fun s hmem => returns_strideOf (hs s hmem)

theorem take_overwrite (a : Vector Int64 tensorMaxRank) {xs : List Int64}
    (h : xs.length ≤ tensorMaxRank) : (overwrite a xs).toList.take xs.length = xs := by
  rw [toList_overwrite a h, List.take_left' rfl]

/-- What is filled from a tensor of the device with as many strides as dimensions. -/
theorem returns_fillNVCVTensorData {data : SizeT} {d : DLDataType} {dtype : DataType}
    {shape strides : List Int64} (layout : Option TensorLayout)
    (hd : Returns (wrappedDataType d) dtype) (h0 : shape.length ≠ 0)
    (hmax : shape.length ≤ tensorMaxRank) (hstrides : strides.length = shape.length) :
    ∃ t, Returns (fillNVCVTensorData (onDevice data d shape strides) layout) t ∧
      t.dtype = dtype ∧ t.rank = shape.length ∧ t.basePtr = data ∧
      t.dims = shape.zip (strides.map (· * elemStrideBytes d)) := by
  refine ⟨{
      dtype
      layout := layout.getD ⟨Vector.replicate _ 0, 0⟩
      rank := shape.length
      rank_le := hmax
      shape := overwrite (Vector.replicate _ 0) shape
      strides := overwrite (Vector.replicate _ 0) (strides.map (· * elemStrideBytes d))
      basePtr := data + 0 },
    returns_bind.2 ⟨dtype, hd, ?_⟩, rfl, rfl, BitVec.add_zero _, ?_⟩
  · have hrank : ¬(onDevice data d shape strides).shape.length = 0 := h0
    simp only [if_neg hrank]
    rw [dif_pos (show (onDevice data d shape strides).shape.length ≤ tensorMaxRank from hmax)]
    exact returns_refuse_bind.2 ⟨Bool.false_ne_true, returns_pure.2 rfl⟩
  · have hlen : (strides.map (· * elemStrideBytes d)).length = shape.length := by
      rw [List.length_map, hstrides]
    have hstride := take_overwrite (Vector.replicate _ 0) (hlen.trans_le hmax)
    rw [hlen] at hstride
    exact congrArg₂ List.zip (take_overwrite _ hmax) hstride

theorem returns_ofArrayData {a : ArrayData} {d : DLDataType} {tensor : DLTensor}
    (hd : Returns (toDLDataType a.dtype) d) :
    Returns (DLPackTensor.ofArrayData a) tensor ↔
      a.isCuda = true ∧ tensor = onDevice a.basePtr d [a.capacity] [a.stride] := by
  constructor
  · intro h
    obtain ⟨hcuda, h⟩ := returns_refuse_bind.1 h
    obtain ⟨d', hd', h⟩ := returns_bind.1 h
    rw [hd'.unique hd] at h
    exact ⟨by simpa using hcuda, (returns_pure.1 h).symm⟩
  · rintro ⟨hcuda, rfl⟩
    refine returns_refuse_bind.2 ⟨by simp [hcuda], ?_⟩
    exact returns_bind.2 ⟨d, hd, returns_pure.2 rfl⟩

/-- What is filled from a tensor of one dimension. -/
theorem returns_fillNVCVArrayData (data : SizeT) {d : DLDataType} {dtype : DataType}
    (capacity stride : Int64) (hd : Returns (wrappedDataType d) dtype) :
    Returns (fillNVCVArrayData (onDevice data d [capacity] [stride])) {
      dtype
      length := capacity
      capacity
      bufferType := .host
      stride := stride * elemStrideBytes d
      basePtr := data + 0 } := by
  refine returns_bind.2 ⟨dtype, hd, returns_refuse_bind.2 ⟨by simp [onDevice], ?_⟩⟩
  refine returns_bind.2 ⟨capacity, returns_lift.2 rfl, ?_⟩
  exact returns_refuse_bind.2 ⟨Bool.false_ne_true, returns_pure.2 rfl⟩

theorem isCuda_of_host {a : ArrayData} (h : a.bufferType = .host) : a.isCuda = false := by
  unfold ArrayData.isCuda
  rw [h]
  decide

/-- `ArrayDataCuda` refuses whatever is filled. -/
theorem not_arrayDataCuda {tensor : DLTensor} {a b : ArrayData}
    (h : Returns (fillNVCVArrayData tensor) a) : ¬Returns (arrayDataCuda a) b := by
  intro hb
  obtain ⟨_, _, h⟩ := returns_bind.1 h
  obtain ⟨_, h⟩ := returns_refuse_bind.1 h
  obtain ⟨_, _, h⟩ := returns_bind.1 h
  obtain ⟨_, h⟩ := returns_refuse_bind.1 h
  obtain rfl := returns_pure.1 h
  exact (returns_refuse_bind.1 hb).1 (by rw [isCuda_of_host rfl]; rfl)

/-- What `cuda()` exports. -/
inductive Exported where
  | tensor (t : TensorData)
  | array (a : ArrayData)

/-- A supported data type, and strides in whole elements. -/
def Exported.WellFormed : Exported → Prop
  | .tensor t => 1 ≤ t.rank ∧ Supported t.dtype ∧
      ∀ s ∈ t.strides.toList.take t.rank, s % t.dtype.strideBytes.toInt64 = 0
  | .array a => Supported a.dtype ∧ a.stride % a.dtype.strideBytes.toInt64 = 0

/-- Data is exported, and what is filled from the export denotes the same memory. -/
def Exported.SameMemory (layout : Option TensorLayout) : Exported → Prop
  | .tensor t => ∃ t', Returns (do fillNVCVTensorData (← DLPackTensor.ofTensorData t) layout) t' ∧
      t'.basePtr = t.basePtr ∧ t'.rank = t.rank ∧ t'.dims = t.dims ∧ t'.dtype = t.dtype
  | .array a => ∃ a', Returns (do fillNVCVArrayData (← DLPackTensor.ofArrayData a)) a' ∧
      a'.basePtr = a.basePtr ∧ a'.capacity = a.capacity ∧ a'.stride = a.stride ∧
      a'.dtype = a.dtype

/-- Tensor data, and array data of the device whose stride is the same in bytes and elements. -/
def Exported.Kept : Exported → Prop
  | .tensor _ => True
  | .array a => a.isCuda = true ∧ (a.dtype.strideBytes = 1 ∨ a.stride = 0)

theorem tensor_sameMemory {t : TensorData} (layout : Option TensorLayout)
    (h : (Exported.tensor t).WellFormed) : (Exported.tensor t).SameMemory layout := by
  obtain ⟨hrank, ⟨b, n, p, hp, hdtype⟩, hs⟩ := h
  obtain ⟨hto, hwrap, helem, hmem⟩ := supported_toDL b hp
  rw [← hdtype] at hto hwrap helem hmem
  have hshape : (t.shape.toList.take t.rank).length = t.rank := by
    rw [List.length_take, Vector.length_toList, min_eq_left t.rank_le]
  have hstrides : (t.strides.toList.take t.rank).length = t.rank := by
    rw [List.length_take, Vector.length_toList, min_eq_left t.rank_le]
  obtain ⟨t', hret, hd', hr', hp', hdims⟩ := returns_fillNVCVTensorData layout hwrap
    (by omega : (t.shape.toList.take t.rank).length ≠ 0) (hshape.trans_le t.rank_le)
    (((List.length_map _).trans hstrides).trans hshape.symm)
  refine ⟨t', returns_bind.2 ⟨_, returns_ofTensorData hto hs, hret⟩, hp', hr'.trans hshape, ?_,
    hd'⟩
  -- dividing by the element size and multiplying again
  have hback : (t.strides.toList.take t.rank).map
      (fun s => s / t.dtype.strideBytes.toInt64 * t.dtype.strideBytes.toInt64) =
      t.strides.toList.take t.rank :=
    (List.map_congr_left fun s hs' =>
      Int64.div_mul_cancel_of_mod (stride_cases _ hmem).1 (hs s hs')).trans (List.map_id' _)
  rw [hdims, List.map_map, helem]
  exact congrArg _ hback

theorem mul_elem_eq_self_iff {s : Int64} {e : Int32}
    (he : e ∈ ([1, 2, 3, 4, 6, 8, 12, 16, 24, 32] : List Int32)) (h : s % e.toInt64 = 0) :
    s * e.toInt64 = s ↔ e = 1 ∨ s = 0 := by
  obtain ⟨-, rfl | rfl | heven⟩ := stride_cases e he
  · exact iff_of_true (Int64.mul_one s) (.inl rfl)
  · rw [or_iff_right (by decide)]
    exact Int64.mul_three_eq_self_iff h
  · rw [Int64.mul_eq_self_iff_of_even heven, or_iff_right]
    rintro rfl
    exact absurd heven (by decide)

theorem array_sameMemory_iff {a : ArrayData} (layout : Option TensorLayout)
    (h : (Exported.array a).WellFormed) :
    (Exported.array a).SameMemory layout ↔ (Exported.array a).Kept := by
  obtain ⟨⟨b, n, p, hp, hdtype⟩, hs⟩ := h
  obtain ⟨hto, hwrap, helem, hmem⟩ := supported_toDL b hp
  rw [← hdtype] at hto hwrap helem hmem
  have hfill := returns_fillNVCVArrayData a.basePtr a.capacity a.stride hwrap
  constructor
  · rintro ⟨a', hret, -, -, hstride, -⟩
    obtain ⟨tensor, hof, hret⟩ := returns_bind.1 hret
    obtain ⟨hcuda, rfl⟩ := (returns_ofArrayData hto).1 hof
    rw [hret.unique hfill] at hstride
    rw [helem] at hstride
    exact ⟨hcuda, (mul_elem_eq_self_iff hmem hs).1 hstride⟩
  · rintro ⟨hcuda, hkept⟩
    refine ⟨_, returns_bind.2 ⟨_, (returns_ofArrayData hto).2 ⟨hcuda, rfl⟩, hfill⟩, ?_, rfl, ?_,
      rfl⟩
    · exact BitVec.add_zero _
    · exact helem ▸ (mul_elem_eq_self_iff hmem hs).2 hkept

/-- Data is the same memory again exactly when no array of wider elements was exported. -/
theorem rewrap_iff (x : Exported) (layout : Option TensorLayout) (h : x.WellFormed) :
    x.SameMemory layout ↔ x.Kept := by
  cases x with
  | tensor t => exact iff_of_true (tensor_sameMemory layout h) trivial
  | array a => exact array_sameMemory_iff layout h

/-- 8 floats, 4 bytes apart. -/
def floats : ArrayData where
  dtype := .make .float .X32
  length := 8
  capacity := 8
  bufferType := .cuda
  stride := 4
  basePtr := 0x1000

theorem floats_wellFormed : (Exported.array floats).WellFormed :=
  ⟨⟨.float, 1, .X32, rfl, rfl⟩, by decide +kernel⟩

/-- 8 bytes, one apart. -/
def bytes : ArrayData := { floats with dtype := .make .unsigned .X8, stride := 1 }

theorem bytes_wellFormed : (Exported.array bytes).WellFormed :=
  ⟨⟨.uint8, 1, .X8, rfl, rfl⟩, by decide +kernel⟩

/-- Bytes come back as they were. -/
theorem rewrap_bytes : (Exported.array bytes).SameMemory none :=
  (rewrap_iff (.array bytes) none bytes_wellFormed).2 ⟨by decide, .inl (by decide +kernel)⟩

/-- The floats come back 16 bytes apart. -/
theorem wide_array :
    ¬∀ (x : Exported) (layout : Option TensorLayout), x.WellFormed → x.SameMemory layout := by
  intro h
  have hkept := (array_sameMemory_iff none floats_wellFormed).1 (h _ none floats_wellFormed)
  obtain ⟨-, hstride | hstride⟩ := hkept
  · exact absurd hstride (by decide +kernel)
  · exact absurd hstride (by decide)

end Nvcvpy
