import CvCuda.Nvcvpy.ExternalBuffer
import CvCuda.Nvcvpy.Proof.DLPack

/-! # What is imported has the addresses of its source

* `Source.Describes`: the address and the byte strides that an interface gives a buffer.
* `cudaArrayInterface_resolves`, `dlpack_resolves`: what is filled has them.
* `Source.Faulty`: the objects that are read wrongly; `import_iff`: these are all.
-/

namespace Nvcvpy

open Nvcv Outcome

/-! ## Addresses -/

/-- The address of the element with an index, by strides in bytes. -/
def address (base : SizeT) (strides i : List Int) : SizeT :=
  base + BitVec.ofInt 64 (List.zipWith (· * ·) i strides).sum

/-- The strides in bytes of what is filled. -/
def byteStrides (t : TensorData) : List Int := (t.strides.toList.take t.rank).map Int64.toInt

/-- Addresses are the same when strides are up to `2 ^ 64`. -/
theorem address_congr {base : SizeT} {strides strides' : List Int}
    (h : strides.map (BitVec.ofInt 64) = strides'.map (BitVec.ofInt 64)) (i : List Int) :
    address base strides i = address base strides' i := by
  unfold address
  congr 1
  induction i generalizing strides strides' with
  | nil => rfl
  | cons n i ih =>
    cases strides with
    | nil => rw [List.map_eq_nil_iff.1 h.symm]
    | cons s strides =>
      cases strides' with
      | nil => cases h
      | cons s' strides' =>
        obtain ⟨hs, hrest⟩ := List.cons.inj h
        rw [List.zipWith_cons_cons, List.zipWith_cons_cons, List.sum_cons, List.sum_cons,
          BitVec.ofInt_add, BitVec.ofInt_add, BitVec.ofInt_mul, BitVec.ofInt_mul, hs, ih hrest]

/-- The strides in bytes of packed rows. -/
def rowMajor (elem : Int) : List Int64 → List Int
  | [] => []
  | _ :: ns => (ns.map Int64.toInt).prod * elem :: rowMajor elem ns

theorem ofInt_toInt (s : Int64) : BitVec.ofInt 64 s.toInt = s.toBitVec := BitVec.ofInt_toInt

theorem ofInt_toInt_mul (s e : Int64) :
    BitVec.ofInt 64 (s * e).toInt = BitVec.ofInt 64 (s.toInt * e.toInt) := by
  rw [ofInt_toInt, BitVec.ofInt_mul, ofInt_toInt, ofInt_toInt, Int64.toBitVec_mul]

/-- The recurrence comes to the products of the following extents. -/
theorem packedStrides_spec (elem : Int) {shape strides : List Int64}
    (h : packedStrides shape = some strides) :
    strides.length = shape.length ∧
      strides.map (fun s => BitVec.ofInt 64 (s.toInt * elem)) =
        (rowMajor elem shape).map (BitVec.ofInt 64) := by
  suffices strides.length = shape.length ∧
      strides.head?.map Int64.toBitVec =
        shape.tail?.map (fun ns => BitVec.ofInt 64 (ns.map Int64.toInt).prod) ∧
      strides.map (fun s => BitVec.ofInt 64 (s.toInt * elem)) =
        (rowMajor elem shape).map (BitVec.ofInt 64) from ⟨this.1, this.2.2⟩
  induction shape generalizing strides with
  | nil => cases h
  | cons m shape ih =>
    cases shape with
    | nil =>
      obtain rfl := Option.some.inj h
      exact ⟨rfl, rfl, rfl⟩
    | cons n ns =>
      obtain ⟨rest, hrest, h⟩ := Option.bind_eq_some_iff.1 h
      obtain ⟨s, hs, h⟩ := Option.bind_eq_some_iff.1 h
      obtain rfl := Option.some.inj h
      obtain ⟨hlen, hhead, hmap⟩ := ih hrest
      rw [hs] at hhead
      have hprod : (s * n).toBitVec = BitVec.ofInt 64 ((n :: ns).map Int64.toInt).prod := by
        rw [List.map_cons, List.prod_cons, mul_comm n.toInt, BitVec.ofInt_mul, ofInt_toInt,
          Int64.toBitVec_mul]
        exact congrArg (· * n.toBitVec) (Option.some.inj hhead)
      refine ⟨?_, congrArg some hprod, ?_⟩
      · rw [List.length_cons, List.length_cons, hlen]
      · rw [List.map_cons, rowMajor, List.map_cons, hmap, BitVec.ofInt_mul, BitVec.ofInt_mul,
          ofInt_toInt, hprod]

/-! ## Data types -/

/-- A dtype whose elements, if the module supports their type, are from 1 to 4. -/
def NumpyDType.FourChannels : NumpyDType → Prop
  | .supported dt => 1 ≤ dt.shape.getD 1 ∧ dt.shape.getD 1 ≤ 4
  | .other _ => True

theorem findDataType_getD (dt : DType) :
    findDataType dt = findDataType ⟨dt.base, some (dt.shape.getD 1)⟩ := rfl

theorem defined_dlDataType {dt : NumpyDType} : Defined (dlDataType dt) ↔ dt.FourChannels := by
  cases dt with
  | other itemsize => exact iff_of_true defined_pure trivial
  | supported dt =>
    rw [dlDataType, findDataType_getD, NumpyDType.FourChannels]
    generalize dt.shape.getD 1 = n
    rcases (by omega : n = 0 ∨ n = 1 ∨ n = 2 ∨ n = 3 ∨ n = 4 ∨ 5 ≤ n) with
      rfl | rfl | rfl | rfl | rfl | hn
    · exact iff_of_false (fun h => h rfl) (by omega)
    · exact iff_of_true (by cases dt.base <;> decide +kernel) (by omega)
    · exact iff_of_true (by cases dt.base <;> decide +kernel) (by omega)
    · exact iff_of_true (by cases dt.base <;> decide +kernel) (by omega)
    · exact iff_of_true (by cases dt.base <;> decide +kernel) (by omega)
    · obtain ⟨k, rfl⟩ := Nat.exists_eq_add_of_le' hn
      exact iff_of_false (fun h => h rfl) (by omega)

/-- The data type of one to four elements of a base type, where there is one. -/
theorem dlDataType_supported (t : BaseType) {n : Nat} (hn : 1 ≤ n ∧ n ≤ 4) :
    (∃ d, Returns (dlDataType (.supported ⟨t, some n⟩)) d ∧ True) →
      Returns (dlDataType (.supported ⟨t, some n⟩)) (t.toDL n) ∧
      elemStrideBytes (t.toDL n) = .ofNat (t.sizeof * n) ∧
      Int64.ofNat (t.sizeof * n) ≠ -1 ∧ Int64.ofNat (t.sizeof * n) ≠ 0 := by
  rcases (by omega : n = 1 ∨ n = 2 ∨ n = 3 ∨ n = 4) with rfl | rfl | rfl | rfl <;>
    cases t <;> decide +kernel

theorem not_returns_wrapped_zero {dtype : DataType} :
    ¬Returns (wrappedDataType .zero) dtype := not_returns_throw

/-- `numpy` and DLPack agree on the size of an element that is loaded. -/
theorem elemStrideBytes_of_returns {dt : NumpyDType} {d : DLDataType} {dtype : DataType}
    (h : Returns (dlDataType dt) d) (hd : Returns (wrappedDataType d) dtype) :
    elemStrideBytes d = dt.itemsize ∧ dt.itemsize ≠ -1 ∧ dt.itemsize ≠ 0 := by
  cases dt with
  | other itemsize =>
    obtain rfl := returns_pure.1 h
    exact absurd hd not_returns_wrapped_zero
  | supported dt =>
    have hfour : NumpyDType.FourChannels (.supported dt) := defined_dlDataType.1 h.defined
    obtain ⟨hdl, hitem⟩ := dlDataType_supported dt.base hfour ⟨d, h, trivial⟩
    obtain rfl := h.unique hdl
    exact hitem

theorem defined_packingOf (params : Swizzle × Vector Int 4) : Defined (packingOf params) := by
  unfold packingOf
  split
  · exact defined_pure
  · exact defined_throw

theorem numChannels_le (dtype : DataType) : dtype.numChannels ≤ 4 := by
  unfold DataType.numChannels ImageFormat.planeNumChannels Packing.numChannelsOf
  split_ifs
  · decide
  · decide
  · have hlt := Bitfield.toNat_get_lt (ImageFormat.planePacking dtype 0) 4 2
    omega

theorem fourChannels_of_toDType {dtype : DataType} {dt : DType} (h : toDType dtype = some dt) :
    (NumpyDType.supported dt).FourChannels := by
  obtain ⟨t, -, ht⟩ := List.exists_of_findSome?_eq_some h
  unfold findDType at ht
  split_ifs at ht with _ _ hn
  · obtain rfl := Option.some.inj ht
    exact ⟨hn.le, numChannels_le dtype⟩
  · obtain rfl := Option.some.inj ht
    exact ⟨le_rfl, Nat.one_le_ofNat⟩

theorem defined_findDataType {dt : DType} (h : (NumpyDType.supported dt).FourChannels) :
    Defined (findDataType dt) :=
  (defined_bind.1 (defined_dlDataType.2 h)).1

theorem defined_wrappedDataType (d : DLDataType) : Defined (wrappedDataType d) := by
  refine defined_bind.2 ⟨?_, fun dtype _ => ?_⟩
  · unfold toNVCVDataType
    split
    · exact defined_throw
    · refine defined_bind.2 ⟨defined_packingOf _, fun packing _ => ?_⟩
      split
      all_goals first | exact defined_pure | exact defined_throw
  · cases h : toDType dtype with
    | none => exact defined_throw
    | some dt => exact defined_findDataType (fourChannels_of_toDType h)

/-! ## Filling -/

theorem returns_castOf {α : Type} {x : Cast α} {a : α} : Returns (castOf x) a ↔ x = .ok a :=
  returns_ofExcept

theorem defined_castOf {α : Type} {x : Cast α} : Defined (castOf x) := defined_ofExcept

/-- A tensor that can be filled from, as long as its strides can be read. -/
structure Fillable (t : ExternalTensor) : Prop where
  dtype : ∃ dtype, Returns (wrappedDataType t.dtype) dtype
  rank : t.shape.length ≤ tensorMaxRank
  device : isCudaAccessible t.deviceType = true

/-- The rank of what is filled. -/
def rankOf (shape : List Int64) : Nat := if shape.length = 0 then 1 else shape.length

/-- What is filled from a DLPack tensor. -/
def filled (tensor : DLTensor) (layout : Option TensorLayout) (dtype : DataType)
    (h : rankOf tensor.shape ≤ tensorMaxRank) : TensorData where
  dtype := dtype
  layout := layout.getD ⟨Vector.replicate _ 0, 0⟩
  rank := rankOf tensor.shape
  rank_le := h
  shape := overwrite (Vector.replicate _ 0) tensor.shape
  strides := overwrite (Vector.replicate _ 0)
    (tensor.strides.map (· * elemStrideBytes tensor.dtype))
  basePtr := tensor.data + tensor.byteOffset

theorem fillNVCVTensorData_eq (tensor : DLTensor) (layout : Option TensorLayout) :
    fillNVCVTensorData tensor layout = (do
      let dtype ← wrappedDataType tensor.dtype
      if h : rankOf tensor.shape ≤ tensorMaxRank then
        refuse (!isCudaAccessible tensor.deviceType)
          (.std (.runtimeError "Only CUDA-accessible tensors are supported for now"))
        return filled tensor layout dtype h
      else throw (.std (.invalidArgument
        s!"Number of dimensions must be between 1 and {tensorMaxRank}, not {rankOf tensor.shape}"))) :=
  rfl

theorem returns_fill_iff {tensor : DLTensor} {layout : Option TensorLayout} {data : TensorData} :
    Returns (fillNVCVTensorData tensor layout) data ↔
      ∃ dtype, Returns (wrappedDataType tensor.dtype) dtype ∧
        ∃ h : rankOf tensor.shape ≤ tensorMaxRank,
          isCudaAccessible tensor.deviceType = true ∧ filled tensor layout dtype h = data := by
  rw [fillNVCVTensorData_eq, returns_bind]
  refine exists_congr fun dtype => and_congr_right fun _ => ?_
  by_cases hrank : rankOf tensor.shape ≤ tensorMaxRank
  · rw [dif_pos hrank, returns_refuse_bind, returns_pure, Bool.not_eq_true', Bool.not_eq_false]
    exact ⟨fun h => ⟨hrank, h⟩, fun ⟨_, h⟩ => h⟩
  · rw [dif_neg hrank]
    exact iff_of_false not_returns_throw fun ⟨h, _⟩ => hrank h

theorem defined_fillNVCVTensorData (tensor : DLTensor) (layout : Option TensorLayout) :
    Defined (fillNVCVTensorData tensor layout) := by
  rw [fillNVCVTensorData_eq]
  refine defined_bind.2 ⟨defined_wrappedDataType _, fun dtype _ => ?_⟩
  split_ifs
  · exact defined_refuse_bind.2 fun _ => defined_pure
  · exact defined_throw

theorem rankOf_le_iff {shape : List Int64} (h : shape ≠ []) :
    rankOf shape ≤ tensorMaxRank ↔ shape.length ≤ tensorMaxRank := by
  rw [rankOf, if_neg (mt List.length_eq_zero_iff.1 h)]

/-- Null strides are read if nothing throws before. -/
theorem defined_fill {t : ExternalTensor} {layout : Option TensorLayout} :
    Defined (t.fill layout) ↔ ¬(t.strides = none ∧ t.shape ≠ [] ∧ Fillable t) := by
  rw [ExternalTensor.fill, defined_bind, and_iff_right (defined_fillNVCVTensorData _ _)]
  by_cases hnull : t.strides = none ∧ t.shape ≠ []
  · simp only [if_pos hnull]
    constructor
    · rintro h ⟨-, -, ⟨dtype, hdtype⟩, hrank, hdevice⟩
      exact h _ (returns_fill_iff.2
        ⟨dtype, hdtype, (rankOf_le_iff hnull.2).2 hrank, hdevice, rfl⟩) rfl
    · intro h data hdata
      obtain ⟨dtype, hdtype, hrank, hdevice, -⟩ := returns_fill_iff.1 hdata
      exact absurd ⟨hnull.1, hnull.2, ⟨dtype, hdtype⟩, (rankOf_le_iff hnull.2).1 hrank, hdevice⟩ h
  · simp only [if_neg hnull]
    exact iff_of_true (fun _ _ => defined_pure) fun h => hnull ⟨h.1, h.2.1⟩

/-- What is filled where the strides are not read when they are null. -/
theorem returns_fill {t : ExternalTensor} {layout : Option TensorLayout} {data : TensorData}
    (h : Returns (t.fill layout) data) : ∃ strides dtype hrank,
      (t.strides = some strides ∨ strides = [] ∧ t.shape = []) ∧
        Returns (wrappedDataType t.dtype) dtype ∧
        data = filled ⟨t.data, t.deviceType, t.dtype, t.shape, strides, t.byteOffset⟩ layout dtype
          hrank := by
  obtain ⟨data', hdata, h⟩ := returns_bind.1 h
  split_ifs at h with hnull
  · exact absurd h.defined not_defined_none
  · obtain rfl := returns_pure.1 h
    obtain ⟨dtype, hdtype, hrank, -, rfl⟩ := returns_fill_iff.1 hdata
    refine ⟨t.strides.getD [], dtype, hrank, ?_, hdtype, rfl⟩
    cases hstrides : t.strides with
    | none => exact .inr ⟨rfl, not_not.1 fun hshape => hnull ⟨hstrides, hshape⟩⟩
    | some strides => exact .inl rfl

/-- The strides and the shape of what is filled. -/
theorem filled_spec {tensor : DLTensor} {layout : Option TensorLayout} {dtype : DataType}
    {h : rankOf tensor.shape ≤ tensorMaxRank} (hlen : tensor.strides.length = tensor.shape.length)
    (hne : tensor.shape ≠ []) :
    (filled tensor layout dtype h).rank = tensor.shape.length ∧
      (filled tensor layout dtype h).shape.toList.take tensor.shape.length = tensor.shape ∧
      byteStrides (filled tensor layout dtype h) =
        tensor.strides.map fun s => (s * elemStrideBytes tensor.dtype).toInt := by
  have hrank : rankOf tensor.shape = tensor.shape.length :=
    if_neg (mt List.length_eq_zero_iff.1 hne)
  have hlen' : (tensor.strides.map (· * elemStrideBytes tensor.dtype)).length =
      tensor.shape.length := by rw [List.length_map, hlen]
  refine ⟨hrank, take_overwrite _ (hrank ▸ h), ?_⟩
  have htake := take_overwrite (Vector.replicate _ 0) (hlen'.trans_le (hrank ▸ h))
  rw [hlen', ← hrank] at htake
  exact (congrArg (List.map Int64.toInt) htake).trans List.map_map

/-! ## Sources -/

/-- The address, the shape and the strides in bytes that an interface gives a buffer. -/
inductive Source.Describes : Source → SizeT → List Int64 → List Int → Prop where
  | strided {iface : CudaArrayInterface} {ptr : SizeT} {shape strides : List Int64}
      {rest : List (Cast Int64)} (data : iface.data = some (.ok ptr))
      (shape_eq : iface.shape = some (.ok (shape.map .ok)))
      (strides_eq : iface.strides = some (.ok (strides.map .ok ++ rest)))
      (length : strides.length = shape.length) :
      Describes (.cudaArrayInterface (.ok iface)) ptr shape (strides.map Int64.toInt)
  | packed {iface : CudaArrayInterface} {ptr : SizeT} {shape : List Int64} {dt : NumpyDType}
      (data : iface.data = some (.ok ptr)) (typestr : iface.typestr = some (.ok dt))
      (shape_eq : iface.shape = some (.ok (shape.map .ok))) (strides_eq : iface.strides = none) :
      Describes (.cudaArrayInterface (.ok iface)) ptr shape (rowMajor dt.itemsize.toInt shape)
  | dlpack {device : Option (Cast DLDeviceType)} {t : {t : ExternalTensor // t.Formed}}
      {strides : List Int64} (strides_eq : t.1.strides = some strides) :
      Describes (.dlpack device (.ok (some t))) (t.1.data + t.1.byteOffset) t.1.shape
        (strides.map fun s => s.toInt * (elemStrideBytes t.1.dtype).toInt)
  | dlpackPacked {device : Option (Cast DLDeviceType)} {t : {t : ExternalTensor // t.Formed}}
      (strides_eq : t.1.strides = none) :
      Describes (.dlpack device (.ok (some t))) (t.1.data + t.1.byteOffset) t.1.shape
        (rowMajor (elemStrideBytes t.1.dtype).toInt t.1.shape)

/-- The elements have their addresses in tensor data, which has the shape of the buffer, unless
that has no dimensions. -/
def Source.Resolves (src : Source) (t : TensorData) : Prop :=
  ∃ base shape strides, src.Describes base shape strides ∧
    (shape ≠ [] → t.rank = shape.length ∧ t.shape.toList.take t.rank = shape) ∧
    ∀ i : List Int, i.length = shape.length →
      address t.basePtr (byteStrides t) i = address base strides i

/-- A dictionary that is read up to its data type. -/
structure CudaArrayInterface.Opens (registered : SizeT → Bool) (iface : CudaArrayInterface)
    (ptr : SizeT) (dt : NumpyDType) : Prop where
  shape : iface.shape ≠ none
  version : ∃ version, iface.version = some (.ok version) ∧ 2 ≤ version
  data : iface.data = some (.ok ptr)
  valid : ptr ≠ 0 ∧ registered ptr = true
  typestr : iface.typestr = some (.ok dt)

/-- A dictionary that is read up to its strides. -/
structure CudaArrayInterface.Reads (registered : SizeT → Bool) (iface : CudaArrayInterface)
    (ptr : SizeT) (dt : NumpyDType) (dtype : DLDataType) (shape : List Int64) : Prop where
  opens : iface.Opens registered ptr dt
  dtype : Returns (dlDataType dt) dtype
  shape : iface.shape = some (.ok (shape.map .ok))

/-- The objects that are read wrongly. -/
inductive Source.Faulty (registered : SizeT → Bool) : Source → Prop where
  | channels {iface : CudaArrayInterface} {ptr : SizeT} {dt : NumpyDType}
      (opens : iface.Opens registered ptr dt) (not : ¬dt.FourChannels) :
      Faulty registered (.cudaArrayInterface (.ok iface))
  | noDimensions {iface : CudaArrayInterface} {ptr : SizeT} {dt : NumpyDType} {dtype : DLDataType}
      (reads : iface.Reads registered ptr dt dtype []) (strides : iface.strides = none) :
      Faulty registered (.cudaArrayInterface (.ok iface))
  | itemsize {iface : CudaArrayInterface} {ptr : SizeT} {dt : NumpyDType} {dtype : DLDataType}
      {shape : List Int64} {s : Int64} {rest : List (Cast Int64)}
      (reads : iface.Reads registered ptr dt dtype shape) (ne : shape ≠ [])
      (strides : iface.strides = some (.ok (.ok s :: rest))) (zero : dt.itemsize = 0) :
      Faulty registered (.cudaArrayInterface (.ok iface))
  | nullStrides {device : Option (Cast DLDeviceType)} {t : {t : ExternalTensor // t.Formed}}
      (accessible : ∀ d, device = some d → ∃ devType, d = .ok devType ∧ isCudaAccessible devType)
      (strides : t.1.strides = none) (ne : t.1.shape ≠ []) (fillable : Fillable t.1) :
      Faulty registered (.dlpack device (.ok (some t)))

/-! ## Loading -/

theorem returns_mapM_castOf {xs : List (Cast Int64)} {ys : List Int64} :
    Returns (xs.mapM castOf) ys ↔ xs = ys.map .ok := by
  induction xs generalizing ys with
  | nil =>
    rw [List.mapM_nil, returns_pure, eq_comm, eq_comm (a := []), List.map_eq_nil_iff]
  | cons x xs ih =>
    rw [List.mapM_cons, returns_bind]
    simp only [returns_bind, returns_castOf, ih, returns_pure]
    constructor
    · rintro ⟨y, rfl, ys', rfl, rfl⟩
      rfl
    · intro h
      cases ys with
      | nil => cases h
      | cons y ys =>
        obtain ⟨hx, hxs⟩ := List.cons.inj h
        exact ⟨y, hx, ys, hxs, rfl⟩

theorem returns_elementStride {itemsize s : Int64} {strides : List (Cast Int64)} {i : Nat}
    (h : Returns (elementStride itemsize strides i) s) :
    ∃ stride, strides[i]? = some (.ok stride) ∧ stride % itemsize = 0 ∧ s = stride / itemsize := by
  obtain ⟨stride, hget, h⟩ := returns_bind.1 h
  split_ifs at h with hzero
  · exact absurd h.defined not_defined_none
  obtain ⟨hmod, h⟩ := returns_refuse_bind.1 h
  refine ⟨stride, ?_, not_not.1 hmod, (returns_pure.1 h).symm⟩
  have hok := returns_castOf.1 hget
  rw [List.getD_eq_getElem?_getD] at hok
  cases hi : strides[i]? with
  | none =>
    rw [hi] at hok
    cases hok
  | some x =>
    rw [hi] at hok
    exact congrArg some hok

/-- The strides that are given, which come first in their tuple, are divided. -/
theorem returns_strides {itemsize : Int64} {strides : List (Cast Int64)} {n : Nat}
    {out : List Int64} (h : Returns ((List.range n).mapM (elementStride itemsize strides)) out) :
    ∃ (given : List Int64) (rest : _), strides = given.map .ok ++ rest ∧ given.length = n ∧
      (∀ s ∈ given, s % itemsize = 0) ∧ out = given.map (· / itemsize) := by
  induction n generalizing out with
  | zero =>
    obtain rfl := returns_pure.1 h
    exact ⟨[], strides, rfl, rfl, fun _ h => absurd h List.not_mem_nil, rfl⟩
  | succ n ih =>
    rw [List.range_succ, List.mapM_append] at h
    obtain ⟨out', hout, h⟩ := returns_bind.1 h
    obtain ⟨last, hlast, h⟩ := returns_bind.1 h
    obtain rfl := returns_pure.1 h
    rw [List.mapM_cons] at hlast
    obtain ⟨s, hs, hlast⟩ := returns_bind.1 hlast
    obtain rfl := returns_pure.1 hlast
    obtain ⟨given, rest, rfl, hlen, hmod, rfl⟩ := ih hout
    obtain ⟨stride, hget, hstride, rfl⟩ := returns_elementStride hs
    rw [List.getElem?_append_right (by rw [List.length_map, hlen]), List.length_map, hlen,
      Nat.sub_self] at hget
    cases rest with
    | nil => cases hget
    | cons x rest =>
      obtain rfl : x = .ok stride := Option.some.inj hget
      refine ⟨given ++ [stride], rest, ?_, ?_, ?_, ?_⟩
      · rw [List.map_append, List.append_assoc]
        rfl
      · rw [List.length_append, hlen]
        rfl
      · intro s hs
        rcases List.mem_append.1 hs with hs | hs
        · exact hmod s hs
        · rwa [List.mem_singleton.1 hs]
      · rw [List.map_append]
        rfl

section Load
variable {registered : SizeT → Bool} {layout : Option TensorLayout} {iface : CudaArrayInterface}
  {ptr : SizeT} {dt : NumpyDType} {dtype : DLDataType} {shape : List Int64}

theorem returns_checkValidCUDABuffer :
    Returns (checkValidCUDABuffer registered ptr) () ↔ ptr ≠ 0 ∧ registered ptr = true := by
  rw [checkValidCUDABuffer, returns_refuse_bind, returns_refuse, Bool.not_eq_true',
    Bool.not_eq_false]

theorem defined_checkValidCUDABuffer : Defined (checkValidCUDABuffer registered ptr) :=
  defined_refuse_bind.2 fun _ => defined_refuse

/-- What is loaded of a dictionary. -/
theorem returns_load {t : ExternalTensor} (h : Returns (iface.load registered) (some t)) :
    ∃ ptr dt dtype shape strides, iface.Reads registered ptr dt dtype shape ∧
      Returns (iface.loadStrides dt shape) strides ∧ shape ≠ [] ∧
      t = ⟨ptr, .cuda, dtype, shape, some strides, 0⟩ := by
  unfold CudaArrayInterface.load at h
  split at h
  case h_2 => cases returns_pure.1 h
  case h_1 shape₀ typestr data version hshape htypestr hdata hversion =>
    obtain ⟨version, hv, h₁⟩ := returns_bind.1 h
    obtain rfl := returns_castOf.1 hv
    split_ifs at h₁ with hlt
    · cases returns_pure.1 h₁
    obtain ⟨ptr, hptr, h₂⟩ := returns_bind.1 h₁
    obtain rfl := returns_castOf.1 hptr
    obtain ⟨_, hvalid, h₃⟩ := returns_bind.1 h₂
    obtain ⟨dt, hdt, h₄⟩ := returns_bind.1 h₃
    obtain rfl := returns_castOf.1 hdt
    obtain ⟨dtype, hdtype, h₅⟩ := returns_bind.1 h₄
    obtain ⟨shapes, hshapes, h₆⟩ := returns_bind.1 h₅
    obtain rfl := returns_castOf.1 hshapes
    obtain ⟨shape, hshape', h₇⟩ := returns_bind.1 h₆
    obtain rfl := returns_mapM_castOf.1 hshape'
    obtain ⟨strides, hstrides, h₈⟩ := returns_bind.1 h₇
    split_ifs at h₈ with hlen
    · refine ⟨ptr, dt, dtype, shape, strides, ⟨⟨?_, ⟨version, hversion, not_lt.1 hlt⟩, hdata,
        returns_checkValidCUDABuffer.1 hvalid, htypestr⟩, hdtype, hshape⟩, hstrides, ?_, ?_⟩
      · rw [hshape]
        exact Option.some_ne_none _
      · rintro rfl
        exact Nat.not_succ_le_zero 0 hlen
      · exact (Option.some.inj (returns_pure.1 h₈)).symm
    · cases returns_pure.1 h₈

/-- A dictionary is read without an error if its data type and its strides are. -/
theorem defined_load : Defined (iface.load registered) ↔
    (∀ ptr dt, iface.Opens registered ptr dt → dt.FourChannels) ∧
      ∀ ptr dt dtype shape, iface.Reads registered ptr dt dtype shape →
        Defined (iface.loadStrides dt shape) := by
  constructor
  · intro h
    unfold CudaArrayInterface.load at h
    refine ⟨fun ptr dt ho => ?_, fun ptr dt dtype shape hr => ?_⟩
    · obtain ⟨hshape, ⟨version, hversion, hle⟩, hdata, hvalid, htypestr⟩ := ho
      obtain ⟨shape, hshape⟩ := Option.ne_none_iff_exists'.1 hshape
      rw [hshape, hversion, hdata, htypestr] at h
      have h₁ := (defined_bind.1 h).2 version (returns_castOf.2 rfl)
      rw [if_neg (not_lt.2 hle)] at h₁
      have h₂ := (defined_bind.1 h₁).2 ptr (returns_castOf.2 rfl)
      have h₃ := (defined_bind.1 h₂).2 () (returns_checkValidCUDABuffer.2 hvalid)
      have h₄ := (defined_bind.1 h₃).2 dt (returns_castOf.2 rfl)
      exact defined_dlDataType.1 (defined_bind.1 h₄).1
    · obtain ⟨⟨-, ⟨version, hversion, hle⟩, hdata, hvalid, htypestr⟩, hdtype, hshape⟩ := hr
      rw [hshape, hversion, hdata, htypestr] at h
      have h₁ := (defined_bind.1 h).2 version (returns_castOf.2 rfl)
      rw [if_neg (not_lt.2 hle)] at h₁
      have h₂ := (defined_bind.1 h₁).2 ptr (returns_castOf.2 rfl)
      have h₃ := (defined_bind.1 h₂).2 () (returns_checkValidCUDABuffer.2 hvalid)
      have h₄ := (defined_bind.1 h₃).2 dt (returns_castOf.2 rfl)
      have h₅ := (defined_bind.1 h₄).2 dtype hdtype
      have h₆ := (defined_bind.1 h₅).2 _ (returns_castOf.2 rfl)
      have h₇ := (defined_bind.1 h₆).2 shape (returns_mapM_castOf.2 rfl)
      exact (defined_bind.1 h₇).1
  · rintro ⟨hdt, hstrides⟩
    unfold CudaArrayInterface.load
    split
    case h_2 => exact defined_pure
    case h_1 shape₀ typestr data version hshape htypestr hdata hversion =>
      refine defined_bind.2 ⟨defined_castOf, fun version hv => ?_⟩
      obtain rfl := returns_castOf.1 hv
      split_ifs with hlt
      · exact defined_pure
      refine defined_bind.2 ⟨defined_castOf, fun ptr hptr => ?_⟩
      obtain rfl := returns_castOf.1 hptr
      refine defined_bind.2 ⟨defined_checkValidCUDABuffer, fun _ hvalid => ?_⟩
      refine defined_bind.2 ⟨defined_castOf, fun dt hd => ?_⟩
      obtain rfl := returns_castOf.1 hd
      have hopens : iface.Opens registered ptr dt := ⟨hshape ▸ Option.some_ne_none _,
        ⟨version, hversion, not_lt.1 hlt⟩, hdata, returns_checkValidCUDABuffer.1 hvalid, htypestr⟩
      refine defined_bind.2 ⟨defined_dlDataType.2 (hdt ptr dt hopens), fun dtype hdtype => ?_⟩
      refine defined_bind.2 ⟨defined_castOf, fun shapes hshapes => ?_⟩
      obtain rfl := returns_castOf.1 hshapes
      refine defined_bind.2 ⟨defined_mapM fun _ _ => defined_castOf, fun shape hshape' => ?_⟩
      obtain rfl := returns_mapM_castOf.1 hshape'
      refine defined_bind.2 ⟨hstrides ptr dt dtype shape ⟨hopens, hdtype, hshape⟩, fun _ _ => ?_⟩
      split_ifs
      all_goals exact defined_pure

theorem packedStrides_ne_none {shape : List Int64} (h : shape ≠ []) :
    packedStrides shape ≠ none := by
  suffices ∃ s strides, packedStrides shape = some (s :: strides) by
    obtain ⟨s, strides, hs⟩ := this
    rw [hs]
    exact Option.some_ne_none _
  induction shape with
  | nil => exact absurd rfl h
  | cons m shape ih =>
    cases shape with
    | nil => exact ⟨1, [], rfl⟩
    | cons n ns =>
      obtain ⟨s, strides, hs⟩ := ih (List.cons_ne_nil n ns)
      exact ⟨s * n, s :: strides, by rw [packedStrides, hs]; rfl⟩

/-- Strides are missing where there are no dimensions, or are divided by zero. -/
theorem defined_loadStrides : Defined (iface.loadStrides dt shape) ↔
    ¬(iface.strides = none ∧ shape = []) ∧ ¬∃ s rest, iface.strides = some (.ok (.ok s :: rest)) ∧
      shape ≠ [] ∧ dt.itemsize = 0 := by
  unfold CudaArrayInterface.loadStrides
  cases hstrides : iface.strides with
  | none =>
    dsimp only
    rw [defined_lift]
    constructor
    · rintro ⟨strides, h⟩
      refine ⟨?_, ?_⟩
      · rintro ⟨-, rfl⟩
        cases h
      · rintro ⟨s, rest, h, -⟩
        cases h
    · rintro ⟨hne, -⟩
      exact Option.ne_none_iff_exists'.1 (packedStrides_ne_none fun h => hne ⟨rfl, h⟩)
  | some strides =>
    dsimp only
    rw [defined_bind, and_iff_right defined_castOf, and_iff_right (fun h => by cases h.1)]
    constructor
    · rintro h ⟨s, rest, hs, hne, hzero⟩
      have hmap := h (.ok s :: rest) (returns_castOf.2 (Option.some.inj hs))
      obtain ⟨n, hn⟩ := Nat.exists_eq_succ_of_ne_zero (mt List.length_eq_zero_iff.1 hne)
      rw [hn, List.range_succ_eq_map, List.mapM_cons] at hmap
      have hfirst := (defined_bind.1 (defined_bind.1 hmap).1).2 s (returns_castOf.2 rfl)
      rw [if_pos hzero] at hfirst
      exact not_defined_none hfirst
    · intro h tuple htuple
      obtain rfl := returns_castOf.1 htuple
      by_cases hzero : dt.itemsize = 0
      · -- the first of them stops it, or there are none
        cases hn : shape.length with
        | zero => exact defined_pure
        | succ n =>
          have hne : shape ≠ [] := by
            rintro rfl
            cases hn
          rw [List.range_succ_eq_map, List.mapM_cons]
          have hthrows : ∀ s, ¬Returns (tupleGet tuple 0) s := by
            intro s hs
            have hok := returns_castOf.1 hs
            cases tuple with
            | nil => cases hok
            | cons x rest => exact h ⟨s, rest, congrArg (some <| Except.ok <| · :: rest) hok, hne, hzero⟩
          refine defined_bind.2 ⟨defined_bind.2 ⟨defined_castOf, fun s hs => ?_⟩, fun s hs => ?_⟩
          · exact absurd hs (hthrows s)
          · obtain ⟨s, hs, -⟩ := returns_bind.1 hs
            exact absurd hs (hthrows s)
      · refine defined_mapM fun i _ => defined_bind.2 ⟨defined_castOf, fun s _ => ?_⟩
        rw [if_neg hzero]
        exact defined_refuse_bind.2 fun _ => defined_pure

/-! ## Importing -/

/-- What is filled from a dictionary has the addresses of the dictionary. -/
theorem cudaArrayInterface_resolves {strides : List Int64} {data : TensorData}
    (hr : iface.Reads registered ptr dt dtype shape)
    (hs : Returns (iface.loadStrides dt shape) strides) (hne : shape ≠ [])
    (h : Returns (ExternalTensor.fill ⟨ptr, .cuda, dtype, shape, some strides, 0⟩ layout) data) :
    Source.Resolves (.cudaArrayInterface (.ok iface)) data := by
  obtain ⟨strides', dtype', hrank, hstrides', hdtype', rfl⟩ := returns_fill h
  obtain rfl : strides = strides' := by
    rcases hstrides' with hsome | ⟨-, hnil⟩
    · exact Option.some.inj hsome
    · exact absurd hnil hne
  obtain ⟨hitem, hnegOne, -⟩ := elemStrideBytes_of_returns hr.dtype hdtype'
  cases hgiven : iface.strides with
  | none =>
    rw [CudaArrayInterface.loadStrides, hgiven, returns_lift] at hs
    obtain ⟨hlen, hmap⟩ := packedStrides_spec dt.itemsize.toInt hs
    obtain ⟨hdims, hshape, hbytes⟩ :=
      @filled_spec _ layout dtype' hrank hlen hne
    refine ⟨ptr, shape, _, .packed hr.opens.data hr.opens.typestr hr.shape hgiven,
      fun _ => ⟨hdims, by rw [hdims]; exact hshape⟩, fun i _ => ?_⟩
    rw [hbytes]
    refine (congrArg (address · _ i) (BitVec.add_zero ptr)).trans (address_congr ?_ i)
    rw [← hmap, List.map_map]
    refine List.map_congr_left fun s _ => ?_
    dsimp only [Function.comp_apply]
    rw [ofInt_toInt_mul, hitem]
  | some tuple =>
    rw [CudaArrayInterface.loadStrides, hgiven] at hs
    obtain ⟨tuple', htuple, hs⟩ := returns_bind.1 hs
    obtain rfl := returns_castOf.1 htuple
    obtain ⟨given, rest, rfl, hlen, hmod, rfl⟩ := returns_strides hs
    obtain ⟨hdims, hshape, hbytes⟩ := @filled_spec _ layout dtype' hrank
      ((List.length_map _).trans hlen) hne
    refine ⟨ptr, shape, _, .strided hr.opens.data hr.shape hgiven hlen,
      fun _ => ⟨hdims, by rw [hdims]; exact hshape⟩, fun i _ => ?_⟩
    rw [hbytes]
    refine (congrArg (address · _ i) (BitVec.add_zero ptr)).trans ?_
    rw [List.map_map]
    refine congrArg (address ptr · i) (List.map_congr_left fun s hmem => ?_)
    dsimp only [Function.comp_apply]
    rw [hitem, Int64.div_mul_cancel_of_mod hnegOne (hmod s hmem)]

/-- What is filled from a DLPack tensor has its addresses. -/
theorem dlpack_resolves {device : Option (Cast DLDeviceType)}
    {t : {t : ExternalTensor // t.Formed}} {data : TensorData}
    (h : Returns (t.1.fill layout) data) :
    Source.Resolves (.dlpack device (.ok (some t))) data := by
  obtain ⟨strides, dtype, hrank, hstrides, -, rfl⟩ := returns_fill h
  rcases hstrides with hsome | ⟨rfl, hnil⟩
  · refine ⟨_, _, _, .dlpack hsome, fun hne => ?_, fun i hi => ?_⟩
    · obtain ⟨hdims, hshape, -⟩ :=
        @filled_spec _ layout dtype hrank (t.2 strides hsome) hne
      exact ⟨hdims, by rw [hdims]; exact hshape⟩
    · by_cases hne : t.1.shape = []
      · rw [hne, List.length_nil, List.length_eq_zero_iff] at hi
        subst hi
        rfl
      · obtain ⟨-, -, hbytes⟩ :=
          @filled_spec _ layout dtype hrank (t.2 strides hsome) hne
        rw [hbytes]
        refine address_congr ?_ i
        rw [List.map_map, List.map_map]
        exact List.map_congr_left fun s _ => ofInt_toInt_mul _ _
  · -- an element without dimensions
    cases hnull : t.1.strides with
    | none =>
      refine ⟨_, _, _, .dlpackPacked hnull, fun hne => absurd hnil hne, fun i hi => ?_⟩
      rw [hnil, List.length_nil, List.length_eq_zero_iff] at hi
      subst hi
      rfl
    | some strides =>
      refine ⟨_, _, _, .dlpack hnull, fun hne => absurd hnil hne, fun i hi => ?_⟩
      rw [hnil, List.length_nil, List.length_eq_zero_iff] at hi
      subst hi
      rfl

/-- An import throws, or returns false, or resolves addresses; it has an outcome. -/
def Source.Imports (registered : SizeT → Bool) (src : Source) (layout : Option TensorLayout) :
    Prop :=
  Defined (src.importBuffer registered layout) ∧
    ∀ data, Returns (src.importBuffer registered layout) (some data) → src.Resolves data

theorem defined_importBuffer {src : Source} : Defined (src.importBuffer registered layout) ↔
    Defined (src.load registered) ∧
      ∀ t, Returns (src.load registered) (some t) → Defined (t.fill layout) := by
  rw [Source.importBuffer, defined_bind]
  refine and_congr_right fun _ => ⟨fun h t ht => ?_, fun h r hr => ?_⟩
  · exact (defined_bind.1 (h (some t) ht)).1
  · cases r with
    | none => exact defined_pure
    | some t => exact defined_bind.2 ⟨h t hr, fun _ _ => defined_pure⟩

theorem returns_importBuffer {src : Source} {data : TensorData}
    (h : Returns (src.importBuffer registered layout) (some data)) :
    ∃ t, Returns (src.load registered) (some t) ∧ Returns (t.fill layout) data := by
  obtain ⟨r, hr, h⟩ := returns_bind.1 h
  cases r with
  | none => cases returns_pure.1 h
  | some t =>
    obtain ⟨data', hdata, h⟩ := returns_bind.1 h
    obtain rfl := Option.some.inj (returns_pure.1 h)
    exact ⟨t, hr, hdata⟩

/-- What is loaded of a dictionary has strides. -/
theorem defined_fill_of_load {t : ExternalTensor} (h : Returns (iface.load registered) (some t)) :
    Defined (t.fill layout) := by
  obtain ⟨ptr, dt, dtype, shape, strides, -, -, -, rfl⟩ := returns_load h
  exact defined_fill.2 fun hnull => Option.some_ne_none strides hnull.1

theorem cudaArrayInterface_imports_iff :
    Source.Imports registered (.cudaArrayInterface (.ok iface)) layout ↔
      ¬Source.Faulty registered (.cudaArrayInterface (.ok iface)) := by
  have hresolves : ∀ data,
      Returns (Source.importBuffer registered (.cudaArrayInterface (.ok iface)) layout) (some data) →
        Source.Resolves (.cudaArrayInterface (.ok iface)) data := by
    intro data hdata
    obtain ⟨t, ht, hfill⟩ := returns_importBuffer hdata
    obtain ⟨ptr, dt, dtype, shape, strides, hr, hs, hne, rfl⟩ := returns_load ht
    exact cudaArrayInterface_resolves hr hs hne hfill
  have hdefined : Defined (Source.importBuffer registered (.cudaArrayInterface (.ok iface)) layout) ↔
      Defined (iface.load registered) := by
    rw [defined_importBuffer]
    exact ⟨fun h => h.1, fun h => ⟨h, fun t ht => defined_fill_of_load ht⟩⟩
  rw [Source.Imports, and_iff_left hresolves, hdefined, defined_load]
  constructor
  · rintro ⟨hdt, hstrides⟩ hfaulty
    cases hfaulty with
    | channels opens not => exact not (hdt _ _ opens)
    | noDimensions reads strides =>
      exact (defined_loadStrides.1 (hstrides _ _ _ _ reads)).1 ⟨strides, rfl⟩
    | itemsize reads ne strides zero =>
      exact (defined_loadStrides.1 (hstrides _ _ _ _ reads)).2 ⟨_, _, strides, ne, zero⟩
  · intro hfaulty
    refine ⟨fun ptr dt hopens => ?_, fun ptr dt dtype shape hreads => defined_loadStrides.2 ⟨?_, ?_⟩⟩
    · by_contra hnot
      exact hfaulty (.channels hopens hnot)
    · rintro ⟨hnone, rfl⟩
      exact hfaulty (.noDimensions hreads hnone)
    · rintro ⟨s, rest, hstrides, hne, hzero⟩
      exact hfaulty (.itemsize hreads hne hstrides hzero)

theorem returns_checkDevice {device : Option (Cast DLDeviceType)} :
    Returns (checkDevice device) () ↔
      ∀ d, device = some d → ∃ devType, d = .ok devType ∧ isCudaAccessible devType := by
  cases device with
  | none => exact iff_of_true (returns_pure.2 rfl) fun _ h => by cases h
  | some d =>
    rw [checkDevice, returns_bind]
    simp only [returns_castOf, returns_refuse, Option.some.injEq, forall_eq', Bool.not_eq_true',
      Bool.not_eq_false]

theorem defined_checkDevice {device : Option (Cast DLDeviceType)} :
    Defined (checkDevice device) := by
  cases device with
  | none => exact defined_pure
  | some d => exact defined_bind.2 ⟨defined_castOf, fun _ _ => defined_refuse⟩

/-- What is loaded of a capsule, which may have no tensor. -/
theorem returns_load_dlpack {device : Option (Cast DLDeviceType)}
    {capsule : Cast (Option {t : ExternalTensor // t.Formed})} {t : ExternalTensor} :
    Returns (Source.load registered (.dlpack device capsule)) (some t) ↔
      Returns (checkDevice device) () ∧
        ((∃ t', capsule = .ok (some t') ∧ t'.1 = t) ∨ capsule = .ok none ∧ t = .zero) := by
  rw [Source.load, returns_bind]
  constructor
  · rintro ⟨_, hdevice, h⟩
    refine ⟨hdevice, ?_⟩
    obtain ⟨r, hr, h⟩ := returns_bind.1 h
    obtain rfl := returns_castOf.1 hr
    cases r with
    | none => exact .inr ⟨rfl, (Option.some.inj (returns_pure.1 h)).symm⟩
    | some t' => exact .inl ⟨t', rfl, Option.some.inj (returns_pure.1 h)⟩
  · rintro ⟨hdevice, ⟨t', rfl, rfl⟩ | ⟨rfl, rfl⟩⟩
    · exact ⟨(), hdevice, returns_bind.2 ⟨_, returns_castOf.2 rfl, returns_pure.2 rfl⟩⟩
    · exact ⟨(), hdevice, returns_bind.2 ⟨_, returns_castOf.2 rfl, returns_pure.2 rfl⟩⟩

theorem defined_load_dlpack {device : Option (Cast DLDeviceType)}
    {capsule : Cast (Option {t : ExternalTensor // t.Formed})} :
    Defined (Source.load registered (.dlpack device capsule)) := by
  refine defined_bind.2 ⟨defined_checkDevice, fun _ _ => ?_⟩
  refine defined_bind.2 ⟨defined_castOf, fun r _ => ?_⟩
  cases r with
  | none => exact defined_pure
  | some t => exact defined_pure

theorem not_returns_fill_zero {data : TensorData} :
    ¬Returns (ExternalTensor.zero.fill layout) data := by
  intro h
  obtain ⟨_, dtype, _, -, hdtype, -⟩ := returns_fill h
  exact not_returns_wrapped_zero hdtype

theorem dlpack_imports_iff {device : Option (Cast DLDeviceType)}
    {capsule : Cast (Option {t : ExternalTensor // t.Formed})} :
    Source.Imports registered (.dlpack device capsule) layout ↔
      ¬Source.Faulty registered (.dlpack device capsule) := by
  have hresolves : ∀ data,
      Returns (Source.importBuffer registered (.dlpack device capsule) layout) (some data) →
        Source.Resolves (.dlpack device capsule) data := by
    intro data hdata
    obtain ⟨t, ht, hfill⟩ := returns_importBuffer hdata
    obtain ⟨-, ⟨t', rfl, rfl⟩ | ⟨rfl, rfl⟩⟩ := returns_load_dlpack.1 ht
    · exact dlpack_resolves hfill
    · exact absurd hfill not_returns_fill_zero
  rw [Source.Imports, and_iff_left hresolves, defined_importBuffer,
    and_iff_right defined_load_dlpack]
  constructor
  · rintro h hfaulty
    cases hfaulty with
    | @nullStrides _ t accessible strides ne fillable =>
      have hload : Returns (Source.load registered (.dlpack device (.ok (some t)))) (some t.1) :=
        returns_load_dlpack.2 ⟨returns_checkDevice.2 accessible, .inl ⟨t, rfl, rfl⟩⟩
      exact defined_fill.1 (h _ hload) ⟨strides, ne, fillable⟩
  · intro hfaulty t ht
    obtain ⟨hdevice, ⟨t', rfl, rfl⟩ | ⟨rfl, rfl⟩⟩ := returns_load_dlpack.1 ht
    · refine defined_fill.2 fun ⟨hstrides, hne, hfillable⟩ => hfaulty ?_
      exact .nullStrides (returns_checkDevice.1 hdevice) hstrides hne hfillable
    · exact defined_fill.2 fun h => h.2.1 rfl

/-- A float, without dimensions. -/
def scalar : CudaArrayInterface where
  shape := some (.ok [])
  typestr := some (.ok (.supported ⟨.float, none⟩))
  data := some (.ok 256)
  version := some (.ok 3)
  strides := none

end Load

end Nvcvpy
