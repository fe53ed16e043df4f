import CvCuda.Nvcv.PackingParams
import CvCuda.Nvcv.Detail
import CvCuda.Nvcvpy.Cache

/-! # Exporting data as DLPack tensors, and filling data from them

`DLPackTensor` and the conversions of data types of `mod_cvcuda/nvcv/DLPackUtils.cpp`, the dtypes of
`DataType.cpp`, `FillNVCVTensorData` of `Tensor.cpp` and `FillNVCVArrayData` of `Array.cpp`. A dtype
of the interpreter is one of a supported base type, or a subarray of elements of it. A failed
assertion has no outcome.
-/

namespace Nvcvpy

open Nvcv Outcome

/-- What a conversion throws: an exception of the library, of the module, or `py::cast_error`. -/
inductive ConversionError where
  | nvcv (e : Nvcv.Exception)
  | std (e : Exception)
  | castError
  deriving DecidableEq

abbrev Conversion (α : Type) := ExceptT ConversionError Option α

/-! ## DLPack -/

/-- `DLDeviceType`, as far as it matters. -/
inductive DLDeviceType where
  | cpu | cuda | cudaHost | cudaManaged | other
  deriving DecidableEq

/-- `DLDataTypeCode`. -/
inductive DLDataTypeCode where
  | int | uint | float | opaqueHandle | bfloat | complex | bool
  deriving DecidableEq

structure DLDataType where
  code : DLDataTypeCode
  bits : BitVec 8
  lanes : BitVec 16
  deriving DecidableEq

/-- `DLTensor`; `ndim` is the length of the shape. -/
structure DLTensor where
  data : SizeT
  deviceType : DLDeviceType
  dtype : DLDataType
  shape : List Int64
  strides : List Int64
  byteOffset : SizeT
  deriving DecidableEq

def isCudaAccessible : DLDeviceType → Bool
  | .cudaHost | .cuda | .cudaManaged => true
  | _ => false

/-- The swizzle and bits of a number of equal channels, if it is from 1 to 4. -/
def equalChannels (bits : Int) : (n : Nat) → Option (Swizzle × Vector Int 4)
  | 1 => some (.SX000, #v[bits, 0, 0, 0])
  | 2 => some (.SXY00, #v[bits, bits, 0, 0])
  | 3 => some (.SXYZ0, #v[bits, bits, bits, 0])
  | 4 => some (.SXYZW, #v[bits, bits, bits, bits])
  | _ => none

/-- `MakePacking` of equal channels, in MSB order. -/
def packingOf (params : Swizzle × Vector Int 4) : Conversion Packing :=
  match nvcvMakePacking ⟨.msb, 0, params.1, params.2⟩ with
  | .ok packing => pure packing
  | .error e => throw (.nvcv e)

/-- `ToNVCVDataType` of a DLPack data type. -/
def toNVCVDataType (dtype : DLDataType) : Conversion DataType :=
  match equalChannels dtype.bits.toNat dtype.lanes.toNat with
  | none => throw (.std (.runtimeError
      "DLPack buffer's data type must have at most 4 lanes"))
  | some params => do
    let packing ← packingOf params
    match dtype.code with
    | .bool | .int => return .make .signed packing
    | .uint => return .make .unsigned packing
    | .complex => return .make .complex packing
    | .float => return .make .float packing
    | _ => throw (.std (.runtimeError
        "Data type code not supported, must be Int, UInt, Float, Complex or Bool"))

def dataTypeCode (dataType : DataType) : Option DLDataTypeCode :=
  let kind := ImageFormat.dataKind dataType
  if kind = DataKind.unsigned.value then some .uint
  else if kind = DataKind.signed.value then some .int
  else if kind = DataKind.float.value then some .float
  else if kind = DataKind.complex.value then some .complex
  else none

def toDLDataType (dataType : DataType) : Conversion DLDataType :=
  match dataTypeCode dataType with
  | none => throw (.std (.runtimeError
      "Data kind not supported, must be UNSIGNED, SIGNED, FLOAT or COMPLEX"))
  | some code => do
    let bpc ← (dataType.bitsPerChannel : Option _)
    refuse (∃ i < dataType.numChannels, bpc.toList.getD i 0 ≠ bpc.toList.getD 0 0)
      (.std (.runtimeError "All lanes must have the same bit depth"))
    return ⟨code, .ofInt 8 (bpc.toList.getD 0 0), .ofNat 16 dataType.numChannels⟩

/-! ## dtypes -/

/-- `SupportedBaseTypes`. -/
inductive BaseType where
  | complexFloat | complexDouble | float | double | uint8 | int8 | uint16 | int16 | uint32 | int32
  | uint64 | int64
  deriving DecidableEq

namespace BaseType

def all : List BaseType := (List.range 12).map .ofNat

def sizeof : BaseType → Nat
  | .uint8 | .int8 => 1
  | .uint16 | .int16 => 2
  | .float | .uint32 | .int32 => 4
  | .complexFloat | .double | .uint64 | .int64 => 8
  | .complexDouble => 16

def dataKind : BaseType → DataKind
  | .complexFloat | .complexDouble => .complex
  | .float | .double => .float
  | .uint8 | .uint16 | .uint32 | .uint64 => .unsigned
  | .int8 | .int16 | .int32 | .int64 => .signed

end BaseType

/-- `py::dtype`: of a base type, or of so many of it. -/
structure DType where
  base : BaseType
  shape : Option Nat
  deriving DecidableEq

/-- `FindDType`. -/
def findDType (dtype : DataType) (t : BaseType) : Option DType :=
  if t.sizeof ≠ dtype.bitsPerPixel / 8 / dtype.numChannels then none
  else if ImageFormat.dataKind dtype = t.dataKind.value then
    some ⟨t, if 1 < dtype.numChannels then some dtype.numChannels else none⟩
  else none

/-- `ToDType`; without a base type it is a null object. -/
def toDType (dtype : DataType) : Option DType := BaseType.all.findSome? (findDType dtype)

/-- `FindDataType` for the base type of a dtype. -/
def findDataType (dt : DType) : Conversion DataType :=
  match equalChannels (dt.base.sizeof * 8) (dt.shape.getD 1) with
  | none => (none : Option DataType)
  | some params => do
    let packing ← packingOf params
    return .make dt.base.dataKind packing

/-- `py::cast<nvcv::DataType>`. -/
def castDataType : Option DType → Conversion DataType
  | none => throw .castError
  | some dt => findDataType dt

/-! ## Tensors -/

namespace DLPackTensor

/-- A stride in elements. -/
def strideOf (dtype : DataType) (stride : Int64) : Conversion Int64 := do
  refuse (stride % dtype.strideBytes.toInt64 ≠ 0)
    (.std (.runtimeError "Stride must be a multiple of the element size in bytes"))
  return stride / dtype.strideBytes.toInt64

/-- The constructor for tensor data in device memory. -/
def ofTensorData (t : TensorData) : Conversion DLTensor := do
  let dtype ← toDLDataType t.dtype
  let strides ← (t.strides.toList.take t.rank).mapM (strideOf t.dtype)
  return {
    data := t.basePtr
    deviceType := .cuda
    dtype
    shape := t.shape.toList.take t.rank
    strides
    byteOffset := 0 }

end DLPackTensor

/-- `elemStrideBytes`. -/
def elemStrideBytes (dtype : DLDataType) : Int64 :=
  .ofNat ((dtype.bits.toNat * dtype.lanes.toNat + 7) / 8)

/-- `ToNVCVDataType`, `ToDType` and `py::cast` one after another. -/
def wrappedDataType (dtype : DLDataType) : Conversion DataType := do
  castDataType (toDType (← toNVCVDataType dtype))

def fillNVCVTensorData (tensor : DLTensor) (layout : Option TensorLayout) :
    Conversion TensorData := do
  let dtype ← wrappedDataType tensor.dtype
  let rank := if tensor.shape.length = 0 then 1 else tensor.shape.length
  if h : rank ≤ tensorMaxRank then
    refuse (!isCudaAccessible tensor.deviceType)
      (.std (.runtimeError "Only CUDA-accessible tensors are supported for now"))
    return {
      dtype
      layout := layout.getD ⟨Vector.replicate _ 0, 0⟩
      rank
      rank_le := h
      shape := overwrite (Vector.replicate _ 0) tensor.shape
      strides := overwrite (Vector.replicate _ 0)
        (tensor.strides.map (· * elemStrideBytes tensor.dtype))
      basePtr := tensor.data + tensor.byteOffset }
  else throw (.std (.invalidArgument
    s!"Number of dimensions must be between 1 and {tensorMaxRank}, not {rank}"))

/-! ## Arrays -/

/-- `NVCVArrayBufferType`. -/
inductive ArrayBufferType where
  | none | cuda | host | hostPinned
  deriving DecidableEq

def ArrayBufferType.value : ArrayBufferType → BitVec 8
  | .none => 0
  | .cuda => 0x11
  | .host => 0x24
  | .hostPinned => 0x28

/-- `NVCVArrayData`. -/
structure ArrayData where
  dtype : DataType
  length : Int64
  capacity : Int64
  bufferType : ArrayBufferType
  stride : Int64
  basePtr : SizeT
  deriving DecidableEq

/-- `ArrayDataCuda::IsCompatibleKind`. -/
def ArrayData.isCuda (a : ArrayData) : Bool :=
  a.bufferType.value &&& ArrayBufferType.cuda.value ≠ 0

/-- The constructor of `DLPackTensor` for array data. -/
def DLPackTensor.ofArrayData (a : ArrayData) : Conversion DLTensor := do
  refuse (!a.isCuda) (.std (.runtimeError "Array buffer type not supported, must be either CUDA"))
  let dtype ← toDLDataType a.dtype
  return {
    data := a.basePtr
    deviceType := .cuda
    dtype
    shape := [a.capacity]
    strides := [a.stride]
    byteOffset := 0 }

def fillNVCVArrayData (tensor : DLTensor) : Conversion ArrayData := do
  let dtype ← wrappedDataType tensor.dtype
  let rank := if tensor.shape.length = 0 then 1 else tensor.shape.length
  refuse (rank ≠ 1) (.std (.invalidArgument s!"The tensor rank must be 1 not {rank}"))
  let capacity ← tensor.shape.head?
  refuse (!isCudaAccessible tensor.deviceType)
    (.std (.runtimeError "Only CUDA-accessible arrays are supported for now"))
  return {
    dtype
    length := capacity
    capacity
    bufferType := .host
    stride := (tensor.strides.map (· * elemStrideBytes tensor.dtype)).getLastD 0
    basePtr := tensor.data + tensor.byteOffset }

/-- `ArrayDataCuda`, which `Array::Wrap` constructs of what is filled. -/
def arrayDataCuda (a : ArrayData) : Conversion ArrayData := do
  refuse (!a.isCuda) (.nvcv (.nvcv .invalidArgument "Incompatible buffer type."))
  return a

end Nvcvpy
