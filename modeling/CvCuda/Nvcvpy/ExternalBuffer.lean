import CvCuda.Nvcvpy.DLPack

/-! # Importing buffers of other modules

`ExternalBuffer::load` of `mod_cvcuda/nvcv/ExternalBuffer.cpp`, and `FillNVCVTensorData` of
`Tensor.cpp` after it, for an object with a `__cuda_array_interface__` or a `__dlpack__`. A write
or read outside of an array, through a null pointer, and a division by zero have no outcome.

* An entry of a dictionary may be of any type; what casting it comes to is part of the dictionary.
* Which pointers `cudaPointerGetAttributes` knows is a parameter.
* Integers of 64 bits wrap. The number of dimensions is taken to fit its `int`.
-/

namespace Nvcvpy

open Nvcv Outcome

/-- What casting an object of the interpreter comes to. -/
abbrev Cast (α : Type) := Except ConversionError α

def castOf {α : Type} (x : Cast α) : Conversion α := ExceptT.mk (some x)

/-- An element of a tuple. -/
def tupleGet (xs : List (Cast Int64)) (i : Nat) : Conversion Int64 :=
  castOf (xs.getD i (.error (.std (.runtimeError "IndexError: tuple index out of range"))))

/-- A dtype that is read from a type string: one of a supported base type, or another one. -/
inductive NumpyDType where
  | supported (dt : DType)
  | other (itemsize : Int64)

def NumpyDType.itemsize : NumpyDType → Int64
  | .supported dt => .ofNat (dt.base.sizeof * dt.shape.getD 1)
  | .other itemsize => itemsize

/-! ## Sources -/

/-- The dictionary of a `__cuda_array_interface__`: `data` is the first of its entry, and `strides`
that are `None` are as good as none. -/
structure CudaArrayInterface where
  shape : Option (Cast (List (Cast Int64)))
  typestr : Option (Cast NumpyDType)
  data : Option (Cast SizeT)
  version : Option (Cast Int)
  strides : Option (Cast (List (Cast Int64)))

/-- A DLPack tensor whose `strides` may be null. -/
structure ExternalTensor where
  data : SizeT
  deviceType : DLDeviceType
  dtype : DLDataType
  shape : List Int64
  strides : Option (List Int64)
  byteOffset : SizeT

/-- Strides are as many as dimensions. -/
def ExternalTensor.Formed (t : ExternalTensor) : Prop :=
  ∀ strides, t.strides = some strides → strides.length = t.shape.length

/-- `DLDataType{}` -/
def DLDataType.zero : DLDataType := ⟨.int, 0, 0⟩

/-- `DLPackTensor{}` -/
def ExternalTensor.zero : ExternalTensor := ⟨0, .other, .zero, [], none, 0⟩

/-- An object, with the first of its interfaces that is looked at. -/
inductive Source where
  | cudaArrayInterface (iface : Cast CudaArrayInterface)
  | dlpack (device : Option (Cast DLDeviceType))
      (capsule : Cast (Option {t : ExternalTensor // t.Formed}))
  | other

/-! ## Load -/

section Load
variable (registered : SizeT → Bool)

/-- `CheckValidCUDABuffer` -/
def checkValidCUDABuffer (ptr : SizeT) : Conversion Unit := do
  refuse (ptr = 0) (.std (.runtimeError "NULL CUDA buffer not accepted"))
  refuse (!registered ptr) (.std (.runtimeError "Buffer is not CUDA-accessible"))

/-- The data type of a dtype, if the module has one for it. -/
def dlDataType : NumpyDType → Conversion DLDataType
  | .supported dt => do toDLDataType (← findDataType dt)
  | .other _ => return .zero

/-- The strides of packed rows, in elements, from the last on. -/
def packedStrides : List Int64 → Option (List Int64)
  | [] => none -- `strides[-1]`
  | [_] => some [1]
  | _ :: n :: ns => do
    let strides ← packedStrides (n :: ns)
    let stride ← strides.head?
    some (stride * n :: strides)

/-- A stride in elements. -/
def elementStride (itemsize : Int64) (strides : List (Cast Int64)) (i : Nat) :
    Conversion Int64 := do
  let stride ← tupleGet strides i
  if itemsize = 0 then (none : Option Int64)
  else
    refuse (stride % itemsize ≠ 0)
      (.std (.runtimeError "Stride must be a multiple of the element size in bytes"))
    return stride / itemsize

def CudaArrayInterface.loadStrides (iface : CudaArrayInterface) (dt : NumpyDType)
    (shape : List Int64) : Conversion (List Int64) :=
  match iface.strides with
  | some strides => do
    let strides ← castOf strides
    (List.range shape.length).mapM (elementStride dt.itemsize strides)
  | none => packedStrides shape

/-- `load` of a dictionary; it returns false for `none`. -/
def CudaArrayInterface.load (iface : CudaArrayInterface) : Conversion (Option ExternalTensor) :=
  match iface.shape, iface.typestr, iface.data, iface.version with
  | some shape, some typestr, some data, some version => do
    let version ← castOf version
    if version < 2 then return none
    else
      let ptr ← castOf data
      checkValidCUDABuffer registered ptr
      let dt ← castOf typestr
      let dtype ← dlDataType dt
      let shape ← castOf shape
      let shape ← shape.mapM castOf
      let strides ← iface.loadStrides dt shape
      if 1 ≤ shape.length then return some ⟨ptr, .cuda, dtype, shape, some strides, 0⟩
      else return none
  | _, _, _, _ => return none

def checkDevice : Option (Cast DLDeviceType) → Conversion Unit
  | some device => do
    let devType ← castOf device
    refuse (!isCudaAccessible devType)
      (.std (.runtimeError "Only CUDA-accessible memory buffers can be wrapped"))
  | none => return ()

/-- `load` -/
def Source.load : Source → Conversion (Option ExternalTensor)
  | .cudaArrayInterface iface => do (← castOf iface).load registered
  | .dlpack device capsule => do
    checkDevice device
    match ← castOf capsule with
    | some t => return some t.1
    | none => return some .zero
  | .other => return none

/-- `FillNVCVTensorData`: what it reads last are the strides. -/
def ExternalTensor.fill (t : ExternalTensor) (layout : Option TensorLayout) :
    Conversion TensorData := do
  let data ← fillNVCVTensorData
    ⟨t.data, t.deviceType, t.dtype, t.shape, t.strides.getD [], t.byteOffset⟩ layout
  if t.strides = none ∧ t.shape ≠ [] then (none : Option TensorData) else return data

/-- A buffer that is loaded, and tensor data that is filled from it. -/
def Source.importBuffer (src : Source) (layout : Option TensorLayout) :
    Conversion (Option TensorData) := do
  match ← src.load registered with
  | some t => return some (← t.fill layout)
  | none => return none

end Load

end Nvcvpy
