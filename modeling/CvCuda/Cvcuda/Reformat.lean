import CvCuda.Cvcuda.Crop

/-! # Reformatting tensors of images

`Reformat::infer`, `transform` and the kernel `transformFormat` of
`priv_musa/legacy/reformat.mu`, and `TensorNDWrap` of a tensor as the kernel uses it.

* A call is the list of the bytes that its copies or threads move, which come in any order; a call to
  the runtime that fails ends the process.
* `musaMemcpy2DAsync` refuses rows that are longer than a pitch.
-/

namespace Cvcuda

open BoxBlur (ErrorCode DataFormat)
open Ptr2dNHWC (dataSize)

namespace Reformat

open Crop (Outcome)

/-! ## Copying -/

/-- `numPlanes()` -/
def numPlanes (t : ImageTensor) : Nat :=
  match t.layout with
  | .nhwc | .hwc => 1
  | .nchw | .chw => t.numChannels.toInt.toNat

/-- `planeStride()` -/
def planeStride (t : ImageTensor) : Int64 :=
  match t.layout with
  | .nhwc | .hwc => 0
  | .nchw | .chw => t.chStride

/-- `planeData(p, sampleData(i))` -/
def planeData (t : ImageTensor) (i p : Nat) : ℤ :=
  i * t.sampleStride.toInt + p * (planeStride t).toInt

/-- `musaMemcpy2DAsync`, which copies rows of some width. -/
def memcpy2D (dst : ℤ) (dpitch : UInt64) (src : ℤ) (spitch width : UInt64) (height : Nat) :
    Option (List (ℤ × ℤ)) :=
  if dpitch < width ∨ spitch < width then none
  else some ((List.range height).flatMap fun r : Nat =>
    Copies.bytes width.toNat (dst + r * dpitch.toNat) (src + r * spitch.toNat))

/-- `numCols() * colStride()`, as a size. -/
def width (t : ImageTensor) : UInt64 := (t.numCols.toInt64 * t.colStride).toUInt64

/-- The copies of the planes, one after another. -/
def copyPlanes (inData outData : ImageTensor) : Option (List (List (ℤ × ℤ))) :=
  (List.range inData.numSamples.toInt.toNat ×ˢ List.range (numPlanes inData)).mapM
    fun (i, p) =>
      memcpy2D (planeData outData i p) outData.rowStride.toUInt64 (planeData inData i p)
        inData.rowStride.toUInt64 (width inData) inData.numRows.toInt.toNat

/-! ## Transposing -/

/-- `TensorNDWrap<T, N, int32_t>` of a tensor, for a `T` of some size. -/
def tensorWrap (t : ImageTensor) (size : Nat) : TensorWrap where
  strides := match t.layout with
    | .nhwc => [t.sampleStride.toInt32, t.rowStride.toInt32, t.colStride.toInt32, .ofNat size]
    | .nchw => [t.sampleStride.toInt32, t.chStride.toInt32, t.rowStride.toInt32, .ofNat size]
    | .hwc => [t.rowStride.toInt32, t.colStride.toInt32, .ofNat size]
    | .chw => [t.chStride.toInt32, t.rowStride.toInt32, .ofNat size]

/-- The coordinates in the source, from the outermost on. -/
def srcCoord (srcFormat : DataFormat) (x y z c : Int32) : List Int32 :=
  match srcFormat with
  | .nchw => [z, c, y, x]
  | .nhwc => [z, y, x, c]
  | .chw => [c, y, x]
  | .hwc => [y, x, c]

/-- The coordinates in the destination, from the outermost on. -/
def dstCoord (srcFormat : DataFormat) (x y z c : Int32) : List Int32 :=
  match srcFormat with
  | .nchw => [z, y, x, c]
  | .nhwc => [z, c, y, x]
  | .chw => [y, x, c]
  | .hwc => [c, y, x]

/-- `transformFormat`: what a thread copies. -/
def transformFormat (srcFormat : DataFormat) (src dst : TensorWrap) (size : Nat)
    (inoutSize : Int32 × Int32 × Int32) (t : Kernel.Thread) : List (ℤ × ℤ) :=
  let x := Int32.ofNat (t.blockIdx.1 * 32 + t.threadIdx.1)
  let y := Int32.ofNat (t.blockIdx.2.1 * 8 + t.threadIdx.2)
  let z := Int32.ofNat t.blockIdx.2.2
  if inoutSize.1 ≤ x ∨ inoutSize.2.1 ≤ y then []
  else (List.range inoutSize.2.2.toInt.toNat).flatMap fun c =>
    Copies.bytes size (dst.ptr (dstCoord srcFormat x y z (.ofNat c))).toInt
      (src.ptr (srcCoord srcFormat x y z (.ofNat c))).toInt

/-- `transform`, on a device that takes grids that are `launchable`. -/
def transform (launchable : Nat × Nat × Nat → Bool) (inData outData : ImageTensor) : Outcome :=
  let inoutSize := (inData.numCols, inData.numRows, outData.numChannels)
  let gridX := divUp inoutSize.1.toInt.toNat 32
  let gridY := divUp inoutSize.2.1.toInt.toNat 8
  let gridZ := inData.numSamples.toInt.toNat
  let size := dataSize inData.dataType
  if Crop.tooLarge inData outData then .error .invalidParameter
  else if launchable (gridX, gridY, gridZ) then
    .success ((Kernel.launch gridX gridY gridZ 32 8).flatMap
      (transformFormat inData.layout (tensorWrap inData size) (tensorWrap outData size) size
        inoutSize))
  else .abort

/-! ## infer -/

/-- `inData.shape() == outData.shape()` -/
def sameShape (inData outData : ImageTensor) : Prop :=
  inData.layout = outData.layout ∧ inData.numSamples = outData.numSamples ∧
    inData.numRows = outData.numRows ∧ inData.numCols = outData.numCols ∧
    inData.numChannels = outData.numChannels

instance (inData outData : ImageTensor) : Decidable (sameShape inData outData) :=
  inferInstanceAs (Decidable (_ ∧ _))

/-- `Reformat::infer` -/
def infer (launchable : Nat × Nat × Nat → Bool) (inData outData : ImageTensor) : Outcome :=
  if Crop.sameType inData outData ∧ sameShape inData outData then
    match copyPlanes inData outData with
    | some copies => .success copies.flatten
    | none => .abort
  -- only CHW <-> HWC or NCHW <-> NHWC
  else if (inData.layout = .nhwc ∧ ¬outData.layout = .nchw) ∨
      (inData.layout = .nchw ∧ ¬outData.layout = .nhwc) ∨
      (inData.layout = .hwc ∧ ¬outData.layout = .chw) ∨
      (inData.layout = .chw ∧ ¬outData.layout = .hwc) then .error .invalidDataFormat
  else if inData.dataType ≠ outData.dataType then .error .invalidDataType
  else if inData.dataType ∉ [.cv8U, .cv8S, .cv16U, .cv16S, .cv32S, .cv32F, .cv64F] then
    .error .invalidDataType
  else transform launchable inData outData

end Reformat

end Cvcuda
