import CvCuda.Cvcuda.TensorWrap
import CvCuda.Lib.Copies

/-! # Cropping

`CenterCrop` of `priv_musa/legacy/center_crop.mu` and `CustomCrop` of `custom_crop.mu`. A launch is
the list of the bytes that its threads copy, which come in any order; a launch that the device
refuses aborts.
-/

namespace Cvcuda

open BoxBlur (ErrorCode DataFormat)
open Ptr2dNHWC (dataSize)

namespace Crop

/-- How a call ends: its error, an abort, or the copies of the launch. -/
inductive Outcome where
  | error (code : ErrorCode)
  | abort
  | success (copies : List (ℤ × ℤ))

/-- `NVCVRectI` -/
structure RectI where
  x : Int32
  y : Int32
  width : Int32
  height : Int32

/-- The kernels, which differ in their names: what a thread copies, for a `T` of some size. -/
def kernel (src dst : TensorWrap) (size : Nat) (bsX bsY : Nat) (window : RectI)
    (t : Kernel.Thread) : List (ℤ × ℤ) :=
  let dstX := Int32.ofNat (t.blockIdx.1 * bsX + t.threadIdx.1)
  let dstY := Int32.ofNat (t.blockIdx.2.1 * bsY + t.threadIdx.2)
  let batchIdx := Int32.ofNat t.blockIdx.2.2
  if dstX < window.width ∧ dstY < window.height then
    Copies.bytes size (dst.ptr [batchIdx, dstY, dstX]).toInt
      (src.ptr [batchIdx, dstY + window.y, dstX + window.x]).toInt
  else []

/-- A launch of `gridZ` layers for the window, on a device that takes grids that are `launchable`.
The type `T` has the channels of the input. -/
def launch (launchable : Nat × Nat × Nat → Bool) (inData outData : ImageTensor) (bsX bsY : Nat)
    (window : RectI) (gridZ : Int32) : Outcome :=
  let size := inData.numChannels.toInt.toNat * dataSize inData.dataType
  let gridX := divUp window.width.toInt.toNat bsX
  let gridY := divUp window.height.toInt.toNat bsY
  if launchable (gridX, gridY, gridZ.toInt.toNat) then
    .success ((Kernel.launch gridX gridY gridZ.toInt.toNat bsX bsY).flatMap
      (kernel (createTensorWrapNHW inData size) (createTensorWrapNHW outData size) size bsX bsY
        window))
  else .abort

/-- `std::max(inMaxStride, outMaxStride) > TypeTraits<int32_t>::max` -/
def tooLarge (inData outData : ImageTensor) : Prop :=
  2 ^ 31 - 1 < (inData.sampleStride * inData.numSamples.toInt64).toInt ∨
    2 ^ 31 - 1 < (outData.sampleStride * outData.numSamples.toInt64).toInt

instance (inData outData : ImageTensor) : Decidable (tooLarge inData outData) :=
  inferInstanceAs (Decidable (_ ∨ _))

/-- The two tensors have the same `dtype()`. -/
def sameType (inData outData : ImageTensor) : Prop :=
  inData.dataType = outData.dataType ∧ inData.dtypeChannels = outData.dtypeChannels

instance (inData outData : ImageTensor) : Decidable (sameType inData outData) :=
  inferInstanceAs (Decidable (_ ∧ _))

end Crop

open Crop

/-- `center_crop` -/
def centerCrop (launchable : Nat × Nat × Nat → Bool) (inData outData : ImageTensor)
    (cropRows cropColumns batchSize rows columns : Int32) : Outcome :=
  let topIndices := (rows - cropRows) / 2
  let leftIndices := (columns - cropColumns) / 2
  launch launchable inData outData 32 8 ⟨leftIndices, topIndices, cropColumns, cropRows⟩ batchSize

/-- `CenterCrop::infer` -/
def centerCropInfer (launchable : Nat × Nat × Nat → Bool) (inData outData : ImageTensor)
    (cropRows cropColumns : Int32) : Outcome :=
  if ¬sameType inData outData then .error .invalidDataFormat
  else if ¬(inData.layout = .nhwc ∨ inData.layout = .hwc) ∨
      ¬(outData.layout = .nhwc ∨ outData.layout = .hwc) then .error .invalidDataFormat
  else if 4 < inData.numChannels ∨ inData.numChannels < 1 then .error .invalidDataShape
  else if inData.numSamples ≠ outData.numSamples ∨ outData.numRows < cropRows ∨
      outData.numCols < cropColumns then .error .invalidDataShape
  else if tooLarge inData outData then .error .invalidParameter
  else centerCrop launchable inData outData cropRows cropColumns inData.numSamples inData.numRows
    inData.numCols

/-- `customCrop` -/
def customCrop (launchable : Nat × Nat × Nat → Bool) (inData outData : ImageTensor)
    (roi : RectI) : Outcome :=
  if tooLarge inData outData then .error .invalidParameter
  else launch launchable inData outData 16 16 roi outData.numSamples

/-- `CustomCrop::infer` -/
def customCropInfer (launchable : Nat × Nat × Nat → Bool) (inData outData : ImageTensor)
    (roi : RectI) : Outcome :=
  if ¬(inData.layout = .nhwc ∨ inData.layout = .hwc) ∨
      ¬(outData.layout = .nhwc ∨ outData.layout = .hwc) then .error .invalidDataFormat
  else if ¬sameType inData outData then .error .invalidDataFormat
  else if 4 < inData.numChannels ∨ inData.numChannels < 1 then .error .invalidDataShape
  else if outData.numRows < roi.height ∨ outData.numCols < roi.width then .error .invalidDataShape
  else
    let endX := roi.x + roi.width - 1
    let endY := roi.y + roi.height - 1
    if roi.x < 0 ∨ roi.y < 0 ∨ inData.numCols ≤ endX ∨ inData.numRows ≤ endY then
      .error .invalidParameter
    else customCrop launchable inData outData roi

end Cvcuda
