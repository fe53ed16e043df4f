import CvCuda.Cvcuda.HistogramEq

/-! # Pointers to tensors

`Ptr2dNHWC` of `priv_musa/legacy/CvCudaUtils.muh`, and the operators that make it of their tensors
without a check of their size: `MedianBlur::infer` of `median_blur.mu` and `PillowResize::infer` of
`pillow_resize.mu`, up to what they launch.

`int` is Lean's `Int32` and `int64_t` is `Int64`; both wrap. An address is a `BitVec 64`.
-/

namespace Cvcuda.Ptr2dNHWC

open BoxBlur (ErrorCode DataFormat)
open HistogramEq (DataType)

/-! ## Tensors -/

/-- `DataSize` -/
def dataSize : DataType → Nat
  | .cv8U | .cv8S => 1
  | .cv16U | .cv16S | .cv16F => 2
  | .cv32S | .cv32F => 4
  | .cv64F => 8

/-- `TensorDataAccessStridedImagePlanar` of a tensor; without samples it has one, with a stride
of 0. Its data type has some channels of one legacy type. -/
structure Tensor where
  layout : DataFormat
  dataType : DataType
  dtypeChannels : Nat
  dtypeChannels_pos : 1 ≤ dtypeChannels
  dtypeChannels_le : dtypeChannels ≤ 4
  numSamples : Int64
  numRows : Int64
  numCols : Int64
  numChannels : Int64
  sampleStride : Int64
  rowStride : Int64
  colStride : Int64
  chStride : Int64
  basePtr : BitVec 64

/-! ## The pointer -/

structure Ptr where
  batches : Int32
  rows : Int32
  cols : Int32
  ch : Int32
  imgStride : Int32
  rowStride : Int32
  data : BitVec 64

/-- `Ptr2dNHWC(tensor)` -/
def Ptr.ofTensor (tensor : Tensor) : Ptr where
  batches := tensor.numSamples.toInt32
  rows := tensor.numRows.toInt32
  cols := tensor.numCols.toInt32
  ch := tensor.numChannels.toInt32
  imgStride := tensor.sampleStride.toInt32
  rowStride := tensor.rowStride.toInt32
  data := tensor.basePtr

/-- `ptr(b, y, x, c)`, for elements of some size. -/
def Ptr.ptr (p : Ptr) (size : Nat) (b y x c : Int32) : BitVec 64 :=
  p.data + .ofInt 64 (b * p.imgStride).toInt + .ofInt 64 (y * p.rowStride).toInt +
    .ofInt 64 (x * p.ch + c).toInt * .ofNat 64 size

/-! ## Operators -/

/-- What is launched: the size of `T`, and the pointers. -/
structure Launch where
  size : Nat
  src : Ptr
  dst : Ptr

def launch (inData outData : Tensor) : Launch :=
  ⟨dataSize inData.dataType, .ofTensor inData, .ofTensor outData⟩

/-- `MedianBlur::infer` -/
def medianBlurInfer (inData outData : Tensor) (ksize : Int32 × Int32) : Except ErrorCode Launch :=
  if inData.layout ≠ outData.layout then .error .invalidDataFormat
  else if inData.layout ∉ [.nhwc, .hwc] then .error .invalidDataFormat
  else if inData.dataType ∉ [.cv8U, .cv16U, .cv32F] then .error .invalidDataType
  else if ¬(0 < ksize.1 ∧ ksize.1 % 2 = 1 ∧ 0 < ksize.2 ∧ ksize.2 % 2 = 1) then
    .error .invalidParameter
  else if 4 < inData.numChannels.toInt32 then .error .invalidDataShape
  else .ok (launch inData outData)

/-- `NVCVInterpolationType`. -/
inductive Interpolation where
  | nearest | linear | cubic | area | lanczos | gaussian | max | inverseMap | hamming | box
  deriving DecidableEq

/-- `PillowResize::infer` -/
def pillowResizeInfer (inData outData : Tensor) (interpolation : Interpolation) :
    Except ErrorCode Launch :=
  if inData.layout ≠ outData.layout then .error .invalidDataFormat
  else if inData.layout ∉ [.nhwc, .hwc] then .error .invalidDataFormat
  else if 4 < inData.numChannels.toInt32 then .error .invalidDataShape
  else if inData.dataType ∉ [.cv8U, .cv8S, .cv16U, .cv16S, .cv32S, .cv32F] then
    .error .invalidDataType
  else if interpolation ∉ [.linear, .cubic, .lanczos, .box, .hamming] then .error .invalidParameter
  else .ok (launch inData outData)

/-- What one of the operators launches. -/
inductive Launches (inData outData : Tensor) (l : Launch) : Prop where
  | medianBlur (ksize : Int32 × Int32) (h : medianBlurInfer inData outData ksize = .ok l)
  | pillowResize (interpolation : Interpolation)
      (h : pillowResizeInfer inData outData interpolation = .ok l)

end Cvcuda.Ptr2dNHWC
