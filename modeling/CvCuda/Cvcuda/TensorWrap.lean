import CvCuda.Lib.Strides
import CvCuda.Cvcuda.Ptr2dNHWC

/-! # Tensors of images and their wraps

Tensors of images with channels, as `TensorDataAccessStridedImagePlanar` describes them, and
`TensorWrap` of `cvcuda/cuda_tools_musa/TensorWrap.hpp` with pitches of 32 bits. Sizes are those of
the access functions, `int`s. Memory is a function of the offset from the base pointer.
-/

namespace Cvcuda

open BoxBlur (DataFormat)
open HistogramEq (DataType)
open Ptr2dNHWC (dataSize)

/-- A place in a tensor of images. -/
structure Place where
  n : ℤ
  y : ℤ
  x : ℤ
  c : ℤ
  deriving DecidableEq

/-- A tensor of images. Its data type has some channels of one legacy type; the tensor's own
channels are those of its layout. A tensor without samples has one, with a stride of 0. -/
structure ImageTensor where
  layout : DataFormat
  dataType : DataType
  dtypeChannels : Nat
  numSamples : Int32
  numRows : Int32
  numCols : Int32
  numChannels : Int32
  sampleStride : Int64
  rowStride : Int64
  colStride : Int64
  chStride : Int64

namespace ImageTensor
variable (t : ImageTensor)

/-- `dtype().strideBytes()` -/
def elemSize : Nat := t.dtypeChannels * dataSize t.dataType

/-- The place is in the tensor. -/
def Has (p : Place) : Prop :=
  (0 ≤ p.n ∧ p.n < t.numSamples.toInt) ∧ (0 ≤ p.y ∧ p.y < t.numRows.toInt) ∧
    (0 ≤ p.x ∧ p.x < t.numCols.toInt) ∧ (0 ≤ p.c ∧ p.c < t.numChannels.toInt)

instance (p : Place) : Decidable (t.Has p) := inferInstanceAs (Decidable (_ ∧ _))

/-- The offset of an element. -/
def offset (p : Place) : ℤ :=
  p.n * t.sampleStride.toInt + p.y * t.rowStride.toInt + p.x * t.colStride.toInt +
    p.c * t.chStride.toInt

/-- The dimensions and strides, from the outermost to the innermost. -/
def dims : List (ℤ × ℤ) :=
  let n := (t.numSamples.toInt, t.sampleStride.toInt)
  let h := (t.numRows.toInt, t.rowStride.toInt)
  let w := (t.numCols.toInt, t.colStride.toInt)
  let c := (t.numChannels.toInt, t.chStride.toInt)
  match t.layout with
  | .nhwc | .hwc => [n, h, w, c]
  | .nchw | .chw => [n, c, h, w]

/-- What a type of tensors admits: positive sizes, and strides over what the dimensions inside
reach, except for dimensions of size 1; elements of a row are packed, and in layouts with the
channels last the pixels are, too. -/
structure Admitted : Prop where
  dtypeChannels : 1 ≤ t.dtypeChannels ∧ t.dtypeChannels ≤ 4
  pos : 0 < t.numSamples.toInt ∧ 0 < t.numRows.toInt ∧ 0 < t.numCols.toInt ∧
    0 < t.numChannels.toInt
  single : t.layout = .hwc ∨ t.layout = .chw → t.numSamples = 1 ∧ t.sampleStride = 0
  spans : ∃ r, Strides.Spans t.elemSize t.dims r
  packed : match t.layout with
    | .nhwc | .hwc => t.chStride.toInt = t.elemSize ∧
        t.colStride.toInt = t.numChannels.toInt * t.elemSize
    | .nchw | .chw => 1 < t.numCols.toInt → t.colStride.toInt = t.elemSize

/-- The bytes of a pixel, all its channels. -/
def pixelSize : Nat := t.numChannels.toInt.toNat * t.elemSize

/-- A pixel of a tensor with interleaved channels. -/
def pixel {V : Type} (mem : ℤ → V) (n y x : ℤ) : List V :=
  (List.range t.pixelSize).map fun j : Nat => mem (t.offset ⟨n, y, x, 0⟩ + (j : ℤ))

end ImageTensor

/-- A `TensorWrap` with `int32_t` pitches: those of run time, and then the constant ones. -/
structure TensorWrap where
  strides : List Int32

/-- `ptr`, as an offset from the base pointer: `int32_t` arithmetic, which wraps. -/
def TensorWrap.ptr (w : TensorWrap) (coords : List Int32) : Int32 :=
  (List.zipWith (· * ·) coords w.strides).sum

/-- `CreateTensorWrapNHW<T, int32_t>`, for a `T` of some size. -/
def createTensorWrapNHW (t : ImageTensor) (size : Nat) : TensorWrap where
  strides := [t.sampleStride.toInt32, t.rowStride.toInt32, .ofNat size]

end Cvcuda
