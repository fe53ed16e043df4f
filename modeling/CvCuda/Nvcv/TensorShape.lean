import CvCuda.Lib.Labelled
import CvCuda.Nvcv.Tensor

/-! # Tensor shapes and their permutation

`FindDimIndex` of `nvcv/priv_musa/TensorLayout.cpp`, `PermuteShape` of `TensorShape.cpp` there, and
`TensorShape` and `Permute` of `nvcv/TensorShape.hpp`.

* A call has no outcome where it reads or writes past an array, or where an assertion fails.
-/

namespace Nvcv

open Outcome

namespace TensorLayout

/-- `NVCV_TENSOR_LAYOUT_MAKE`. -/
def make (labels : List Char) : TensorLayout where
  data := .ofFn fun i => ((labels.map fun c => c.toUInt8)[i]?).getD 0
  rank := .ofNat labels.length

/-- `FindDimIndex`, and `TensorLayout::find` from the first label on. -/
def findDimIndex (layout : TensorLayout) (dimLabel : UInt8) : Int :=
  if dimLabel ∈ layout.labels then layout.labels.idxOf dimLabel else -1

end TensorLayout

/-- `PermuteShape`: what is in the array of the destination afterwards. -/
def permuteShape (srcLayout : TensorLayout) (srcShape : Option (List Int64))
    (dstLayout : TensorLayout) (dstShape : Option (List Int64)) : Call (List Int64) := do
  let some src := srcShape
    | throw (.nvcv .invalidArgument "Pointer to source shape cannot be NULL")
  let some dst := dstShape
    | throw (.nvcv .invalidArgument "Pointer to destination shape cannot be NULL")
  if srcLayout.InBounds ∧ dstLayout.InBounds ∧ srcLayout.labels.length ≤ src.length ∧
      dstLayout.labels.length ≤ dst.length then
    let n := dstLayout.labels.length
    let dst := List.replicate n 1 ++ dst.drop n
    return (srcLayout.labels.zip src).foldl (fun dst p =>
      let dstIdx := dstLayout.findDimIndex p.1
      if dstIdx ≥ 0 then dst.set dstIdx.toNat p.2 else dst) dst
  else (none : Option (List Int64))

/-- `TensorShape`. -/
structure TensorShape where
  shape : List Int64
  layout : TensorLayout
  rank_le : shape.length ≤ tensorMaxRank
  inBounds : layout.InBounds
  rank_eq : layout.rank ≠ 0 → layout.labels.length = shape.length
  deriving DecidableEq

namespace TensorShape

/-- The constructor that takes a shape and a layout. -/
def make (shape : List Int64) (layout : TensorLayout) : Call TensorShape := do
  refuse (layout.rank ≠ 0 ∧ layout.labels.length ≠ shape.length)
    (.nvcv .invalidArgument "Layout dimensions must match shape dimensions")
  if h : (shape.length ≤ tensorMaxRank ∧ layout.InBounds) ∧
      (layout.rank ≠ 0 → layout.labels.length = shape.length) then
    return ⟨shape, layout, h.1.1, h.1.2, h.2⟩
  else (none : Option TensorShape)

/-- `Permute`. -/
def permute (src : TensorShape) (dstLayout : TensorLayout) : Call TensorShape := do
  if dstLayout.InBounds ∧ dstLayout.labels.length ≤ tensorMaxRank ∧ src.shape ≠ [] ∧
      dstLayout.rank ≠ 0 then
    let dst := List.replicate dstLayout.labels.length 0
    let dst ← permuteShape src.layout (some src.shape) dstLayout (some dst)
    make dst dstLayout
  else (none : Option TensorShape)

/-- What the labels stand for: the size of their last dimension, 1 where they have none. -/
def size (src : TensorShape) : UInt8 → Int64 :=
  Labelled.values (src.layout.labels.zip src.shape)

end TensorShape

end Nvcv
