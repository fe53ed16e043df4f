import CvCuda.Nvcv.TensorShape

/-! # Access to the planes of strided image tensors

`TensorLayoutInfo` and `TensorLayoutInfoImage` of `nvcv/TensorLayoutInfo.hpp`, `TensorShapeInfoImage`
and `TensorShapeInfoImagePlanar` of `nvcv/TensorShapeInfo.hpp`, and
`TensorDataAccessStridedImagePlanar` of `nvcv/TensorDataAccess.hpp`.

* The cached sizes are `int`s, to which the sizes of the shape are narrowed. Pointers and the
  products that are added to them wrap.
-/

namespace Nvcv

/-! ## Labels -/

namespace TensorLayout
variable (layout : TensorLayout)

/-- `nvcvTensorLayoutGetLabel`. -/
def getLabel (idx : Int) : UInt8 :=
  let idx := if idx < 0 then layout.labels.length + idx else idx
  if 0 ≤ idx ∧ idx < layout.labels.length then layout.labels.getD idx.toNat 0 else 0

/-- `nvcvTensorLayoutEndsWith`. -/
def endsWith (test : List UInt8) : Bool := test.isSuffixOf layout.labels

abbrev labelBatch : UInt8 := 'N'.toUInt8
abbrev labelChannel : UInt8 := 'C'.toUInt8
abbrev labelHeight : UInt8 := 'H'.toUInt8
abbrev labelWidth : UInt8 := 'W'.toUInt8

/-! ## TensorLayoutInfoImage -/

def isBatch : Bool := layout.labels.length > 0 ∧ layout.getLabel 0 = labelBatch

def isImage : Bool := layout.rank ≠ 0 ∧ layout.findDimIndex labelWidth ≥ 0

def idxSample : Int := if layout.isBatch then 0 else -1

def isRowMajor : Bool := layout.endsWith [labelWidth] || layout.endsWith wc

def idxChannel : Int := layout.findDimIndex labelChannel

def idxWidth : Int := layout.findDimIndex labelWidth

def idxHeight : Int := layout.findDimIndex labelHeight

def hasChannel : Bool := layout.idxChannel ≥ 0

/-- `isChannelFirst` of an image layout. -/
def isChannelFirst : Bool :=
  layout.rank ≠ 0 ∧
    if layout.isBatch then layout.getLabel 1 = labelChannel else layout.getLabel 0 = labelChannel

/-- `isChannelLast` of an image layout. -/
def infoIsChannelLast : Bool :=
  layout.rank ≠ 0 ∧
    (layout.getLabel (layout.labels.length - 1) = labelChannel ∨ layout.hasChannel = false)

/-- `TensorShapeInfoImagePlanar::IsCompatible`, which looks at the layout only. It has no value
where the assertion fails. -/
def isPlanarCompatible : Option Bool :=
  if layout.isImage then
    if layout.isRowMajor ∧ (layout.isChannelFirst ∨ layout.infoIsChannelLast) then
      let iheight := layout.idxHeight
      if iheight ≥ 0 then
        if iheight + 1 < layout.labels.length then
          -- *HWC, [^C]*HW, *CHW
          some (layout.getLabel (iheight + 1) = labelWidth ∧
            (iheight = 0 ∨ layout.infoIsChannelLast ∨
              layout.getLabel (iheight - 1) = labelChannel))
        else none
      else
        let ichannel := layout.idxChannel
        -- [^HC]*W, [^H]*CW, [^H]*WC
        some (ichannel = -1 ∨ ichannel ≥ layout.labels.length - 2)
    else some false
  else some false

end TensorLayout

/-! ## TensorDataAccessStridedImagePlanar -/

/-- Strided data of a shape that `TensorDataAccessStridedImagePlanar` takes. -/
structure PlanarAccess where
  tshape : TensorShape
  strides : List Int64
  basePtr : BitVec 64
  length_strides : strides.length = tshape.shape.length
  compatible : tshape.layout.isPlanarCompatible = some true

namespace PlanarAccess
variable (access : PlanarAccess)

/-- The layout. -/
abbrev layout : TensorLayout := access.tshape.layout

/-- The size of a dimension, narrowed, or `otherwise` where there is none. -/
def cachedSize (idx : Int) (otherwise : Int32) : Int32 :=
  if idx ≥ 0 then (access.tshape.shape.getD idx.toNat 0).toInt32 else otherwise

/-- The stride of a dimension, or zero where there is none. -/
def stride (idx : Int) : Int64 :=
  if idx ≥ 0 then access.strides.getD idx.toNat 0 else 0

def numSamples : Int32 := access.cachedSize access.layout.idxSample 1

def numChannels : Int32 := access.cachedSize access.layout.idxChannel 1

def numCols : Int32 := access.cachedSize access.layout.idxWidth 1

def numRows : Int32 := access.cachedSize access.layout.idxHeight 1

def numPlanes : Int32 :=
  if access.layout.infoIsChannelLast then 1 else access.cachedSize access.layout.idxChannel 1

def sampleStride : Int64 := access.stride access.layout.idxSample

def chStride : Int64 := access.stride access.layout.idxChannel

def colStride : Int64 := access.stride access.layout.idxWidth

def rowStride : Int64 := access.stride access.layout.idxHeight

def planeStride : Int64 :=
  if access.layout.isChannelFirst then access.stride access.layout.idxChannel else 0

/-- The bytes `stride * n`. -/
def bytes (stride : Int64) (n : Nat) : BitVec 64 := stride.toBitVec * BitVec.ofNat 64 n

def sampleData (n : Nat) : BitVec 64 := access.basePtr + bytes access.sampleStride n

def planeData (p : Nat) (base : BitVec 64) : BitVec 64 := base + bytes access.planeStride p

def rowData (y : Nat) (base : BitVec 64) : BitVec 64 := base + bytes access.rowStride y

def chData (c : Nat) (base : BitVec 64) : BitVec 64 := base + bytes access.chStride c

end PlanarAccess

end Nvcv
