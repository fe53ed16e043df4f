import CvCuda.Nvcv.ImageFormat
import CvCuda.Nvcv.Math
import CvCuda.Nvcv.TensorData

/-! # Tensors: their requirements, and wrapping their data again

`Tensor::CalcRequirements` and `Tensor::exportData` of `nvcv/priv_musa/Tensor.cpp`,
`ValidateTensorBufferStrided` of `TensorWrapDataStrided.cpp`, and what they use of
`TensorLayout.cpp`, `DataType.cpp` and `Requirements.cpp`.

* A call has no outcome where it overruns an array or a size overflows `int64_t`.
* The `int`s of `ValidateTensorBufferStrided` wrap, as they are compiled: it narrows the sizes
  and strides it compares.
-/

namespace Nvcv

open Outcome

/-! ## Layouts -/

namespace TensorLayout
variable (layout : TensorLayout)

/-- The labels lie in the array. -/
def InBounds : Prop := 0 ≤ layout.rank ∧ layout.rank ≤ 16

instance : Decidable layout.InBounds := inferInstanceAs (Decidable (_ ∧ _))

/-- `CreateLast` of a number that is not negative: the labels of the new layout. -/
def createLast (n : Nat) : Call (List UInt8) := do
  let rank := min n layout.labels.length
  refuse (tensorMaxRank < rank)
    (.nvcv .invalidArgument s!"Layout rank must be <= {tensorMaxRank}")
  if layout.InBounds then return layout.labels.drop (layout.labels.length - rank)
  else (none : Option (List UInt8))

/-- `IsChannelLast`. -/
def isChannelLast : Option Bool :=
  if layout.rank = 0 then some true
  else if layout.InBounds then some (layout.labels.getLast? = some 'C'.toUInt8)
  else none

/-- `NVCV_TENSOR_WC`. -/
def wc : List UInt8 := ['W'.toUInt8, 'C'.toUInt8]

end TensorLayout

/-! ## Data types -/

namespace DataType

def packing (dtype : DataType) : BitVec 64 := ImageFormat.planePacking dtype 0

def strideBytes (dtype : DataType) : Int32 :=
  .ofNat ((Packing.bitsPerPixelOf dtype.packing + 7) / 8)

/-- `DataType::alignment`. -/
def alignment (dtype : DataType) : Option Int32 :=
  (Packing.alignmentOf dtype.packing).map .ofNat

end DataType

/-! ## Memory requirements -/

/-- `NVCV_MAX_MEM_REQUIREMENTS_LOG2_BLOCK_SIZE`. -/
abbrev maxLog2BlockSize : Nat := 32

/-- `NVCVMemRequirements`: the number of blocks of each size. -/
abbrev MemRequirements := Vector Int64 maxLog2BlockSize

/-- `AddBuffer`. -/
def addBuffer (memReq : MemRequirements) (bufSize bufAlignment : Int64) :
    Call MemRequirements := do
  refuse (bufAlignment ≤ 0)
    (.nvcv .invalidArgument s!"Buffer alignment must be > 0, not {bufAlignment.toInt}")
  refuse (¬isPowerOfTwo bufAlignment)
    (.nvcv .invalidArgument
      s!"Buffer alignment must be a power of two, not {bufAlignment.toInt}")
  let log2Align := iLog2 bufAlignment
  if h : log2Align < maxLog2BlockSize then
    let bufAbs ← int64? bufSize.toInt.natAbs
    let numBlocks := divUpPowerOfTwo bufAbs bufAlignment
    let blocks := memReq[log2Align]
    if 0 ≤ bufSize then
      refuse (blocks > Int64.maxValue - numBlocks)
        (.nvcv .overflow
          (s!"Number of blocks with alignment {bufAlignment.toInt} would overflow, buffer size " ++
            s!"must be <= {(Int64.maxValue - blocks).toInt}, not {numBlocks.toInt}"))
      return memReq.set log2Align (blocks + numBlocks)
    else return memReq.set log2Align (max 0 (blocks - numBlocks))
  else
    throw (.nvcv .invalidArgument
      s!"Buffer alignment must be <= {2 ^ maxLog2BlockSize}, not {bufAlignment.toInt}")

/-! ## CalcRequirements -/

/-- What the runtime answers about the current device, whose texture pitch alignment is a power
of two. -/
structure Device where
  getDevice : Except Exception Unit
  texturePitchAlignment : Except Exception Int32
  textureAlignment : Except Exception Int32
  isPow2 : ∀ a, texturePitchAlignment = .ok a → ∃ k < 31, a.toInt = 2 ^ k

/-- `NVCVTensorRequirements`. -/
structure TensorRequirements where
  dtype : DataType
  layout : TensorLayout
  rank : Nat
  rank_le : rank ≤ tensorMaxRank
  shape : Vector Int64 tensorMaxRank
  strides : Vector Int64 tensorMaxRank
  alignBytes : Int32
  cudaMem : MemRequirements

instance : DecidableEq TensorRequirements := fun r s =>
  decidable_of_iff (r.dtype = s.dtype ∧ r.layout = s.layout ∧ r.rank = s.rank ∧
      r.shape = s.shape ∧ r.strides = s.strides ∧ r.alignBytes = s.alignBytes ∧
      r.cudaMem = s.cudaMem)
    (by cases r; cases s; simp)

namespace Tensor

/-- "Calculate row pitch alignment". -/
def rowAlignment (dev : Device) (dtype : DataType) (userRowAlign : Int32) : Call Int32 :=
  if userRowAlign = 0 then do
    let rowAlign ← (ExceptT.mk (some dev.texturePitchAlignment) : Call Int32)
    let rowAlign := min rowAlign 32
    -- an `int64_t` narrowed to `int`
    return .ofInt (Int.lcm rowAlign.toInt (roundUpNextPowerOfTwo dtype.strideBytes).toInt)
  else do
    refuse (¬isPowerOfTwo userRowAlign)
      (.nvcv .invalidArgument
        s!"Invalid pitch alignment of {userRowAlign.toInt}, it must be a power-of-two")
    let alignment ← dtype.alignment
    lcm userRowAlign alignment

/-- "Calculate base address alignment". -/
def baseAlignment (dev : Device) (rowAlign userBaseAlign : Int32) : Call Int32 :=
  if userBaseAlign = 0 then do
    let addrAlign ← (ExceptT.mk (some dev.textureAlignment) : Call Int32)
    let alignBytes ← lcm addrAlign rowAlign
    let alignBytes := (roundUpNextPowerOfTwo alignBytes).toInt32
    refuse (alignBytes.toInt > 2 ^ maxLog2BlockSize)
      (.nvcv .invalidArgument
        (s!"Alignment requirement of {alignBytes.toInt} is larger than the maximum allowed " ++
          s!"{2 ^ maxLog2BlockSize}"))
    return alignBytes
  else do
    refuse (¬isPowerOfTwo userBaseAlign)
      (.nvcv .invalidArgument
        s!"Invalid base address alignment of {userBaseAlign.toInt}, it must be a power-of-two")
    lcm rowAlign userBaseAlign

/-- The strides of the dimensions from `d` on, computed from the last one down. -/
def calcStrides (elem : Int64) (firstPacked : Nat) (rowAlign : Int32) :
    Nat → List Int64 → Option (List Int64)
  | _, [] => some []
  | _, [_] => some [elem]
  | d, _ :: n :: ns => do
    let s :: ss ← calcStrides elem firstPacked rowAlign (d + 1) (n :: ns) | none
    let packed ← int64? (n.toInt * s.toInt)
    let stride ← if d + 1 = firstPacked then roundUpPowerOfTwo packed rowAlign else some packed
    return stride :: s :: ss

/-- `Tensor::CalcRequirements`. The elements of the arrays past the rank, which it leaves as they
are, are zero. -/
def calcRequirements (dev : Device) (rank : Int32) (shape : Nat → Int64) (dtype : DataType)
    (layout : TensorLayout) (userBaseAlign userRowAlign : Int32) : Call TensorRequirements := do
  refuse (layout.rank > 0 ∧ rank ≠ layout.rank)
    (.nvcv .invalidArgument
      (s!"Number of shape dimensions {rank.toInt} must be equal to layout dimensions " ++
        s!"{layout.rank.toInt}"))
  refuse (rank ≤ 0)
    (.nvcv .invalidArgument s!"Number of dimensions must be >= 1, not {rank.toInt}")
  if h : rank.toInt.toNat ≤ tensorMaxRank then
    let sh := targetShape rank shape
    (ExceptT.mk (some dev.getDevice) : Call Unit)
    let rowAlign ← rowAlignment dev dtype userRowAlign
    let alignBytes ← baseAlignment dev rowAlign userBaseAlign
    let last ← layout.createLast 2
    let firstPacked := if last = TensorLayout.wc then sh.length - 2 else sh.length - 1
    let strides ← calcStrides dtype.strideBytes.toInt64 firstPacked rowAlign 0 sh
    let bufSize ← int64? ((strides.headD 0).toInt * (sh.headD 0).toInt)
    let cudaMem ← addBuffer (.replicate _ 0) bufSize alignBytes.toInt64
    return {
      dtype, layout, rank := rank.toInt.toNat, rank_le := h
      shape := overwrite (.replicate _ 0) sh
      strides := overwrite (.replicate _ 0) strides
      alignBytes, cudaMem }
  else (none : Option TensorRequirements)

end Tensor

/-- `Tensor::exportData` of a tensor with the requirements and the buffer. -/
def TensorRequirements.exportData (reqs : TensorRequirements) (memBuffer : BitVec 64) :
    TensorData where
  dtype := reqs.dtype
  layout := reqs.layout
  rank := reqs.rank
  rank_le := reqs.rank_le
  shape := reqs.shape
  strides := reqs.strides
  basePtr := memBuffer

/-! ## ValidateTensorBufferStrided -/

/-- Both loops over the dimensions, for those from `d` on: the second goes on where the first
stops. The last stride and size considered start as those of the last dimension. -/
def testDims (elem : Int32) (firstPacked : Nat) :
    Nat → List (Int64 × Int64) → Except Exception (Int32 × Int32)
  | _, [] => .ok (0, 0)
  | d, (n, s) :: ds => do
    let (prevStride, prevSize) ←
      if ds = [] then .ok (s.toInt32, n.toInt32) else testDims elem firstPacked (d + 1) ds
    if n ≤ 1 then return (prevStride, prevSize)
    if firstPacked ≤ d then
      let correctPitch := if ds = [] then elem else prevStride * prevSize
      if s ≠ correctPitch.toInt64 then
        throw (.nvcv .invalidArgument
          (s!"Pitch of dimension {d} must be == {correctPitch.toInt} (packed)" ++
            s!", but it is {s.toInt}"))
    else
      let minPitch := prevStride * prevSize
      if s < minPitch.toInt64 then
        throw (.nvcv .invalidArgument
          s!"Pitch of dimension {d} must be >= {minPitch.toInt}, but it is {s.toInt}")
    return (s.toInt32, n.toInt32)

/-- The loop that tests the shape. -/
def testShape : Nat → List Int64 → Except Exception Unit
  | _, [] => .ok ()
  | i, n :: ns =>
    if n < 1 then
      .error (.nvcv .invalidArgument s!"Shape #{i} must be >= 1, not {n.toInt}")
    else testShape (i + 1) ns

/-- `ValidateTensorBufferStrided`. -/
def validateTensorBufferStrided (tdata : TensorData) : Call Unit := do
  refuse (tdata.basePtr = 0#64) (.nvcv .invalidArgument "Memory buffer must not be NULL")
  refuse (tdata.rank = 0)
    (.nvcv .invalidArgument s!"Number of dimensions must be >= 1, not {tdata.rank}")
  (ExceptT.mk (some (testShape 0 (tdata.dims.map Prod.fst))) : Call Unit)
  let channelLast ← tdata.layout.isChannelLast
  let firstPacked := if channelLast then tdata.rank - 2 else tdata.rank - 1
  let _ ← (ExceptT.mk (some (testDims tdata.dtype.strideBytes firstPacked 0 tdata.dims)) :
    Call (Int32 × Int32))

end Nvcv
