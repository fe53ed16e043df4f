import CvCuda.Lib.Rounding
import CvCuda.Cvcuda.PillowResizeVarShape

/-! # The workspace of Pillow resize

`getWorkspaceRequirements` of `PillowResize`, of `PillowResizeVarShape` and of the operator over the
two, and where `pillow_resize_v2` and `pillow_resize_var_shape` place their buffers.

* Sizes are naturals, taken not to overflow; `double` is exact.
* A pointer has 8 bytes, `int` and `work_type` have 4.
-/

namespace Cvcuda.PillowResize

open Rounding

/-! ## Requirements -/

structure DataShape where
  n : Nat
  c : Nat
  h : Nat
  w : Nat

structure MemRequirements where
  size : Nat := 0
  alignment : Nat := 0
  deriving DecidableEq

structure Requirements where
  hostMem : MemRequirements := {}
  pinnedMem : MemRequirements := {}
  musaMem : MemRequirements := {}
  deriving DecidableEq

/-- `MaxWorkspaceReq` -/
def maxMemReq (a b : MemRequirements) : MemRequirements :=
  let alignment := if a.alignment < b.alignment then b.alignment else a.alignment
  let size := if a.size < b.size then b.size else a.size
  ⟨roundUp size alignment, alignment⟩

def maxWorkspaceReq (a b : Requirements) : Requirements :=
  ⟨maxMemReq a.hostMem b.hostMem, maxMemReq a.pinnedMem b.pinnedMem, maxMemReq a.musaMem b.musaMem⟩

/-- The tables of a sample, before rounding. -/
def tableSize (maxSupport : ℚ) (maxInput maxOutput : DataShape) : ℚ :=
  maxOutput.h * ((((1 * maxInput.h) / maxOutput.h + 1) * maxSupport * 2 + 1) * 4 + 2 * 4) +
    maxOutput.w * ((((1 * maxInput.w) / maxOutput.w + 1) * maxSupport * 2 + 1) * 4 + 2 * 4)

/-- `PillowResize::getWorkspaceRequirements` -/
def tensorRequirements (maxInput maxOutput : DataShape) (dataSize : Nat) : Requirements :=
  let size := ⌈tableSize 1 maxInput maxOutput⌉.toNat +
    maxInput.n * maxInput.c * maxInput.h * maxOutput.w * dataSize
  { musaMem := ⟨size, 256⟩ }

/-- `PillowResizeVarShape::getWorkspaceRequirements` -/
def varShapeRequirements (maxInput maxOutput : DataShape) : Requirements :=
  let size := ⌈tableSize 3 maxInput maxOutput⌉.toNat
  let bufferSize := (8 * 3 + 4 * 12 + 4 * 6 + size) * maxInput.n
  { hostMem := ⟨bufferSize, 16⟩
    musaMem := ⟨bufferSize + maxInput.n * maxInput.c * maxInput.h * maxOutput.w * 4, 256⟩ }

/-- The operator's, for a format of `channels` channels of `dataSize` bytes. -/
def getWorkspaceRequirements (maxBatchSize : Nat) (maxInSize maxOutSize : Nat × Nat)
    (channels dataSize : Nat) : Requirements :=
  let maxIn : DataShape := ⟨maxBatchSize, channels, maxInSize.2, maxInSize.1⟩
  let maxOut : DataShape := ⟨maxBatchSize, channels, maxOutSize.2, maxOutSize.1⟩
  maxWorkspaceReq (tensorRequirements maxIn maxOut dataSize) (varShapeRequirements maxIn maxOut)

/-! ## Buffers -/

structure Buffer where
  offset : Nat
  size : Nat
  deriving DecidableEq

/-- Buffers of the sizes given, one after another. -/
def carve (offset : Nat) : List Nat → List Buffer
  | [] => []
  | size :: sizes => ⟨offset, size⟩ :: carve (offset + size) sizes

/-- The tensors of a call of `pillow_resize_v2`, whose elements have `elemSize` bytes. -/
structure TensorCall where
  filter : Filter
  numSamples : Nat
  channels : Nat
  elemSize : Nat
  item : VarShape.Item

namespace TensorCall

variable (call : TensorCall)

def hPass : Pass := pass call.filter call.item.cols call.item.outCols

def vPass : Pass := pass call.filter call.item.rows call.item.outRows

/-- `h_kk`, `v_kk`, `h_bounds`, `v_bounds`, `d_h_data` -/
def deviceBuffers : List Buffer :=
  carve 0 [call.item.outCols * call.hPass.kSize * 4, call.item.outRows * call.vPass.kSize * 4,
    call.item.outCols * 2 * 4, call.item.outRows * 2 * 4,
    call.numSamples * call.item.rows * call.item.outCols * call.channels * call.elemSize]

end TensorCall

namespace VarShape.Call

variable (call : Call)

/-- `inputs`, `outputs`, `hori`; `rows` to `roi_y`; `h_scale_batch` to `v_support_batch`;
`h_k_size_batch` to `v_kk_offset` -/
def arraySizes : List Nat :=
  .replicate 3 (8 * call.items.length) ++ .replicate 6 (4 * call.items.length) ++
    .replicate 6 (4 * call.items.length) ++ .replicate 6 (4 * call.items.length)

/-- `current_buffer_size` -/
def currentBufferSize : Nat :=
  (8 * 3 + 4 * 12 + 4 * 6) * call.items.length +
    4 * (call.totals.hKkTotal + call.totals.vKkTotal) +
    4 * (call.totals.hBoundsTotal + call.totals.vBoundsTotal)

/-- The arrays, and what is copied to the device. -/
def hostBuffers : List Buffer := carve 0 call.arraySizes ++ [⟨0, call.currentBufferSize⟩]

/-- The arrays; `h_kk_batch_gpu` to `v_bounds_batch_gpu`; what is copied; `hori_gpu_data` -/
def deviceBuffers : List Buffer :=
  carve 0 (call.arraySizes ++ [4 * call.totals.hKkTotal, 4 * call.totals.vKkTotal,
    4 * call.totals.hBoundsTotal, 4 * call.totals.vBoundsTotal]) ++
    [⟨0, call.currentBufferSize⟩, ⟨call.currentBufferSize,
      call.items.length * call.maxInputHeight * call.maxWidth * call.channels * 4⟩]

end VarShape.Call

end Cvcuda.PillowResize
