import Mathlib.Data.BitVec
import CvCuda.Cvcuda.HistogramEq

/-! # Histograms

`Histogram` of `priv_musa/legacy/calc_hist.mu`.

* The additions of a launch's threads come in any order, those to a block's `shist` before the
  block reads it.
* `int` arithmetic wraps around; a launch with sizes that the device does not have ends in
  `abort()`.
* Where memory is little-endian, the first bytes of an entry are its low ones.
-/

namespace Cvcuda.Histogram

open Kernel
open BoxBlur (ErrorCode DataFormat)
open HistogramEq (DataType)

/-! ## Data -/

/-- A size, which is an `int`. -/
abbrev Size := Fin (2 ^ 31)

structure DataShape where
  n : Size
  c : Size
  h : Size
  w : Size
  deriving DecidableEq

/-- 8-bit values by image, row and column. -/
abbrev Pixels := Nat → Nat → Nat → BitVec 8

structure Tensor where
  layout : DataFormat
  dtype : DataType
  shape : DataShape
  pixels : Pixels

/-- The histogram's tensor without its entries. -/
structure HistoTensor where
  layout : DataFormat
  shape : DataShape

/-- 32-bit entries by row and column. -/
abbrev Entries := Nat × Nat → BitVec 32

structure Call where
  inData : Tensor
  mask : Option Tensor
  histogram : HistoTensor

/-! ## Clearing -/

/-- An entry with its first bytes cleared. -/
def clearBytes (bytes : Nat) (entry : BitVec 32) : BitVec 32 :=
  (entry >>> (8 * bytes)) <<< (8 * bytes)

/-- `musaMemset2DAsync` with zeros: so many bytes in each of so many rows. -/
def memset2D (width height : Nat) (m : Entries) : Entries := fun k =>
  if k.1 < height then clearBytes (min 4 (width - 4 * k.2)) (m k) else m k

/-! ## The kernel -/

/-- The number of threads of a block, each of which has a bin. -/
def threadsBlock : Nat := 256

/-- A thread of `calc_hist_kernel`, with or without a mask: the bin that it counts in. -/
def counted (call : Call) (numPixels batchIdx tid : Nat) : Option Nat :=
  let x := tid % call.inData.shape.w.val
  let y := tid / call.inData.shape.w.val
  if tid < numPixels then
    match call.mask with
    | none => some (call.inData.pixels batchIdx y x).toNat
    | some mask =>
      if mask.pixels batchIdx y x ≠ 0 then some (call.inData.pixels batchIdx y x).toNat else none
  else none

/-- What the threads of a block add to `shist`. -/
def blockAdds (call : Call) (numPixels batchIdx blockIdx : Nat) : List (Nat × Nat) :=
  (List.range threadsBlock).filterMap fun threadIdx =>
    (counted call numPixels batchIdx (blockIdx * threadsBlock + threadIdx)).map (·, 1)

/-- A block's `shist` after an order of its additions. -/
def BlockHist (call : Call) (numPixels batchIdx blockIdx : Nat) (shist : Nat → Nat) : Prop :=
  ∃ order : List (Nat × Nat), order.Perm (blockAdds call numPixels batchIdx blockIdx) ∧
    shist = addAll order fun _ => 0

/-- What the blocks of a grid add to the histogram. -/
def gridAdds (gridX gridZ : Nat) (shist : (batchIdx blockIdx : Nat) → Nat → Nat) :
    List ((Nat × Nat) × BitVec 32) :=
  (List.range gridZ).flatMap fun batchIdx => (List.range gridX).flatMap fun blockIdx =>
    (List.range threadsBlock).filterMap fun subTid =>
      if 0 < shist batchIdx blockIdx subTid then
        some ((batchIdx, subTid), BitVec.ofNat 32 (shist batchIdx blockIdx subTid))
      else none

/-! ## `infer` -/

/-- The rest of a call: `abort()`, an error, or a launch with these sizes. -/
inductive Result where
  | abort
  | error (code : ErrorCode) (histogram : Entries)
  | launch (gridX gridZ numPixels : Nat) (cleared : Entries)

/-- `rows * cols`, and the blocks for so many pixels. -/
@[irreducible] def gridSize (shape : DataShape) : Int × Int :=
  let numPixels := ((shape.h.val * shape.w.val : Nat) : Int).bmod (2 ^ 32)
  (numPixels, ((numPixels + 255).bmod (2 ^ 32)).tdiv 256)

/-- `<<< >>>` and `checkKernelErrors`, on a device with grids at most `maxGridZ` deep. -/
def launch (maxGridZ : Nat) (shape : DataShape) (cleared : Entries) : Result :=
  let (numPixels, gridX) := gridSize shape
  if 0 < gridX ∧ 0 < shape.n.val ∧ shape.n.val ≤ maxGridZ then
    .launch gridX.toNat shape.n.val numPixels.toNat cleared
  else .abort

/-- `Histogram::infer` -/
def infer (maxGridZ : Nat) (call : Call) (histogram : Entries) : Result :=
  if call.inData.layout ∉ [.nhwc, .hwc] then .error .invalidDataFormat histogram
  else if call.histogram.layout ∉ [.nhwc, .hwc] then .error .invalidDataFormat histogram
  else if call.inData.dtype ≠ .cv8U then .error .invalidDataType histogram
  else if call.inData.shape.n ≠ call.histogram.shape.h then .error .invalidDataShape histogram
  else if call.inData.shape.c.val ≠ 1 then .error .invalidDataShape histogram
  else
    let cleared := memset2D call.histogram.shape.w.val call.histogram.shape.h.val histogram
    match call.mask with
    | none => launch maxGridZ call.inData.shape cleared
    | some mask =>
      if mask.shape ≠ call.inData.shape then .error .invalidDataShape cleared
      else launch maxGridZ call.inData.shape cleared

/-- An order of the additions leaves `m` in the histogram. -/
def Leaves (call : Call) (m : Entries) : Result → Prop
  | .abort => False
  | .error _ histogram => m = histogram
  | .launch gridX gridZ numPixels cleared =>
    ∃ shist : (batchIdx blockIdx : Nat) → Nat → Nat,
      (∀ batchIdx blockIdx, BlockHist call numPixels batchIdx blockIdx (shist batchIdx blockIdx)) ∧
        ∃ order : List ((Nat × Nat) × BitVec 32), order.Perm (gridAdds gridX gridZ shist) ∧
          m = addAll order cleared

end Cvcuda.Histogram
