import CvCuda.Lib.Rank
import CvCuda.Lib.Kernel
import CvCuda.Cvcuda.HistogramEq

/-! # Median filter

The two kernels of `MedianBlur` in `priv_musa/legacy/median_blur.mu` and what launches one of them,
for elements of any type with a total order.

* To fetch outside of the window is an error, and so is what a loop does that takes more turns than
  the window has elements. Kernels look for neither: what they give is `none` then.
* The threads of a block are in step at its one barrier; else they come in any order.
* `int` arithmetic is taken not to overflow.
-/

namespace Cvcuda.MedianBlur

open Kernel

variable {T : Type} [LinearOrder T]

/-! ## The window -/

/-- A channel of an image, by row and column. -/
abbrev Plane (T : Type) := Nat → Nat → T

/-- Where a thread is. -/
structure Position where
  blockX : Nat
  blockY : Nat
  tx : Nat
  ty : Nat

def Position.x (p : Position) : Nat := p.blockX + p.tx

def Position.y (p : Position) : Nat := p.blockY + p.ty

/-- `tails` at the barrier, over what was there. -/
def loadTails (src : Plane T) (h w blockSize : Nat) (p : Position) (before : Nat → T) : Nat → T :=
  fun i =>
    let x := p.blockX + i % blockSize
    let y := p.blockY + i / blockSize
    if i < blockSize * blockSize ∧ x < w ∧ y < h then src y x else before i

/-- `fetch` -/
def fetch (shared : Nat → T) (src : Plane T) (h w sxOffset syOffset : Nat) (gx gy : Int)
    (blockSize : Nat) : T :=
  let gx : Int := if gx < 0 then 0 else gx
  let gx : Int := if w ≤ gx then w - 1 else gx
  let gy : Int := if gy < 0 then 0 else gy
  let gy : Int := if h ≤ gy then h - 1 else gy
  if gy - syOffset < 0 ∨ blockSize ≤ gy - syOffset ∨ gx - sxOffset < 0 ∨
      blockSize ≤ gx - sxOffset then
    src gy.toNat gx.toNat
  else shared ((gy - syOffset) * blockSize + gx - sxOffset).toNat

/-- `fetchAs1d`, on an index of the window. -/
def fetchAs1d (shared : Nat → T) (src : Plane T) (h w kWidth kHeight : Nat) (p : Position)
    (blockSize idx : Nat) : Option T :=
  if idx < kWidth * kHeight then
    some (fetch shared src h w p.blockX p.blockY (p.x - (kWidth / 2 : Nat) + (idx % kWidth : Nat))
      (p.y - (kHeight / 2 : Nat) + (idx / kWidth : Nat)) blockSize)
  else none

/-! ## Selection in place -/

/-- The range that the median is looked for in. -/
structure Range (T : Type) where
  min_ : Option T
  max_ : Option T

/-- `(isMinReady && (min_ >= pivot)) || (isMaxReady && (max_ <= pivot))` -/
def Range.outOf (r : Range T) (pivot : T) : Bool :=
  r.min_.any (pivot ≤ ·) || r.max_.any (· ≤ pivot)

/-- `(!isMinReady || min_ < tmp) && (!isMaxReady || tmp < max_)` -/
def Range.has (r : Range T) (tmp : T) : Bool := r.min_.all (· < tmp) && r.max_.all (tmp < ·)

structure Search (T : Type) where
  range : Range T
  numOfTaken : Nat
  median : Nat
  start : Nat
  stop : Nat
  isAllPreviousOutOfRange : Bool

variable (window : Nat → Option T)

/-- The first element from `start` on that is in range. -/
def seekStart (r : Range T) : (fuel start : Nat) → Option (Nat × T)
  | 0, _ => none
  | fuel + 1, start => do
    let pivot0 ← window start
    if r.outOf pivot0 then seekStart r fuel (start + 1) else some (start, pivot0)

/-- The last element before `end` that is in range. -/
def seekEnd (r : Range T) : (fuel stop : Nat) → Option (Nat × T)
  | 0, _ => none
  | _, 0 => none
  | fuel + 1, stop + 1 => do
    let pivot2 ← window stop
    if r.outOf pivot2 then seekEnd r fuel stop else some (stop + 1, pivot2)

/-- The next element from `idx` on that is in range, going round from `end` to `start`. -/
def seekMiddle (r : Range T) (start stop : Nat) : (fuel idx : Nat) → Option T
  | 0, _ => none
  | fuel + 1, idx => do
    let pivot1 ← window idx
    if r.outOf pivot1 then
      seekMiddle r start stop fuel (if stop ≤ idx + 1 then start else idx + 1)
    else some pivot1

def choosePivot (pivot0 pivot1 pivot2 : T) : T :=
  if pivot0 < pivot1 ∧ pivot1 < pivot2 then pivot1
  else if pivot0 < pivot2 ∧ pivot2 < pivot1 then pivot2
  else pivot0

/-- What the elements in range come to against the pivot. -/
structure Counts where
  numOfLt : Nat
  numOfEq : Nat
  numOfGt : Nat
  start : Nat
  stop : Nat
  isAllPreviousOutOfRange : Bool

def countElement (r : Range T) (pivot0 : T) (c : Counts) (i : Nat) : Option Counts := do
  let tmp ← window i
  if r.has tmp then
    some {
      numOfGt := if pivot0 < tmp then c.numOfGt + 1 else c.numOfGt
      numOfLt := if tmp < pivot0 then c.numOfLt + 1 else c.numOfLt
      numOfEq := if pivot0 < tmp ∨ tmp < pivot0 then c.numOfEq else c.numOfEq + 1
      start := if c.isAllPreviousOutOfRange then i else c.start
      isAllPreviousOutOfRange := false
      stop := i + 1 }
  else some c

/-- A turn of the loop: the median, or a smaller range, and the pivot. -/
def turn (fuel : Nat) (s : Search T) : Option (Option (Search T) × T) := do
  let (start, pivot0) ← seekStart window s.range fuel s.start
  let (stop, pivot2) ← seekEnd window s.range fuel s.stop
  let pivot1 ← seekMiddle window s.range start stop fuel ((start + stop) / 2)
  let pivot0 := choosePivot pivot0 pivot1 pivot2
  let c ← (List.range' start (stop - start)).foldlM (countElement window s.range pivot0)
    ⟨0, 0, 0, start, stop, s.isAllPreviousOutOfRange⟩
  let s := { s with
    start := c.start
    stop := c.stop
    isAllPreviousOutOfRange := c.isAllPreviousOutOfRange }
  if s.median < c.numOfLt then
    some (some { s with
      range := { s.range with max_ := some pivot0 }
      numOfTaken := s.numOfTaken + c.numOfEq + c.numOfGt }, pivot0)
  else if s.median < c.numOfLt + c.numOfEq then some (none, pivot0)
  else
    some (some { s with
      range := { s.range with min_ := some pivot0 }
      median := s.median - c.numOfLt - c.numOfEq
      numOfTaken := s.numOfTaken + c.numOfLt + c.numOfEq }, pivot0)

/-- The loop, and the last pivot. -/
def search (size : Nat) : (fuel : Nat) → Search T → Option T → Option T
  | 0, _, _ => none
  | fuel + 1, s, pivot0 =>
    if s.numOfTaken < size then
      match turn window (size + 1) s with
      | none => none
      | some (none, pivot0) => some pivot0
      | some (some s, pivot0) => search size fuel s (some pivot0)
    else pivot0

/-- `median`, for one pixel. -/
def median (size : Nat) : Option T :=
  search window size (size + 1) ⟨⟨none, none⟩, 0, size / 2, 0, size, true⟩ none

/-! ## Quickselect -/

/-- `val = arr[j]; arr[j] = arr[i]; arr[i] = val` -/
def swap (arr : Nat → T) (i j : Nat) : Nat → T :=
  Function.update (Function.update arr j (arr i)) i (arr j)

/-- What `partition` has in a turn of its loop. -/
structure Parting (T : Type) where
  arr : Nat → T
  i : Nat
  numOfEq : Nat

def partitionTurn (pvt : T) (s : Parting T) (j : Nat) : Parting T :=
  let val := s.arr j
  let numOfEq := if val = pvt then s.numOfEq + 1 else s.numOfEq
  if val < pvt then ⟨swap s.arr s.i j, s.i + 1, numOfEq⟩ else ⟨s.arr, s.i, numOfEq⟩

/-- `partition`: the array, the place of the pivot, and `numOfEq`. -/
def partition (arr : Nat → T) (length : Nat) (pvt : T) : Parting T :=
  let s := (List.range' 1 (length - 1)).foldl (partitionTurn pvt) ⟨arr, 1, 1⟩
  ⟨swap s.arr (s.i - 1) 0, s.i - 1, s.numOfEq⟩

/-- `placePivot`: the array with the pivot in front, and the pivot. -/
def placePivot (arr : Nat → T) (length : Nat) : (Nat → T) × T :=
  let mid := length / 2
  let pivot0 := arr 0
  let pivot1 := arr mid
  let pivot2 := arr (length - 1)
  if pivot0 < pivot1 ∧ pivot1 ≤ pivot2 then (swap arr mid 0, pivot1)
  else if pivot0 < pivot2 ∧ pivot2 ≤ pivot1 then (swap arr (length - 1) 0, pivot2)
  else (arr, pivot0)

/-- The loop of `medianForSmallKernel`. -/
def quickselect : (fuel : Nat) → (arr : Nat → T) → (length k : Nat) → Option T
  | 0, _, _, _ => none
  | fuel + 1, arr, length, k =>
    if 1 < length then
      let (arr, pivot) := placePivot arr length
      let s := partition arr length pivot
      if k < s.i then quickselect fuel s.arr s.i k
      else if k < s.i + s.numOfEq then some pivot
      else quickselect fuel (fun i => s.arr (s.i + 1 + i)) (length - s.i - 1) (k - s.i - 1)
    else some (arr 0)

/-- `medianForSmallKernel`, for one pixel, over what its part of `_arrays` holds. -/
def medianForSmallKernel (size : Nat) (before : Nat → T) : Option T := do
  let arr ← (List.range size).foldlM (fun arr i =>
    (window i).map (Function.update arr i)) before
  quickselect (size + 1) arr size (size / 2)

/-! ## The launch -/

/-- An element of the images. -/
structure Cell where
  batchIdx : Nat
  y : Nat
  x : Nat
  channel : Nat
  deriving DecidableEq

/-- The input, the sizes, and the window's. -/
structure Call (T : Type) where
  src : Cell → T
  batches : Nat
  rows : Nat
  cols : Nat
  ch : Nat
  kWidth : Nat
  kHeight : Nat
  sizeofT : Nat

/-- `sharedMemSize < 48 * 1024` -/
def Call.small (call : Call T) : Prop :=
  16 * 16 * call.kWidth * call.kHeight * call.sizeofT < 48 * 1024

instance (call : Call T) : Decidable call.small := inferInstanceAs (Decidable (_ < _))

def Call.blockSize (call : Call T) : Nat := if call.small then 16 else 32

/-- A channel of an image of the batch. -/
def Call.plane (call : Call T) (batchIdx channel : Nat) : Plane T :=
  fun y x => call.src ⟨batchIdx, y, x, channel⟩

/-- What a kernel with blocks of a size fetches for a pixel. -/
def Call.windowAt (call : Call T) (blockSize : Nat) (shared : Nat → T) (batchIdx channel : Nat)
    (p : Position) (idx : Nat) : Option T :=
  let src := call.plane batchIdx channel
  fetchAs1d (loadTails src call.rows call.cols blockSize p shared) src call.rows call.cols
    call.kWidth call.kHeight p blockSize idx

/-- The value for a pixel by `median`. -/
def Call.medianAt (call : Call T) (shared : Nat → T) (batchIdx channel : Nat) (p : Position) :
    Option T :=
  median (call.windowAt 32 shared batchIdx channel p) (call.kWidth * call.kHeight)

/-- The value for a pixel by `medianForSmallKernel`. -/
def Call.smallMedianAt (call : Call T) (shared : Nat → T) (batchIdx channel : Nat)
    (p : Position) : Option T :=
  medianForSmallKernel (call.windowAt 16 shared batchIdx channel p) (call.kWidth * call.kHeight)
    shared

/-- What a thread stores, and where: nothing outside of the image. -/
def Call.threadStore (call : Call T) (shared : Nat → T) (t : Thread) : Option (Option (Cell × T)) :=
  let p : Position :=
    ⟨t.blockIdx.1 * call.blockSize, t.blockIdx.2.1 * call.blockSize, t.threadIdx.1, t.threadIdx.2⟩
  let channel := t.blockIdx.2.2 % call.ch
  let batchIdx := t.blockIdx.2.2 / call.ch
  if p.x < call.cols ∧ p.y < call.rows then
    (if call.small then call.smallMedianAt shared batchIdx channel p
      else call.medianAt shared batchIdx channel p).map
      fun pivot => some (⟨batchIdx, p.y, p.x, channel⟩, pivot)
  else some none

/-- The launcher `median`: what the threads store if each gets to its end. -/
def Call.stores (call : Call T) (shared : Nat → T) : Option (List (Cell × T)) :=
  ((launch (divUp call.cols call.blockSize) (divUp call.rows call.blockSize)
    (call.ch * call.batches) call.blockSize call.blockSize).mapM (call.threadStore shared)).map
    fun stores => stores.filterMap id

/-- Some order of the stores leaves `m` where the output held `dst`. -/
def Call.Leaves (call : Call T) (shared : Nat → T) (dst m : Cell → T) : Prop :=
  ∃ stores order, call.stores shared = some stores ∧ order.Perm stores ∧ m = store order dst

end Cvcuda.MedianBlur
