import CvCuda.Lib.TreeReduce

/-! # The triangle threshold

`triangle_cal` of `priv_musa/legacy/threshold_util.mu`, for the histogram of one image: a block of
256 threads, a thread for each bin, with four tree reductions over warps of 32 threads. Sums and
products wrap as `int`.
-/

namespace Cvcuda.ThresholdTriangle

open TreeReduce

def intMax : ℤ := 2 ^ 31 - 1

/-- An `int`. -/
def wrap (z : ℤ) : ℤ := z.bmod (2 ^ 32)

/-- What 256 threads find of their values. -/
def blockReduce {α : Type} (op : α → α → α) (f : Nat → α) : α := reduce op 32 8 f 0

/-- One below the leftmost non-zero bin. -/
def leftBound (hist : Nat → ℤ) : ℤ :=
  let left := blockReduce min fun localid => if 0 < hist localid then (localid : ℤ) else intMax
  if 0 < left then left - 1 else left

/-- One above the rightmost non-zero bin. -/
def rightBound (hist : Nat → ℤ) : ℤ :=
  let right := blockReduce max fun localid => if 0 < hist localid then (localid : ℤ) else -1
  if right < 255 then right + 1 else right

/-- The largest count, and the bin that has it. -/
def peak (hist : Nat → ℤ) : ℤ × Nat := blockReduce firstMax fun localid => (hist localid, localid)

/-- The histogram as the distances are taken, flipped if the peak is closer to the left bound. -/
structure Triangle where
  isfliped : Bool
  hist : Nat → ℤ
  left : ℤ
  max : ℤ
  maxid : ℤ

def Triangle.of (hist : Nat → ℤ) : Triangle :=
  let left := leftBound hist
  let right := rightBound hist
  let (max, maxid) := peak hist
  if maxid - left < right - maxid then
    { isfliped := true
      hist := fun localid => hist (255 - localid)
      left := 255 - right
      max := max
      maxid := 255 - maxid }
  else
    { isfliped := false
      hist := hist
      left := left
      max := max
      maxid := maxid }

/-- The distance of a bin between the left bound and the peak. -/
def Triangle.val (t : Triangle) (localid : Nat) : ℤ :=
  if t.left < localid ∧ localid ≤ t.maxid then
    wrap (wrap (t.max * localid) + wrap ((t.left - t.maxid) * t.hist localid))
  else -1

/-- What is written to `thresh`. -/
def triangleCal (hist : Nat → ℤ) : ℤ :=
  let t := Triangle.of hist
  let idx := (blockReduce firstMax fun localid => (t.val localid, localid)).2
  let res : ℤ := idx - 1
  if t.isfliped then 255 - res else res

end Cvcuda.ThresholdTriangle
