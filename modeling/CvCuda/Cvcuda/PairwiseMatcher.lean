import CvCuda.Lib.Compact

/-! # The pairwise matcher

`SortKeyValue`, `BruteForceMatcher` and `WriteNumMatches` of `priv_musa/OpPairwiseMatcher.mu`, for
one sample: a block of 64 threads for each point of the first set.

* Distances are exact; `fltMax` is the largest `float`. The square root of an L2 distance, taken
  when a match is written, is left out.
* Blocks and threads store in any order. What `cub` computes for a block is up to `blockReduce` and
  `blockSort`.
* A point that is read from outside its set makes a block `none`.
-/

namespace Cvcuda.PairwiseMatcher

open Compact

def kNumThreads : Nat := 64

/-! ## Distances -/

/-- A distance that does not depend on the order of its points. -/
structure Distance (P D : Type) where
  dist : P → P → D
  comm : ∀ p q, dist p q = dist q p

inductive NormType where
  | hamming | l1 | l2
  deriving DecidableEq

def popc (e : Nat) : Nat := (List.range 32).countP fun i => e.testBit i

def absdiff (a b : Nat) : Nat := if a < b then b - a else a - b

/-- What elements of an integer type add to a distance. -/
def computeDistance : NormType → Nat → Nat → Nat
  | .hamming, e1, e2 => popc (e1 ^^^ e2)
  | .l1, e1, e2 => absdiff e1 e2
  | .l2, e1, e2 => absdiff e1 e2 * absdiff e1 e2

theorem computeDistance_comm (norm : NormType) (e1 e2 : Nat) :
    computeDistance norm e1 e2 = computeDistance norm e2 e1 := by
  have habs : absdiff e1 e2 = absdiff e2 e1 := by
    unfold absdiff
    split <;> split <;> omega
  cases norm
  · exact congrArg popc (Nat.xor_comm ..)
  · exact habs
  · simp only [computeDistance, habs]

/-- The distance of points with integer elements. -/
def integerDistance (norm : NormType) (numDim : Nat) : Distance (Nat → Nat) Nat where
  dist := fun p1 p2 =>
    (List.range numDim).foldl (fun d i => d + computeDistance norm (p1 i) (p2 i)) 0
  comm := fun p q => by simp only [computeDistance_comm norm (p _)]

/-- The distance of points with `float` elements, for which there is no Hamming norm. -/
def floatDistance (l2 : Bool) (numDim : Nat) : Distance (Nat → ℚ) ℚ where
  dist := fun p1 p2 => (List.range numDim).foldl
    (fun d i => d + if l2 then |p1 i - p2 i| * |p1 i - p2 i| else |p1 i - p2 i|) 0
  comm := fun p q => by simp only [abs_sub_comm (p _)]

section
variable {P D : Type} [LinearOrder D] (fltMax : D) (dist : P → P → D)

/-! ## `SortKeyValue` -/

structure KeyValue (D : Type) where
  dist : D
  idx : ℤ
  deriving DecidableEq

def minkey (a b : KeyValue D) : KeyValue D :=
  if a.dist < b.dist ∨ (a.dist = b.dist ∧ a.idx < b.idx) then a else b

/-- The points of a thread, a stride of 64 apart. -/
def indices (threadIdx set2Size : Nat) : List Nat :=
  List.range' threadIdx ((set2Size - threadIdx + 63) / 64) 64

/-- The single best point of a thread. -/
def localBest (p1 : P) (set2 : Nat → P) (set2Size threadIdx : Nat) : KeyValue D :=
  (indices threadIdx set2Size).foldl
    (fun sorted set2Idx =>
      let curDist := dist p1 (set2 set2Idx)
      if curDist < sorted.dist then ⟨curDist, set2Idx⟩ else sorted)
    ⟨fltMax, -1⟩

/-- What each thread has in the end. -/
def sortKeyValue
    (blockReduce : (KeyValue D → KeyValue D → KeyValue D) → List (KeyValue D) → KeyValue D)
    (blockSort : List (KeyValue D) → List (KeyValue D)) (p1 : P) (set2 : Nat → P)
    (matchesPerPoint set2Size : Nat) (threadIdx : Nat) : KeyValue D :=
  let sorted := localBest fltMax dist p1 set2 set2Size
  let all := (List.range kNumThreads).map sorted
  if matchesPerPoint = 1 then
    if threadIdx = 0 then blockReduce minkey all else sorted threadIdx
  else
    if threadIdx < matchesPerPoint then (blockSort all).getD threadIdx (sorted threadIdx)
    else sorted threadIdx

end

/-! ## `BruteForceMatcher` -/

/-- A set of points, with room for `capacity` of them. -/
structure PointSet (P : Type) where
  point : Nat → P
  capacity : Nat
  num : Option ℤ

def PointSet.size {P : Type} (s : PointSet P) : Nat :=
  match s.num with
  | none => s.capacity
  | some n => (if n > s.capacity then (s.capacity : ℤ) else n).toNat

/-- A point, if it is in the set. -/
def PointSet.load {P : Type} (s : PointSet P) (idx : ℤ) : Option P :=
  if 0 ≤ idx ∧ idx < s.capacity then some (s.point idx.toNat) else none

structure Match (D : Type) where
  set1Idx : Nat
  set2Idx : ℤ
  distance : D
  deriving DecidableEq

def writeMatch {D : Type} (set1Idx : Nat) (best : KeyValue D) : Match D where
  set1Idx := set1Idx
  set2Idx := best.idx
  distance := best.dist

section
variable {P D : Type} [LinearOrder D] (fltMax : D) (dist : P → P → D)
  (blockReduce : (KeyValue D → KeyValue D → KeyValue D) → List (KeyValue D) → KeyValue D)
  (blockSort : List (KeyValue D) → List (KeyValue D)) (set1 set2 : PointSet P)

/-- The best match of a point, if it is the best match of that as well. -/
def crossCheck (set1Idx : Nat) : Option (Option (Match D)) := do
  let best := sortKeyValue fltMax dist blockReduce blockSort (set1.point set1Idx) set2.point 1
    set2.size 0
  let p ← set2.load best.idx
  let back := sortKeyValue fltMax dist blockReduce blockSort p set1.point 1 set1.size 0
  some (if back.idx = set1Idx then some (writeMatch set1Idx best) else none)

/-- The matches and their number. -/
structure Found (D : Type) where
  numMatches : ℤ
  found : ℤ → Option (Match D)

/-- With cross check: blocks add to the number of matches in an order. -/
def matchCrossCheck (outCapacity : Nat) (order : List Nat) : Option (Found D) :=
  let block := crossCheck fltMax dist blockReduce blockSort set1 set2
  if ∀ set1Idx ∈ order, (block set1Idx).isSome then
    let found := order.filterMap fun set1Idx => (block set1Idx).join
    some {
      numMatches := found.length
      found := writeAll (found.zipIdx.filterMap fun (m, matchIdx) =>
        if matchIdx < outCapacity then some ((matchIdx : ℤ), m) else none) fun _ => none }
  else none

/-- Without: what a thread of a block stores, and where. -/
def storeMatch (matchesPerPoint outCapacity : Nat) (item : Nat × Nat) : Option (ℤ × Match D) :=
  let (set1Idx, threadIdx) := item
  let sorted := sortKeyValue fltMax dist blockReduce blockSort (set1.point set1Idx) set2.point
    matchesPerPoint set2.size threadIdx
  let matchIdx := set1Idx * matchesPerPoint + threadIdx
  if threadIdx < matchesPerPoint ∧ matchIdx < outCapacity then
    some (matchIdx, writeMatch set1Idx sorted)
  else none

/-- Threads store in an order. -/
def matchAll (matchesPerPoint outCapacity : Nat) (order : List (Nat × Nat)) : Found D where
  numMatches := (set1.num.getD set1.capacity) * matchesPerPoint
  found := writeAll (order.filterMap
    (storeMatch fltMax dist blockReduce blockSort set1 set2 matchesPerPoint outCapacity))
    fun _ => none

end

end Cvcuda.PairwiseMatcher
