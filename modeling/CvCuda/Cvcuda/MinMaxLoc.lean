import CvCuda.Lib.Compact

/-! # Minimum and maximum locations

`FindMinMax` and `CollectMinMax` of `priv_musa/OpMinMaxLoc.mu` with `OpMinMax` and `OpCollect2`,
for one sample.

* Blocks take their atomic steps, and threads their stores, in any order (`Orders`).
* What `cub` computes for a block is up to `blockReduce` and `exclusiveSum`.
* Values are those of the output type; `top` and `bot` are its initial values. Coordinates are
  unbounded, counts wrap as `int` and packed ranks as `unsigned`.
-/

namespace Cvcuda.MinMaxLoc

open Compact

/-- An `int`. -/
def wrap (z : ℤ) : ℤ := z.bmod (2 ^ 32)

abbrev Block := Nat × Nat

abbrev Coord := Nat × Nat

/-- `BW`, `BH`, `TW` and `TH`, with the static assertion. -/
structure Tile where
  bw : Nat
  bh : Nat
  tw : Nat
  th : Nat
  pos : 0 < bw ∧ 0 < bh ∧ 0 < tw ∧ 0 < th
  lt : bw * bh * tw * th < 65535

def divUp (a b : Nat) : Nat := (a + b - 1) / b

/-- The blocks of `grid2`. -/
def Tile.grid (t : Tile) (inSize : Nat × Nat) : List Block :=
  (List.range (divUp inSize.2 (t.bh * t.th))).flatMap fun j =>
    (List.range (divUp inSize.1 (t.bw * t.tw))).map fun i => (i, j)

/-- The pixels of a thread, inside the image or not. -/
def Tile.threadCoords (t : Tile) (b : Block) (tx ty : Nat) : List Coord :=
  (List.range t.th).flatMap fun i => (List.range t.tw).map fun j =>
    ((b.1 * t.bw + tx) * t.tw + j, b.2 * t.bh * t.th + ty + i * t.bh)

/-- What the threads of a block do, in the order of their linear indices. -/
def Tile.threads {β : Type} (t : Tile) (f : Nat → Nat → β) : List β :=
  (List.range t.bh).flatMap fun ty => (List.range t.bw).map fun tx => f tx ty

def Tile.coords (t : Tile) (b : Block) : List Coord := (t.threads (t.threadCoords b)).flatten

/-- A sample, no larger than the size the grid is for. -/
structure Image (α : Type) (inSize : Nat × Nat) where
  width : Nat
  height : Nat
  pixel : Coord → α
  width_le : width ≤ inSize.1
  height_le : height ≤ inSize.2

/-- The orders of the atomic steps of blocks, and of the stores of threads' items. -/
structure Orders (t : Tile) (inSize : Nat × Nat) where
  find : List Block
  incrementMin : List Block
  incrementMax : List Block
  writeMin : List (Block × Nat)
  writeMax : List (Block × Nat)
  find_perm : find.Perm (t.grid inSize)
  incrementMin_perm : incrementMin.Perm (t.grid inSize)
  incrementMax_perm : incrementMax.Perm (t.grid inSize)
  writeMin_perm : writeMin.Perm
    ((t.grid inSize).flatMap fun b => (List.range (t.coords b).length).map fun k => (b, k))
  writeMax_perm : writeMax.Perm
    ((t.grid inSize).flatMap fun b => (List.range (t.coords b).length).map fun k => (b, k))

section
variable {α : Type} [LinearOrder α] {t : Tile} {inSize : Nat × Nat} (img : Image α inSize)

def Image.inside (c : Coord) : Bool := c.1 < img.width && c.2 < img.height

/-! ## `FindMinMax` -/

/-- `OpMinMax::op`. -/
def opMinMax (a b : α × α) : α × α := (min a.1 b.1, max a.2 b.2)

/-- What a thread finds. -/
def Image.threadRet (init : α × α) (coords : List Coord) : α × α :=
  (coords.filter img.inside).foldl (fun a c => opMinMax a (img.pixel c, img.pixel c)) init

/-- The values found, blocks together in an order. -/
def Image.findMinMax (blockReduce : (α × α → α × α → α × α) → List (α × α) → α × α)
    (top bot : α) (t : Tile) (order : List Block) : α × α :=
  order.foldl (fun out b => opMinMax out
    (blockReduce opMinMax
      (t.threads fun tx ty => img.threadRet (top, bot) (t.threadCoords b tx ty)))) (top, bot)

/-! ## `OpCollect2` -/

/-- `checkRange`: bit 0 for the minimum, bit 16 for the maximum. -/
def checkRange (out : α × α) (data : α) : Nat :=
  (if data = out.1 then 1 else 0) ||| (if data = out.2 then 1 else 0) <<< 16

def isIndexInsideBounds (minCapacity maxCapacity : Nat) (idxGlobal : ℤ × ℤ) (total : Nat) : Bool :=
  (0 < total &&& 65535 && idxGlobal.1 < minCapacity) || (0 < total >>> 16 && idxGlobal.2 < maxCapacity)

/-- `writeOutput` for the minimum: `+` binds tighter than `&`. -/
def writeMin (minCapacity : Nat) (has : Nat) (coord : Coord) (idxGlobal : ℤ) (idxLocal : Nat) :
    Option (ℤ × Coord) :=
  if has &&& 1 ≠ 0 then
    let idx : ℤ := (((idxGlobal + idxLocal) % 2 ^ 32).toNat &&& ((1 <<< 16) - 1) : ℕ)
    if idx < minCapacity then some (idx, coord) else none
  else none

/-- `writeOutput` for the maximum. -/
def writeMax (maxCapacity : Nat) (has : Nat) (coord : Coord) (idxGlobal : ℤ) (idxLocal : Nat) :
    Option (ℤ × Coord) :=
  if has >>> 16 ≠ 0 then
    let idx := wrap (idxGlobal + (idxLocal >>> 16 : ℕ))
    if idx < maxCapacity then some (idx, coord) else none
  else none

/-! ## `CollectMinMax` -/

def Image.has (out : α × α) (c : Coord) : Nat :=
  if img.inside c then checkRange out (img.pixel c) else 0

variable (t) in
/-- `idxLocal` and `totalLocal` of a block. -/
def Image.scan (exclusiveSum : List Nat → List Nat × Nat) (out : α × α) (b : Block) :
    List Nat × Nat :=
  exclusiveSum ((t.coords b).map (img.has out))

variable (t) in
/-- What items store, one after another: the threads of a block store if its range is inside. -/
def Image.writes (exclusiveSum : List Nat → List Nat × Nat) (out : α × α) (inBounds : Block → Bool)
    (writeOutput : Nat → Coord → ℤ → Nat → Option (ℤ × Coord)) (idxGlobal : Block → ℤ)
    (items : List (Block × Nat)) : List (ℤ × Coord) :=
  items.filterMap fun (b, k) => do
    let coord ← (t.coords b)[k]?
    let idxLocal ← (img.scan t exclusiveSum out b).1[k]?
    if inBounds b then writeOutput (img.has out coord) coord (idxGlobal b) idxLocal else none

/-- The counts and locations. -/
structure Collected where
  numMin : ℤ
  numMax : ℤ
  minLoc : ℤ → Option Coord
  maxLoc : ℤ → Option Coord

def Image.collectMinMax (exclusiveSum : List Nat → List Nat × Nat) (minCapacity maxCapacity : Nat)
    (out : α × α) (o : Orders t inSize) : Collected :=
  let total := fun b => (img.scan t exclusiveSum out b).2
  let mins := o.incrementMin.foldl (reserve wrap fun b => total b &&& 65535) ⟨0, fun _ => 0⟩
  let maxs := o.incrementMax.foldl (reserve wrap fun b => total b >>> 16) ⟨0, fun _ => 0⟩
  let inBounds := fun b =>
    isIndexInsideBounds minCapacity maxCapacity (mins.base b, maxs.base b) (total b)
  { numMin := mins.size
    numMax := maxs.size
    minLoc := writeAll (img.writes t exclusiveSum out inBounds (writeMin minCapacity) mins.base
      o.writeMin) fun _ => none
    maxLoc := writeAll (img.writes t exclusiveSum out inBounds (writeMax maxCapacity) maxs.base
      o.writeMax) fun _ => none }

/-- The kernels of a run. -/
def Image.run (blockReduce : (α × α → α × α → α × α) → List (α × α) → α × α)
    (exclusiveSum : List Nat → List Nat × Nat) (top bot : α) (minCapacity maxCapacity : Nat)
    (o : Orders t inSize) : Collected :=
  img.collectMinMax exclusiveSum minCapacity maxCapacity
    (img.findMinMax blockReduce top bot t o.find) o

end

end Cvcuda.MinMaxLoc
