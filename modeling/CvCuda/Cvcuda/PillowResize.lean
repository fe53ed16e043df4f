import CvCuda.Lib.Kernel
import CvCuda.Lib.Run

/-! # Pillow resize: the coefficients of a pass

The supports of the filters of `priv_musa/legacy/pillow_resize.h`, `_precomputeCoeffs` of
`pillow_resize.mu`, and what `pillow_resize_v2` calls it with, over exact rationals. The weights of
a filter are a parameter.

* Threads come in any order, and so do blocks; those of a block are in step at its barrier.
* `int` arithmetic is taken not to overflow.
-/

namespace Cvcuda.PillowResize

open Kernel

inductive Filter where
  | bilinear | box | hamming | bicubic | lanczos
  deriving DecidableEq

/-- `support()` -/
def Filter.support : Filter → ℚ
  | .bilinear => 1
  | .box => 1 / 2
  | .hamming => 1
  | .bicubic => 2
  | .lanczos => 3

/-- `static_cast<int>` -/
def trunc (q : ℚ) : ℤ := if 0 ≤ q then ⌊q⌋ else ⌈q⌉

/-! ## A pass -/

/-- The sizes that `_precomputeCoeffs` is called with. -/
structure Pass where
  inSize : Nat
  in0 : ℤ
  scale : ℚ
  filterscale : ℚ
  support : ℚ
  outSize : Nat
  kSize : Nat

/-- One pass of `pillow_resize_v2`. -/
def pass (filter : Filter) (inSize outSize : Nat) : Pass :=
  let scale : ℚ := inSize / outSize
  let filterscale := if scale < 1 then 1 else scale
  let support := filter.support * filterscale
  { inSize, in0 := 0, scale, filterscale, support, outSize, kSize := ⌈support⌉.toNat * 2 + 1 }

/-- The first tap, and how many there are. -/
structure Window where
  xmin : ℤ
  xmax : ℤ

/-- `bounds_out` and `kk_out`. -/
structure Tables where
  bounds : Nat → ℤ
  kk : Nat → ℚ

namespace Pass

variable (p : Pass)

def center (xx : Nat) : ℚ := p.in0 + (xx + 1 / 2) * p.scale

def window (xx : Nat) : Window :=
  let xmin := trunc (p.center xx - p.support + 1 / 2)
  let xmin := if xmin < 0 then 0 else xmin
  let xmax := trunc (p.center xx + p.support + 1 / 2)
  let xmax := if (p.inSize : ℤ) < xmax then (p.inSize : ℤ) else xmax
  ⟨xmin, xmax - xmin⟩

/-! ## A row of coefficients -/

variable (weights : ℚ → ℚ) (normalizeCoeff : Bool)

/-- `filterp.filter` of a tap. -/
def weight (xx x : Nat) : ℚ :=
  weights ((x + (p.window xx).xmin - p.center xx + 1 / 2) * (1 / p.filterscale))

/-- A coefficient as an integer of `precision_bits`. -/
def normalize (val : ℚ) : ℚ :=
  if val < 0 then trunc (-(1 / 2) + val * 2 ^ 22) else trunc (1 / 2 + val * 2 ^ 22)

/-- The loops over `k`, which begins at `base`. -/
def writeRow (xx base : Nat) (m : Nat → ℚ) : Nat → ℚ :=
  let xmax := (p.window xx).xmax.toNat
  let s := (List.range' 0 xmax).foldl (fun (s : (Nat → ℚ) × ℚ) x =>
    (Function.update s.1 (base + x) (p.weight weights xx x), s.2 + p.weight weights xx x)) (m, 0)
  let ww := s.2
  let m := (List.range' 0 xmax).foldl (fun m x =>
    if 1 / 100000 < |ww| then Function.update m (base + x) (m (base + x) / ww) else m) s.1
  let m := (List.range' xmax (p.kSize - xmax)).foldl (fun m x =>
    Function.update m (base + x) 0) m
  if normalizeCoeff then
    (List.range' 0 p.kSize).foldl (fun m i =>
      Function.update m (base + i) (normalize (m (base + i)))) m
  else m

/-! ## The kernel -/

/-- `coef_block` -/
abbrev coefBlock : Nat := 64

def writeBounds (xx : Nat) (bounds : Nat → ℤ) : Nat → ℤ :=
  Function.update (Function.update bounds (xx * 2) (p.window xx).xmin) (xx * 2 + 1)
    (p.window xx).xmax

/-- A thread that writes to `kk_out` itself. -/
def threadDirect (t : Nat × Nat) (tables : Tables) : Tables :=
  let xx := t.1 * coefBlock + t.2
  let xOffset := t.1 * coefBlock
  if xx < p.outSize then
    { bounds := p.writeBounds xx tables.bounds
      kk := p.writeRow weights normalizeCoeff xx (xOffset * p.kSize + t.2 * p.kSize) tables.kk }
  else tables

/-- The blocks and threads of a grid. -/
def threads (grid : Nat) : List (Nat × Nat) :=
  (List.range grid).flatMap fun b => (List.range coefBlock).map fun l => (b, l)

/-- The kernel without shared memory. -/
def Direct (grid : Nat) (tables tables' : Tables) : Prop :=
  ∃ order : List (Nat × Nat), order.Perm (threads grid) ∧
    tables' = order.foldl (fun tables t => p.threadDirect weights normalizeCoeff t tables) tables

/-- A thread of a block before the barrier, on the bounds and `smem_raw`. -/
def threadShared (b : Nat) (s : (Nat → ℤ) × (Nat → ℚ)) (localId : Nat) :
    (Nat → ℤ) × (Nat → ℚ) :=
  let xx := b * coefBlock + localId
  if xx < p.outSize then
    (p.writeBounds xx s.1, p.writeRow weights normalizeCoeff xx (localId * p.kSize) s.2)
  else s

/-- A thread of a block after the barrier. -/
def copyShared (b : Nat) (smem : Nat → ℚ) (kkOut : Nat → ℚ) (localId : Nat) : Nat → ℚ :=
  let xOffset := b * coefBlock
  (List.range p.kSize).foldl (fun kkOut j =>
    let i := localId + j * coefBlock
    if i < (p.outSize - xOffset) * p.kSize ∧ i < coefBlock * p.kSize then
      Function.update kkOut (xOffset * p.kSize + i) (smem i)
    else kkOut) kkOut

/-- A block, over what its `smem_raw` holds. -/
def Block (tables : Tables) (b : Nat) (tables' : Tables) : Prop :=
  ∃ (smem : Nat → ℚ) (order order' : List Nat),
    order.Perm (List.range coefBlock) ∧ order'.Perm (List.range coefBlock) ∧
    let s := order.foldl (p.threadShared weights normalizeCoeff b) (tables.bounds, smem)
    tables' = ⟨s.1, order'.foldl (p.copyShared b s.2) tables.kk⟩

/-- The kernel with shared memory. -/
def Shared (grid : Nat) (tables tables' : Tables) : Prop :=
  ∃ order : List Nat, order.Perm (List.range grid) ∧
    Run (p.Block weights normalizeCoeff) tables order tables'

end Pass

end Cvcuda.PillowResize
