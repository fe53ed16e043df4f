import CvCuda.Cvcuda.LabelThreads

/-! # Connected components of images

The kernels `BlockLabel2D`, `YLabelReduction2D`, `XLabelReduction2D` and `ResolveLabels2D` of
`cvcuda/priv_musa/OpLabel.mu`, which `RunLabelForType` launches one after another, for one sample.

* The threads of a kernel take their steps in any order, those of a block between its barriers.
* A row of a block is a warp. Shared memory holds anything at first, and so does the output.
* Positions are unbounded; `width`, `height` and the row stride are taken to give positions that the
  wraps and labels of 32 bits hold, and grids that the device has.
-/

namespace Cvcuda.Label

/-- The block width and height. -/
abbrev BW : Nat := 32

abbrev BH : Nat := 4

/-- A sample of the input, with its thresholds. -/
structure Sample (ST : Type) where
  width : Nat
  height : Nat
  /-- The value in a row and a column. -/
  src : Nat → Nat → ST
  minThresh : Option ST
  maxThresh : Option ST

/-- `blockIdx`, but for the sample. -/
structure BlockIdx where
  x : Nat
  y : Nat

/-- What a thread gets from the lane below; the first lane gets its own value. -/
def shflUp {α : Type} (lane : Nat) (own below : α) : α := if lane = 0 then own else below

/-- `util::DivUp` -/
def divUp (num den : Nat) : Nat := (num + den - 1) / den

/-- Where a pixel's label is. -/
def pos (stride y x : Nat) : Nat := y * stride + x

namespace Sample

section
variable {ST : Type} [LinearOrder ST] [Zero ST] [One ST] (s : Sample ST)

/-- The value that is compared with those of neighbours. -/
def pixel (y x : Nat) : ST :=
  match s.minThresh, s.maxThresh with
  | some minThreshold, some maxThreshold =>
    if s.src y x < minThreshold ∨ maxThreshold < s.src y x then 0 else 1
  | some minThreshold, none => if s.src y x < minThreshold then 0 else 1
  | none, some maxThreshold => if maxThreshold < s.src y x then 0 else 1
  | none, none => s.src y x

/-! ## A block

The thread `i` of a block has `tc.y * BW + tc.x = i`. -/

variable (b : BlockIdx) (i : Nat)

/-- `gc.x` and `gc.y` -/
def gcx : Nat := b.x * BW + i % BW

def gcy : Nat := b.y * BH + i / BW

/-- `gc.x < size.x && gc.y < size.y` -/
def Inside : Prop := gcx b i < s.width ∧ gcy b i < s.height

instance : Decidable (s.Inside b i) := instDecidableAnd

def nym1x : Bool := 0 < i / BW && s.pixel (gcy b i) (gcx b i) = s.pixel (gcy b i - 1) (gcx b i)

def nyxm1 : Bool :=
  0 < i % BW && s.pixel (gcy b i) (gcx b i) =
    shflUp (i % BW) (s.pixel (gcy b i) (gcx b i)) (s.pixel (gcy b i) (gcx b i - 1))

def nym1xm1 : Bool :=
  0 < i / BW && 0 < i % BW && s.pixel (gcy b i) (gcx b i) =
    shflUp (i % BW) (s.pixel (gcy b i - 1) (gcx b i)) (s.pixel (gcy b i - 1) (gcx b i - 1))

/-- `label1`, as it is stored first. -/
def label1 : Nat :=
  if s.nym1x b i then (i / BW - 1) * BW + i % BW
  else if s.nyxm1 b i then i / BW * BW + (i % BW - 1)
  else i / BW * BW + i % BW

/-- The threads of a block that are inside of the image. -/
def blockThreads : List Nat := (List.range (BW * BH)).filter (s.Inside b ·)

/-- Those that call `Reduction`. -/
def corners : List Nat :=
  (s.blockThreads b).filter fun i => s.nym1x b i && s.nyxm1 b i && !s.nym1xm1 b i

/-- The shared labels of a block at its last barrier, and what its calls of `Reduction` returned. -/
def BlockLabels (labels returned : List Nat) : Prop :=
  ∃ stored rooted : List Nat, stored.length = BW * BH ∧
    (∀ i ∈ s.blockThreads b, stored[i]? = some (s.label1 b i)) ∧
    StoresRoots stored ((s.blockThreads b).map fun i => .read i (s.label1 b i)) rooted ∧
    Unites rooted ((s.corners b).map fun i => .half (s.label1 b i) (i - 1)) labels returned

/-- `label1` after the last barrier. -/
def lastLabel (returned : List Nat) : Nat :=
  (((s.corners b).zip returned).lookup i).getD (s.label1 b i)

end

/-- The label of the output for a label of a block. -/
def globalLabel (stride : Nat) (b : BlockIdx) (label : Nat) : Nat :=
  (b.y * BH + label / BW % BH) * stride + b.x * BW + label % BW

/-! ## The kernels -/

section
variable {ST : Type} [LinearOrder ST] [Zero ST] [One ST] (s : Sample ST) (stride : Nat)

/-- `labBlocks` -/
def labBlocks : BlockIdx := ⟨divUp s.width BW, divUp s.height BH⟩

/-- `BlockLabel2D`, from an output to another. -/
structure BlockLabel2D (dst dst' : List Nat) : Prop where
  length : dst'.length = dst.length
  written : ∀ b : BlockIdx, b.x < s.labBlocks.x → b.y < s.labBlocks.y →
    ∃ labels returned, s.BlockLabels b labels returned ∧
      ∀ i ∈ s.blockThreads b, ∃ label,
        findRoot labels (BW * BH) (s.lastLabel b i returned) = some label ∧
        dst'[pos stride (gcy b i) (gcx b i)]? = some (globalLabel stride b label)
  others : ∀ j, (∀ y x, y < s.height → x < s.width → j ≠ pos stride y x) → dst'[j]? = dst[j]?

/-- The condition of `YLabelReduction2D`. -/
def UnitesY (y x : Nat) : Prop :=
  s.pixel y x = s.pixel (y - 1) x ∧
    (x % BW = 0 ∨ s.pixel y x ≠ shflUp (x % BW) (s.pixel y x) (s.pixel y (x - 1)) ∨
      s.pixel y x ≠ shflUp (x % BW) (s.pixel (y - 1) x) (s.pixel (y - 1) (x - 1)))

instance (y x : Nat) : Decidable (s.UnitesY y x) := instDecidableAnd

/-- `YLabelReduction2D` -/
def yThreads : List UnionThread :=
  (List.range (divUp s.labBlocks.y BH * BH)).flatMap fun k =>
    (List.range (divUp s.width BW * BW)).filterMap fun x =>
      let y := k * BH + BH
      if (x < s.width ∧ y < s.height) ∧ s.UnitesY y x then
        some (.start (pos stride y x) (pos stride (y - 1) x))
      else none

/-- The condition of `XLabelReduction2D`. -/
def UnitesX (y x : Nat) : Prop :=
  s.pixel y x = s.pixel y (x - 1) ∧
    (y % BH = 0 ∨ s.pixel y x ≠ shflUp (y % BW) (s.pixel y x) (s.pixel (y - 1) x) ∨
      s.pixel y x ≠ shflUp (y % BW) (s.pixel y (x - 1)) (s.pixel (y - 1) (x - 1)))

instance (y x : Nat) : Decidable (s.UnitesX y x) := instDecidableAnd

/-- `XLabelReduction2D` -/
def xThreads : List UnionThread :=
  (List.range (divUp s.labBlocks.x BH * BH)).flatMap fun k =>
    (List.range (divUp s.height BW * BW)).filterMap fun y =>
      let x := k * BW + BW
      if (x < s.width ∧ y < s.height) ∧ s.UnitesX y x then
        some (.start (pos stride y x) (pos stride y (x - 1)))
      else none

/-- `ResolveLabels2D` -/
def resolveThreads : List RootThread :=
  (List.range (s.labBlocks.y * BH)).flatMap fun y =>
    (List.range (s.labBlocks.x * BW)).filterMap fun x =>
      if x < s.width ∧ y < s.height then some (.load (pos stride y x)) else none

/-- The four kernels, from an output to another. -/
def Labels2D (dst dst' : List Nat) : Prop :=
  ∃ blocks ys xs returnedY returnedX, s.BlockLabel2D stride dst blocks ∧
    Unites blocks (s.yThreads stride) ys returnedY ∧
    Unites ys (s.xThreads stride) xs returnedX ∧
    StoresRoots xs (s.resolveThreads stride) dst'

end

end Sample

end Cvcuda.Label
