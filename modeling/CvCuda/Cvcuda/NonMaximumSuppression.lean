import CvCuda.Nvcv.Exception
import Mathlib.Tactic

/-! # Non-maximum suppression

`priv_musa/OpNonMaximumSuppression.mu`. Boxes have `short` coordinates, with which `int` arithmetic
is exact wherever it is used; areas and quotients are taken exactly. A score or a threshold is a
number of some order, or NaN, which compares with nothing.
-/

namespace Cvcuda.NonMaximumSuppression

/-! ## Numbers -/

/-- A `float`; `none` is NaN. -/
abbrev Num (S : Type) := Option S

namespace Num

variable {S : Type} [LinearOrder S]

def lt : Num S → Num S → Bool
  | some a, some b => decide (a < b)
  | _, _ => false

def le : Num S → Num S → Bool
  | some a, some b => decide (a ≤ b)
  | _, _ => false

def eq : Num S → Num S → Bool
  | some a, some b => decide (a = b)
  | _, _ => false

end Num

/-! ## Boxes -/

/-- `short4`: left, top, width and height. -/
structure Short4 where
  x : Int
  y : Int
  z : Int
  w : Int
  deriving DecidableEq

def computeArea (bbox : Short4) : Int := bbox.z * bbox.w

def computeIoU (box1 box2 : Short4) : ℚ :=
  let xInterLeft := max box1.x box2.x
  let yInterTop := max box1.y box2.y
  let xInterRight := min (box1.x + box1.z) (box2.x + box2.z)
  let yInterBottom := min (box1.y + box1.w) (box2.y + box2.w)
  let widthInter := xInterRight - xInterLeft
  let heightInter := yInterBottom - yInterTop
  let interArea := widthInter * heightInter
  if 0 < widthInter ∧ 0 < heightInter then
    let unionArea := computeArea box1 + computeArea box2 - interArea
    if 0 < unionArea then interArea / unionArea else 0
  else 0

/-! ## The kernel -/

section
variable {S : Type} [LinearOrder S]

/-- What a sample has: its boxes and their scores. -/
structure Sample (S : Type) where
  bboxes : List Short4
  scores : List (Num S)
  length_eq : scores.length = bboxes.length

variable (s : Sample S)

def Sample.bbox (i : Nat) : Short4 := s.bboxes.getD i ⟨0, 0, 0, 0⟩

def Sample.score (i : Nat) : Num S := s.scores.getD i none

/-- Whether one box makes another be discarded, if the two overlap. -/
def Sample.outranks (bboxY bboxX : Nat) : Bool :=
  (s.score bboxX).lt (s.score bboxY) ||
    (s.score bboxX).eq (s.score bboxY) &&
      computeArea (s.bbox bboxX) < computeArea (s.bbox bboxY)

def Sample.overlaps (iouThreshold : Num ℚ) (bboxX bboxY : Nat) : Bool :=
  iouThreshold.lt (some (computeIoU (s.bbox bboxX) (s.bbox bboxY)))

/-- A thread of the kernel: what it writes for its box. The loop is over after the first box that
makes it discard its own. -/
def nonMaximumSuppression (scoreThreshold : Num S) (iouThreshold : Num ℚ) (bboxX : Nat) :
    BitVec 8 :=
  if (s.score bboxX).lt scoreThreshold then 0
  else
    let discard := (List.range s.bboxes.length).any fun bboxY =>
      bboxX ≠ bboxY && s.overlaps iouThreshold bboxX bboxY && s.outranks bboxY bboxX
    if discard then 0 else 1

/-! ## The operator -/

/-- The data types it knows of. -/
inductive DType where
  | s16 | s16x4 | u8 | f32 | other
  deriving DecidableEq

/-- The shape of a tensor and its data type. -/
structure TensorInfo where
  dtype : DType
  shape : List Nat
  deriving DecidableEq

def TensorInfo.rank (t : TensorInfo) : Nat := t.shape.length

def TensorInfo.dim (t : TensorInfo) (i : Nat) : Nat := t.shape.getD i 0

open Nvcv in
/-- The checks of `operator()` on tensors in device memory. -/
def check (inData outData scoreData : TensorInfo) (iouThreshold : Num ℚ) : Option Exception :=
  let invalid (msg : String) := some (Exception.nvcv .invalidArgument msg)
  if ¬(inData.rank = 3 ∧ inData.dtype = .s16 ∧ inData.dim 2 = 4 ∨
      inData.rank = 3 ∧ inData.dtype = .s16x4 ∧ inData.dim 2 = 1 ∨
      inData.rank = 2 ∧ inData.dtype = .s16x4) then
    invalid "Input tensor must have rank 2 or 3 and 4xS16 or 4S16 data type"
  else if ¬(outData.rank = 3 ∧ outData.dtype = .u8 ∧ outData.dim 2 = 1 ∨
      outData.rank = 2 ∧ outData.dtype = .u8) then
    invalid "Output tensor must have rank 2 or 3 and U8 data type"
  else if ¬(scoreData.rank = 3 ∧ scoreData.dtype = .f32 ∧ scoreData.dim 2 = 1 ∨
      scoreData.rank = 2 ∧ scoreData.dtype = .f32) then
    invalid "Scores tensor must have rank 2 or 3 and 1xF32 data type"
  else if inData.dim 0 ≠ outData.dim 0 ∨ inData.dim 0 ≠ scoreData.dim 0 then
    invalid "Input, output and scores number of batches (first shape) must be equal"
  else if inData.dim 1 ≠ outData.dim 1 ∨ inData.dim 1 ≠ scoreData.dim 1 then
    invalid "Input, output and scores number of boxes (second shape) must be equal"
  else if iouThreshold.le (some 0) || Num.lt (some 1) iouThreshold then
    invalid "IoU threshold must be in (0, 1]"
  else none

/-- `operator()`: the masks of the samples. -/
def submit (inData outData scoreData : TensorInfo) (samples : List (Sample S))
    (scoreThreshold : Num S) (iouThreshold : Num ℚ) : Except Nvcv.Exception (List (List (BitVec 8))) :=
  match check inData outData scoreData iouThreshold with
  | some e => .error e
  | none => .ok (samples.map fun s =>
      (List.range s.bboxes.length).map (nonMaximumSuppression s scoreThreshold iouThreshold))

end

end Cvcuda.NonMaximumSuppression
