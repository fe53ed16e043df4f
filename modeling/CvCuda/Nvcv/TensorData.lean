import Mathlib.Tactic
import CvCuda.Nvcv.Exception

/-! # Tensor data and its reshaping

`NVCVTensorData` (its strided buffer), and `Simplify`, `ReshapeSimplified` and
`ReshapeTensorData` of `nvcv/priv_musa/TensorData.cpp`. `int64_t` and `int32_t` are Lean's
`Int64` and `Int32`, which wrap; the array of strides is written in place, and stays written
when the call throws.
-/

namespace Nvcv

/-- `NVCV_TENSOR_MAX_RANK`. -/
abbrev tensorMaxRank : Nat := 15

/-- `NVCVTensorLayout`: the labels, of which the first `rank` are meant. -/
structure TensorLayout where
  data : Vector UInt8 (tensorMaxRank + 1)
  rank : Int32
  deriving DecidableEq

/-- The labels that are meant. -/
def TensorLayout.labels (l : TensorLayout) : List UInt8 := l.data.toList.take l.rank.toInt.toNat

/-- `NVCVDataType`. -/
abbrev DataType := BitVec 64

/-- `NVCVTensorData` with a strided buffer. -/
structure TensorData where
  dtype : DataType
  layout : TensorLayout
  rank : Nat
  rank_le : rank ≤ tensorMaxRank
  shape : Vector Int64 tensorMaxRank
  strides : Vector Int64 tensorMaxRank
  basePtr : BitVec 64
  deriving DecidableEq

/-- The dimensions that count, each with its stride. -/
def TensorData.dims (t : TensorData) : List (Int64 × Int64) :=
  (t.shape.toList.take t.rank).zip (t.strides.toList.take t.rank)

/-! ## Simplify -/

/-- The loop of `Simplify`: `vol` and `stride` are those of the group being collected. -/
def simplifyLoop (vol stride : Int64) : List (Int64 × Int64) → List (Int64 × Int64)
  | [] => [(vol, stride)]
  | (n, s) :: ds =>
    if stride ≠ n * s then (vol, stride) :: simplifyLoop n s ds else simplifyLoop (vol * n) s ds

/-- `Simplify`: adjacent dimensions that are not strided are collapsed. -/
def simplify : List (Int64 × Int64) → List (Int64 × Int64)
  | [] => []
  | (n, s) :: ds => simplifyLoop n s ds

/-! ## ReshapeSimplified -/

/-- The inner `while` loop: the target dimensions whose product stays at most `inE`, with that
product, and the rest. -/
def takeGroup (inE outV : Int64) : List Int64 → Int64 × List Int64 × List Int64
  | [] => (outV, [], [])
  | n :: ns =>
    if outV * n ≤ inE then
      let (v, g, r) := takeGroup inE (outV * n) ns
      (v, n :: g, r)
    else (outV, [], n :: ns)

/-- The inner `for` loop, from the last dimension of the group to the first: the strides, and the
last value of `s`. -/
def groupStrides (s : Int64) : List Int64 → List Int64 × Int64
  | [] => ([], s)
  | n :: ns =>
    let (ss, s) := groupStrides s ns
    (s :: ss, s * n)

/-- `ReshapeSimplified`: the strides it writes, from the first on, and its result. -/
def reshapeSimplified : List (Int64 × Int64) → List Int64 → List Int64 × Bool
  | (inE, stride) :: gs, n :: ns =>
    let (outV, g, r) := takeGroup inE 1 (n :: ns)
    if outV ≠ inE then ([], false)
    else
      let (ss, ok) := reshapeSimplified gs r
      ((groupStrides stride g).1 ++ ss, ok)
  | _, _ => ([], true)

/-! ## ReshapeTensorData -/

def shapeStr (sh : List Int64) : String :=
  "(" ++ ", ".intercalate (sh.map fun n => toString n.toInt) ++ ")"

def volume (sh : List Int64) : Int64 := sh.foldl (· * ·) 1

/-- An array of `int64_t` with its first elements overwritten. -/
def overwrite (a : Vector Int64 tensorMaxRank) (xs : List Int64) : Vector Int64 tensorMaxRank :=
  .ofFn fun i => xs.getD i.1 a[i]

/-- The dimensions of the target shape. -/
def targetShape (newRank : Int32) (newShape : Nat → Int64) : List Int64 :=
  (List.range newRank.toInt.toNat).map newShape

theorem toNat_toInt_le {n : Int32} (h : ¬(n < 1 ∨ n > 15)) : n.toInt.toNat ≤ tensorMaxRank := by
  rw [gt_iff_lt, Int32.lt_iff_toInt_lt, Int32.lt_iff_toInt_lt] at h
  have h15 : (15 : Int32).toInt = 15 := rfl
  unfold tensorMaxRank
  omega

/-- `ReshapeTensorData`: what it throws, and the tensor data afterwards. -/
def reshapeTensorData (t : TensorData) (newRank : Int32) (newShape : Nat → Int64)
    (newLayout : TensorLayout) : Except Exception Unit × TensorData :=
  let oldVolume := volume (t.dims.map Prod.fst)
  if h : newRank < 1 ∨ newRank > 15 then
    (.error (.nvcv .invalidArgument
      s!"Number of dimensions must be between 1 and 15, not {newRank.toInt}"), t)
  else
    let sh := targetShape newRank newShape
    let newVolume := volume sh
    if newVolume ≠ oldVolume then
      (.error (.nvcv .invalidArgument
        (s!"The volume ({newVolume.toInt}) of the provided shape {shapeStr sh}" ++
          s!" does not match the size of the array ({oldVolume.toInt})")), t)
    else if newLayout.rank > 0 ∧ newLayout.rank ≠ newRank then
      (.error (.nvcv .invalidArgument
        ("The number of dimensions of the provided layout and shape do not match. Got a " ++
          s!"shape with {newRank.toInt} dimensions and a layout with " ++
          s!"{newLayout.rank.toInt} dimensions")), t)
    else
      let (written, ret) := reshapeSimplified (simplify t.dims) sh
      let td := { t with layout := newLayout, strides := overwrite t.strides written }
      if ret = false then
        (.error (.nvcv .invalidArgument
          ("Cannot reshape" ++
            s!". Original shape: {shapeStr (td.dims.map Prod.fst)}" ++
            s!", Strides: {shapeStr (td.dims.map Prod.snd)}" ++
            s!", Target shape: {shapeStr sh}")), td)
      else
        (.ok (), { td with
          rank := newRank.toInt.toNat, rank_le := toNat_toInt_le h,
          shape := overwrite td.shape sh })

end Nvcv
