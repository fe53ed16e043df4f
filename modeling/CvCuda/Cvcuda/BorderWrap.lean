import CvCuda.Nvcv.Math

/-! # Border indices

`GetIndexWithBorder` and `GetIndexWithBorderActive` of `cuda_tools_musa/BorderWrap.hpp`, for `int`.
An index has no value where an assertion fails or an `int` overflows.
-/

namespace Cvcuda.BorderWrap

open Nvcv (int32?)

/-- `NVCVBorderType`, less `NVCV_BORDER_CONSTANT`. -/
inductive BorderType
  | replicate | reflect | wrap | reflect101
  deriving DecidableEq

/-- `abs`. -/
def abs (x : Int32) : Option Int32 := int32? x.toInt.natAbs

/-- The remainder, and `if (c < 0) c += s`. -/
def remainder (c s : Int32) : Option Int32 :=
  let c := c % s
  if c < 0 then int32? (c.toInt + s.toInt) else some c

/-- `2 * s - 2`. -/
def period101 (s : Int32) : Option Int32 := do
  let s2 ← int32? (2 * s.toInt)
  int32? (s2.toInt - 2)

/-- The index before the last assertion. -/
def index (c s : Int32) : (B : BorderType) → Option Int32
  | .replicate => if c < 0 then some 0 else if s ≤ c then int32? (s.toInt - 1) else some c
  | .wrap => remainder c s
  | .reflect => do
    let s2 ← int32? (s.toInt * 2)
    let c ← remainder c s2
    let twice ← int32? (2 * c.toInt)
    let twice ← int32? (twice.toInt + 1)
    let twice ← int32? (twice.toInt - s2.toInt)
    let twice ← abs twice
    let last ← int32? (s.toInt - 1)
    int32? (last.toInt - twice.toInt >>> (1 : Nat))
  | .reflect101 =>
    if s = 1 then some 0 else do
      let c ← remainder c (← period101 s)
      let last ← int32? (s.toInt - 1)
      let d ← int32? (last.toInt - c.toInt)
      let d ← abs d
      int32? (last.toInt - d.toInt)

/-- What both functions do when they are active. -/
def wrapIndex (B : BorderType) (c s : Int32) : Option Int32 := do
  guard (0 < s)
  let c ← index c s B
  guard (0 ≤ c ∧ c < s)
  return c

/-- `GetIndexWithBorder<B, Active>`. -/
def getIndexWithBorder (B : BorderType) (Active : Bool) (c s : Int32) : Option Int32 :=
  if Active then wrapIndex B c s else some c

/-- `GetIndexWithBorderActive<B>`. -/
def getIndexWithBorderActive (B : BorderType) (active : Bool) (c s : Int32) : Option Int32 :=
  if active then wrapIndex B c s else some c

end Cvcuda.BorderWrap
