import CvCuda.Cvcuda.HistogramEq

/-! # The grid size of the legacy operators

`divUp` of `priv_musa/legacy/CvCudaUtils.muh` over `int`, with its two conversions to `float` and
the one back.
-/

namespace Cvcuda

open FloatRound

/-- `divUp`. A result that is no `int` has no value. -/
def divUpInt (a b : Int32) : Option Int32 :=
  let size := ⌈rn 24 (rn 24 a.toInt / rn 24 b.toInt)⌉
  if -2 ^ 31 ≤ size ∧ size < 2 ^ 31 then some (.ofInt size) else none

end Cvcuda
