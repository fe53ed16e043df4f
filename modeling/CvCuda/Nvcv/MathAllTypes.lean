import CvCuda.Lib.CInt

/-! # The integer helpers at all types

`RoundUp`, `RoundUpNextPowerOfTwo`, `DivUp`, `RoundUpPowerOfTwo`, `ILog2` and `DivUpPowerOfTwo` of
`nvcv/util_musa/Math.hpp`, at the integer types of 32 and 64 bits. `Nvcv/Math.lean` has those that
the library calls, at the types of its calls.
-/

namespace Nvcv.Util

open CInt

/-- `RoundUp` -/
def roundUp (t u : IntType) (value multiple : ℤ) : Option ℤ := do
  let c := IntType.common t u
  let sum ← c.arith (c.conv value + c.conv multiple)
  let sum ← c.arith (sum - 1)
  let quotient ← c.arith (sum.tdiv (c.conv multiple))
  let product ← c.arith (quotient * c.conv multiple)
  return t.conv product

/-- The type that `RoundUpNextPowerOfTwo` returns. -/
def nextType : IntType → IntType
  | .int32 => .int64
  | .int64 => .uint64
  | t => t

/-- `RoundUpNextPowerOfTwo` -/
def roundUpNextPowerOfTwo (t : IntType) (x : ℤ) : Option ℤ := do
  let x ← t.arith (x - 1)
  let x := ([1, 2, 4, 8, 16, 32].filter (· < t.width)).foldl (fun x (i : Nat) => t.bor x (x >>> i)) x
  (nextType t).arith ((nextType t).conv x + 1)

/-- `DivUp` -/
def divUp (t : IntType) (num den : ℤ) : Option ℤ := do
  let d ← t.arith (den - 1)
  let sum ← t.arith (num + d)
  t.arith (sum.tdiv den)

/-- `RoundUpPowerOfTwo` -/
def roundUpPowerOfTwo (t u : IntType) (value multiple : ℤ) : Option ℤ := do
  let c := IntType.common t u
  let m ← u.arith (multiple - 1)
  let sum ← c.arith (c.conv value + c.conv m)
  let neg ← u.arith (-multiple)
  return c.band sum (c.conv neg)

/-- `ILog2` -/
def iLog2 (t : IntType) (value : ℤ) : ℤ := t.width - (t.bits value).clz.toNat - 1

/-- `DivUpPowerOfTwo` -/
def divUpPowerOfTwo (t : IntType) (num den : ℤ) : Option ℤ := do
  let d ← t.arith (den - 1)
  t.arith (num >>> (iLog2 t den).toNat + if t.band num d ≠ 0 then 1 else 0)

end Nvcv.Util
