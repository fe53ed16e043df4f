import CvCuda.Lib.Rounding

/-! # Alignment helpers

`AlignDown` and `AlignUp` of `nvcv/detail/Align.hpp` at the type `size_t`, and what they compute
on the values that do not wrap (`toNat_alignUp`).
-/

namespace Nvcv

open Rounding

/-- `size_t`, also `uintptr_t`. -/
abbrev SizeT := BitVec 64

def alignDown (value alignmentPow2 : SizeT) : SizeT := value &&& -alignmentPow2

def alignUp (value alignmentPow2 : SizeT) : SizeT :=
  alignDown (value + (alignmentPow2 - 1#64)) alignmentPow2

theorem toNat_alignDown (v : SizeT) {a : SizeT} (ha : IsPow2 a) :
    (alignDown v a).toNat = v.toNat / a.toNat * a.toNat :=
  toNat_and_neg v ha

/-- **`AlignUp` rounds up** when the rounded value fits in the word. -/
theorem toNat_alignUp {v a : SizeT} (ha : IsPow2 a) (h : roundUp v.toNat a.toNat < 2 ^ 64) :
    (alignUp v a).toNat = roundUp v.toNat a.toNat := by
  have hlt := add_lt_of_roundUp ha.pos ha.dvd_two_pow h
  have hs : (v + (a - 1#64)).toNat = v.toNat + (a.toNat - 1) := by
    rw [BitVec.toNat_add, toNat_sub_one ha, Nat.mod_eq_of_lt hlt]
  rw [alignUp, toNat_alignDown _ ha, hs, roundUp]

end Nvcv
