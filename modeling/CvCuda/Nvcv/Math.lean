import CvCuda.Lib.Outcome
import CvCuda.Lib.Rounding

/-! # Integer helpers

What the code uses of `nvcv/util_musa/Math.hpp`, and `std::lcm`. A signed result that its type
does not hold has no meaning in C++, and no outcome here.
-/

namespace Nvcv

open Rounding

/-- A value of type `int`. -/
def int32? (x : Int) : Option Int32 :=
  if -2 ^ 31 ≤ x ∧ x < 2 ^ 31 then some (.ofInt x) else none

/-- A value of type `int64_t`. -/
def int64? (x : Int) : Option Int64 :=
  if -2 ^ 63 ≤ x ∧ x < 2 ^ 63 then some (.ofInt x) else none

section
variable {T : Type} [AndOp T] [Sub T] [OfNat T 0] [OfNat T 1]

def isPowerOfTwo (value : T) : Prop := value &&& (value - 1) = 0

instance [DecidableEq T] (value : T) : Decidable (isPowerOfTwo value) :=
  inferInstanceAs (Decidable (_ = _))

end

/-- `RoundUpNextPowerOfTwo` of an `int32_t`, computed as an `int64_t`. -/
def roundUpNextPowerOfTwo (x : Int32) : Int64 :=
  (([1, 2, 4, 8, 16] : List Int32).foldl (fun x i => x ||| x >>> i) (x - 1)).toInt64 + 1

/-- `RoundUpPowerOfTwo` of an `int64_t` to a multiple of an `int`. -/
def roundUpPowerOfTwo (value : Int64) (multiple : Int32) : Option Int64 := do
  let v ← int64? (value.toInt + (multiple.toInt - 1))
  return v &&& (-multiple).toInt64

def iLog2 (value : Int64) : Nat := value.toInt.toNat.log2

def divUpPowerOfTwo (num den : Int64) : Int64 :=
  num >>> .ofNat (iLog2 den) + if num &&& (den - 1) ≠ 0 then 1 else 0

/-- `std::lcm` of two `int`s. -/
def lcm (m n : Int32) : Option Int32 := int32? (Int.lcm m.toInt n.toInt)

/-! ## Values -/

theorem toInt_int32 {x : Int} {y : Int32} (h : int32? x = some y) : y.toInt = x := by
  unfold int32? at h
  split_ifs at h with hx
  rw [← Option.some.inj h]
  exact Int32.toInt_ofInt_of_le hx.1 hx.2

theorem toInt_int64 {x : Int} {y : Int64} (h : int64? x = some y) : y.toInt = x := by
  unfold int64? at h
  split_ifs at h with hx
  rw [← Option.some.inj h]
  exact Int64.toInt_ofInt_of_le hx.1 hx.2

theorem toInt64_neg {m : Int32} (h : 0 < m.toInt) :
    (-m).toInt64.toBitVec = -m.toInt64.toBitVec := by
  apply BitVec.eq_of_toInt_eq
  have hneg : (-m).toInt = -m.toInt := by
    have := m.toInt_lt
    rw [Int32.toInt_neg]
    exact Int.bmod_eq_of_le (by simp; omega) (by simp; omega)
  have hm : (-m.toInt64).toInt = -m.toInt := by
    have := m.toInt_lt
    rw [Int64.toInt_neg, Int32.toInt_toInt64]
    exact Int.bmod_eq_of_le (by simp; omega) (by simp; omega)
  rw [Int64.toInt_toBitVec, Int32.toInt_toInt64, hneg, ← Int64.toBitVec_neg,
    Int64.toInt_toBitVec, hm]

theorem toNat_toBitVec {x : Int64} (h : 0 ≤ x.toInt) : x.toBitVec.toNat = x.toInt.toNat := by
  rw [← Int64.toInt_toBitVec] at h ⊢
  have := x.toBitVec.isLt
  rw [BitVec.toInt_eq_toNat_cond] at h ⊢
  split_ifs at h ⊢ <;> omega

theorem int64?_eq_some {x : Int} {y : Int64} :
    int64? x = some y ↔ (-2 ^ 63 ≤ x ∧ x < 2 ^ 63) ∧ y.toInt = x := by
  constructor
  · intro h
    refine ⟨?_, toInt_int64 h⟩
    unfold int64? at h
    split_ifs at h with hx
    exact hx
  · rintro ⟨hx, rfl⟩
    rw [int64?, if_pos hx, Int64.ofInt_toInt]

theorem toInt_and_neg (w : Int64) {m : Int32} {k : Nat} (hk : k < 31) (hm : m.toInt = 2 ^ k) :
    (w &&& (-m).toInt64).toInt = w.toInt / 2 ^ k * 2 ^ k := by
  have h2k : (1 : Int) ≤ 2 ^ k := by exact_mod_cast Nat.one_le_two_pow
  have hm64 : m.toInt64.toBitVec.toNat = 2 ^ k := by
    rw [toNat_toBitVec] <;> rw [Int32.toInt_toInt64, hm]
    · exact_mod_cast Int.toNat_natCast (2 ^ k)
    · omega
  have hand : (w &&& (-m).toInt64).toBitVec.toNat = w.toBitVec.toNat / 2 ^ k * 2 ^ k := by
    rw [Int64.toBitVec_and, toInt64_neg (by omega), toNat_and_neg _ ⟨k, by omega, hm64⟩, hm64]
  have hle : w.toBitVec.toNat / 2 ^ k * 2 ^ k ≤ w.toBitVec.toNat := Nat.div_mul_le_self _ _
  have hlt := w.toBitVec.isLt
  rw [← Int64.toInt_toBitVec, ← Int64.toInt_toBitVec, BitVec.toInt_eq_toNat_cond,
    BitVec.toInt_eq_toNat_cond, hand]
  by_cases hw : 2 * w.toBitVec.toNat < 2 ^ 64
  · rw [if_pos hw, if_pos (by omega)]
    push_cast
    rfl
  · -- both halves of the range start at a multiple of the power
    have hge : 2 ^ 63 ≤ w.toBitVec.toNat / 2 ^ k * 2 ^ k := by
      have hd : 2 ^ k ∣ 2 ^ 63 := Nat.pow_dvd_pow 2 (by omega)
      rw [← Nat.div_mul_cancel hd]
      exact Nat.mul_le_mul_right _ (Nat.div_le_div_right (by omega))
    rw [if_neg hw, if_neg (by omega)]
    have h64 : ((2 ^ 64 : Nat) : Int) = 2 ^ (64 - k) * 2 ^ k := by
      rw [← pow_add, Nat.sub_add_cancel (by omega)]
      norm_num
    rw [h64, Nat.cast_mul, Int.natCast_div]
    push_cast
    rw [Int.sub_mul_ediv_right _ _ (by positivity), sub_mul]

/-- **`RoundUpPowerOfTwo` rounds up**, where the sum it starts with fits. -/
theorem roundUpPowerOfTwo_iff {v r : Int64} {m : Int32} (hm : m = 0 ∨ ∃ k < 31, m.toInt = 2 ^ k) :
    roundUpPowerOfTwo v m = some r ↔
      (-2 ^ 63 ≤ v.toInt + (m.toInt - 1) ∧ v.toInt + (m.toInt - 1) < 2 ^ 63) ∧
        r.toInt = (v.toInt + (m.toInt - 1)) / m.toInt * m.toInt := by
  have hmask : ∀ w : Int64, (w &&& (-m).toInt64).toInt = w.toInt / m.toInt * m.toInt := by
    intro w
    rcases hm with rfl | ⟨k, hk, hm⟩
    · simp
    · rw [toInt_and_neg w hk hm, hm]
  unfold roundUpPowerOfTwo
  constructor
  · intro h
    obtain ⟨w, hw, hr⟩ := Option.bind_eq_some_iff.1 h
    obtain ⟨hfit, hw⟩ := int64?_eq_some.1 hw
    rw [← Option.some.inj hr, hmask, hw]
    exact ⟨hfit, rfl⟩
  · rintro ⟨hfit, hr⟩
    refine Option.bind_eq_some_iff.2 ⟨.ofInt (v.toInt + (m.toInt - 1)),
      int64?_eq_some.2 ⟨hfit, Int64.toInt_ofInt_of_le hfit.1 hfit.2⟩, congrArg some ?_⟩
    rw [← Int64.toInt_inj, hmask, Int64.toInt_ofInt_of_le hfit.1 hfit.2, hr]

theorem exists_roundUpPowerOfTwo {v : Int64} {m : Int32}
    (hfit : -2 ^ 63 ≤ v.toInt + (m.toInt - 1) ∧ v.toInt + (m.toInt - 1) < 2 ^ 63) :
    ∃ r, roundUpPowerOfTwo v m = some r := by
  refine ⟨_, Option.bind_eq_some_iff.2 ⟨.ofInt (v.toInt + (m.toInt - 1)), ?_, rfl⟩⟩
  exact int64?_eq_some.2 ⟨hfit, Int64.toInt_ofInt_of_le hfit.1 hfit.2⟩

/-- **`RoundUpPowerOfTwo` rounds up** a value that is not negative. -/
theorem toInt_roundUpPowerOfTwo {v r : Int64} {m : Int32} {k : Nat} (hk : k < 31)
    (hm : m.toInt = 2 ^ k) (hv : 0 ≤ v.toInt) (h : roundUpPowerOfTwo v m = some r) :
    r.toInt = roundUp v.toInt.toNat (2 ^ k) := by
  have h2k : 1 ≤ 2 ^ k := Nat.one_le_two_pow
  have hr := ((roundUpPowerOfTwo_iff (.inr ⟨k, hk, hm⟩)).1 h).2
  have hv' : (v.toInt.toNat : Int) = v.toInt := Int.toNat_of_nonneg hv
  rw [hr, hm, roundUp]
  push_cast [Nat.cast_sub h2k]
  rw [hv']

theorem iLog2_two_pow {a : Int64} {k : Nat} (ha : a.toInt = 2 ^ k) : iLog2 a = k := by
  have h : a.toInt.toNat = 2 ^ k := by
    rw [ha]
    exact_mod_cast Int.toNat_natCast (2 ^ k)
  rw [iLog2, h, Nat.log2_two_pow]

/-- **`DivUpPowerOfTwo` rounds up**, to the next multiple. -/
theorem divUpPowerOfTwo_spec {num den : Int64} {k : Nat} (hk : k < 63) (hd : den.toInt = 2 ^ k)
    (hn : 0 ≤ num.toInt) :
    num.toInt ≤ (divUpPowerOfTwo num den).toInt * 2 ^ k ∧
      (divUpPowerOfTwo num den).toInt * 2 ^ k < num.toInt + 2 ^ k := by
  have h2k : (1 : Int) ≤ 2 ^ k := by exact_mod_cast Nat.one_le_two_pow
  have hdn : den.toBitVec.toNat = 2 ^ k := by
    rw [toNat_toBitVec (by omega), hd]
    exact_mod_cast Int.toNat_natCast (2 ^ k)
  have hand : num &&& (den - 1) ≠ 0 ↔ num.toInt % 2 ^ k ≠ 0 := by
    have hdvd : 2 ^ k ∣ num.toBitVec.toNat ↔ num.toInt % 2 ^ k = 0 := by
      rw [toNat_toBitVec hn, ← Int.natCast_dvd_natCast, Int.toNat_of_nonneg hn,
        Int.dvd_iff_emod_eq_zero]
      push_cast
      rfl
    rw [Ne, Ne, ← hdvd, ← hdn, ← and_sub_one_eq_zero _ ⟨k, by omega, hdn⟩, ← Int64.toBitVec_inj]
    rfl
  have hs : ((Int64.ofNat k).toBitVec.smod 64).toNat = k := by
    interval_cases k <;> rfl
  have hshift : (num >>> Int64.ofNat k).toInt = num.toInt / 2 ^ k := by
    rw [← Int64.toInt_toBitVec, Int64.toBitVec_shiftRight, BitVec.toInt_sshiftRight', hs,
      Int64.toInt_toBitVec, Int.shiftRight_eq_div_pow]
    norm_num
  have hlt := num.toInt_lt
  have hdm := Int.mul_ediv_add_emod num.toInt (2 ^ k)
  have hmod := Int.emod_lt_of_pos num.toInt (show (0 : Int) < 2 ^ k by omega)
  unfold divUpPowerOfTwo
  rw [iLog2_two_pow hd]
  by_cases hdvd : num &&& (den - 1) ≠ 0
  · have hk1 : 1 ≤ k := by
      refine Nat.pos_of_ne_zero fun h0 => hand.1 hdvd ?_
      rw [h0, pow_zero, Int.emod_one]
    have h2 : (2 : Int) ≤ 2 ^ k := by
      exact_mod_cast Nat.pow_le_pow_right (by decide : 0 < 2) hk1
    have hq : num.toInt / 2 ^ k < 2 ^ 62 := by
      apply Int.ediv_lt_of_lt_mul (by omega)
      omega
    have hq0 : 0 ≤ num.toInt / 2 ^ k := Int.ediv_nonneg hn (by omega)
    have hadd : (num >>> Int64.ofNat k + 1).toInt = num.toInt / 2 ^ k + 1 := by
      rw [Int64.toInt_add, hshift, show (1 : Int64).toInt = 1 from rfl]
      exact Int.bmod_eq_of_le (by omega) (by omega)
    have hr := hand.1 hdvd
    have hr0 := Int.emod_nonneg num.toInt (show (2 : Int) ^ k ≠ 0 by omega)
    rw [if_pos hdvd, hadd, add_mul, one_mul, mul_comm]
    omega
  · have hz := not_not.1 (mt hand.2 hdvd)
    rw [if_neg hdvd, Int64.add_zero, hshift, mul_comm]
    omega

/-- One step of the loop in `RoundUpNextPowerOfTwo`. -/
theorem smear_step {x : Int32} {k y : Nat} (hk : k < 32)
    (h : Smeared k y x.toBitVec.toNat ∧ x.toBitVec.toNat < 2 ^ 31) :
    Smeared (k + k) y (x ||| x >>> .ofNat k).toBitVec.toNat ∧
      (x ||| x >>> .ofNat k).toBitVec.toNat < 2 ^ 31 := by
  have hmsb : x.toBitVec.msb = false := by
    rw [BitVec.msb_eq_false_iff_two_mul_lt]
    omega
  have hs : ((Int32.ofNat k).toBitVec.smod 32).toNat = k := by
    interval_cases k <;> rfl
  have hor : (x ||| x >>> .ofNat k).toBitVec.toNat =
      x.toBitVec.toNat ||| x.toBitVec.toNat >>> k := by
    rw [Int32.toBitVec_or, Int32.toBitVec_shiftRight, BitVec.toNat_or,
      BitVec.toNat_sshiftRight'_of_msb_false hmsb, hs]
  rw [hor]
  exact ⟨h.1.step, Nat.or_lt_two_pow h.2 ((Nat.shiftRight_le _ _).trans_lt h.2)⟩

/-- **`RoundUpNextPowerOfTwo` of a positive value** is the power of two it names. -/
theorem toInt_roundUpNextPowerOfTwo {x : Int32} (h : 0 < x.toInt) :
    (roundUpNextPowerOfTwo x).toInt = 2 ^ (x.toInt.toNat - 1).size := by
  have hx := x.toInt_lt
  have h1 : (x - 1).toInt = x.toInt - 1 := by
    rw [Int32.toInt_sub, show (1 : Int32).toInt = 1 from rfl]
    exact Int.bmod_eq_of_le (by omega) (by omega)
  have hnat : ∀ z : Int32, 0 ≤ z.toInt → z.toBitVec.toNat = z.toInt.toNat := by
    intro z hz
    have := z.toBitVec.isLt
    rw [← Int32.toInt_toBitVec, BitVec.toInt_eq_toNat_cond] at hz ⊢
    split_ifs at hz ⊢ <;> omega
  have h0 : Smeared 1 (x.toInt.toNat - 1) (x - 1).toBitVec.toNat ∧
      (x - 1).toBitVec.toNat < 2 ^ 31 := by
    rw [hnat (x - 1) (by omega), show (x - 1).toInt.toNat = x.toInt.toNat - 1 by omega]
    exact ⟨smeared_one _, by omega⟩
  have h5 := smear_step (by decide) (smear_step (by decide) (smear_step (by decide)
    (smear_step (by decide) (smear_step (by decide) h0))))
  have hz : ∀ z : Int32, z.toBitVec.toNat < 2 ^ 31 →
      (z.toInt64 + 1).toInt = z.toBitVec.toNat + 1 := by
    intro z hz
    have hzi : z.toInt = z.toBitVec.toNat := by
      rw [← Int32.toInt_toBitVec, BitVec.toInt_eq_toNat_cond, if_pos (by omega)]
    rw [Int64.toInt_add, Int32.toInt_toInt64, hzi, show (1 : Int64).toInt = 1 from rfl]
    exact Int.bmod_eq_of_le (by omega) (by omega)
  exact (hz _ h5.2).trans (by exact_mod_cast h5.1.eq (by omega))

end Nvcv
