import Mathlib.Tactic

/-! # 64-bit integers that do not wrap

The values of sums and differences of `Int64` in range, for `omega`, and of sums that are not; and
products with a divisor.
-/

namespace Int64

theorem toInt_add_of_range {a b : Int64} (hl : -2 ^ 63 ≤ a.toInt + b.toInt)
    (hu : a.toInt + b.toInt < 2 ^ 63) : (a + b).toInt = a.toInt + b.toInt := by
  rw [Int64.toInt_add]
  exact Int.bmod_eq_of_le (by omega) (by omega)

theorem toInt_sub_of_range {a b : Int64} (hl : -2 ^ 63 ≤ a.toInt - b.toInt)
    (hu : a.toInt - b.toInt < 2 ^ 63) : (a - b).toInt = a.toInt - b.toInt := by
  rw [Int64.toInt_sub]
  exact Int.bmod_eq_of_le (by omega) (by omega)

/-- A sum that leaves the range above is negative. -/
theorem toInt_max (a b : Int64) : (max a b).toInt = max a.toInt b.toInt := by
  rw [show max a b = if a ≤ b then b else a from rfl]
  by_cases h : a ≤ b
  · rw [if_pos h, max_eq_right (Int64.le_iff_toInt_le.1 h)]
  · rw [if_neg h, max_eq_left]
    rw [Int64.le_iff_toInt_le] at h
    omega

theorem toInt_add_of_overflow {a b : Int64} (h : 2 ^ 63 ≤ a.toInt + b.toInt) :
    (a + b).toInt = a.toInt + b.toInt - 2 ^ 64 := by
  have ha := a.toInt_lt
  have hb := b.toInt_lt
  have hb64 : ((a.toInt + b.toInt - (2 ^ 64 : Nat)).bmod (2 ^ 64)) =
      a.toInt + b.toInt - (2 ^ 64 : Nat) := Int.bmod_eq_of_le (by omega) (by omega)
  rw [Int64.toInt_add, ← Int.sub_bmod_right, hb64]
  norm_num

/-- A multiple, divided and multiplied again. -/
theorem div_mul_cancel_of_mod {a b : Int64} (hb : b ≠ -1) (h : a % b = 0) : a / b * b = a := by
  have hmod : a.toInt.tmod b.toInt = 0 := by
    rw [← Int64.toInt_mod, h, Int64.toInt_zero]
  apply Int64.toInt.inj
  rw [Int64.toInt_mul, Int64.toInt_div_of_ne_right _ _ hb,
    Int.tdiv_mul_cancel (Int.dvd_of_tmod_eq_zero hmod)]
  have hl := a.le_toInt
  have hu := a.toInt_lt
  exact Int.bmod_eq_of_le (by omega) (by omega)

/-- A product that is its first factor, wrapping or not. -/
theorem dvd_of_mul_eq_self {a b : Int64} (h : a * b = a) :
    (2 ^ 64 : Int) ∣ a.toInt * (b.toInt - 1) := by
  have ht := congrArg Int64.toInt h
  rw [Int64.toInt_mul] at ht
  have hb := Int.dvd_bmod_sub_self (x := a.toInt * b.toInt) (m := 2 ^ 64)
  rw [ht, ← dvd_neg, neg_sub] at hb
  rw [Int.mul_sub, Int.mul_one]
  simpa using hb

/-- Only 0 is its own product with an even number. -/
theorem mul_eq_self_iff_of_even {a b : Int64} (hb : b.toInt % 2 = 0) : a * b = a ↔ a = 0 := by
  constructor
  · intro h
    have hcop : IsCoprime (2 ^ 64 : Int) (b.toInt - 1) :=
      IsCoprime.pow_left ⟨-(b.toInt / 2 - 1), 1, by omega⟩
    obtain ⟨k, hk⟩ := hcop.dvd_of_dvd_mul_right (dvd_of_mul_eq_self h)
    have hl := a.le_toInt
    have hu := a.toInt_lt
    have h0 : a.toInt = 0 := by omega
    exact Int64.toInt.inj (h0.trans Int64.toInt_zero.symm)
  · rintro rfl
    exact Int64.zero_mul

/-- Only 0 is a multiple of 3 and its own product with 3. -/
theorem mul_three_eq_self_iff {a : Int64} (h3 : a % 3 = 0) : a * 3 = a ↔ a = 0 := by
  constructor
  · intro h
    obtain ⟨k, hk⟩ := dvd_of_mul_eq_self h
    rw [show (3 : Int64).toInt = 3 by decide] at hk
    have hx : a.toInt = 2 ^ 63 * k := by omega
    have hl := a.le_toInt
    have hu := a.toInt_lt
    rcases (by omega : k = -1 ∨ k = 0) with rfl | rfl
    · -- `-2 ^ 63` is no multiple of 3
      have ht := congrArg Int64.toInt h3
      rw [Int64.toInt_mod, hx, Int64.toInt_zero] at ht
      exact absurd ht (by decide)
    · exact Int64.toInt.inj (hx.trans Int64.toInt_zero.symm)
  · rintro rfl
    exact Int64.zero_mul

end Int64
