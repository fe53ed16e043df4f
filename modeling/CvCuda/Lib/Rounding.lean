import Mathlib.Tactic
import Mathlib.Data.Nat.Size

/-! # Rounding to a multiple, on naturals and on machine words

* `roundUp n a`: the least multiple of `a` not below `n` (`le_roundUp`, `dvd_roundUp`), which is
  `n` itself on the multiples (`roundUp_eq_iff`), monotone (`roundUp_mono`), and exact on words
  when the result fits (`add_lt_of_roundUp`).
* `toNat_and_neg`: on a word, masking with the negation of a power of two rounds down
  (`IsPow2`); `and_sub_one_eq_zero`: masking with its predecessor tests divisibility.
* `Smeared k y z`: or-ing a value with itself shifted down has spread each bit over `k` places;
  over all of them, `Smeared.eq`, this gives the next power of two.
-/

namespace Rounding

/-! ## Naturals -/

/-- The least multiple of `a` at or above `n`. -/
def roundUp (n a : Nat) : Nat := (n + (a - 1)) / a * a

theorem dvd_roundUp (n a : Nat) : a ∣ roundUp n a := Nat.dvd_mul_left a _

theorem le_roundUp (n : Nat) {a : Nat} (ha : 0 < a) : n ≤ roundUp n a := by
  have hm := Nat.mod_lt (n + (a - 1)) ha
  have hd := Nat.div_add_mod (n + (a - 1)) a
  rw [Nat.mul_comm] at hd
  unfold roundUp
  omega

/-- Rounding up leaves the multiples, and only them. -/
theorem roundUp_eq_iff {n a : Nat} (ha : 0 < a) : roundUp n a = n ↔ a ∣ n := by
  constructor
  · intro h
    rw [← h]
    exact dvd_roundUp n a
  · rintro ⟨c, rfl⟩
    rw [roundUp, Nat.mul_add_div ha, Nat.div_eq_of_lt (by omega), Nat.add_zero, Nat.mul_comm]

theorem roundUp_mono {n m : Nat} (a : Nat) (h : n ≤ m) : roundUp n a ≤ roundUp m a :=
  Nat.mul_le_mul_right a (Nat.div_le_div_right (by omega))

/-- A value that rounds up to below a multiple `m` of the alignment does not reach `m` when
`a - 1` is added: the addition inside the rounding does not overflow. -/
theorem add_lt_of_roundUp {n a m : Nat} (ha : 0 < a) (hm : a ∣ m) (h : roundUp n a < m) :
    n + (a - 1) < m := by
  obtain ⟨c, hc⟩ := dvd_roundUp n a
  obtain ⟨d, rfl⟩ := hm
  have hn := le_roundUp n ha
  have hcd : c + 1 ≤ d := by
    rw [hc] at h
    exact Nat.lt_of_mul_lt_mul_left h
  have := Nat.mul_le_mul_left a hcd
  rw [Nat.mul_add, Nat.mul_one] at this
  omega

/-! ## Words -/

/-- `a` is a power of two of the word. -/
def IsPow2 {w : Nat} (a : BitVec w) : Prop := ∃ k < w, a.toNat = 2 ^ k

instance {w : Nat} (a : BitVec w) : Decidable (IsPow2 a) :=
  inferInstanceAs (Decidable (∃ k < w, a.toNat = 2 ^ k))

theorem IsPow2.pos {w : Nat} {a : BitVec w} (h : IsPow2 a) : 0 < a.toNat := by
  obtain ⟨k, -, h⟩ := h
  rw [h]
  exact Nat.two_pow_pos k

theorem IsPow2.dvd_two_pow {w : Nat} {a : BitVec w} (h : IsPow2 a) : a.toNat ∣ 2 ^ w := by
  obtain ⟨k, hk, h⟩ := h
  rw [h]
  exact Nat.pow_dvd_pow 2 hk.le

/-- Of two powers of two, the smaller divides the larger. -/
theorem IsPow2.dvd {w : Nat} {a b : BitVec w} (ha : IsPow2 a) (hb : IsPow2 b)
    (h : a.toNat ≤ b.toNat) : a.toNat ∣ b.toNat := by
  obtain ⟨k, -, hk⟩ := ha
  obtain ⟨l, -, hl⟩ := hb
  rw [hk, hl] at h ⊢
  exact Nat.pow_dvd_pow 2 ((Nat.pow_le_pow_iff_right Nat.one_lt_two).1 h)

theorem toNat_sub_one {w : Nat} {a : BitVec w} (h : IsPow2 a) : (a - 1#w).toNat = a.toNat - 1 := by
  have hp := h.pos
  obtain ⟨k, hk, -⟩ := h
  have h1 : (1#w).toNat = 1 := by
    rw [BitVec.toNat_ofNat, Nat.mod_eq_of_lt (Nat.one_lt_two_pow (by omega))]
  have := BitVec.toNat_sub_of_le (x := a) (y := 1#w) (by rw [BitVec.le_def, h1]; exact hp)
  rw [this, h1]

/-- **Masking with the negation of a power of two rounds down.** -/
theorem toNat_and_neg {w : Nat} (v : BitVec w) {a : BitVec w} (h : IsPow2 a) :
    (v &&& -a).toNat = v.toNat / a.toNat * a.toNat := by
  have hp := h.pos
  have hlt := a.isLt
  obtain ⟨k, hk, ha⟩ := h
  -- `-a` is the ones from bit `k` to the top of the word
  have hneg : (-a).toNat = (2 ^ (w - k) - 1) * 2 ^ k := by
    rw [BitVec.toNat_neg, Nat.mod_eq_of_lt (by omega), ha, Nat.sub_mul, Nat.one_mul,
      ← Nat.pow_add, Nat.sub_add_cancel hk.le]
  rw [BitVec.toNat_and, hneg, ha]
  apply Nat.eq_of_testBit_eq
  intro j
  rw [Nat.testBit_and, Nat.testBit_mul_two_pow, Nat.testBit_mul_two_pow,
    Nat.testBit_two_pow_sub_one, Nat.testBit_div_two_pow]
  by_cases hj : k ≤ j
  · rw [Nat.sub_add_cancel hj]
    by_cases hw : j < w
    · simp [hj, show j - k < w - k by omega]
    · rw [Nat.testBit_lt_two_pow (Nat.lt_of_lt_of_le v.isLt (Nat.pow_le_pow_right (by decide)
        (by omega)))]
      simp
  · simp [hj]

/-- Masking with the predecessor of a power of two keeps the remainder. -/
theorem toNat_and_sub_one {w : Nat} (v : BitVec w) {a : BitVec w} (h : IsPow2 a) :
    (v &&& (a - 1#w)).toNat = v.toNat % a.toNat := by
  rw [BitVec.toNat_and, toNat_sub_one h]
  obtain ⟨k, -, ha⟩ := h
  rw [ha]
  exact Nat.and_two_pow_sub_one_eq_mod _ _

theorem and_sub_one_eq_zero {w : Nat} (v : BitVec w) {a : BitVec w} (h : IsPow2 a) :
    v &&& (a - 1#w) = 0#w ↔ a.toNat ∣ v.toNat := by
  rw [← BitVec.toNat_inj, toNat_and_sub_one v h, BitVec.toNat_ofNat, Nat.zero_mod,
    Nat.dvd_iff_mod_eq_zero]

/-! ## Smearing -/

/-- After `k` places: a bit is set where one of the `k` bits from it up was. -/
def Smeared (k y z : Nat) : Prop := ∀ i, z.testBit i ↔ ∃ j, i ≤ j ∧ j < i + k ∧ y.testBit j

theorem Smeared.step {k y z : Nat} (h : Smeared k y z) : Smeared (k + k) y (z ||| z >>> k) := by
  intro i
  rw [Nat.testBit_or, Nat.testBit_shiftRight, Bool.or_eq_true, h i, h (k + i)]
  constructor
  · rintro (⟨j, h1, h2, hj⟩ | ⟨j, h1, h2, hj⟩)
    · exact ⟨j, h1, by omega, hj⟩
    · exact ⟨j, by omega, by omega, hj⟩
  · rintro ⟨j, h1, h2, hj⟩
    by_cases hjk : j < i + k
    · exact .inl ⟨j, h1, hjk, hj⟩
    · exact .inr ⟨j, by omega, by omega, hj⟩

theorem Smeared.eq {k y z : Nat} (h : Smeared k y z) (hy : y < 2 ^ k) : z + 1 = 2 ^ y.size := by
  have : z = 2 ^ y.size - 1 := by
    apply Nat.eq_of_testBit_eq
    intro i
    rw [Nat.testBit_two_pow_sub_one, Bool.eq_iff_iff, h i, decide_eq_true_iff, Nat.lt_size]
    constructor
    · rintro ⟨j, h1, -, hj⟩
      exact (Nat.pow_le_pow_right (by decide) h1).trans (Nat.ge_two_pow_of_testBit hj)
    · intro hi
      obtain ⟨j, hij, hj⟩ := Nat.exists_ge_and_testBit_of_ge_two_pow hi
      refine ⟨j, hij, ?_, hj⟩
      have := Nat.ge_two_pow_of_testBit hj
      have := (Nat.pow_lt_pow_iff_right (by decide : 1 < 2)).1 (this.trans_lt hy)
      omega
  have := Nat.two_pow_pos y.size
  omega

theorem smeared_one (y : Nat) : Smeared 1 y y := by
  intro i
  exact ⟨fun h => ⟨i, le_rfl, by omega, h⟩, fun ⟨j, h1, h2, hj⟩ => by
    obtain rfl : j = i := by omega
    exact hj⟩


end Rounding
