import Mathlib.Tactic

/-! # Integers kept in 32 bits that are extended to 64

A value that was kept in 32 bits stands for the same address as the value itself when the two are
the same up to `2 ^ 64`.

* `fits32_of_dvd`: then the value fits in 32 bits, if it fits in 64.
* `multiples_iff`: all multiples up to one fit when the last one does.
* `scaled_iff`: likewise for indices that are scaled afterwards.
-/

namespace Wrapping

/-- The values of 32 bits. -/
def Fits32 (z : ℤ) : Prop := -2 ^ 31 ≤ z ∧ z < 2 ^ 31

instance (z : ℤ) : Decidable (Fits32 z) := inferInstanceAs (Decidable (_ ∧ _))

theorem bmod_of_fits32 {z : ℤ} (h : Fits32 z) : z.bmod (2 ^ 32) = z :=
  Int.bmod_eq_of_le (by have := h.1; omega) (by have := h.2; omega)

theorem fits32_bmod (z : ℤ) : Fits32 (z.bmod (2 ^ 32)) := by
  have hl := Int.le_bmod (x := z) (m := 2 ^ 32) (by norm_num)
  have hu := Int.bmod_lt (x := z) (m := 2 ^ 32) (by norm_num)
  exact ⟨by omega, by omega⟩

/-- A value that fits in 64 bits and is what is kept of it. -/
theorem fits32_of_dvd {z : ℤ} (hl : -2 ^ 63 ≤ z) (hu : z < 2 ^ 63)
    (h : (2 ^ 64 : ℤ) ∣ z.bmod (2 ^ 32) - z) : Fits32 z := by
  obtain ⟨hbl, hbu⟩ := fits32_bmod z
  have heq : z.bmod (2 ^ 32) - z = 0 := Int.eq_zero_of_abs_lt_dvd h (abs_lt.2 ⟨by omega, by omega⟩)
  rw [← sub_eq_zero.1 heq]
  exact ⟨hbl, hbu⟩

theorem fits32_mul_of_lt {i n s : ℤ} (hi : 0 ≤ i) (hn : i < n) (h : Fits32 ((n - 1) * s)) :
    Fits32 (i * s) := by
  obtain ⟨hl, hu⟩ := h
  rcases le_total 0 s with hs | hs
  · exact ⟨by nlinarith [mul_nonneg hi hs], by nlinarith⟩
  · exact ⟨by nlinarith, by nlinarith [mul_nonneg_of_nonpos_of_nonpos (neg_nonpos.2 hi) hs]⟩

/-- The multiples of a stride are what is kept of them when the last one fits. -/
theorem multiples_iff {n s : ℤ} (hn : 1 ≤ n) (hl : -2 ^ 63 ≤ s) (hu : s < 2 ^ 63) :
    (∀ i, 0 ≤ i → i < n → (2 ^ 64 : ℤ) ∣ (i * s).bmod (2 ^ 32) - i * s) ↔
      Fits32 ((n - 1) * s) := by
  constructor
  · intro h
    have hall : ∀ k : ℕ, (k : ℤ) < n → Fits32 (k * s) := by
      intro k
      induction k with
      | zero =>
        rw [Nat.cast_zero, zero_mul]
        exact fun _ => ⟨by norm_num, by norm_num⟩
      | succ k ih =>
        intro hk
        push_cast at hk ⊢
        obtain ⟨hkl, hku⟩ := ih (by omega)
        obtain ⟨hsl, hsu⟩ : Fits32 s := by
          have hone := h 1 (by norm_num) (by omega)
          rw [one_mul] at hone
          exact fits32_of_dvd hl hu hone
        have hdvd := h (k + 1) (by omega) hk
        refine fits32_of_dvd ?_ ?_ hdvd
        · rw [add_mul, one_mul]
          omega
        · rw [add_mul, one_mul]
          omega
    obtain ⟨k, hk⟩ := Int.eq_ofNat_of_zero_le (by omega : 0 ≤ n - 1)
    rw [hk]
    exact hall k (by omega)
  · intro h i hi hin
    rw [bmod_of_fits32 (fits32_mul_of_lt hi hin h), sub_self]
    exact dvd_zero _

/-- Indices that are kept and scaled by `size` stand for themselves scaled by `elem`. -/
theorem scaled_iff {m size elem : ℤ} (hsize : 0 < size) (hsize' : size ≤ 2 ^ 16) (helem : 0 < elem)
    (helem' : elem ≤ 2 ^ 16) :
    (∀ p, 0 ≤ p → p < m → (2 ^ 64 : ℤ) ∣ p.bmod (2 ^ 32) * size - p * elem) ↔
      m ≤ 2 ^ 31 ∧ (m ≤ 1 ∨ elem = size) := by
  constructor
  · intro h
    have hsame : m ≤ 1 ∨ elem = size := by
      by_contra hnot
      obtain ⟨hm, hne⟩ := not_or.1 hnot
      have hone := h 1 (by norm_num) (by omega)
      rw [bmod_of_fits32 ⟨by norm_num, by norm_num⟩, one_mul, one_mul] at hone
      have hzero := Int.eq_zero_of_abs_lt_dvd hone (abs_lt.2 ⟨by omega, by omega⟩)
      omega
    refine ⟨not_lt.1 fun hm => ?_, hsame⟩
    have helem : elem = size := hsame.resolve_left (by omega)
    have hdvd := h (2 ^ 31) (by norm_num) hm
    have hbmod : (2 ^ 31 : ℤ).bmod (2 ^ 32) = -2 ^ 31 := by decide
    rw [hbmod, helem] at hdvd
    have hzero := Int.eq_zero_of_abs_lt_dvd hdvd (abs_lt.2 ⟨by omega, by omega⟩)
    omega
  · rintro ⟨hm, hsame⟩ p hp hpm
    rw [bmod_of_fits32 ⟨by omega, by omega⟩]
    rcases hsame with hone | rfl
    · obtain rfl : p = 0 := by omega
      rw [zero_mul, zero_mul, sub_self]
      exact dvd_zero _
    · rw [sub_self]
      exact dvd_zero _

end Wrapping
