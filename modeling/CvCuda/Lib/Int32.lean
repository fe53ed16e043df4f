import Mathlib.Tactic

/-! # 32-bit integers that do not wrap

The values of sums, differences, minima and maxima of `Int32`, for `omega`; sums and differences
have to be in range, or (`toInt_add_wraps`) to wrap upwards. `forall_mem_of_all` decides over a list of integers.
-/

namespace Int32

theorem toInt_add_of_range {a b : Int32} (hl : -2 ^ 31 ≤ a.toInt + b.toInt)
    (hu : a.toInt + b.toInt < 2 ^ 31) : (a + b).toInt = a.toInt + b.toInt := by
  rw [Int32.toInt_add]
  exact Int.bmod_eq_of_le (by omega) (by omega)

theorem toInt_sub_of_range {a b : Int32} (hl : -2 ^ 31 ≤ a.toInt - b.toInt)
    (hu : a.toInt - b.toInt < 2 ^ 31) : (a - b).toInt = a.toInt - b.toInt := by
  rw [Int32.toInt_sub]
  exact Int.bmod_eq_of_le (by omega) (by omega)

/-- A sum of two non-negative integers that is out of range is negative. -/
theorem toInt_add_wraps {a b : Int32} (h : 2 ^ 31 ≤ a.toInt + b.toInt) :
    (a + b).toInt = a.toInt + b.toInt - 2 ^ 32 := by
  have := a.toInt_lt
  have := b.toInt_lt
  rw [Int32.toInt_add, Int.bmod_eq_emod]
  split <;> omega

theorem toInt_min (a b : Int32) : (min a b).toInt = min a.toInt b.toInt := by
  rw [show min a b = if a ≤ b then a else b from rfl]
  by_cases h : a ≤ b
  · rw [if_pos h, min_eq_left (Int32.le_iff_toInt_le.1 h)]
  · rw [if_neg h, min_eq_right]
    rw [Int32.le_iff_toInt_le] at h
    omega

theorem toInt_max (a b : Int32) : (max a b).toInt = max a.toInt b.toInt := by
  rw [show max a b = if a ≤ b then b else a from rfl]
  by_cases h : a ≤ b
  · rw [if_pos h, max_eq_right (Int32.le_iff_toInt_le.1 h)]
  · rw [if_neg h, max_eq_left]
    rw [Int32.le_iff_toInt_le] at h
    omega

end Int32

/-- What `List.all` decides, for machine integers: the quantifier itself may be decided by running
through their type. -/
theorem forall_mem_of_all {α : Type} {p : α → Prop} [DecidablePred p] {l : List α}
    (h : l.all (p ·) = true) : ∀ x ∈ l, p x := by
  simpa using h
