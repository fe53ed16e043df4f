import Mathlib.Algebra.Ring.Periodic
import Mathlib.Tactic

/-! # Functions of the integers that repeat

A function of period `p` is that of the remainders of `p`; one that moreover is mirrored, at half
of `m`, is that of the smaller of a remainder and its mirror image.

* `fold p m`: what a mirrored function looks at.
* `eq_fold`: that is enough. `fold_periodic`, `fold_mirror`: and it repeats itself.
-/

namespace Folding

open Function (Periodic)

variable {α : Type} {e : ℤ → α} {p m : ℤ}

theorem periodic_emod (h : Periodic e p) (c : ℤ) : e c = e (c % p) := by
  have hk := h.sub_int_mul_eq (x := c) (c / p)
  rw [← hk, Int.emod_def, mul_comm]
  rfl

/-- The remainder or its mirror image, whichever comes first. -/
def fold (p m c : ℤ) : ℤ := min (c % p) (m + p - c % p)

/-- A mirrored function is its value at a folded argument. -/
theorem eq_fold (hp : Periodic e p) (hm : ∀ c, e (m - c) = e c) (c : ℤ) :
    e c = e (fold p m c) := by
  rw [periodic_emod hp c, fold]
  rcases min_choice (c % p) (m + p - c % p) with h | h
  · rw [h]
  · rw [h, ← hm (c % p), ← hp (m - c % p)]
    congr 1
    ring

theorem fold_periodic (p m : ℤ) : Periodic (fold p m) p := by
  intro c
  rw [fold, Int.add_emod_right, fold]

/-- The remainders of an argument and its mirror image. -/
theorem fold_mirror (hp : 0 < p) (hm : m = -1 ∨ m = 0) (c : ℤ) :
    fold p m (m - c) = fold p m c := by
  have hl := Int.emod_nonneg c hp.ne'
  have hu := Int.emod_lt_of_pos c hp
  have hr : (m - c) % p = (m - c % p) % p := by
    exact (Int.sub_emod_emod m c p).symm
  unfold fold
  rw [hr]
  generalize c % p = r at hl hu
  by_cases h0 : 0 ≤ m - r
  · rw [Int.emod_eq_of_lt h0 (by omega)]
    omega
  · have he : (m - r) % p = m - r + p := by
      rw [← Int.add_emod_right, Int.emod_eq_of_lt (by omega) (by omega)]
    rw [he]
    omega

end Folding
