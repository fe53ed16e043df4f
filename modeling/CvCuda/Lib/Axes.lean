import Mathlib.Tactic
import Mathlib.Data.Fintype.Pi
import Mathlib.Algebra.BigOperators.Ring.Finset

/-! # Loops over the axes of an array

An array with the dimensions `ι`, walked by loops `A`, each along one dimension or along none. A
dimension without a loop stays at its first index.

* `index`: where the loops are in the array. `sum_index`: the offset of that element.
* `bijOn_index_iff`: when loops up to some limits meet each element exactly once.
-/

namespace Axes

variable {A ι : Type} [Fintype A] [DecidableEq ι] (pos : A → Option ι)

/-- The loops walk different dimensions. -/
def Separate : Prop := ∀ a b i, pos a = some i → pos b = some i → a = b

/-- Where the loops are in the array. -/
def index (k : A → ℕ) (i : ι) : ℕ := ∑ a, if pos a = some i then k a else 0

/-- The loops below their limits. -/
def Below {κ : Type} (lim : κ → ℕ) : Set (κ → ℕ) := {k | ∀ a, k a < lim a}

variable {pos}

/-- **The offset** of the element where the loops are: each loop steps by the stride of its
dimension. -/
theorem sum_index {R : Type} [CommSemiring R] [Fintype ι] (s : ι → R) (k : A → ℕ) :
    ∑ i, s i * (index pos k i : R) = ∑ a, (pos a).elim 0 s * (k a : R) := by
  simp only [index, Nat.cast_sum, Finset.mul_sum, Nat.cast_ite, Nat.cast_zero, mul_ite, mul_zero]
  rw [Finset.sum_comm]
  refine Finset.sum_congr rfl fun a _ => ?_
  cases pos a with
  | none => simp
  | some i => simp

theorem index_of_pos (hsep : Separate pos) {a : A} {i : ι} (h : pos a = some i) (k : A → ℕ) :
    index pos k i = k a := by
  rw [index, Finset.sum_eq_single a]
  · rw [if_pos h]
  · exact fun b _ hb => if_neg fun hpos => hb (hsep b a i hpos h)
  · exact fun ha => absurd (Finset.mem_univ a) ha

theorem index_of_ne {i : ι} (h : ∀ a, pos a ≠ some i) (k : A → ℕ) : index pos k i = 0 :=
  Finset.sum_eq_zero fun a _ => if_neg (h a)

/-- The loops that walk no dimension are at their first index below their limit. -/
def Idle (pos : A → Option ι) (lim : A → ℕ) : Prop := ∀ a, pos a = none → lim a = 1

theorem index_injOn (hsep : Separate pos) {lim : A → ℕ} (hidle : Idle pos lim) :
    Set.InjOn (index pos) (Below lim) := by
  intro k hk k' hk' heq
  funext a
  cases hpos : pos a with
  | none =>
    have hlim := hidle a hpos
    have hka := hk a
    have hka' := hk' a
    omega
  | some i =>
    rw [← index_of_pos hsep hpos k, ← index_of_pos hsep hpos k', heq]

/-- The array is the part of it below the limits of the loops. -/
def Covers (pos : A → Option ι) (lim : A → ℕ) (size : ι → ℕ) : Prop :=
  (∀ a i, pos a = some i → lim a = size i) ∧ ∀ i, (∀ a, pos a ≠ some i) → size i = 1

theorem index_lt (hsep : Separate pos) {lim : A → ℕ} {size : ι → ℕ} (hcov : Covers pos lim size)
    {k : A → ℕ} (hk : k ∈ Below lim) : index pos k ∈ Below size := by
  intro i
  by_cases h : ∃ a, pos a = some i
  · obtain ⟨a, ha⟩ := h
    rw [index_of_pos hsep ha, ← hcov.1 a i ha]
    exact hk a
  · rw [not_exists] at h
    rw [index_of_ne h, hcov.2 i h]
    exact Nat.one_pos

/-- **Loops meet each element** exactly once exactly when each runs to the size of its dimension,
and the dimensions without a loop have one element. -/
theorem bijOn_index_iff [DecidableEq A] (hsep : Separate pos) {lim : A → ℕ} (hidle : Idle pos lim)
    {size : ι → ℕ} (hpos : ∀ i, 0 < size i) :
    Set.BijOn (index pos) (Below lim) (Below size) ↔ Covers pos lim size := by
  constructor
  · rintro ⟨hmaps, -, hsurj⟩
    -- the last index of one dimension, the first of the others
    have hreach : ∀ i, ∃ k ∈ Below lim, index pos k i = size i - 1 := by
      intro i
      have hmem : Function.update (fun _ : ι => 0) i (size i - 1) ∈ Below size := by
        intro j
        by_cases h : j = i
        · subst h
          rw [Function.update_self]
          exact Nat.sub_lt (hpos j) Nat.one_pos
        · rw [Function.update_of_ne h]
          exact hpos j
      obtain ⟨k, hk, heq⟩ := hsurj hmem
      exact ⟨k, hk, by rw [heq, Function.update_self]⟩
    refine ⟨fun a i ha => ?_, fun i hi => ?_⟩
    · obtain ⟨k, hk, hki⟩ := hreach i
      rw [index_of_pos hsep ha] at hki
      have hge : size i ≤ lim a := by
        have := hk a
        omega
      refine le_antisymm ?_ hge
      -- the last step of the loop stays in the array
      have hlast : Function.update k a (lim a - 1) ∈ Below lim := by
        intro b
        by_cases h : b = a
        · subst h
          rw [Function.update_self]
          exact Nat.sub_lt (Nat.zero_lt_of_lt (hk b)) Nat.one_pos
        · rw [Function.update_of_ne h]
          exact hk b
      have hlt := hmaps hlast i
      rw [index_of_pos hsep ha, Function.update_self] at hlt
      omega
    · obtain ⟨k, -, hki⟩ := hreach i
      rw [index_of_ne hi] at hki
      have := hpos i
      omega
  · intro hcov
    refine ⟨fun k hk => index_lt hsep hcov hk, index_injOn hsep hidle, fun m hm => ?_⟩
    refine ⟨fun a => (pos a).elim 0 m, fun a => ?_, ?_⟩
    · change (pos a).elim 0 m < lim a
      cases h : pos a with
      | none => exact (hidle a h).symm ▸ Nat.one_pos
      | some i => exact (hcov.1 a i h).symm ▸ hm i
    · funext i
      by_cases h : ∃ a, pos a = some i
      · obtain ⟨a, ha⟩ := h
        rw [index_of_pos hsep ha, ha]
        rfl
      · rw [not_exists] at h
        rw [index_of_ne h]
        have := hm i
        have := hcov.2 i h
        omega

end Axes
