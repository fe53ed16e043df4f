import Mathlib.Tactic

/-! # Fields of a word

`set v o n` puts the low `n` bits of `v` at offset `o` of a word, `get x o n` reads them back. A
word is a disjunction of fields, and reading goes through the disjunction to the field that is
there.

* `get_or`, `get_set`, `get_set_apart`, `get_set_inside`, `get_get`: reading fields.
* `get_clear_apart`, `get_clear_inside`: fields of a word one of which was cleared.
* `get_put`, `get_put_apart`, `put_get`: fields of a word one of which was put in the place of another.
-/

namespace Bitfield

variable {w : Nat}

/-- The word with the low `n` bits set. -/
def mask (w n : Nat) : BitVec w := (1#w <<< n) - 1#w

def set (v : BitVec w) (o n : Nat) : BitVec w := (v &&& mask w n) <<< o

def get (x : BitVec w) (o n : Nat) : BitVec w := (x >>> o) &&& mask w n

/-- A word with a field of zeros. -/
def clear (x : BitVec w) (o n : Nat) : BitVec w := x &&& ~~~set (-1#w) o n

/-- A word with another field. -/
def put (x v : BitVec w) (o n : Nat) : BitVec w := clear x o n ||| set v o n

theorem mask_eq (w n : Nat) : mask w n = BitVec.ofNat w (2 ^ n - 1) := by
  have h1 : (1#w <<< n) = BitVec.ofNat w (2 ^ n) := by
    apply BitVec.eq_of_toNat_eq
    rw [BitVec.toNat_shiftLeft, BitVec.toNat_ofNat, BitVec.toNat_ofNat, Nat.shiftLeft_eq,
      Nat.mod_mul_mod, Nat.one_mul]
  have h2 : BitVec.ofNat w (2 ^ n) = BitVec.ofNat w (2 ^ n - 1) + 1#w := by
    rw [← BitVec.ofNat_add, Nat.sub_add_cancel Nat.one_le_two_pow]
  rw [mask, h1, h2, BitVec.add_sub_cancel]

theorem getLsbD_mask (n i : Nat) : (mask w n).getLsbD i = (decide (i < w) && decide (i < n)) := by
  rw [mask_eq, BitVec.getLsbD_ofNat, Nat.testBit_two_pow_sub_one]

theorem getLsbD_set (v : BitVec w) (o n i : Nat) :
    (set v o n).getLsbD i =
      (decide (i < w) && decide (o ≤ i) && decide (i - o < n) && v.getLsbD (i - o)) := by
  rw [set, BitVec.getLsbD_shiftLeft, BitVec.getLsbD_and, getLsbD_mask]
  by_cases h₁ : i < w
  · have h₂ : i - o < w := by omega
    by_cases h₃ : o ≤ i
    · cases v.getLsbD (i - o) <;> simp [h₁, h₂, h₃]
    · simp [h₁, h₃, Nat.not_le.1 h₃]
  · simp [h₁]

theorem getLsbD_get (x : BitVec w) (o n i : Nat) :
    (get x o n).getLsbD i = (decide (i < n) && x.getLsbD (o + i)) := by
  rw [get, BitVec.getLsbD_and, getLsbD_mask, BitVec.getLsbD_ushiftRight]
  by_cases h : i < w
  · cases x.getLsbD (o + i) <;> simp [h]
  · simp [h, BitVec.getLsbD_of_ge x (o + i) (by omega)]

theorem getLsbD_clear (x : BitVec w) (o n i : Nat) :
    (clear x o n).getLsbD i = (x.getLsbD i && !(decide (o ≤ i) && decide (i - o < n))) := by
  rw [clear, BitVec.getLsbD_and, BitVec.getLsbD_not, getLsbD_set]
  by_cases h : i < w
  · have hi : i - o < w := by omega
    simp [h, hi, BitVec.neg_one_eq_allOnes]
  · simp [BitVec.getLsbD_of_ge x i (by omega)]

theorem toNat_get_lt (x : BitVec w) (o n : Nat) : (get x o n).toNat < 2 ^ n := by
  have h2n := Nat.two_pow_pos n
  rw [get, mask_eq, BitVec.toNat_and, BitVec.toNat_ofNat]
  have hle : (2 ^ n - 1) % 2 ^ w ≤ 2 ^ n - 1 := Nat.mod_le _ _
  have hand := Nat.and_le_right (n := (x >>> o).toNat) (m := (2 ^ n - 1) % 2 ^ w)
  omega

/-- **Reading** goes through a disjunction. -/
theorem get_or (x y : BitVec w) (o n : Nat) : get (x ||| y) o n = get x o n ||| get y o n := by
  apply BitVec.eq_of_getLsbD_eq
  intro i _
  simp only [getLsbD_get, BitVec.getLsbD_or]
  cases decide (i < n) <;> simp

/-- A part of a field is a part of what was put there. -/
theorem get_set_inside (v : BitVec w) {o n o' n' : Nat} (hl : o ≤ o') (hr : o' + n' ≤ o + n)
    (hw : o + n ≤ w) : get (set v o n) o' n' = get v (o' - o) n' := by
  apply BitVec.eq_of_getLsbD_eq
  intro i _
  simp only [getLsbD_get, getLsbD_set]
  by_cases h : i < n'
  · simp [h, show o' + i < w by omega, show o ≤ o' + i by omega, show o' - o + i < n by omega,
      show o' + i - o = o' - o + i by omega]
  · simp [h]

/-- A field is what was put there, up to its length. -/
theorem get_set (v : BitVec w) {o n : Nat} (hw : o + n ≤ w) : get (set v o n) o n = get v 0 n := by
  rw [get_set_inside v (le_refl o) (le_refl _) hw, Nat.sub_self]

/-- Another field is not there. -/
theorem get_set_apart (v : BitVec w) {o n o' n' : Nat} (h : o + n ≤ o' ∨ o' + n' ≤ o) :
    get (set v o n) o' n' = 0#w := by
  apply BitVec.eq_of_getLsbD_eq
  intro i _
  simp only [getLsbD_get, getLsbD_set, BitVec.getLsbD_zero]
  by_cases hi : i < n'
  · by_cases ho : o ≤ o' + i
    · simp [show ¬(o' + i - o < n) by omega]
    · simp [ho]
  · simp [hi]

/-- Clearing a field leaves the others. -/
theorem get_clear_apart (x : BitVec w) {o n o' n' : Nat} (h : o + n ≤ o' ∨ o' + n' ≤ o) :
    get (clear x o n) o' n' = get x o' n' := by
  apply BitVec.eq_of_getLsbD_eq
  intro i _
  simp only [getLsbD_get, getLsbD_clear]
  by_cases hi : i < n'
  · by_cases ho : o ≤ o' + i
    · simp [show ¬(o' + i - o < n) by omega]
    · simp [ho]
  · simp [hi]

theorem get_clear_inside (x : BitVec w) {o n o' n' : Nat} (hl : o ≤ o') (hr : o' + n' ≤ o + n) :
    get (clear x o n) o' n' = 0#w := by
  apply BitVec.eq_of_getLsbD_eq
  intro i _
  simp only [getLsbD_get, getLsbD_clear, BitVec.getLsbD_zero]
  by_cases hi : i < n'
  · simp [show o ≤ o' + i by omega, show o' + i - o < n by omega]
  · simp [hi]

/-- **Replacing** a field leaves the others. -/
theorem get_put_apart (x v : BitVec w) {o n o' n' : Nat} (h : o + n ≤ o' ∨ o' + n' ≤ o) :
    get (put x v o n) o' n' = get x o' n' := by
  rw [put, get_or, get_clear_apart x h, get_set_apart v h, BitVec.or_zero]

theorem get_put (x v : BitVec w) {o n : Nat} (hw : o + n ≤ w) :
    get (put x v o n) o n = get v 0 n := by
  rw [put, get_or, get_clear_inside x (le_refl o) (le_refl _), get_set v hw, BitVec.zero_or]

/-- A field put in its own place. -/
theorem put_get (x : BitVec w) (o n : Nat) : put x (get x o n) o n = x := by
  apply BitVec.eq_of_getLsbD_eq
  intro i hi
  rw [put, BitVec.getLsbD_or, getLsbD_clear, getLsbD_set, getLsbD_get]
  by_cases ho : o ≤ i ∧ i - o < n
  · simp [hi, ho.1, ho.2, Nat.add_sub_cancel' ho.1]
  · rcases not_and_or.1 ho with ho | ho <;> simp [ho]

/-- A field of a field. -/
theorem get_get (x : BitVec w) {o n o' n' : Nat} (h : o' + n' ≤ n) :
    get (get x o n) o' n' = get x (o + o') n' := by
  apply BitVec.eq_of_getLsbD_eq
  intro i _
  simp only [getLsbD_get]
  by_cases hi : i < n'
  · simp [show o' + i < n by omega, Nat.add_assoc]
  · simp [hi]

/-- What fits in a field is all of it. -/
theorem get_eq_self {v : BitVec w} {n : Nat} (h : v.toNat < 2 ^ n) : get v 0 n = v := by
  apply BitVec.eq_of_getLsbD_eq
  intro i _
  rw [getLsbD_get, Nat.zero_add]
  by_cases hi : i < n
  · simp [hi]
  · have hlt : v.toNat < 2 ^ i := lt_of_lt_of_le h (Nat.pow_le_pow_right (by decide) (by omega))
    rw [BitVec.getLsbD, Nat.testBit_lt_two_pow hlt]
    simp

end Bitfield
