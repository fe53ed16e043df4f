import CvCuda.Lib.Rounding

/-! # Integers of C++

Values of the integer types of 32 and 64 bits are integers, and an operation names the type that it
is done in. A signed result that its type does not hold has no value; an unsigned one wraps.

* `conv`: the conversion to a type; `common`: the type of an operation on two types.
* `arith`: what an operation makes of its exact result.
* `band`, `bor`: bitwise operations on the two's complements.
-/

namespace CInt

inductive IntType where
  | int32 | uint32 | int64 | uint64
  deriving DecidableEq

namespace IntType

variable (t : IntType)

def width : IntType → Nat
  | int32 | uint32 => 32
  | int64 | uint64 => 64

def signed : IntType → Bool
  | int32 | int64 => true
  | uint32 | uint64 => false

def min : ℤ := if t.signed then -2 ^ (t.width - 1) else 0

def max : ℤ := if t.signed then 2 ^ (t.width - 1) - 1 else 2 ^ t.width - 1

/-- A value of the type. -/
def Holds (z : ℤ) : Prop := t.min ≤ z ∧ z ≤ t.max

instance (z : ℤ) : Decidable (t.Holds z) := instDecidableAnd

/-- Conversion to the type. -/
def conv (z : ℤ) : ℤ := if t.signed then z.bmod (2 ^ t.width) else z % 2 ^ t.width

/-- An operation of the type whose exact result is `z`. -/
def arith (z : ℤ) : Option ℤ :=
  if t.signed then if t.Holds z then some z else none else some (z % 2 ^ t.width)

def bits (z : ℤ) : BitVec t.width := .ofInt t.width z

def ofBits (b : BitVec t.width) : ℤ := if t.signed then b.toInt else b.toNat

def band (x y : ℤ) : ℤ := t.ofBits (t.bits x &&& t.bits y)

def bor (x y : ℤ) : ℤ := t.ofBits (t.bits x ||| t.bits y)

/-- The usual arithmetic conversions: the wider type, and of two of one width the unsigned. -/
def common (t u : IntType) : IntType :=
  if t.width < u.width then u else if u.width < t.width then t else if t.signed then u else t

/-! ## Values -/

variable {t} {z x y : ℤ}

theorem width_pos : 0 < t.width := by cases t <;> decide

theorem max_lt (t : IntType) : t.max < 2 ^ t.width := by cases t <;> decide

theorem min_nonpos (t : IntType) : t.min ≤ 0 := by cases t <;> decide

theorem max_pos (t : IntType) : 0 < t.max := by cases t <;> decide

theorem holds_of_nonneg (h : 0 ≤ z) (hz : z ≤ t.max) : t.Holds z := ⟨t.min_nonpos.trans h, hz⟩

theorem conv_of_holds (h : t.Holds z) : t.conv z = z := by
  obtain ⟨hmin, hmax⟩ := h
  unfold min at hmin
  unfold max at hmax
  unfold conv
  split
  · rw [if_pos ‹_›] at hmin hmax
    cases t
    all_goals
      norm_num [width] at hmin hmax ⊢
      exact Int.bmod_eq_of_le (by omega) (by omega)
  · rw [if_neg ‹_›] at hmin hmax
    exact Int.emod_eq_of_lt hmin (by omega)

theorem arith_of_holds (h : t.Holds z) : t.arith z = some z := by
  have hconv := conv_of_holds h
  unfold conv at hconv
  unfold arith
  by_cases hs : t.signed
  · rw [if_pos hs, if_pos h]
  · rw [if_neg hs] at hconv
    rw [if_neg hs, hconv]

/-- A sum that an unsigned type does not hold has wrapped. -/
theorem arith_of_wraps (hs : t.signed = false) (h : 2 ^ t.width ≤ z) (hz : z < 2 * 2 ^ t.width) :
    t.arith z = some (z - 2 ^ t.width) := by
  unfold arith
  rw [hs, if_neg Bool.false_ne_true, ← Int.sub_emod_right, Int.emod_eq_of_lt] <;> omega

theorem arith_of_neg (hs : t.signed = false) (h : -2 ^ t.width ≤ z) (hz : z < 0) :
    t.arith z = some (z + 2 ^ t.width) := by
  unfold arith
  rw [hs, if_neg Bool.false_ne_true, ← Int.add_emod_right, Int.emod_eq_of_lt] <;> omega

theorem arith_of_overflows (hs : t.signed = true) (h : t.max < z) : t.arith z = none := by
  unfold arith
  rw [if_pos hs, if_neg fun hin => absurd hin.2 (not_le.2 h)]

theorem max_unsigned (hs : t.signed = false) : t.max = 2 ^ t.width - 1 := by
  unfold max
  rw [hs, if_neg Bool.false_ne_true]

theorem exists_max (t : IntType) : ∃ n : ℕ, t.max = 2 ^ n - 1 := by
  cases t
  exacts [⟨31, rfl⟩, ⟨32, rfl⟩, ⟨63, rfl⟩, ⟨64, rfl⟩]

theorem max_le_common_left (t u : IntType) : t.max ≤ (common t u).max := by
  cases t <;> cases u <;> decide

theorem max_le_common_right (t u : IntType) : u.max ≤ (common t u).max := by
  cases t <;> cases u <;> decide

/-- An operation has its exact result when the type holds it, and otherwise none or another. -/
theorem arith_eq_some_iff : t.arith z = some z ↔ t.Holds z := by
  refine ⟨fun h => ?_, arith_of_holds⟩
  unfold arith at h
  split at h
  · by_contra hnot
    rw [if_neg hnot] at h
    cases h
  · have hmod := Option.some.inj h
    have hlow := Int.emod_nonneg z (b := 2 ^ t.width) (by positivity)
    have hhigh := Int.emod_lt_of_pos z (b := 2 ^ t.width) (by positivity)
    rw [hmod] at hlow hhigh
    unfold Holds min max
    rw [if_neg ‹_›, if_neg ‹_›]
    omega

theorem toNat_bits (h : 0 ≤ z) (hz : z ≤ t.max) : (t.bits z).toNat = z.toNat := by
  have hlt := t.max_lt
  rw [bits, BitVec.toNat_ofInt, Int.emod_eq_of_lt h (by push_cast; omega)]

/-- A pattern below the maximum of the type is its own value. -/
theorem ofBits_of_le {b : BitVec t.width} (h : (b.toNat : ℤ) ≤ t.max) : t.ofBits b = b.toNat := by
  unfold ofBits
  split
  · rw [BitVec.toInt_eq_toNat_cond, if_pos]
    cases t with
    | int32 | int64 => simp [max, signed, width] at h ⊢; omega
    | uint32 | uint64 => simp [signed] at *
  · rfl

end IntType

end CInt
