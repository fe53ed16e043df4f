import CvCuda.Nvcv.MathAllTypes

/-! # Where the integer helpers are exact

* `IsRounded`, `IsQuotient`, `IsNextPowerOfTwo`: what the helpers are for.
* One theorem a helper: which arguments it is exact for.
* `helpers_exact_iff`: all of them, at any types.
-/

namespace Nvcv.Util

open CInt Rounding

/-! ## What is meant -/

/-- The least multiple not below the value. -/
def IsRounded (value multiple z : ℤ) : Prop := IsLeast {z | value ≤ z ∧ multiple ∣ z} z

/-- The quotient rounded up. -/
def IsQuotient (num den z : ℤ) : Prop := z = ⌈(num / den : ℚ)⌉

/-- The least power of two not below the value. -/
def IsNextPowerOfTwo (x z : ℤ) : Prop := IsLeast {z | x ≤ z ∧ ∃ k : ℕ, z = 2 ^ k} z

/-- The greatest exponent of a power of two up to the value. -/
def IsLog2 (value z : ℤ) : Prop := 0 ≤ z ∧ 2 ^ z.toNat ≤ value ∧ value < 2 ^ (z.toNat + 1)

variable {t u : IntType} {value multiple num den x z : ℤ}

theorem IsRounded.unique {z' : ℤ} (h : IsRounded value multiple z)
    (h' : IsRounded value multiple z') : z = z' := IsLeast.unique h h'

theorem isRounded_div (value : ℤ) (hm : 0 < multiple) :
    IsRounded value multiple ((value + multiple - 1) / multiple * multiple) := by
  have hmul := Int.mul_ediv_self_le (x := value + multiple - 1) hm.ne'
  have hlt := Int.lt_mul_ediv_self_add (x := value + multiple - 1) hm
  rw [mul_comm] at hmul hlt
  refine ⟨⟨by omega, dvd_mul_left _ _⟩, ?_⟩
  rintro z ⟨hle, k, rfl⟩
  rw [mul_comm multiple k]
  refine mul_le_mul_of_nonneg_right ?_ hm.le
  refine Int.lt_add_one_iff.1 (Int.ediv_lt_of_lt_mul hm ?_)
  rw [add_one_mul, mul_comm]
  omega

theorem isQuotient_div (num : ℤ) (hd : 0 < den) :
    IsQuotient num den ((num + den - 1) / den) := by
  have hdQ : (0 : ℚ) < den := by exact_mod_cast hd
  have hmul := Int.mul_ediv_self_le (x := num + den - 1) hd.ne'
  have hlt := Int.lt_mul_ediv_self_add (x := num + den - 1) hd
  rw [IsQuotient, eq_comm, Int.ceil_eq_iff, lt_div_iff₀ hdQ, div_le_iff₀ hdQ]
  rw [mul_comm] at hmul hlt
  constructor
  · have h : ((num + den - 1) / den - 1) * den < num := by
      rw [sub_one_mul]
      omega
    exact_mod_cast h
  · have h : num ≤ (num + den - 1) / den * den := by omega
    exact_mod_cast h

/-! ## `RoundUp` -/

/-- The sum that the quotient is taken of comes out right. -/
def SumFits (c : IntType) (value multiple : ℤ) : Prop :=
  value + multiple ≤ c.max ∨ (c.signed = false ∧ value + multiple - 1 ≤ c.max)

/-- An argument that both its own type and the type of the operation hold. -/
structure Arguments (t u : IntType) (value multiple : ℤ) : Prop where
  value_pos : 0 < value
  value_le : value ≤ t.max
  multiple_pos : 0 < multiple
  multiple_le : multiple ≤ u.max

namespace Arguments

variable (h : Arguments t u value multiple)
include h

theorem conv_value : (IntType.common t u).conv value = value :=
  IntType.conv_of_holds (IntType.holds_of_nonneg h.value_pos.le
    (h.value_le.trans (IntType.max_le_common_left t u)))

theorem conv_multiple : (IntType.common t u).conv multiple = multiple :=
  IntType.conv_of_holds (IntType.holds_of_nonneg h.multiple_pos.le
    (h.multiple_le.trans (IntType.max_le_common_right t u)))

/-- The two steps of the sum. -/
theorem sum_of_fits (hfits : SumFits (IntType.common t u) value multiple) :
    ((IntType.common t u).arith (value + multiple)).bind
      (fun sum => (IntType.common t u).arith (sum - 1)) = some (value + multiple - 1) := by
  have := h.value_pos
  have := h.multiple_pos
  have hone : 1 ≤ (IntType.common t u).max := IntType.max_pos _
  by_cases hle : value + multiple ≤ (IntType.common t u).max
  · rw [IntType.arith_of_holds (IntType.holds_of_nonneg (by omega) hle), Option.bind_some]
    exact IntType.arith_of_holds (IntType.holds_of_nonneg (by omega) (by omega))
  · -- the sum wraps to zero, and back
    obtain ⟨hs, hsum⟩ := hfits.resolve_left hle
    have hmax := IntType.max_unsigned hs
    have hpow : (1 : ℤ) ≤ 2 ^ (IntType.common t u).width := by exact_mod_cast Nat.one_le_two_pow
    rw [IntType.arith_of_wraps hs (by omega) (by omega), Option.bind_some]
    have hzero : value + multiple - 2 ^ (IntType.common t u).width = 0 := by omega
    rw [hzero, IntType.arith_of_neg hs (by omega) (by omega)]
    exact congrArg some (by omega)

/-- A sum that does not come out right has no value, or one below the multiple. -/
theorem sum_of_not_fits (hfits : ¬SumFits (IntType.common t u) value multiple) :
    ((IntType.common t u).arith (value + multiple)).bind
        (fun sum => (IntType.common t u).arith (sum - 1)) = none ∨
      ∃ s, 0 ≤ s ∧ s < multiple ∧ ((IntType.common t u).arith (value + multiple)).bind
        (fun sum => (IntType.common t u).arith (sum - 1)) = some s := by
  have hv := h.value_le.trans (IntType.max_le_common_left t u)
  have hm := h.multiple_le.trans (IntType.max_le_common_right t u)
  unfold SumFits at hfits
  rw [not_or, not_le] at hfits
  obtain ⟨hlt, hwide⟩ := hfits
  cases hs : (IntType.common t u).signed with
  | true =>
    rw [IntType.arith_of_overflows hs hlt]
    exact .inl rfl
  | false =>
    have hmax := IntType.max_unsigned hs
    have hsum : (IntType.common t u).max < value + multiple - 1 := by
      by_contra hle
      exact hwide ⟨hs, not_lt.1 hle⟩
    refine .inr ⟨value + multiple - 2 ^ (IntType.common t u).width - 1, by omega, by omega, ?_⟩
    rw [IntType.arith_of_wraps hs (by omega) (by omega), Option.bind_some]
    exact IntType.arith_of_holds (IntType.holds_of_nonneg (by omega) (by omega))

/-- `RoundUp` with its two steps of the sum taken together. -/
theorem roundUp_eq : roundUp t u value multiple =
    (((IntType.common t u).arith (value + multiple)).bind
      fun sum => (IntType.common t u).arith (sum - 1)).bind fun sum =>
        ((IntType.common t u).arith (sum.tdiv multiple)).bind fun quotient =>
          ((IntType.common t u).arith (quotient * multiple)).map t.conv := by
  unfold roundUp
  dsimp only
  rw [h.conv_value, h.conv_multiple, Option.bind_assoc]
  refine congrArg _ (funext fun _ => congrArg _ (funext fun _ => congrArg _ (funext fun _ => ?_)))
  exact Option.map_eq_bind.symm

/-- **`RoundUp`** is exact where its sum comes out right. -/
theorem roundUp_iff : (∀ z, IsRounded value multiple z → t.Holds z →
    roundUp t u value multiple = some z) ↔
    ((value + multiple - 1) / multiple * multiple ≤ t.max →
      SumFits (IntType.common t u) value multiple) := by
  have hround := isRounded_div value h.multiple_pos
  have hpos := h.value_pos
  have hmul := Int.mul_ediv_self_le (x := value + multiple - 1) h.multiple_pos.ne'
  have hquot : 0 ≤ (value + multiple - 1) / multiple :=
    Int.ediv_nonneg (by have := h.multiple_pos; omega) h.multiple_pos.le
  have hle : value ≤ (value + multiple - 1) / multiple * multiple := hround.1.1
  rw [h.roundUp_eq]
  constructor
  · intro hexact hholds
    by_contra hfits
    have hvalue := hexact _ hround (IntType.holds_of_nonneg (by omega) hholds)
    rcases h.sum_of_not_fits hfits with hnone | ⟨s, hs0, hs, hsome⟩
    · rw [hnone] at hvalue
      cases hvalue
    · have hzero : s.tdiv multiple = 0 := Int.tdiv_eq_zero_of_lt hs0 hs
      have hholds0 : ∀ t : IntType, t.Holds 0 := fun t =>
        IntType.holds_of_nonneg le_rfl t.max_pos.le
      rw [hsome, Option.bind_some, hzero, IntType.arith_of_holds (hholds0 _), Option.bind_some,
        zero_mul, IntType.arith_of_holds (hholds0 _), Option.map_some,
        IntType.conv_of_holds (hholds0 _)] at hvalue
      have := Option.some.inj hvalue
      omega
  · intro hfits z hz hholds
    obtain rfl := hz.unique hround
    have hfits := hfits hholds.2
    have hsum : value + multiple - 1 ≤ (IntType.common t u).max :=
      hfits.elim (fun hle => by omega) And.right
    rw [mul_comm] at hmul
    have hle1 : (value + multiple - 1) / multiple ≤
        (value + multiple - 1) / multiple * multiple :=
      le_mul_of_one_le_right hquot h.multiple_pos
    rw [h.sum_of_fits hfits, Option.bind_some,
      Int.tdiv_eq_ediv_of_nonneg (by have := h.multiple_pos; omega),
      IntType.arith_of_holds (IntType.holds_of_nonneg hquot (by omega)), Option.bind_some,
      IntType.arith_of_holds (IntType.holds_of_nonneg (by omega) (by omega)), Option.map_some,
      IntType.conv_of_holds hholds]

end Arguments

/-! ## `DivUp` -/

/-- **`DivUp`** is exact where its sum is a value of the type. -/
theorem divUp_iff (hn : 0 < num) (hnle : num ≤ t.max) (hd : 0 < den) (hdle : den ≤ t.max) :
    (∀ z, IsQuotient num den z → divUp t num den = some z) ↔ num + den - 1 ≤ t.max := by
  have hquot := isQuotient_div num hd
  have hone : 1 ≤ (num + den - 1) / den := (Int.le_ediv_iff_mul_le hd).2 (by omega)
  have hmul := Int.mul_ediv_self_le (x := num + den - 1) hd.ne'
  have hle : (num + den - 1) / den ≤ den * ((num + den - 1) / den) :=
    le_mul_of_one_le_left (by omega) hd
  have hsum : num + (den - 1) = num + den - 1 := by omega
  have heq : divUp t num den =
      (t.arith (num + den - 1)).bind fun sum => t.arith (sum.tdiv den) := by
    unfold divUp
    rw [IntType.arith_of_holds (IntType.holds_of_nonneg (by omega) (by omega)), ← hsum]
    rfl
  constructor
  · intro hexact
    by_contra hwide
    have hvalue := hexact _ hquot
    rw [heq] at hvalue
    cases hs : t.signed with
    | true =>
      rw [IntType.arith_of_overflows hs (not_le.1 hwide)] at hvalue
      cases hvalue
    | false =>
      -- the sum wraps below the divisor
      have hmax := IntType.max_unsigned hs
      have hzero : (num + den - 1 - 2 ^ t.width).tdiv den = 0 :=
        Int.tdiv_eq_zero_of_lt (by omega) (by omega)
      rw [IntType.arith_of_wraps hs (by omega) (by omega), Option.bind_some, hzero,
        IntType.arith_of_holds (IntType.holds_of_nonneg le_rfl t.max_pos.le)] at hvalue
      have := Option.some.inj hvalue
      omega
  · rintro hfits z hz
    rw [hz.trans hquot.symm, heq,
      IntType.arith_of_holds (IntType.holds_of_nonneg (by omega) hfits), Option.bind_some,
      Int.tdiv_eq_ediv_of_nonneg (by omega),
      IntType.arith_of_holds (IntType.holds_of_nonneg (by omega) (by omega))]

/-! ## `ILog2` -/

theorem isLog2_iLog2 (hv : 0 < value) (hle : value ≤ t.max) : IsLog2 value (iLog2 t value) := by
  have hbits := IntType.toNat_bits hv.le hle
  have hne : t.bits value ≠ 0 := by
    intro hzero
    rw [hzero] at hbits
    simp at hbits
    omega
  have hclz : (t.bits value).clz.toNat < t.width := by
    have hlt := BitVec.lt_def.1 (BitVec.clz_lt_iff_ne_zero.2 hne)
    refine hlt.trans_le ?_
    rw [BitVec.natCast_eq_ofNat, BitVec.toNat_ofNat]
    exact Nat.mod_le _ _
  have hlow := BitVec.two_pow_sub_clz_le_toNat_of_ne_zero IntType.width_pos hne
  have hhigh := BitVec.toNat_lt_two_pow_sub_clz (x := t.bits value)
  have hcast : (value.toNat : ℤ) = value := Int.toNat_of_nonneg hv.le
  have hlog : (iLog2 t value).toNat = t.width - 1 - (t.bits value).clz.toNat := by
    unfold iLog2
    omega
  rw [hbits] at hlow hhigh
  refine ⟨by unfold iLog2; omega, ?_, ?_⟩
  · calc (2 : ℤ) ^ (iLog2 t value).toNat ≤ value.toNat := by
          rw [hlog]
          exact_mod_cast hlow
      _ = value := hcast
  · calc value = value.toNat := hcast.symm
      _ < 2 ^ (t.width - (t.bits value).clz.toNat) := by exact_mod_cast hhigh
      _ = 2 ^ ((iLog2 t value).toNat + 1) := by
          rw [hlog]
          congr 1
          omega

theorem IsLog2.unique {z' : ℤ} (h : IsLog2 value z) (h' : IsLog2 value z') : z = z' := by
  obtain ⟨hz, hlow, hhigh⟩ := h
  obtain ⟨hz', hlow', hhigh'⟩ := h'
  have hle : ∀ m n : ℕ, (2 : ℤ) ^ m ≤ value → value < 2 ^ (n + 1) → m ≤ n := by
    intro m n hm hn
    have hlt := (pow_lt_pow_iff_right₀ (by norm_num : (1 : ℤ) < 2)).1 (hm.trans_lt hn)
    omega
  have h1 := hle _ _ hlow hhigh'
  have h2 := hle _ _ hlow' hhigh
  omega

/-- **`ILog2`** is exact. -/
theorem iLog2_iff (hv : 0 < value) (hle : value ≤ t.max) : IsLog2 value z ↔ z = iLog2 t value :=
  ⟨fun h => h.unique (isLog2_iLog2 hv hle), fun h => h ▸ isLog2_iLog2 hv hle⟩

/-! ## `RoundUpPowerOfTwo` -/

theorem bits_conv (t : IntType) (z : ℤ) : t.bits (t.conv z) = t.bits z := by
  apply BitVec.eq_of_toInt_eq
  unfold IntType.bits IntType.conv
  rw [BitVec.toInt_ofInt, BitVec.toInt_ofInt]
  split
  · rw [Int.bmod_bmod]
  · have h := Int.emod_bmod (x := z) (n := 2 ^ t.width)
    push_cast at h
    exact h

/-- Masking with the negation of a power of two, of the same width. -/
theorem toNat_and_bits_neg {k : ℕ} (hk : k < t.width) (b : BitVec t.width) :
    (b &&& t.bits (-2 ^ k)).toNat = b.toNat / 2 ^ k * 2 ^ k := by
  have hpow : (t.bits (2 ^ k)).toNat = 2 ^ k := by
    rw [IntType.bits, BitVec.toNat_ofInt, Int.emod_eq_of_lt (by positivity)
      (by push_cast; exact pow_lt_pow_right₀ (by norm_num) hk)]
    exact_mod_cast Int.toNat_natCast (2 ^ k)
  have hneg : t.bits (-2 ^ k) = -t.bits (2 ^ k) := BitVec.ofInt_neg
  rw [hneg, toNat_and_neg b ⟨k, hk, hpow⟩, hpow]

/-- Masking with the negation of a power of two, of 32 bits. -/
theorem toNat_and_bits_neg32 {k : ℕ} (hk : k < 32) (ht : t.width = 64) (b : BitVec t.width) :
    (b &&& t.bits (2 ^ 32 - 2 ^ k)).toNat = b.toNat % 2 ^ 32 / 2 ^ k * 2 ^ k := by
  have hle : 2 ^ k ≤ 2 ^ 32 := Nat.pow_le_pow_right (by decide) hk.le
  have hmask : (t.bits (2 ^ 32 - 2 ^ k)).toNat = (2 ^ (32 - k) - 1) * 2 ^ k := by
    have hcast : (2 ^ 32 - 2 ^ k : ℤ) = (2 ^ 32 - 2 ^ k : ℕ) := by
      rw [Nat.cast_sub hle, Nat.cast_pow, Nat.cast_pow]
      rfl
    rw [IntType.bits, hcast, BitVec.ofInt_natCast, BitVec.toNat_ofNat, ht,
      Nat.mod_eq_of_lt ((Nat.sub_le _ _).trans_lt (by norm_num)), Nat.sub_mul, ← pow_add,
      Nat.sub_add_cancel hk.le, one_mul]
  rw [BitVec.toNat_and, hmask, ← Nat.shiftLeft_eq, ← Nat.shiftLeft_eq]
  apply Nat.eq_of_testBit_eq
  intro j
  rw [Nat.testBit_and, Nat.testBit_shiftLeft, Nat.testBit_shiftLeft, Nat.testBit_two_pow_sub_one,
    Nat.testBit_div_two_pow, Nat.testBit_mod_two_pow]
  by_cases hj : k ≤ j
  · rw [Nat.sub_add_cancel hj]
    by_cases hw : j < 32
    · simp [hj, hw, show j - k < 32 - k by omega]
    · simp [hw, show ¬j - k < 32 - k by omega]
  · simp [hj]

/-- The mask is narrower than what it masks. -/
def Narrow (t u : IntType) : Prop := u = .uint32 ∧ t.width = 64

instance : Decidable (Narrow t u) := instDecidableAnd

/-- The exponents of the powers of two that a type holds. -/
theorem lt_of_two_pow_le {k : ℕ} (h : (2 : ℤ) ^ k ≤ t.max) : k < t.width := by
  refine (pow_lt_pow_iff_right₀ (by norm_num : (1 : ℤ) < 2)).1 ?_
  exact h.trans_lt t.max_lt

theorem band_neg {k : ℕ} (hk : k < t.width) {s neg : ℤ} (hs : 0 ≤ s) (hle : s ≤ t.max)
    (hneg : t.bits neg = t.bits (-2 ^ k)) : t.band s neg = s / 2 ^ k * 2 ^ k := by
  have hmask := toNat_and_bits_neg hk (t.bits s)
  rw [IntType.toNat_bits hs hle] at hmask
  have hcast : ((s.toNat / 2 ^ k * 2 ^ k : ℕ) : ℤ) = s / 2 ^ k * 2 ^ k := by
    push_cast
    rw [Int.toNat_of_nonneg hs]
  have hdown : s / 2 ^ k * 2 ^ k ≤ s := Int.ediv_mul_le s (by positivity)
  rw [IntType.band, hneg, IntType.ofBits_of_le, hmask, hcast]
  rw [hmask, hcast]
  omega

theorem band_narrow {k : ℕ} (hk : k < 32) (ht : t.width = 64) {s : ℤ} (hs : 0 ≤ s)
    (hle : s ≤ t.max) : t.band s (2 ^ 32 - 2 ^ k) = s % 2 ^ 32 / 2 ^ k * 2 ^ k := by
  have hmask := toNat_and_bits_neg32 hk ht (t.bits s)
  rw [IntType.toNat_bits hs hle] at hmask
  have hcast : ((s.toNat % 2 ^ 32 / 2 ^ k * 2 ^ k : ℕ) : ℤ) = s % 2 ^ 32 / 2 ^ k * 2 ^ k := by
    push_cast
    rw [Int.toNat_of_nonneg hs]
  have hdown : s % 2 ^ 32 / 2 ^ k * 2 ^ k ≤ s % 2 ^ 32 := Int.ediv_mul_le _ (by positivity)
  rw [IntType.band, IntType.ofBits_of_le, hmask, hcast]
  rw [hmask, hcast]
  omega

/-- `-multiple`, in the type of the multiple. -/
theorem arith_neg {k : ℕ} (hk : (2 : ℤ) ^ k ≤ u.max) :
    u.arith (-2 ^ k) = some (if u.signed then -2 ^ k else 2 ^ u.width - 2 ^ k) := by
  have hpos : (0 : ℤ) < 2 ^ k := by positivity
  have hlt := u.max_lt
  cases hs : u.signed with
  | true =>
    have hmin : u.min = -u.max - 1 := by
      unfold IntType.min IntType.max
      rw [hs, if_pos rfl, if_pos rfl]
      omega
    rw [if_pos rfl]
    exact IntType.arith_of_holds ⟨by omega, by omega⟩
  | false =>
    rw [if_neg Bool.false_ne_true, IntType.arith_of_neg hs (by omega) (by omega)]
    exact congrArg some (by omega)

/-- What the mask leaves of the sum. -/
theorem Arguments.roundUpPowerOfTwo_eq {k : ℕ} (h : Arguments t u value (2 ^ k))
    (hsum : value + 2 ^ k - 1 ≤ (IntType.common t u).max) :
    roundUpPowerOfTwo t u value (2 ^ k) =
      some ((if Narrow t u then (value + 2 ^ k - 1) % 2 ^ 32 else value + 2 ^ k - 1) /
        2 ^ k * 2 ^ k) := by
  have hv := h.value_pos
  have hone : (1 : ℤ) ≤ 2 ^ k := h.multiple_pos
  have hmax := h.multiple_le.trans (IntType.max_le_common_right t u)
  have hk := lt_of_two_pow_le hmax
  have hsub : u.arith (2 ^ k - 1) = some (2 ^ k - 1) :=
    IntType.arith_of_holds (IntType.holds_of_nonneg (by omega) (by have := h.multiple_le; omega))
  have hconv : (IntType.common t u).conv (2 ^ k - 1) = 2 ^ k - 1 :=
    IntType.conv_of_holds (IntType.holds_of_nonneg (by omega) (by omega))
  have hadd : (IntType.common t u).arith (value + (2 ^ k - 1)) = some (value + 2 ^ k - 1) := by
    rw [← add_sub_assoc]
    exact IntType.arith_of_holds (IntType.holds_of_nonneg (by omega) hsum)
  have heq : roundUpPowerOfTwo t u value (2 ^ k) = some ((IntType.common t u).band
      (value + 2 ^ k - 1) ((IntType.common t u).conv
        (if u.signed then -2 ^ k else 2 ^ u.width - 2 ^ k))) := by
    unfold roundUpPowerOfTwo
    dsimp only
    rw [hsub, h.conv_value]
    change ((IntType.common t u).arith (value + (IntType.common t u).conv (2 ^ k - 1))).bind _ = _
    rw [hconv, hadd, Option.bind_some, arith_neg h.multiple_le]
    rfl
  rw [heq]
  refine congrArg some ?_
  by_cases hn : Narrow t u
  · obtain ⟨rfl, ht⟩ := hn
    have hwidth : (IntType.common t .uint32).width = 64 := by
      cases t <;> first | rfl | cases ht
    have hwide : (2 : ℤ) ^ 32 ≤ (IntType.common t .uint32).max := by
      cases t <;> first | decide | cases ht
    have hk32 : k < 32 := lt_of_two_pow_le (t := .uint32) h.multiple_le
    have hle : (2 : ℤ) ^ k ≤ 2 ^ 32 := pow_le_pow_right₀ (by norm_num) hk32.le
    have hmask : (IntType.common t .uint32).conv (2 ^ 32 - 2 ^ k) = 2 ^ 32 - 2 ^ k :=
      IntType.conv_of_holds (IntType.holds_of_nonneg (by omega) (by omega))
    have hn : Narrow t .uint32 := ⟨rfl, ht⟩
    have hsigned : ¬IntType.uint32.signed = true := Bool.false_ne_true
    rw [if_pos hn, if_neg hsigned]
    exact (congrArg _ hmask).trans (band_narrow hk32 hwidth (by omega) hsum)
  · rw [if_neg hn]
    refine band_neg hk (by omega) hsum ?_
    rw [bits_conv]
    split
    · rfl
    · -- a power of the width more is the same pattern
      have hwidth : u.width = (IntType.common t u).width := by
        cases t <;> cases u <;> first | rfl | exact absurd rfl ‹_› | exact absurd ⟨rfl, rfl⟩ hn
      apply BitVec.eq_of_toInt_eq
      unfold IntType.bits
      rw [BitVec.toInt_ofInt, BitVec.toInt_ofInt, hwidth, sub_eq_neg_add]
      exact_mod_cast Int.add_bmod_right (-2 ^ k) (2 ^ (IntType.common t u).width)

/-- A multiple that the type holds leaves room for the sum. -/
theorem Arguments.sum_le_of_rounded_le {k : ℕ} (h : Arguments t u value (2 ^ k))
    (hle : (value + 2 ^ k - 1) / 2 ^ k * 2 ^ k ≤ (IntType.common t u).max) :
    value + 2 ^ k - 1 ≤ (IntType.common t u).max := by
  obtain ⟨n, hn⟩ := IntType.exists_max (IntType.common t u)
  have hpos : (0 : ℤ) < 2 ^ k := by positivity
  have hkn : k ≤ n := by
    have hlt : (2 : ℤ) ^ k < 2 ^ (n + 1) := by
      have := h.multiple_le.trans (IntType.max_le_common_right t u)
      rw [pow_succ]
      omega
    exact Nat.lt_succ_iff.1 ((pow_lt_pow_iff_right₀ (by norm_num : (1 : ℤ) < 2)).1 hlt)
  obtain ⟨c, hc⟩ := pow_dvd_pow (2 : ℤ) hkn
  have hmul := Int.lt_mul_ediv_self_add (x := value + 2 ^ k - 1) hpos
  have hquot : (value + 2 ^ k - 1) / 2 ^ k + 1 ≤ c := by
    rw [Int.add_one_le_iff]
    refine lt_of_mul_lt_mul_right (a := 2 ^ k) ?_ hpos.le
    rw [mul_comm c, ← hc]
    omega
  have := mul_le_mul_of_nonneg_left hquot hpos.le
  rw [mul_add, mul_one, ← hc] at this
  omega

/-- **`RoundUpPowerOfTwo`** is exact unless a mask of 32 bits clears the upper half of the sum. -/
theorem Arguments.roundUpPowerOfTwo_iff (h : Arguments t u value multiple)
    (hpow : ∃ k : ℕ, multiple = 2 ^ k) :
    (∀ z, IsRounded value multiple z → (IntType.common t u).Holds z →
      roundUpPowerOfTwo t u value multiple = some z) ↔
    ((value + multiple - 1) / multiple * multiple ≤ (IntType.common t u).max → Narrow t u →
      value + multiple - 1 < 2 ^ 32) := by
  obtain ⟨k, rfl⟩ := hpow
  have hround := isRounded_div value h.multiple_pos
  have hpos := h.value_pos
  have hone : (1 : ℤ) ≤ 2 ^ k := h.multiple_pos
  have hle : value ≤ (value + 2 ^ k - 1) / 2 ^ k * 2 ^ k := hround.1.1
  constructor
  · intro hexact hmax hn
    by_contra hlarge
    have hk : k < 32 := by
      obtain ⟨rfl, -⟩ := hn
      exact lt_of_two_pow_le (t := .uint32) h.multiple_le
    have hvalue := hexact _ hround (IntType.holds_of_nonneg (by omega) hmax)
    rw [h.roundUpPowerOfTwo_eq (h.sum_le_of_rounded_le hmax), if_pos hn] at hvalue
    have hlow : (value + 2 ^ k - 1) % 2 ^ 32 / 2 ^ k * 2 ^ k ≤ (value + 2 ^ k - 1) % 2 ^ 32 :=
      Int.ediv_mul_le _ (by positivity)
    have hhigh : (2 : ℤ) ^ 32 ≤ (value + 2 ^ k - 1) / 2 ^ k * 2 ^ k := by
      have hsplit : (2 : ℤ) ^ 32 = 2 ^ (32 - k) * 2 ^ k := by
        rw [← pow_add, Nat.sub_add_cancel hk.le]
      rw [hsplit] at hlarge ⊢
      refine mul_le_mul_of_nonneg_right ?_ (by positivity)
      exact (Int.le_ediv_iff_mul_le (by positivity)).2 (not_lt.1 hlarge)
    have := Option.some.inj hvalue
    omega
  · intro hfits z hz hholds
    obtain rfl := hz.unique hround
    rw [h.roundUpPowerOfTwo_eq (h.sum_le_of_rounded_le hholds.2)]
    split
    · rw [Int.emod_eq_of_lt (by omega) (hfits hholds.2 ‹_›)]
    · rfl

/-! ## `RoundUpNextPowerOfTwo` -/

theorem isNextPowerOfTwo_size (hx : 0 < x) :
    IsNextPowerOfTwo x (2 ^ (x.toNat - 1).size) := by
  have hcast : (x.toNat : ℤ) = x := Int.toNat_of_nonneg hx.le
  have hlt : x.toNat - 1 < 2 ^ (x.toNat - 1).size := Nat.lt_size_self _
  refine ⟨⟨?_, _, rfl⟩, ?_⟩
  · calc x = x.toNat := hcast.symm
      _ ≤ (2 ^ (x.toNat - 1).size : ℕ) := by exact_mod_cast (by omega)
      _ = 2 ^ (x.toNat - 1).size := by push_cast; rfl
  · rintro z ⟨hle, k, rfl⟩
    refine pow_le_pow_right₀ (by norm_num) (Nat.size_le.2 ?_)
    have hpow : x.toNat ≤ 2 ^ k := by
      have hle : (x.toNat : ℤ) ≤ 2 ^ k := hcast.trans_le hle
      exact_mod_cast hle
    omega

theorem bor_shift {y : ℤ} (hy : 0 ≤ y) (hle : y ≤ t.max) (i : ℕ) :
    t.bor y (y >>> i) = (y.toNat ||| y.toNat >>> i : ℕ) := by
  obtain ⟨n, hn⟩ := IntType.exists_max t
  obtain ⟨m, rfl⟩ := Int.eq_ofNat_of_zero_le hy
  have hshift : ((m : ℤ) >>> i) = (m >>> i : ℕ) := (Int.natCast_shiftRight m i).symm
  have hsmall : m >>> i ≤ m := Nat.shiftRight_le m i
  have hm : m < 2 ^ n := by
    have hlt : (m : ℤ) < 2 ^ n := by omega
    exact_mod_cast hlt
  have hor : m ||| m >>> i < 2 ^ n := Nat.or_lt_two_pow hm (hsmall.trans_lt hm)
  have hbits : (t.bits m ||| t.bits (m >>> i : ℕ)).toNat = m ||| m >>> i := by
    rw [BitVec.toNat_or, IntType.toNat_bits (Int.natCast_nonneg _) hle,
      IntType.toNat_bits (Int.natCast_nonneg _) (by omega), Int.toNat_natCast, Int.toNat_natCast]
  rw [IntType.bor, hshift, IntType.ofBits_of_le, hbits, Int.toNat_natCast]
  rw [hbits, hn]
  have hlt : ((m ||| m >>> i : ℕ) : ℤ) < 2 ^ n := by exact_mod_cast hor
  omega

/-- What the steps of the loop have made of the value. -/
def Spread (t : IntType) (y : ℕ) (k : ℕ) (z : ℤ) : Prop :=
  0 ≤ z ∧ z ≤ t.max ∧ Smeared k y z.toNat

theorem Spread.step {y k : ℕ} (h : Spread t y k z) : Spread t y (k + k) (t.bor z (z >>> k)) := by
  obtain ⟨hz, hle, hsmear⟩ := h
  obtain ⟨n, hn⟩ := IntType.exists_max t
  have hlt : z.toNat < 2 ^ n := by
    have hlt : (z.toNat : ℤ) < 2 ^ n := by omega
    exact_mod_cast hlt
  have hor : z.toNat ||| z.toNat >>> k < 2 ^ n :=
    Nat.or_lt_two_pow hlt ((Nat.shiftRight_le _ _).trans_lt hlt)
  rw [bor_shift hz hle]
  refine ⟨Int.natCast_nonneg _, ?_, hsmear.step⟩
  have hlt : ((z.toNat ||| z.toNat >>> k : ℕ) : ℤ) < 2 ^ n := by exact_mod_cast hor
  omega

theorem smear_eq (hx : 0 < x) (hle : x ≤ t.max) :
    ([1, 2, 4, 8, 16, 32].filter (· < t.width)).foldl (fun x (i : Nat) => t.bor x (x >>> i)) (x - 1) =
      2 ^ (x.toNat - 1).size - 1 := by
  have h0 : Spread t (x.toNat - 1) 1 (x - 1) := by
    refine ⟨by omega, by omega, ?_⟩
    rw [show (x - 1).toNat = x.toNat - 1 by omega]
    exact smeared_one _
  have h32 := h0.step.step.step.step.step
  have hend : ∀ k z, Spread t (x.toNat - 1) k z → x.toNat - 1 < 2 ^ k →
      z = 2 ^ (x.toNat - 1).size - 1 := by
    rintro k z ⟨hz, -, hsmear⟩ hlt
    have hsize := hsmear.eq hlt
    have hcast : (z.toNat : ℤ) + 1 = 2 ^ (x.toNat - 1).size := by exact_mod_cast hsize
    omega
  have hwidth : x.toNat - 1 < 2 ^ t.width := by
    have hlt : (x.toNat : ℤ) < 2 ^ t.width := by
      have := t.max_lt
      omega
    have hlt : x.toNat < 2 ^ t.width := by exact_mod_cast hlt
    omega
  cases t with
  | int32 | uint32 => exact hend 32 _ h32 hwidth
  | int64 | uint64 => exact hend 64 _ h32.step hwidth

/-- **`RoundUpNextPowerOfTwo`** is exact. -/
theorem roundUpNextPowerOfTwo_exact (hx : 0 < x) (hle : x ≤ t.max) (hz : IsNextPowerOfTwo x z)
    (hholds : (nextType t).Holds z) : roundUpNextPowerOfTwo t x = some z := by
  obtain rfl := IsLeast.unique hz (isNextPowerOfTwo_size hx)
  have hpos : (0 : ℤ) < 2 ^ (x.toNat - 1).size := by positivity
  have hsub : t.arith (x - 1) = some (x - 1) :=
    IntType.arith_of_holds (IntType.holds_of_nonneg (by omega) (by omega))
  have hconv : (nextType t).conv (2 ^ (x.toNat - 1).size - 1) = 2 ^ (x.toNat - 1).size - 1 :=
    IntType.conv_of_holds (IntType.holds_of_nonneg (by omega) (by have := hholds.2; omega))
  unfold roundUpNextPowerOfTwo
  rw [hsub]
  change (nextType t).arith ((nextType t).conv (List.foldl _ (x - 1) _) + 1) = _
  rw [smear_eq hx hle, hconv, sub_add_cancel]
  exact IntType.arith_of_holds hholds

/-! ## `DivUpPowerOfTwo` -/

theorem band_pred {k : ℕ} (hn : 0 ≤ num) (hnle : num ≤ t.max) (hk : (2 : ℤ) ^ k ≤ t.max) :
    t.band num (2 ^ k - 1) = num % 2 ^ k := by
  have hone : (1 : ℤ) ≤ 2 ^ k := by exact_mod_cast Nat.one_le_two_pow
  have hmask : (2 ^ k - 1 : ℤ).toNat = 2 ^ k - 1 := by
    have hcast : (2 ^ k - 1 : ℤ) = (2 ^ k - 1 : ℕ) := by
      rw [Nat.cast_sub Nat.one_le_two_pow]
      push_cast
      rfl
    rw [hcast, Int.toNat_natCast]
  have hbits : (t.bits num &&& t.bits (2 ^ k - 1)).toNat = num.toNat % 2 ^ k := by
    rw [BitVec.toNat_and, IntType.toNat_bits hn hnle, IntType.toNat_bits (by omega) (by omega),
      hmask, Nat.and_two_pow_sub_one_eq_mod]
  have hcast : ((num.toNat % 2 ^ k : ℕ) : ℤ) = num % 2 ^ k := by
    push_cast
    rw [Int.toNat_of_nonneg hn]
  have hlt : num % 2 ^ k < 2 ^ k := Int.emod_lt_of_pos _ (by positivity)
  rw [IntType.band, IntType.ofBits_of_le, hbits, hcast]
  rw [hbits, hcast]
  omega

/-- The quotient of a power of two rounded up, by shifting. -/
theorem shift_add_eq (num : ℤ) (k : ℕ) :
    num >>> k + (if num % 2 ^ k ≠ 0 then 1 else 0) = (num + 2 ^ k - 1) / 2 ^ k := by
  have hpos : (0 : ℤ) < 2 ^ k := by positivity
  have hdm := Int.mul_ediv_add_emod num (2 ^ k)
  have hlow := Int.emod_nonneg num hpos.ne'
  have hhigh := Int.emod_lt_of_pos num hpos
  have hshift : num >>> k = num / 2 ^ k := by
    rw [Int.shiftRight_eq_div_pow]
    push_cast
    rfl
  have hsplit : num + 2 ^ k - 1 = num % 2 ^ k + 2 ^ k - 1 + 2 ^ k * (num / 2 ^ k) := by omega
  rw [hshift, hsplit, Int.add_mul_ediv_left _ _ hpos.ne', add_comm]
  congr 1
  split
  · refine (Int.ediv_eq_iff_of_pos hpos).2 ?_ |>.symm
    constructor <;> omega
  · refine (Int.ediv_eq_zero_of_lt ?_ ?_).symm <;> omega

/-- **`DivUpPowerOfTwo`** is exact. -/
theorem divUpPowerOfTwo_exact (hn : 0 < num) (hnle : num ≤ t.max) (hdle : den ≤ t.max)
    (hpow : ∃ k : ℕ, den = 2 ^ k) (hz : IsQuotient num den z) :
    divUpPowerOfTwo t num den = some z := by
  obtain ⟨k, rfl⟩ := hpow
  have hone : (1 : ℤ) ≤ 2 ^ k := by exact_mod_cast Nat.one_le_two_pow
  obtain rfl : z = (num + 2 ^ k - 1) / 2 ^ k :=
    hz.trans (isQuotient_div num (by positivity)).symm
  have hlog : (iLog2 t (2 ^ k)).toNat = k := by
    have hk : IsLog2 (2 ^ k) (k : ℤ) :=
      ⟨Int.natCast_nonneg k, le_rfl, pow_lt_pow_right₀ (by norm_num) (Nat.lt_succ_self k)⟩
    rw [← (iLog2_iff (by positivity) hdle).1 hk, Int.toNat_natCast]
  have hsub : t.arith (2 ^ k - 1) = some (2 ^ k - 1) :=
    IntType.arith_of_holds (IntType.holds_of_nonneg (by omega) (by omega))
  have hnonneg : 0 ≤ (num + 2 ^ k - 1) / 2 ^ k := Int.ediv_nonneg (by omega) (by omega)
  have hle : (num + 2 ^ k - 1) / 2 ^ k ≤ num := by
    refine Int.lt_add_one_iff.1 (Int.ediv_lt_of_lt_mul (by positivity) ?_)
    nlinarith
  unfold divUpPowerOfTwo
  rw [hsub]
  change t.arith (num >>> (iLog2 t (2 ^ k)).toNat + if t.band num (2 ^ k - 1) ≠ 0 then 1 else 0) = _
  rw [hlog, band_pred hn.le hnle hdle, shift_add_eq]
  exact IntType.arith_of_holds (IntType.holds_of_nonneg hnonneg (hle.trans hnle))

/-! ## All of them -/

/-- Each helper returns what is meant whenever its type holds that. The divisor has the type of the
dividend. -/
structure Exact (t u : IntType) (value multiple den : ℤ) : Prop where
  iLog2 : ∀ z, IsLog2 value z → z = iLog2 t value
  roundUp : ∀ z, IsRounded value multiple z → t.Holds z → roundUp t u value multiple = some z
  roundUpNextPowerOfTwo : ∀ z, IsNextPowerOfTwo value z → (nextType t).Holds z →
    roundUpNextPowerOfTwo t value = some z
  divUp : ∀ z, IsQuotient value den z → divUp t value den = some z
  roundUpPowerOfTwo : (∃ k : ℕ, multiple = 2 ^ k) → ∀ z, IsRounded value multiple z →
    (IntType.common t u).Holds z → roundUpPowerOfTwo t u value multiple = some z
  divUpPowerOfTwo : (∃ k : ℕ, den = 2 ^ k) → ∀ z, IsQuotient value den z →
    divUpPowerOfTwo t value den = some z

/-- The sums that the helpers begin with are values of their types, where the result is one. -/
structure Fits (t u : IntType) (value multiple den : ℤ) : Prop where
  roundUp : (value + multiple - 1) / multiple * multiple ≤ t.max →
    SumFits (IntType.common t u) value multiple
  divUp : value + den - 1 ≤ t.max
  roundUpPowerOfTwo : (∃ k : ℕ, multiple = 2 ^ k) →
    (value + multiple - 1) / multiple * multiple ≤ (IntType.common t u).max → Narrow t u →
      value + multiple - 1 < 2 ^ 32

/-- **The helpers** are exact for the arguments whose sums fit. -/
theorem helpers_exact_iff (h : Arguments t u value multiple) (hd : 0 < den) (hdle : den ≤ t.max) :
    Exact t u value multiple den ↔ Fits t u value multiple den := by
  have hdiv := divUp_iff h.value_pos h.value_le hd hdle
  constructor
  · intro hexact
    exact ⟨h.roundUp_iff.1 hexact.roundUp, hdiv.1 hexact.divUp,
      fun hpow => (h.roundUpPowerOfTwo_iff hpow).1 (hexact.roundUpPowerOfTwo hpow)⟩
  · intro hfits
    exact {
      iLog2 := fun z hz => (iLog2_iff h.value_pos h.value_le).1 hz
      roundUp := h.roundUp_iff.2 hfits.roundUp
      roundUpNextPowerOfTwo := fun z hz hholds =>
        roundUpNextPowerOfTwo_exact h.value_pos h.value_le hz hholds
      divUp := hdiv.2 hfits.divUp
      roundUpPowerOfTwo := fun hpow =>
        (h.roundUpPowerOfTwo_iff hpow).2 (hfits.roundUpPowerOfTwo hpow)
      divUpPowerOfTwo := fun hpow z hz =>
        divUpPowerOfTwo_exact h.value_pos h.value_le hdle hpow hz }

/-- Seven, to a multiple of four and by three. -/
theorem helpers_exact_iff_seven :
    Exact .int64 .int32 7 4 3 ↔ Fits .int64 .int32 7 4 3 :=
  helpers_exact_iff ⟨by decide, by decide, by decide, by decide⟩ (by decide) (by decide)

/-- The largest `uint32_t` is a multiple of five, and comes out as zero. -/
theorem max_uint32_not_exact : ¬Exact .uint32 .uint32 4294967295 5 1 := by
  intro h
  have hround : IsRounded 4294967295 5 4294967295 := by
    refine ⟨⟨le_rfl, ⟨858993459, by norm_num⟩⟩, fun z hz => hz.1⟩
  have hvalue := h.roundUp _ hround (by decide)
  exact absurd hvalue (by decide)

end Nvcv.Util
