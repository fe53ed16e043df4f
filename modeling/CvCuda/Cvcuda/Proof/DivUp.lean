import CvCuda.Cvcuda.DivUp

/-! # When the grid covers the work

* `divUpInt_isSome_iff`: when the grid size is an `int`.
* `covers_iff`: when it is at least the quotient rounded up, so that a grid of that many blocks has
  the threads.
-/

namespace Cvcuda

open FloatRound

/-- The grid size is at least the exact one, and its blocks have the threads for the work. -/
def Covers (a b : Int32) : Prop :=
  ∃ n, divUpInt a b = some n ∧ ⌈(a.toInt / b.toInt : ℚ)⌉ ≤ n.toInt ∧ a.toInt ≤ n.toInt * b.toInt

/-- `q` is above the middle between the last number of 24 bits up to `m` and the next, or in the
middle and that number odd. -/
def Above (m q : ℚ) : Prop :=
  (⌊m / ulp 24 m⌋ + 1 / 2) * ulp 24 m < q ∨
    (q = (⌊m / ulp 24 m⌋ + 1 / 2) * ulp 24 m ∧ ⌊m / ulp 24 m⌋ % 2 = 1)

variable {a b : Int32}

/-- What is rounded up to the first number that is no `int`. -/
theorem lt_rn_int_iff {m q : ℚ} (hm : 2 ^ 31 - 128 ≤ m) (hm' : m < 2 ^ 31) (hq : 0 < q) :
    m < rn 24 q ↔ 2 ^ 31 - 64 ≤ q := by
  have hpos : 0 < m := by linarith
  have hulp : ulp 24 m = 128 := by
    have hlog : Int.log 2 |m| = 30 := by
      rw [abs_of_pos hpos]
      have hle : 30 ≤ Int.log 2 m :=
        (Int.zpow_le_iff_le_log (by norm_num) hpos).1 (by norm_num; linarith)
      have hlt : Int.log 2 m < 31 :=
        (Int.lt_zpow_iff_log_lt (by norm_num) hpos).1 (by norm_num; linarith)
      omega
    rw [ulp, hlog]
    norm_num
  have hfloor : ⌊m / 128⌋ = 2 ^ 24 - 1 := by
    rw [Int.floor_eq_iff]
    constructor
    · push_cast
      linarith
    · push_cast
      linarith
  rw [lt_rn_iff (by norm_num) hpos hq, hulp, hfloor]
  norm_num
  constructor
  · rintro (h | rfl)
    · exact h.le
    · norm_num
  · intro h
    rcases h.eq_or_lt with rfl | h
    · exact .inr rfl
    · exact .inl h

/-- The quotient of the two values as `float`. -/
def floatQuotient (a b : Int32) : ℚ := rn 24 a.toInt / rn 24 b.toInt

theorem rn_toInt_pos (ha : 0 < a.toInt) : 0 < rn 24 (a.toInt : ℚ) :=
  rn_pos (by norm_num) (by exact_mod_cast ha)

theorem floatQuotient_pos (ha : 0 < a.toInt) (hb : 0 < b.toInt) : 0 < floatQuotient a b :=
  div_pos (rn_toInt_pos ha) (rn_toInt_pos hb)

theorem floatQuotient_lt_iff (ha : 0 < a.toInt) (hb : 0 < b.toInt) :
    floatQuotient a b < 2 ^ 31 - 64 ↔ ¬(b.toInt = 1 ∧ 2 ^ 31 - 64 ≤ a.toInt) := by
  have haQ : (0 : ℚ) < a.toInt := by exact_mod_cast ha
  unfold floatQuotient
  by_cases hone : b.toInt = 1
  · have hrn : rn 24 ((1 : ℤ) : ℚ) = 1 := by
      exact_mod_cast rn_natCast (p := 24) (a := 1) (by norm_num) (by norm_num)
    rw [hone, hrn, div_one, not_and, not_le]
    constructor
    · intro h _
      by_contra hle
      have hgt := (lt_rn_int_iff (m := 2 ^ 31 - 1) (by norm_num) (by norm_num) haQ).2
        (by exact_mod_cast not_lt.1 hle)
      linarith
    · intro h
      by_contra hle
      have hround : (2 ^ 31 - 65 : ℚ) < rn 24 (a.toInt : ℚ) := by linarith [not_lt.1 hle]
      have hge := (lt_rn_int_iff (by norm_num) (by norm_num) haQ).1 hround
      have hge : 2 ^ 31 - 64 ≤ a.toInt := by exact_mod_cast hge
      exact absurd (h rfl) (not_lt.2 hge)
  · have htwo : (2 : ℚ) ≤ rn 24 (b.toInt : ℚ) := by
      have hb2 : (2 : ℚ) ^ (1 : ℤ) ≤ b.toInt := by
        rw [zpow_one]
        exact_mod_cast (by omega : 2 ≤ b.toInt)
      exact_mod_cast zpow_le_rn (p := 24) (by norm_num) hb2
    have htop : rn 24 (a.toInt : ℚ) ≤ 2 ^ 31 := by
      have ha31 : (a.toInt : ℚ) < 2 ^ (31 : ℤ) := by exact_mod_cast a.toInt_lt
      exact_mod_cast rn_le_zpow (p := 24) haQ ha31
    refine iff_of_true ?_ fun h => hone h.1
    rw [div_lt_iff₀ (rn_toInt_pos hb)]
    linarith

theorem size_lt_iff (ha : 0 < a.toInt) (hb : 0 < b.toInt) :
    ⌈rn 24 (floatQuotient a b)⌉ < 2 ^ 31 ↔ ¬(b.toInt = 1 ∧ 2 ^ 31 - 64 ≤ a.toInt) := by
  have hpos := floatQuotient_pos ha hb
  rw [← floatQuotient_lt_iff ha hb, ← not_le (b := floatQuotient a b),
    ← lt_rn_int_iff (m := 2 ^ 31 - 1) (by norm_num) (by norm_num) hpos, not_lt,
    Int.lt_iff_add_one_le, ← le_sub_iff_add_le, Int.ceil_le]
  norm_num

theorem size_pos (ha : 0 < a.toInt) (hb : 0 < b.toInt) : 0 < ⌈rn 24 (floatQuotient a b)⌉ :=
  Int.ceil_pos.2 (rn_pos (by norm_num) (floatQuotient_pos ha hb))

/-- The grid size, where it is an `int`. -/
theorem divUpInt_eq (ha : 0 < a.toInt) (hb : 0 < b.toInt) :
    divUpInt a b = if b.toInt = 1 ∧ 2 ^ 31 - 64 ≤ a.toInt then none
      else some (.ofInt ⌈rn 24 (floatQuotient a b)⌉) := by
  have hlow := size_pos ha hb
  have hrange := size_lt_iff ha hb
  unfold divUpInt
  by_cases h : b.toInt = 1 ∧ 2 ^ 31 - 64 ≤ a.toInt
  · have hout : ¬⌈rn 24 (floatQuotient a b)⌉ < 2 ^ 31 := fun hlt => hrange.1 hlt h
    rw [if_pos h]
    exact if_neg fun hin => hout hin.2
  · have hin : -2 ^ 31 ≤ ⌈rn 24 (floatQuotient a b)⌉ := by omega
    rw [if_neg h]
    exact if_pos ⟨hin, hrange.2 h⟩

/-- The quotient rounded up, over integers. -/
theorem ceil_toInt_div (a : Int32) (hb : 0 < b.toInt) :
    ⌈(a.toInt / b.toInt : ℚ)⌉ = (a.toInt - 1) / b.toInt + 1 := by
  have hbQ : (0 : ℚ) < b.toInt := by exact_mod_cast hb
  have hle := Int.mul_ediv_self_le (x := a.toInt - 1) hb.ne'
  have hlt := Int.lt_mul_ediv_self_add (x := a.toInt - 1) hb
  rw [Int.ceil_eq_iff, lt_div_iff₀ hbQ, div_le_iff₀ hbQ]
  constructor
  · have h : ((a.toInt - 1) / b.toInt + 1 - 1) * b.toInt < a.toInt := by
      rw [add_sub_cancel_right, mul_comm]
      omega
    exact_mod_cast h
  · have h : a.toInt ≤ ((a.toInt - 1) / b.toInt + 1) * b.toInt := by
      rw [add_one_mul, mul_comm]
      omega
    exact_mod_cast h

/-- **Grids.** The grid covers the work exactly when its size is an `int` and the quotient as
`float` is above the middle between the last number of 24 bits up to `m` and the next, where `m` is one less
than the exact size. -/
theorem covers_iff (ha : 0 < a.toInt) (hb : 0 < b.toInt) :
    Covers a b ↔ ¬(b.toInt = 1 ∧ 2 ^ 31 - 64 ≤ a.toInt) ∧
      ((a.toInt - 1) / b.toInt = 0 ∨
        Above ((a.toInt - 1) / b.toInt : ℤ) (rn 24 a.toInt / rn 24 b.toInt)) := by
  have hpos := floatQuotient_pos ha hb
  have hbQ : (0 : ℚ) < b.toInt := by exact_mod_cast hb
  have hm : 0 ≤ (a.toInt - 1) / b.toInt := Int.ediv_nonneg (by omega) hb.le
  -- the size is enough when the quotient is rounded to more than one less
  have hround : (a.toInt - 1) / b.toInt = 0 ∨
      Above ((a.toInt - 1) / b.toInt : ℤ) (floatQuotient a b) ↔
      ((a.toInt - 1) / b.toInt : ℤ) < rn 24 (floatQuotient a b) := by
    rcases hm.eq_or_lt with hzero | hlt
    · rw [← hzero, Int.cast_zero]
      exact iff_of_true (.inl rfl) (rn_pos (by norm_num) hpos)
    · rw [or_iff_right hlt.ne', lt_rn_iff (by norm_num) (by exact_mod_cast hlt) hpos]
      rfl
  change Covers a b ↔ _ ∧ (_ ∨ Above _ (floatQuotient a b))
  rw [hround, Covers, divUpInt_eq ha hb]
  by_cases h : b.toInt = 1 ∧ 2 ^ 31 - 64 ≤ a.toInt
  · rw [if_pos h]
    exact iff_of_false (fun ⟨n, hn, _⟩ => by cases hn) fun hnot => hnot.1 h
  · have htoInt : (Int32.ofInt ⌈rn 24 (floatQuotient a b)⌉).toInt =
        ⌈rn 24 (floatQuotient a b)⌉ := by
      have hlow := size_pos ha hb
      have hlt := (size_lt_iff ha hb).2 h
      exact Int32.toInt_ofInt_of_le (by omega) (by omega)
    have hle : ⌈(a.toInt / b.toInt : ℚ)⌉ ≤ ⌈rn 24 (floatQuotient a b)⌉ ↔
        ((a.toInt - 1) / b.toInt : ℤ) < rn 24 (floatQuotient a b) := by
      rw [ceil_toInt_div a hb, Int.add_one_le_iff, Int.lt_ceil]
    rw [if_neg h, and_iff_right h]
    constructor
    · rintro ⟨n, hn, hceil, -⟩
      obtain rfl := Option.some.inj hn
      rw [htoInt] at hceil
      exact hle.1 hceil
    · intro hlt
      refine ⟨_, rfl, ?_, ?_⟩
      · rw [htoInt]
        exact hle.2 hlt
      · rw [htoInt]
        have hmul := Int.ceil_le.1 (hle.2 hlt)
        rw [div_le_iff₀ hbQ] at hmul
        exact_mod_cast hmul

/-- Seven threads in blocks of three. -/
theorem covers_iff_seven : Covers 7 3 ↔ ¬((3 : Int32).toInt = 1 ∧ 2 ^ 31 - 64 ≤ (7 : Int32).toInt) ∧
    (((7 : Int32).toInt - 1) / (3 : Int32).toInt = 0 ∨
      Above (((7 : Int32).toInt - 1) / (3 : Int32).toInt : ℤ)
        (rn 24 (7 : Int32).toInt / rn 24 (3 : Int32).toInt)) :=
  covers_iff (by decide) (by decide)

/-- The first size that `float` rounds down, in blocks of 16. -/
theorem not_covers_16777217 : ¬Covers 16777217 16 := by
  have hround : rn 24 16777217 = 16777216 := by
    rw [rn_of_log 24 (by norm_num) (by norm_num)]
    norm_num [roundEven]
  have h16 : rn 24 16 = 16 := by
    exact_mod_cast rn_natCast (p := 24) (a := 16) (by norm_num) (by norm_num)
  have hquot : rn 24 1048576 = 1048576 := by
    exact_mod_cast rn_natCast (p := 24) (a := 1048576) (by norm_num) (by norm_num)
  have hsize : ⌈rn 24 (floatQuotient 16777217 16)⌉ = 1048576 := by
    have hfloat : floatQuotient 16777217 16 = 1048576 := by
      have ha : (16777217 : Int32).toInt = 16777217 := by decide
      have hb : (16 : Int32).toInt = 16 := by decide
      rw [floatQuotient, ha, hb, Int.cast_ofNat, Int.cast_ofNat, hround, h16]
      norm_num
    rw [hfloat, hquot]
    norm_num
  rintro ⟨n, hn, -, hle⟩
  rw [divUpInt_eq (by decide) (by decide), if_neg (by decide), hsize] at hn
  obtain rfl := Option.some.inj hn
  exact absurd hle (by decide)

end Cvcuda
