import Mathlib.Tactic
import Mathlib.Data.Int.Log

/-! # Rounding to so many significant bits

* `roundEven`: to the nearest integer, ties to even.
* `rn p`: to the nearest number of `p` significant bits, ties to even; exponents have no bound.
* `rn_two_pow_mul`: scaling by powers of two is exact.
* `lt_rn_iff`: what is rounded to more than a number.
* `ceil_rn_div`: a quotient of integers of `p` bits has, rounded, the ceiling it has exactly.
-/

namespace FloatRound

/-- To the nearest integer, ties to even. -/
def roundEven (q : ℚ) : ℤ :=
  if q - ⌊q⌋ < 1 / 2 then ⌊q⌋
  else if 1 / 2 < q - ⌊q⌋ then ⌊q⌋ + 1
  else if ⌊q⌋ % 2 = 0 then ⌊q⌋ else ⌊q⌋ + 1

@[simp] theorem roundEven_intCast (n : ℤ) : roundEven n = n := by
  unfold roundEven
  rw [Int.floor_intCast, sub_self, if_pos (by norm_num)]

theorem roundEven_le {q : ℚ} {n : ℤ} (h : q ≤ n) : roundEven q ≤ n := by
  have hf : ⌊q⌋ ≤ n := Int.floor_le_iff.2 (by linarith)
  rcases hf.eq_or_lt with heq | hlt
  · -- `q` is `n` itself
    have hq : q = n := le_antisymm h (heq ▸ Int.floor_le q)
    rw [hq, roundEven_intCast]
  · unfold roundEven
    split_ifs <;> omega

theorem lt_roundEven {q : ℚ} {n : ℤ} (h : n + 1 / 2 < q) : n < roundEven q := by
  have hf : n ≤ ⌊q⌋ := Int.le_floor.2 (by linarith)
  rcases hf.eq_or_lt with heq | hlt
  · have hd : 1 / 2 < q - ⌊q⌋ := by rw [← heq]; linarith
    unfold roundEven
    rw [if_neg (not_lt.2 hd.le), if_pos hd]
    omega
  · unfold roundEven
    split_ifs <;> omega

/-- The unit in the last of `p` places. -/
def ulp (p : Nat) (q : ℚ) : ℚ := 2 ^ (Int.log 2 |q| + 1 - p)

/-- `q` to `p` significant bits. -/
def rn (p : Nat) (q : ℚ) : ℚ := roundEven (q / ulp p q) * ulp p q

theorem ulp_pos (p : Nat) (q : ℚ) : 0 < ulp p q := zpow_pos (by norm_num) _

theorem rn_of_mul_ulp {p : Nat} {q : ℚ} {n : ℤ} (h : q = n * ulp p q) : rn p q = q := by
  have hdiv : q / ulp p q = n := by
    rw [div_eq_iff (ulp_pos p q).ne']
    exact h
  rw [rn, hdiv, roundEven_intCast, ← h]

/-- Rounding a number whose leading bit is known. -/
theorem rn_of_log {p : Nat} {q : ℚ} (e : ℤ) (h1 : (2 : ℚ) ^ e ≤ q) (h2 : q < 2 ^ (e + 1)) :
    rn p q = roundEven (q / 2 ^ (e + 1 - p)) * 2 ^ (e + 1 - p) := by
  have hq : 0 < q := (zpow_pos (by norm_num) e).trans_le h1
  have hle : e ≤ Int.log 2 q :=
    (Int.zpow_le_iff_le_log (by norm_num) hq).1 (by exact_mod_cast h1)
  have hlt : Int.log 2 q < e + 1 :=
    (Int.lt_zpow_iff_log_lt (by norm_num) hq).1 (by exact_mod_cast h2)
  rw [rn, ulp, abs_of_pos hq, show Int.log 2 q = e by omega]

/-- The units of a number with an integer part of `p` bits at most are a whole fraction of 1. -/
theorem one_div_ulp {p : Nat} {q : ℚ} (h : Int.log 2 |q| + 1 ≤ p) :
    1 / ulp p q = (2 ^ (p - 1 - Int.log 2 |q|).toNat : ℤ) := by
  have hexp : ((p - 1 - Int.log 2 |q|).toNat : ℤ) = -(Int.log 2 |q| + 1 - p) := by omega
  rw [ulp, one_div, ← zpow_neg, ← hexp, zpow_natCast]
  push_cast
  rfl

theorem rn_zero (p : Nat) : rn p 0 = 0 := rn_of_mul_ulp (n := 0) (by simp)

theorem zpow_log_le {q : ℚ} (hq : 0 < q) : (2 : ℚ) ^ Int.log 2 |q| ≤ q := by
  have h := Int.zpow_log_le_self (R := ℚ) (b := 2) (by norm_num) hq
  rw [abs_of_pos hq]
  exact_mod_cast h

/-- A power of two is a number of any number of bits. -/
theorem rn_of_zpow_log {p : Nat} (hp : 1 ≤ p) {q : ℚ} (h : q = 2 ^ Int.log 2 |q|) :
    rn p q = q := by
  refine rn_of_mul_ulp (n := 2 ^ (p - 1)) ?_
  have hexp : Int.log 2 |q| = ((p - 1 : Nat) : ℤ) + (Int.log 2 |q| + 1 - p) := by omega
  calc q = 2 ^ Int.log 2 |q| := h
    _ = 2 ^ (((p - 1 : Nat) : ℤ) + (Int.log 2 |q| + 1 - p)) := by rw [← hexp]
    _ = ((2 ^ (p - 1) : ℤ) : ℚ) * ulp p q := by
      rw [zpow_add₀ (by norm_num), zpow_natCast, ulp]
      push_cast
      rfl

/-- Rounding a quotient of integers of `p` bits does not change its ceiling. -/
theorem ceil_rn_div {p a b : Nat} (hp : 1 ≤ p) (ha : a ≤ 2 ^ p) (hb : 0 < b) :
    ⌈rn p (a / b)⌉ = ⌈(a / b : ℚ)⌉ := by
  rcases Nat.eq_zero_or_pos a with rfl | ha0
  · rw [Nat.cast_zero, zero_div, rn_zero]
  have hbq : (0 : ℚ) < b := by exact_mod_cast hb
  have hq : (0 : ℚ) < a / b := div_pos (by exact_mod_cast ha0) hbq
  have haq : (a : ℚ) ≤ 2 ^ p := by exact_mod_cast ha
  rcases (zpow_log_le hq).eq_or_lt with heq | hlt
  · rw [rn_of_zpow_log hp heq.symm]
  generalize hqdef : (a / b : ℚ) = q at *
  have hmul : q * b = a := by rw [← hqdef, div_mul_cancel₀ _ hbq.ne']
  have hu := ulp_pos p q
  have hle : q ≤ 2 ^ p := by
    have h1 : (1 : ℚ) ≤ b := by exact_mod_cast hb
    nlinarith
  have hlog : Int.log 2 |q| + 1 ≤ p := by
    have hpow : (2 : ℚ) ^ Int.log 2 |q| < 2 ^ (p : ℤ) := by
      rw [zpow_natCast]
      exact hlt.trans_le hle
    exact (zpow_lt_zpow_iff_right₀ (by norm_num)).1 hpow
  have hwhole := one_div_ulp hlog
  generalize (2 ^ (p - 1 - Int.log 2 |q|).toNat : ℤ) = w at hwhole
  -- the unit is less than two of the denominator's parts
  have hub : ulp p q * b < 2 := by
    have hsplit : ulp p q * 2 ^ p = 2 ^ Int.log 2 |q| * 2 := by
      rw [ulp, ← zpow_natCast (2 : ℚ) p, ← zpow_add₀ (by norm_num), sub_add_cancel,
        zpow_add_one₀ (by norm_num)]
    have hp0 : (0 : ℚ) < 2 ^ p := by positivity
    have hcmp : ulp p q * b * 2 ^ p < 2 * 2 ^ p := by
      calc ulp p q * b * 2 ^ p = 2 ^ Int.log 2 |q| * b * 2 := by rw [mul_right_comm, hsplit]; ring
        _ < q * b * 2 := by nlinarith
        _ ≤ 2 * 2 ^ p := by rw [hmul]; linarith
    exact lt_of_mul_lt_mul_right hcmp hp0.le
  -- and the quotient is at least one such part above the integer below it
  have hpart : 1 ≤ (q - (⌈q⌉ - 1 : ℤ)) * b := by
    have hpos : 0 < (q - (⌈q⌉ - 1 : ℤ)) * b := by
      have hceil := Int.ceil_lt_add_one q
      push_cast
      nlinarith
    rw [sub_mul, hmul] at hpos ⊢
    have hint : (0 : ℤ) < a - (⌈q⌉ - 1) * b := by exact_mod_cast hpos
    exact_mod_cast hint
  have hdivu : ∀ x : ℚ, x / ulp p q = x * w := fun x => by rw [← hwhole, mul_one_div]
  have hup : roundEven (q / ulp p q) ≤ ⌈q⌉ * w := by
    refine roundEven_le ?_
    rw [← mul_one_div, hwhole]
    push_cast
    have hw : (0 : ℚ) < w := by rw [← hwhole]; positivity
    exact mul_le_mul_of_nonneg_right (Int.le_ceil q) hw.le
  have hlo : (⌈q⌉ - 1) * w < roundEven (q / ulp p q) := by
    refine lt_roundEven ?_
    have hsum : ((⌈q⌉ - 1 : ℤ) : ℚ) + ulp p q / 2 < q := by nlinarith
    have hdiv := div_lt_div_of_pos_right hsum hu
    rw [add_div, hdivu (⌈q⌉ - 1 : ℤ), div_div, mul_comm 2, ← div_div, div_self hu.ne'] at hdiv
    push_cast at hdiv ⊢
    exact hdiv
  have huw : (w : ℚ) * ulp p q = 1 := by rw [← hwhole, one_div_mul_cancel hu.ne']
  refine Int.ceil_eq_iff.2 ⟨?_, ?_⟩
  · have h : (((⌈q⌉ - 1) * w : ℤ) : ℚ) < roundEven (q / ulp p q) := by exact_mod_cast hlo
    push_cast at h
    have h2 := mul_lt_mul_of_pos_right h hu
    rwa [mul_assoc, huw, mul_one] at h2
  · have h : (roundEven (q / ulp p q) : ℚ) ≤ (⌈q⌉ * w : ℤ) := by exact_mod_cast hup
    push_cast at h
    have h2 := mul_le_mul_of_nonneg_right h hu.le
    rwa [mul_assoc, huw, mul_one] at h2

/-- An integer of `p` bits is itself. -/
theorem rn_natCast {p a : Nat} (hp : 1 ≤ p) (ha : a ≤ 2 ^ p) : rn p a = a := by
  rcases Nat.eq_zero_or_pos a with rfl | ha0
  · rw [Nat.cast_zero, rn_zero]
  have haq : (0 : ℚ) < a := by exact_mod_cast ha0
  rcases (zpow_log_le haq).eq_or_lt with heq | hlt
  · exact rn_of_zpow_log hp heq.symm
  have hle : (a : ℚ) ≤ 2 ^ (p : ℤ) := by
    rw [zpow_natCast]
    exact_mod_cast ha
  have hlog : Int.log 2 |(a : ℚ)| + 1 ≤ p :=
    (zpow_lt_zpow_iff_right₀ (by norm_num)).1 (hlt.trans_le hle)
  have hwhole := one_div_ulp hlog
  refine rn_of_mul_ulp (n := a * 2 ^ (p - 1 - Int.log 2 |(a : ℚ)|).toNat) ?_
  rw [Int.cast_mul, ← hwhole, mul_assoc, one_div_mul_cancel (ulp_pos p a).ne']
  push_cast
  ring

theorem ulp_two_mul (p : Nat) {q : ℚ} (hq : q ≠ 0) : ulp p (2 * q) = 2 * ulp p q := by
  have hpos : 0 < |q| := abs_pos.2 hq
  have hlog : Int.log 2 |2 * q| = Int.log 2 |q| + 1 := by
    rw [abs_mul, abs_two]
    have h1 := Int.zpow_log_le_self (R := ℚ) (b := 2) (by norm_num) hpos
    have h2 := Int.lt_zpow_succ_log_self (R := ℚ) (b := 2) (by norm_num) |q|
    push_cast at h1 h2
    have hle : Int.log 2 |q| + 1 ≤ Int.log 2 (2 * |q|) := by
      refine (Int.zpow_le_iff_le_log (by norm_num) (by positivity)).1 ?_
      push_cast
      rw [zpow_add_one₀ (by norm_num)]
      linarith
    have hlt : Int.log 2 (2 * |q|) < Int.log 2 |q| + 1 + 1 := by
      refine (Int.lt_zpow_iff_log_lt (by norm_num) (by positivity)).1 ?_
      push_cast
      rw [zpow_add_one₀ (by norm_num)]
      linarith
    omega
  rw [ulp, ulp, hlog, ← zpow_one_add₀ (by norm_num)]
  congr 1
  omega

theorem rn_two_mul (p : Nat) (q : ℚ) : rn p (2 * q) = 2 * rn p q := by
  rcases eq_or_ne q 0 with rfl | hq
  · rw [mul_zero, rn_zero, mul_zero]
  · rw [rn, rn, ulp_two_mul p hq, mul_div_mul_left _ _ (by norm_num)]
    ring

theorem rn_two_pow_mul (p k : Nat) (q : ℚ) : rn p (2 ^ k * q) = 2 ^ k * rn p q := by
  induction k with
  | zero => simp
  | succ k ih => rw [pow_succ', mul_assoc, rn_two_mul, ih, mul_assoc]

theorem rn_pos {p : Nat} (hp : 1 ≤ p) {q : ℚ} (hq : 0 < q) : 0 < rn p q := by
  have hle : (1 : ℚ) ≤ q / ulp p q := by
    rw [le_div_iff₀ (ulp_pos p q), one_mul]
    refine le_trans ?_ (zpow_log_le hq)
    exact zpow_le_zpow_right₀ (by norm_num) (by omega)
  have hround : 0 < roundEven (q / ulp p q) := lt_roundEven (by push_cast; linarith)
  exact mul_pos (by exact_mod_cast hround) (ulp_pos p q)

theorem lt_roundEven_iff {q : ℚ} {n : ℤ} :
    n < roundEven q ↔ n + 1 / 2 < q ∨ (q = n + 1 / 2 ∧ n % 2 = 1) := by
  constructor
  · intro h
    by_contra hnot
    rw [not_or, not_lt] at hnot
    obtain ⟨hle, htie⟩ := hnot
    rcases hle.eq_or_lt with heq | hlt
    · -- a tie, which goes to an even number
      have heven : n % 2 = 0 := by
        have hodd : n % 2 ≠ 1 := fun hodd => htie ⟨heq, hodd⟩
        omega
      have hfloor : ⌊q⌋ = n := by
        rw [Int.floor_eq_iff, heq]
        constructor <;> linarith
      have hround : roundEven q = n := by
        unfold roundEven
        rw [hfloor, if_neg (by rw [heq]; linarith), if_neg (by rw [heq]; linarith), if_pos heven]
      omega
    · have hle : roundEven q ≤ n := by
        by_cases hn : q ≤ n
        · exact roundEven_le hn
        · have hfloor : ⌊q⌋ = n := by
            rw [Int.floor_eq_iff]
            constructor <;> linarith
          unfold roundEven
          rw [hfloor, if_pos (by linarith)]
      omega
  · rintro (h | ⟨rfl, hodd⟩)
    · exact lt_roundEven h
    · have hfloor : ⌊(n + 1 / 2 : ℚ)⌋ = n := by
        rw [Int.floor_eq_iff]
        constructor <;> linarith
      unfold roundEven
      rw [hfloor, if_neg (by linarith), if_neg (by linarith), if_neg (by omega)]
      omega

theorem lt_zpow_log {q : ℚ} (hq : 0 < q) : q < 2 ^ (Int.log 2 |q| + 1) := by
  have h := Int.lt_zpow_succ_log_self (R := ℚ) (b := 2) (by norm_num) |q|
  rw [abs_of_pos hq] at h ⊢
  exact_mod_cast h

theorem rn_le_zpow {p : Nat} {q : ℚ} (hq : 0 < q) {e : ℤ} (h : q < 2 ^ e) : rn p q ≤ 2 ^ e := by
  have hlog : Int.log 2 |q| < e :=
    (zpow_lt_zpow_iff_right₀ (by norm_num)).1 ((zpow_log_le hq).trans_lt h)
  have hscaled : q / ulp p q ≤ (2 ^ p : ℤ) := by
    rw [div_le_iff₀ (ulp_pos p q), ulp]
    push_cast
    rw [← zpow_natCast, ← zpow_add₀ (by norm_num), add_sub_cancel]
    exact (lt_zpow_log hq).le
  have hround : (roundEven (q / ulp p q) : ℚ) ≤ (2 ^ p : ℤ) := by
    exact_mod_cast roundEven_le hscaled
  calc rn p q ≤ (2 ^ p : ℤ) * ulp p q := mul_le_mul_of_nonneg_right hround (ulp_pos p q).le
    _ = 2 ^ (Int.log 2 |q| + 1) := by
      rw [ulp]
      push_cast
      rw [← zpow_natCast, ← zpow_add₀ (by norm_num), add_sub_cancel]
    _ ≤ 2 ^ e := zpow_le_zpow_right₀ (by norm_num) (by omega)

theorem zpow_le_rn {p : Nat} (hp : 1 ≤ p) {q : ℚ} {e : ℤ} (h : 2 ^ e ≤ q) : 2 ^ e ≤ rn p q := by
  have hq : 0 < q := (zpow_pos (by norm_num) e).trans_le h
  have hlog : e < Int.log 2 |q| + 1 :=
    (zpow_lt_zpow_iff_right₀ (by norm_num)).1 (h.trans_lt (lt_zpow_log hq))
  have hexp : ((p - 1 : Nat) : ℤ) + (Int.log 2 |q| + 1 - p) = Int.log 2 |q| := by omega
  have hscaled : ((2 ^ (p - 1) : ℤ) : ℚ) ≤ q / ulp p q := by
    rw [le_div_iff₀ (ulp_pos p q), ulp]
    push_cast
    rw [← zpow_natCast, ← zpow_add₀ (by norm_num), hexp]
    exact zpow_log_le hq
  have hround : (2 ^ (p - 1) : ℤ) ≤ roundEven (q / ulp p q) := by
    have hlt : (2 ^ (p - 1) : ℤ) - 1 < roundEven (q / ulp p q) := by
      refine lt_roundEven ?_
      push_cast at hscaled ⊢
      linarith
    omega
  calc (2 : ℚ) ^ e ≤ 2 ^ Int.log 2 |q| := zpow_le_zpow_right₀ (by norm_num) (by omega)
    _ = ((2 ^ (p - 1) : ℤ) : ℚ) * ulp p q := by
      rw [ulp]
      push_cast
      rw [← zpow_natCast, ← zpow_add₀ (by norm_num), hexp]
    _ ≤ rn p q := mul_le_mul_of_nonneg_right (by exact_mod_cast hround) (ulp_pos p q).le

/-- What is rounded to more than `m`: what lies above the middle between the last number of `p`
significant bits up to `m` and the next, and the middle itself when that number is odd. -/
theorem lt_rn_iff {p : Nat} (hp : 1 ≤ p) {m q : ℚ} (hm : 0 < m) (hq : 0 < q) :
    m < rn p q ↔ (⌊m / ulp p m⌋ + 1 / 2) * ulp p m < q ∨
      (q = (⌊m / ulp p m⌋ + 1 / 2) * ulp p m ∧ ⌊m / ulp p m⌋ % 2 = 1) := by
  have hu := ulp_pos p m
  set e := Int.log 2 |m| with he
  set F := ⌊m / ulp p m⌋ with hF
  have hue : ulp p m = 2 ^ (e + 1 - p) := rfl
  have htop : (2 : ℚ) ^ (e + 1) = ((2 ^ p : ℤ) : ℚ) * ulp p m := by
    rw [hue]
    push_cast
    rw [← zpow_natCast, ← zpow_add₀ (by norm_num), add_sub_cancel]
  have hbottom : (2 : ℚ) ^ e = ((2 ^ (p - 1) : ℤ) : ℚ) * ulp p m := by
    have hexp : ((p - 1 : Nat) : ℤ) + (e + 1 - p) = e := by omega
    rw [hue]
    push_cast
    rw [← zpow_natCast, ← zpow_add₀ (by norm_num), hexp]
  have hlow : (2 ^ (p - 1) : ℤ) ≤ F := by
    refine Int.le_floor.2 ((le_div_iff₀ hu).2 ?_)
    rw [← hbottom]
    exact zpow_log_le hm
  have hhigh : F < 2 ^ p := by
    refine Int.floor_lt.2 ((div_lt_iff₀ hu).2 ?_)
    rw [← htop]
    exact lt_zpow_log hm
  have hlowQ : (2 : ℚ) ^ e ≤ F * ulp p m := by
    rw [hbottom]
    exact mul_le_mul_of_nonneg_right (by exact_mod_cast hlow) hu.le
  have hhighQ : (F + 1) * ulp p m ≤ 2 ^ (e + 1) := by
    rw [htop]
    exact mul_le_mul_of_nonneg_right (by exact_mod_cast hhigh) hu.le
  by_cases hqlow : q < 2 ^ e
  · have hle := (rn_le_zpow (p := p) hq hqlow).trans (zpow_log_le hm)
    refine iff_of_false (not_lt.2 hle) ?_
    rintro (h | ⟨h, -⟩) <;> nlinarith
  by_cases hqhigh : 2 ^ (e + 1) ≤ q
  · have hlt := (lt_zpow_log hm).trans_le (zpow_le_rn hp hqhigh)
    refine iff_of_true hlt (.inl ?_)
    nlinarith
  · rw [rn_of_log e (not_lt.1 hqlow) (not_le.1 hqhigh), ← hue, ← div_lt_iff₀ hu, ← Int.floor_lt,
      lt_roundEven_iff, lt_div_iff₀ hu, div_eq_iff hu.ne']

end FloatRound
