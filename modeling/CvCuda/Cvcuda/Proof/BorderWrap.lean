import CvCuda.Cvcuda.BorderWrap
import CvCuda.Lib.Folding

/-! # Border indices are those of the extended image

* `IsExtension`: what it means to extend an image of a size to all integers.
* `Computes`: a computation of `int`s has a value, with a rule for each way it goes on.
* `computes_index`: the code computes the extension, one lemma a border type.
* `getIndexWithBorder_extension`: so do both functions, for sizes up to `2 ^ 29`.
-/

namespace Cvcuda.BorderWrap

open Nvcv (int32?)
open Folding
open Function (Periodic)

/-! ## Extensions -/

/-- The indices of an image of `s` pixels, extended to all integers. -/
structure IsExtension (B : BorderType) (s : ℤ) (e : ℤ → ℤ) : Prop where
  range : ∀ c, 0 ≤ e c ∧ e c < s
  inside : ∀ c, 0 ≤ c → c < s → e c = c
  outside : match B with
    | .replicate => Monotone e
    | .wrap => Periodic e s
    | .reflect => Periodic e (2 * s) ∧ ∀ c, e (-1 - c) = e c
    | .reflect101 => Periodic e (2 * (s - 1)) ∧ ∀ c, e (0 - c) = e c

/-- The extension of an image that has pixels. -/
def extension (s c : ℤ) : BorderType → ℤ
  | .replicate => max 0 (min c (s - 1))
  | .wrap => c % s
  | .reflect => fold (2 * s) (-1) c
  | .reflect101 => if s = 1 then 0 else fold (2 * (s - 1)) 0 c

section
variable {B : BorderType} {s : ℤ} {e : ℤ → ℤ}

/-- A folded argument is an index. -/
theorem fold_mem {p m : ℤ} (hp : 0 < p) (hl : -1 ≤ m) (hu : m + p < 2 * s) (c : ℤ) :
    0 ≤ fold p m c ∧ fold p m c < s := by
  have h0 := Int.emod_nonneg c hp.ne'
  have h1 := Int.emod_lt_of_pos c hp
  unfold fold
  omega

/-- An index is its own fold. -/
theorem fold_self {p m c : ℤ} (h0 : 0 ≤ c) (hc : c < p) (hm : 2 * c ≤ m + p) : fold p m c = c := by
  rw [fold, Int.emod_eq_of_lt h0 hc]
  omega

theorem isExtension (hs : 1 ≤ s) : IsExtension B s fun c => extension s c B where
  range c := by
    cases B with
    | replicate =>
      simp only [extension]
      omega
    | wrap => exact ⟨Int.emod_nonneg c (by omega), Int.emod_lt_of_pos c (by omega)⟩
    | reflect => exact fold_mem (by omega) le_rfl (by omega) c
    | reflect101 =>
      simp only [extension]
      split_ifs with h
      · omega
      · exact fold_mem (by omega) (by omega) (by omega) c
  inside c h0 hc := by
    cases B with
    | replicate =>
      simp only [extension]
      omega
    | wrap => exact Int.emod_eq_of_lt h0 hc
    | reflect => exact fold_self h0 (by omega) (by omega)
    | reflect101 =>
      simp only [extension]
      split_ifs with h
      · omega
      · by_cases hlast : c = s - 1
        · exact fold_self h0 (by omega) (by omega)
        · exact fold_self h0 (by omega) (by omega)
  outside := by
    cases B with
    | replicate =>
      intro c d hcd
      simp only [extension]
      omega
    | wrap => exact fun c => Int.add_emod_right c s
    | reflect => exact ⟨fold_periodic _ _, fold_mirror (by omega) (.inl rfl)⟩
    | reflect101 =>
      simp only [extension]
      by_cases h : s = 1
      · simp only [if_pos h]
        exact ⟨fun _ => rfl, fun _ => trivial⟩
      · simp only [if_neg h]
        exact ⟨fold_periodic _ _, fold_mirror (by omega) (.inr rfl)⟩

/-- **There is one extension** of a border type. -/
theorem IsExtension.eq (he : IsExtension B s e) (c : ℤ) : e c = extension s c B := by
  have hr := he.range
  have hs : 1 ≤ s := by
    have := hr 0
    omega
  have hi := he.inside
  have ho := he.outside
  obtain ⟨h0, h1⟩ := (isExtension (B := B) hs).range c
  cases B with
  | replicate =>
    simp only [extension]
    rcases lt_trichotomy c 0 with hc | hc
    · have := ho hc.le
      have := hi 0 le_rfl (by omega)
      have := hr c
      omega
    · by_cases hcs : c < s
      · rw [hi c (by omega) hcs]
        omega
      · have := ho (show s - 1 ≤ c by omega)
        have := hi (s - 1) (by omega) (by omega)
        have := hr c
        omega
  | wrap => exact (periodic_emod ho c).trans (hi _ h0 h1)
  | reflect => exact (eq_fold ho.1 ho.2 c).trans (hi _ h0 h1)
  | reflect101 =>
    simp only [extension] at h0 h1 ⊢
    split_ifs at h0 h1 ⊢ with h
    · have := hr c
      omega
    · exact (eq_fold ho.1 ho.2 c).trans (hi _ h0 h1)

end

/-! ## Computations of `int`s -/

/-- The computation has the value. -/
def Computes (x : Option Int32) (v : ℤ) : Prop := ∃ i, x = some i ∧ i.toInt = v

section
variable {x : Option Int32} {v w : ℤ}

theorem computes_some {i : Int32} (h : i.toInt = v) : Computes (some i) v := ⟨i, rfl, h⟩

theorem computes_int32? (hl : -2 ^ 31 ≤ v) (hu : v < 2 ^ 31) : Computes (int32? v) v :=
  ⟨.ofInt v, if_pos ⟨hl, hu⟩, Int32.toInt_ofInt_of_le hl (by omega)⟩

theorem computes_bind {f : Int32 → Option Int32} (hx : Computes x v)
    (hf : ∀ i : Int32, i.toInt = v → Computes (f i) w) : Computes (x >>= f) w := by
  obtain ⟨i, rfl, hi⟩ := hx
  exact hf i hi

theorem computes_abs {i : Int32} (h : -2 ^ 31 < i.toInt) : Computes (abs i) i.toInt.natAbs := by
  have := i.toInt_lt
  exact computes_int32? (by omega) (by omega)

end

variable {c s : Int32}

/-- The remainder is corrected to the one that is not negative. -/
theorem computes_remainder (hs : 0 < s.toInt) : Computes (remainder c s) (c.toInt % s.toInt) := by
  have h0 := Int.emod_nonneg c.toInt hs.ne'
  have h1 := Int.emod_lt_of_pos c.toInt hs
  have hlt := s.toInt_lt
  have hr : (c % s).toInt = if 0 ≤ c.toInt ∨ s.toInt ∣ c.toInt then c.toInt % s.toInt
      else c.toInt % s.toInt - s.toInt := by
    rw [Int32.toInt_mod, Int.tmod_eq_emod]
    split_ifs <;> omega
  unfold remainder
  simp only [Int32.lt_iff_toInt_lt, Int32.toInt_zero]
  rw [hr]
  by_cases h : 0 ≤ c.toInt ∨ s.toInt ∣ c.toInt
  · rw [if_pos h, if_neg (by omega)]
    exact computes_some (hr.trans (if_pos h))
  · rw [if_neg h, if_pos (by omega), sub_add_cancel]
    exact computes_int32? (by omega) (by omega)

theorem computes_replicate (hs : 1 ≤ s.toInt) :
    Computes (index c s .replicate) (extension s.toInt c.toInt .replicate) := by
  have hlt := s.toInt_lt
  simp only [index, extension, Int32.lt_iff_toInt_lt, Int32.le_iff_toInt_le, Int32.toInt_zero]
  split_ifs with h0 h1
  · exact computes_some (by rw [Int32.toInt_zero]; omega)
  · rw [show max 0 (min c.toInt (s.toInt - 1)) = s.toInt - 1 by omega]
    exact computes_int32? (by omega) (by omega)
  · exact computes_some (by omega)

theorem computes_reflect (hs : 1 ≤ s.toInt) (hu : s.toInt ≤ 2 ^ 29) :
    Computes (index c s .reflect) (extension s.toInt c.toInt .reflect) := by
  have h0 := Int.emod_nonneg c.toInt (show 2 * s.toInt ≠ 0 by omega)
  have h1 := Int.emod_lt_of_pos c.toInt (show 0 < 2 * s.toInt by omega)
  simp only [index, extension, fold]
  refine computes_bind (computes_int32? (by omega) (by omega)) fun s2 hs2 => ?_
  refine computes_bind (computes_remainder (by omega)) fun r hr => ?_
  rw [hs2, mul_comm s.toInt 2] at hr
  rw [← hr] at h0 h1 ⊢
  refine computes_bind (computes_int32? (by omega) (by omega)) fun t ht => ?_
  refine computes_bind (computes_int32? (by omega) (by omega)) fun t' ht' => ?_
  refine computes_bind (computes_int32? (by omega) (by omega)) fun d hd => ?_
  refine computes_bind (computes_abs (by omega)) fun a ha => ?_
  refine computes_bind (computes_int32? (by omega) (by omega)) fun last hlast => ?_
  have hv : last.toInt - a.toInt >>> (1 : Nat) = min r.toInt (-1 + 2 * s.toInt - r.toInt) := by
    rw [Int.shiftRight_eq_div_pow]
    omega
  rw [hv]
  exact computes_int32? (by omega) (by omega)

theorem computes_period101 (hs : 1 ≤ s.toInt) (hu : s.toInt ≤ 2 ^ 29) :
    Computes (period101 s) (2 * (s.toInt - 1)) := by
  refine computes_bind (computes_int32? (by omega) (by omega)) fun s2 hs2 => ?_
  rw [show 2 * (s.toInt - 1) = s2.toInt - 2 by omega]
  exact computes_int32? (by omega) (by omega)

theorem computes_reflect101 (hs : 1 ≤ s.toInt) (hu : s.toInt ≤ 2 ^ 29) :
    Computes (index c s .reflect101) (extension s.toInt c.toInt .reflect101) := by
  have h1 : s = 1 ↔ s.toInt = 1 := by rw [← Int32.toInt_inj, Int32.toInt_one]
  simp only [index, extension, h1]
  split_ifs with h
  · exact computes_some Int32.toInt_zero
  have hp : 0 < 2 * (s.toInt - 1) := by omega
  have h0 := Int.emod_nonneg c.toInt hp.ne'
  have h1 := Int.emod_lt_of_pos c.toInt hp
  refine computes_bind (computes_period101 hs hu) fun p hpv => ?_
  refine computes_bind (computes_remainder (by omega)) fun r hr => ?_
  rw [hpv] at hr
  rw [fold, ← hr]
  rw [← hr] at h0 h1
  refine computes_bind (computes_int32? (by omega) (by omega)) fun last hlast => ?_
  refine computes_bind (computes_int32? (by omega) (by omega)) fun d hd => ?_
  refine computes_bind (computes_abs (by omega)) fun a ha => ?_
  rw [show min r.toInt (0 + 2 * (s.toInt - 1) - r.toInt) = last.toInt - a.toInt by omega]
  exact computes_int32? (by omega) (by omega)

/-- **The code computes the extension.** -/
theorem computes_index (B : BorderType) (hs : 1 ≤ s.toInt) (hu : s.toInt ≤ 2 ^ 29) :
    Computes (index c s B) (extension s.toInt c.toInt B) := by
  cases B with
  | replicate => exact computes_replicate hs
  | wrap => exact computes_remainder (by omega)
  | reflect => exact computes_reflect hs hu
  | reflect101 => exact computes_reflect101 hs hu

/-- Neither assertion fails. -/
theorem computes_wrapIndex (B : BorderType) (hs : 1 ≤ s.toInt) (hu : s.toInt ≤ 2 ^ 29) :
    Computes (wrapIndex B c s) (extension s.toInt c.toInt B) := by
  obtain ⟨i, hi, hv⟩ := computes_index (c := c) B hs hu
  obtain ⟨h0, h1⟩ := (isExtension (B := B) hs).range c.toInt
  have hpos : 0 < s := by
    rw [Int32.lt_iff_toInt_lt, Int32.toInt_zero]
    omega
  have hin : 0 ≤ i ∧ i < s := by
    rw [Int32.le_iff_toInt_le, Int32.lt_iff_toInt_lt, Int32.toInt_zero, hv]
    exact ⟨h0, h1⟩
  refine ⟨i, ?_, hv⟩
  simp [wrapIndex, hi, hpos, hin.1, hin.2]

/-- **Border indices**: both functions return the index of the one extension of the image, or the
coordinate as it is where they are not active. -/
theorem getIndexWithBorder_extension (B : BorderType) (hs : 1 ≤ s.toInt) (hu : s.toInt ≤ 2 ^ 29) :
    ∃! e : ℤ → ℤ, IsExtension B s.toInt e ∧ ∀ c : Int32,
      (∃ i, getIndexWithBorder B true c s = some i ∧ i.toInt = e c.toInt ∧
        0 ≤ i.toInt ∧ i.toInt < s.toInt) ∧
      ∀ active, getIndexWithBorderActive B active c s = getIndexWithBorder B active c s := by
  refine ⟨fun c => extension s.toInt c B, ⟨isExtension hs, fun c => ⟨?_, fun _ => rfl⟩⟩, ?_⟩
  · obtain ⟨i, hi, hv⟩ := computes_wrapIndex (c := c) B hs hu
    have hr := (isExtension (B := B) hs).range c.toInt
    exact ⟨i, hi, hv, by rw [hv]; exact hr⟩
  · rintro e ⟨he, -⟩
    exact funext he.eq

theorem getIndexWithBorder_extension_three : getIndexWithBorder .reflect true (-4) 3 = some 2 := by
  obtain ⟨e, ⟨he, h⟩, -⟩ := getIndexWithBorder_extension (s := 3) .reflect (by decide) (by decide)
  obtain ⟨⟨i, hi, hv, -⟩, -⟩ := h (-4)
  rw [he.eq] at hv
  have hi2 : i = 2 := Int32.toInt_inj.1 hv
  rw [hi, hi2]

end Cvcuda.BorderWrap
