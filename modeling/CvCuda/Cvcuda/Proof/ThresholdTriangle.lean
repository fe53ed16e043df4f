import CvCuda.Cvcuda.ThresholdTriangle

/-! # Triangle thresholds without overflow

* `Shape`, `triangle`, `IsThreshold`: the threshold by exact arithmetic.
* `triangleCal_iff`: when the kernel computes it and no product overflows.
* `white`: an image of one value for which it does not.
-/

namespace Cvcuda.ThresholdTriangle

open TreeReduce

/-! ## The exact threshold -/

/-- The ends of the range of non-zero bins, and the first bin of the largest count. -/
structure Shape (hist : Nat → ℤ) (l r p : Nat) : Prop where
  left : IsLeast {i | i < 256 ∧ 0 < hist i} l
  right : IsGreatest {i | i < 256 ∧ 0 < hist i} r
  peak : IsFirstMax hist {i | i < 256} p

/-- The right bound is further from the peak than the left one. -/
def Flips (l r p : Nat) : Prop := (p : ℤ) - (l - 1 : ℕ) < min 255 (r + 1 : ℤ) - p

instance (l r p : Nat) : Decidable (Flips l r p) := inferInstanceAs (Decidable (_ < _))

/-- The triangle from the further bound to the peak. -/
def triangle (hist : Nat → ℤ) (l r p : Nat) : Triangle :=
  if Flips l r p then
    { isfliped := true
      hist := fun i => hist (255 - i)
      left := 255 - min 255 (r + 1 : ℤ)
      max := hist p
      maxid := 255 - p }
  else
    { isfliped := false
      hist := hist
      left := (l - 1 : ℕ)
      max := hist p
      maxid := p }

/-- The bins whose distances count. -/
def Triangle.range (t : Triangle) : Set Nat := {i | t.left < i ∧ (i : ℤ) ≤ t.maxid}

/-- The distance of a bin, which no arithmetic bounds. -/
def Triangle.distance (t : Triangle) (i : Nat) : ℤ := t.max * i + (t.left - t.maxid) * t.hist i

/-- What the first bin of the largest distance makes the threshold. -/
def Triangle.unflip (t : Triangle) (best : Nat) : ℤ :=
  if t.isfliped then 255 - ((best : ℤ) - 1) else best - 1

/-- The threshold of a histogram. -/
def IsThreshold (hist : Nat → ℤ) (thresh : ℤ) : Prop :=
  ∃ l r p, Shape hist l r p ∧ ∃ best,
    IsFirstMax (triangle hist l r p).distance (triangle hist l r p).range best ∧
    thresh = (triangle hist l r p).unflip best

/-- What an `int` can be. -/
def Fits (z : ℤ) : Prop := -2 ^ 31 ≤ z ∧ z < 2 ^ 31

/-- No product of a distance overflows. -/
def Triangle.NoOverflow (t : Triangle) : Prop :=
  ∀ i ∈ t.range, Fits (t.max * i) ∧ Fits ((t.left - t.maxid) * t.hist i)

/-! ## The reductions -/

theorem blockReduce_min (f : Nat → ℤ) :
    ∃ i < 256, blockReduce min f = f i ∧ ∀ j < 256, f i ≤ f j := by
  have hchoice : ∀ a b : ℤ, min a b = a ∨ min a b = b := min_choice
  obtain ⟨i, hi, heq⟩ := exists_reduce (w := 32) hchoice 8 f
  exact ⟨i, hi, heq, (reduce_iff (P := (f i ≤ ·)) (fun _ _ => le_min_iff) 8 f).1 heq.ge⟩

theorem blockReduce_max (f : Nat → ℤ) :
    ∃ i < 256, blockReduce max f = f i ∧ ∀ j < 256, f j ≤ f i := by
  have hchoice : ∀ a b : ℤ, max a b = a ∨ max a b = b := max_choice
  obtain ⟨i, hi, heq⟩ := exists_reduce (w := 32) hchoice 8 f
  exact ⟨i, hi, heq, (reduce_iff (P := (· ≤ f i)) (fun _ _ => max_le_iff) 8 f).1 heq.le⟩

section
variable {hist : Nat → ℤ}

theorem leftBound_eq (hne : ∃ i < 256, 0 < hist i) :
    ∃ l, IsLeast {i | i < 256 ∧ 0 < hist i} l ∧ leftBound hist = (l - 1 : ℕ) := by
  obtain ⟨i, hi, heq, hmin⟩ := blockReduce_min fun i => if 0 < hist i then (i : ℤ) else intMax
  obtain ⟨j, hj, hpos⟩ := hne
  have hcount : 0 < hist i := by
    by_contra hnot
    have := hmin j hj
    rw [if_neg hnot, if_pos hpos, intMax] at this
    omega
  refine ⟨i, ⟨⟨hi, hcount⟩, fun k ⟨hk, hkpos⟩ => ?_⟩, ?_⟩
  · have := hmin k hk
    rw [if_pos hcount, if_pos hkpos] at this
    exact_mod_cast this
  · rw [if_pos hcount] at heq
    simp only [leftBound, heq]
    split <;> omega

theorem rightBound_eq (hne : ∃ i < 256, 0 < hist i) :
    ∃ r, IsGreatest {i | i < 256 ∧ 0 < hist i} r ∧ rightBound hist = min 255 (r + 1 : ℤ) := by
  obtain ⟨i, hi, heq, hmax⟩ := blockReduce_max fun i => if 0 < hist i then (i : ℤ) else -1
  obtain ⟨j, hj, hpos⟩ := hne
  have hcount : 0 < hist i := by
    by_contra hnot
    have := hmax j hj
    rw [if_neg hnot, if_pos hpos] at this
    omega
  refine ⟨i, ⟨⟨hi, hcount⟩, fun k ⟨hk, hkpos⟩ => ?_⟩, ?_⟩
  · have := hmax k hk
    rw [if_pos hcount, if_pos hkpos] at this
    exact_mod_cast this
  · rw [if_pos hcount] at heq
    simp only [rightBound, heq]
    split <;> omega

/-- The reductions find the shape of a histogram. -/
theorem of_eq (hne : ∃ i < 256, 0 < hist i) :
    ∃ l r p, Shape hist l r p ∧ Triangle.of hist = triangle hist l r p := by
  obtain ⟨l, hl, hleft⟩ := leftBound_eq hne
  obtain ⟨r, hr, hright⟩ := rightBound_eq hne
  obtain ⟨p, hp, hpeak⟩ := reduce_firstMax (w := 32) 8 hist
  refine ⟨l, r, p, ⟨hl, hr, hp⟩, ?_⟩
  have hpeak' : peak hist = (hist p, p) := hpeak
  simp only [Triangle.of, triangle, hleft, hright, hpeak']
  rfl

theorem Shape.unique {l r p l' r' p' : Nat} (h : Shape hist l r p) (h' : Shape hist l' r' p') :
    l = l' ∧ r = r' ∧ p = p' :=
  ⟨h.left.unique h'.left, h.right.unique h'.right, h.peak.unique h'.peak⟩

/-! ## Triangles -/

theorem Triangle.val_of_mem {t : Triangle} {i : Nat} (h : i ∈ t.range) :
    t.val i = wrap (wrap (t.max * i) + wrap ((t.left - t.maxid) * t.hist i)) :=
  if_pos h

theorem Triangle.val_of_not_mem {t : Triangle} {i : Nat} (h : i ∉ t.range) : t.val i = -1 :=
  if_neg h

/-- The peak of a triangle is right of its left bound, and no bin is higher. -/
structure Triangle.Peaked (t : Triangle) (m : Nat) : Prop where
  maxid : t.maxid = m
  lt : m < 256
  left_nonneg : 0 ≤ t.left
  left_lt : t.left < m
  max : t.hist m = t.max
  nonneg : ∀ i < 256, 0 ≤ t.hist i
  le : ∀ i < 256, t.hist i ≤ t.max

theorem Shape.peaked {l r p : Nat} (h : Shape hist l r p) (hpos : ∀ i < 256, 0 ≤ hist i) :
    (triangle hist l r p).Peaked (if Flips l r p then 255 - p else p) := by
  obtain ⟨⟨hl, hcount⟩, -⟩ := h.left
  have hp : p < 256 := h.peak.mem
  have hr : r < 256 := h.right.1.1
  -- the peak is one of the non-zero bins
  have hpeak : 0 < hist p := hcount.trans_le (h.peak.le l hl)
  have hlp : l ≤ p := h.left.2 ⟨hp, hpeak⟩
  have hpr : p ≤ r := h.right.2 ⟨hp, hpeak⟩
  by_cases hf : Flips l r p
  · have hf' := hf
    unfold Flips at hf'
    rw [if_pos hf, triangle, if_pos hf]
    refine ⟨by simp; omega, by omega, by simp, by simp; omega, ?_, ?_, ?_⟩
    · exact congrArg hist (by omega)
    · exact fun i _ => hpos _ (by omega)
    · exact fun i _ => h.peak.le _ (by simp; omega)
  · have hf' := hf
    unfold Flips at hf'
    rw [if_neg hf, triangle, if_neg hf]
    exact ⟨rfl, hp, by simp, by simp; omega, rfl, hpos, h.peak.le⟩

namespace Triangle.Peaked

variable {t : Triangle} {m : Nat}

theorem max_nonneg (h : t.Peaked m) : 0 ≤ t.max := h.max ▸ h.nonneg m h.lt

/-- The products are largest at the peak. -/
theorem noOverflow_iff (h : t.Peaked m) : t.NoOverflow ↔ t.max * m < 2 ^ 31 := by
  constructor
  · exact fun hno => (hno m ⟨h.left_lt, h.maxid.ge⟩).1.2
  · rintro hlt i ⟨hleft, hi⟩
    rw [h.maxid] at hi ⊢
    have hi256 : i < 256 := lt_of_le_of_lt (by exact_mod_cast hi) h.lt
    have hmax := h.max_nonneg
    have hhist : 0 ≤ (m - t.left) * t.hist i :=
      mul_nonneg (by linarith [h.left_lt]) (h.nonneg i hi256)
    have hle : (m - t.left) * t.hist i ≤ m * t.max :=
      mul_le_mul (by linarith [h.left_nonneg]) (h.le i hi256) (h.nonneg i hi256) (by positivity)
    have hprod : t.max * i ≤ t.max * m := mul_le_mul_of_nonneg_left hi hmax
    have hprod0 : 0 ≤ t.max * i := by positivity
    refine ⟨⟨by linarith, by linarith⟩, ⟨?_, ?_⟩⟩ <;> linarith

/-- Without overflow the kernel has the distances. -/
theorem val_eq (h : t.Peaked m) (hno : t.NoOverflow) {i : Nat} (hi : i ∈ t.range) :
    t.val i = t.distance i := by
  obtain ⟨⟨h1, h2⟩, ⟨h3, h4⟩⟩ := hno i hi
  have hwrap : ∀ z : ℤ, -2 ^ 31 ≤ z → z < 2 ^ 31 → wrap z = z := fun z hl hu =>
    Int.bmod_eq_of_le (by omega) (by omega)
  have hmax : 0 ≤ t.max * i := mul_nonneg h.max_nonneg (by positivity)
  have hi256 : i < 256 := lt_of_le_of_lt (by exact_mod_cast h.maxid ▸ hi.2) h.lt
  have hfall : (t.left - t.maxid) * t.hist i ≤ 0 :=
    mul_nonpos_of_nonpos_of_nonneg (by linarith [h.maxid, h.left_lt]) (h.nonneg i hi256)
  rw [val_of_mem hi, hwrap _ h1 h2, hwrap _ h3 h4, Triangle.distance]
  exact hwrap _ (by linarith) (by linarith)

/-- The first maximum of what all threads have is in the range. -/
theorem firstMax_val (h : t.Peaked m) (hno : t.NoOverflow) {best : Nat}
    (hbest : IsFirstMax t.val {i | i < 2 ^ 8} best) : IsFirstMax t.distance t.range best := by
  have hm : m ∈ t.range := ⟨h.left_lt, h.maxid.ge⟩
  have hlt : ∀ i ∈ t.range, i < 2 ^ 8 := fun i hi =>
    lt_of_le_of_lt (by exact_mod_cast h.maxid ▸ hi.2) h.lt
  have hpeak : 0 ≤ t.val m := by
    rw [h.val_eq hno hm, Triangle.distance, h.max, h.maxid]
    have := mul_nonneg h.max_nonneg h.left_nonneg
    linarith
  have hmem : best ∈ t.range := by
    by_contra hnot
    have := hbest.le m (hlt m hm)
    rw [val_of_not_mem hnot] at this
    omega
  refine ⟨hmem, fun i hi => ?_, fun i hi heq => hbest.first i (hlt i hi) ?_⟩
  · rw [← h.val_eq hno hi, ← h.val_eq hno hmem]
    exact hbest.le i (hlt i hi)
  · rwa [h.val_eq hno hi, h.val_eq hno hmem]

end Triangle.Peaked

/-- **Triangle threshold**: the kernel's threshold is the exact one, without a product that
overflows, if the largest count times its bin, seen from the left bound, fits an `int`. -/
theorem triangleCal_iff (hpos : ∀ i < 256, 0 ≤ hist i) (hne : ∃ i < 256, 0 < hist i) :
    ∃ l r p, Shape hist l r p ∧
      (IsThreshold hist (triangleCal hist) ∧ (Triangle.of hist).NoOverflow ↔
        hist p * (if Flips l r p then 255 - p else p : ℕ) < 2 ^ 31) := by
  obtain ⟨l, r, p, hs, hof⟩ := of_eq hne
  have hpeaked := hs.peaked hpos
  have hmax : (triangle hist l r p).max = hist p := by
    unfold triangle
    split <;> rfl
  refine ⟨l, r, p, hs, ?_⟩
  rw [hof, ← hmax, ← hpeaked.noOverflow_iff]
  refine and_iff_right_of_imp fun hno => ?_
  obtain ⟨best, hbest, hreduce⟩ := reduce_firstMax (w := 32) 8 (triangle hist l r p).val
  refine ⟨l, r, p, hs, best, hpeaked.firstMax_val hno hbest, ?_⟩
  simp only [triangleCal, hof, blockReduce, hreduce, Triangle.unflip]

/-- A threshold is never negative. -/
theorem IsThreshold.nonneg (hpos : ∀ i < 256, 0 ≤ hist i) {thresh : ℤ}
    (h : IsThreshold hist thresh) : 0 ≤ thresh := by
  obtain ⟨l, r, p, hs, best, hbest, rfl⟩ := h
  have hpeaked := hs.peaked hpos
  obtain ⟨hleft, hright⟩ := hbest.mem
  have hnonneg := hpeaked.left_nonneg
  rw [hpeaked.maxid] at hright
  have hlt := hpeaked.lt
  unfold Triangle.unflip
  split <;> omega

end

/-- Two values, of few pixels. -/
def few : Nat → ℤ := fun i => if i = 10 then 5 else if i = 200 then 30 else 0

theorem triangleCal_few : ∃ l r p, Shape few l r p ∧
    (IsThreshold few (triangleCal few) ∧ (Triangle.of few).NoOverflow ↔
      few p * (if Flips l r p then 255 - p else p : ℕ) < 2 ^ 31) :=
  triangleCal_iff (by decide +kernel) ⟨10, by decide, by decide⟩

/-- The histogram of an image of 10 million white pixels. -/
def white : Nat → ℤ := fun i => if i = 255 then 10000000 else 0

/-- The threshold should be below white, and is -1. -/
theorem white_wrong : (∀ i < 256, 0 ≤ white i) ∧ ∑ i ∈ Finset.range 256, white i ≤ 2 ^ 31 - 1 ∧
    (∃ i < 256, 0 < white i) ∧ triangleCal white = -1 ∧
    ¬IsThreshold white (triangleCal white) := by
  have hpos : ∀ i < 256, 0 ≤ white i := by decide +kernel
  have hcal : triangleCal white = -1 := by decide +kernel
  refine ⟨hpos, ?_, ⟨255, by decide, by decide⟩, hcal, fun h => ?_⟩
  · simp [white]
  · have := h.nonneg hpos
    omega

end Cvcuda.ThresholdTriangle
