import CvCuda.Cvcuda.NonMaximumSuppression

/-! # What non-maximum suppression leaves

A box is discarded for one that it overlaps and that ranks higher. Of two boxes that overlap and
rank the same neither is discarded for the other.

* `selected_iff`: when the boxes that are left are apart.
* `twins`: when they are not.
-/

namespace Cvcuda.NonMaximumSuppression

variable {S : Type} [LinearOrder S] {s : Sample S} {scoreThreshold : Num S} {iouThreshold : Num ℚ}

/-! ## Numbers and boxes -/

theorem computeIoU_comm (box1 box2 : Short4) : computeIoU box1 box2 = computeIoU box2 box1 := by
  unfold computeIoU
  simp only [max_comm box1.x, max_comm box1.y, min_comm (box1.x + box1.z),
    min_comm (box1.y + box1.w), add_comm (computeArea box1)]

omit [LinearOrder S] in
theorem overlaps_comm (i j : Nat) : s.overlaps iouThreshold i j = s.overlaps iouThreshold j i := by
  unfold Sample.overlaps
  rw [computeIoU_comm]

/-! ## The mask -/

/-- The box is discarded for another. -/
def Discarded (s : Sample S) (iouThreshold : Num ℚ) (i : Nat) : Prop :=
  ∃ j < s.bboxes.length, i ≠ j ∧ s.overlaps iouThreshold i j = true ∧ s.outranks j i = true

instance (s : Sample S) (iouThreshold : Num ℚ) (i : Nat) : Decidable (Discarded s iouThreshold i) :=
  inferInstanceAs (Decidable (∃ j < s.bboxes.length, _ ∧ _))

/-- The box is left. -/
def Selected (s : Sample S) (scoreThreshold : Num S) (iouThreshold : Num ℚ) (i : Nat) : Prop :=
  (s.score i).lt scoreThreshold = false ∧ ¬Discarded s iouThreshold i

theorem nonMaximumSuppression_eq_one (i : Nat) :
    nonMaximumSuppression s scoreThreshold iouThreshold i = 1 ↔
      Selected s scoreThreshold iouThreshold i := by
  unfold nonMaximumSuppression Selected Discarded
  cases h : (s.score i).lt scoreThreshold with
  | true => simp
  | false => simp [and_assoc]

/-- What suppression is for: of the boxes that are marked no two overlap, none is below the score
threshold, and a box is only dropped for its score or for a box that ranks higher. -/
structure Suppressed (s : Sample S) (scoreThreshold : Num S) (iouThreshold : Num ℚ)
    (mask : List (BitVec 8)) : Prop where
  apart : ∀ i < s.bboxes.length, ∀ j < s.bboxes.length, i ≠ j → mask[i]? = some 1 →
    mask[j]? = some 1 → s.overlaps iouThreshold i j = false
  above : ∀ i < s.bboxes.length, mask[i]? = some 1 → scoreThreshold.le (s.score i) = true
  dropped : ∀ i < s.bboxes.length, mask[i]? ≠ some 1 →
    (s.score i).lt scoreThreshold = true ∨
      ∃ j < s.bboxes.length, i ≠ j ∧ s.overlaps iouThreshold i j = true ∧ s.outranks j i = true

/-- No NaN, and of any two boxes that overlap with the same score and area, not below the score
threshold, one also overlaps a box that ranks higher. -/
structure Separable (s : Sample S) (scoreThreshold : Num S) (iouThreshold : Num ℚ) : Prop where
  scores : ∀ i < s.bboxes.length, s.score i ≠ none
  threshold : 0 < s.bboxes.length → scoreThreshold ≠ none
  ties : ∀ i < s.bboxes.length, ∀ j < s.bboxes.length, i ≠ j →
    s.overlaps iouThreshold i j = true → s.score i = s.score j →
    computeArea (s.bbox i) = computeArea (s.bbox j) →
    scoreThreshold.le (s.score i) = true →
    Discarded s iouThreshold i ∨ Discarded s iouThreshold j

/-- The mask as the kernel writes it. -/
def maskOf (s : Sample S) (scoreThreshold : Num S) (iouThreshold : Num ℚ) : List (BitVec 8) :=
  (List.range s.bboxes.length).map (nonMaximumSuppression s scoreThreshold iouThreshold)

theorem maskOf_eq_one {i : Nat} (hi : i < s.bboxes.length) :
    (maskOf s scoreThreshold iouThreshold)[i]? = some 1 ↔
      Selected s scoreThreshold iouThreshold i := by
  rw [maskOf, List.getElem?_map, List.getElem?_range hi, Option.map_some, Option.some.injEq]
  exact nonMaximumSuppression_eq_one i

theorem le_of_not_lt {a b : Num S} (ha : a ≠ none) (hb : b ≠ none) (h : a.lt b = false) :
    b.le a = true := by
  obtain ⟨x, rfl⟩ := Option.ne_none_iff_exists'.1 ha
  obtain ⟨y, rfl⟩ := Option.ne_none_iff_exists'.1 hb
  simpa [Num.lt, Num.le] using h

theorem lt_of_le {a b : Num S} (h : b.le a = true) : a.lt b = false := by
  cases a with
  | none => rfl
  | some x =>
    cases b with
    | none => rfl
    | some y => simpa [Num.lt, Num.le] using h

/-- Neither of two boxes outranks the other just if they are the same to the comparison. -/
theorem not_outranks_iff {i j : Nat} (hi : s.score i ≠ none) (hj : s.score j ≠ none) :
    s.outranks i j = false ∧ s.outranks j i = false ↔
      s.score i = s.score j ∧ computeArea (s.bbox i) = computeArea (s.bbox j) := by
  obtain ⟨x, hx⟩ := Option.ne_none_iff_exists'.1 hi
  obtain ⟨y, hy⟩ := Option.ne_none_iff_exists'.1 hj
  simp only [Sample.outranks, hx, hy, Num.lt, Num.eq, Bool.or_eq_false_iff, Bool.and_eq_false_iff,
    decide_eq_false_iff_not, Option.some.injEq]
  constructor
  · rintro ⟨⟨h1, h2⟩, h3, h4⟩
    have hxy : x = y := le_antisymm (not_lt.1 h1) (not_lt.1 h3)
    subst hxy
    simp only [not_true_eq_false, false_or, not_lt] at h2 h4
    exact ⟨rfl, le_antisymm h2 h4⟩
  · rintro ⟨rfl, harea⟩
    rw [harea]
    simp

/-- Some box outranks all that do not tie with it. -/
theorem exists_top (hscores : ∀ i < s.bboxes.length, s.score i ≠ none)
    (hpos : 0 < s.bboxes.length) :
    ∃ i < s.bboxes.length, ∀ j < s.bboxes.length, s.outranks j i = false := by
  have hne : (Finset.range s.bboxes.length).Nonempty := ⟨0, Finset.mem_range.2 hpos⟩
  obtain ⟨i, hi, hmax⟩ := Finset.exists_max_image _
    (fun i => (toLex (s.score i, computeArea (s.bbox i)) : WithBot S ×ₗ ℤ)) hne
  refine ⟨i, Finset.mem_range.1 hi, fun j hj => ?_⟩
  obtain ⟨x, hx⟩ := Option.ne_none_iff_exists'.1 (hscores i (Finset.mem_range.1 hi))
  obtain ⟨y, hy⟩ := Option.ne_none_iff_exists'.1 (hscores j hj)
  have hle := hmax j (Finset.mem_range.2 hj)
  rw [Prod.Lex.le_iff] at hle
  simp only [ofLex_toLex, hx, hy] at hle
  simp only [Sample.outranks, hx, hy, Num.lt, Num.eq, Bool.or_eq_false_iff, Bool.and_eq_false_iff,
    decide_eq_false_iff_not, not_lt]
  rcases hle with hlt | ⟨heq, harea⟩
  · have hlt' : y < x := WithBot.coe_lt_coe.1 hlt
    exact ⟨hlt'.le, .inl hlt'.ne'⟩
  · have heq' : y = x := WithBot.coe_injective heq
    exact ⟨heq'.le, .inr harea⟩

theorem suppressed_iff : Suppressed s scoreThreshold iouThreshold
      (maskOf s scoreThreshold iouThreshold) ↔ Separable s scoreThreshold iouThreshold := by
  constructor
  · intro h
    have hscores : ∀ i < s.bboxes.length, s.score i ≠ none := by
      -- a box without a score is never discarded
      intro i hi hnone
      have hsel : Selected s scoreThreshold iouThreshold i := by
        refine ⟨by rw [hnone]; rfl, ?_⟩
        rintro ⟨j, -, -, -, hrank⟩
        simp [Sample.outranks, hnone, Num.lt, Num.eq] at hrank
      have hle := h.above i hi ((maskOf_eq_one hi).2 hsel)
      rw [hnone] at hle
      cases scoreThreshold <;> cases hle
    refine ⟨hscores, fun hpos hnone => ?_, fun i hi j hj hij hover hscore harea hle => ?_⟩
    · -- nor is one that none outranks
      obtain ⟨i, hi, htop⟩ := exists_top hscores hpos
      have hsel : Selected s scoreThreshold iouThreshold i := by
        refine ⟨by rw [hnone]; cases s.score i <;> rfl, ?_⟩
        rintro ⟨j, hj, -, -, hrank⟩
        rw [htop j hj] at hrank
        cases hrank
      have hle := h.above i hi ((maskOf_eq_one hi).2 hsel)
      rw [hnone] at hle
      cases hle
    · by_contra hnot
      obtain ⟨hni, hnj⟩ := not_or.1 hnot
      have hapart := h.apart i hi j hj hij ((maskOf_eq_one hi).2 ⟨lt_of_le hle, hni⟩)
        ((maskOf_eq_one hj).2 ⟨lt_of_le (hscore ▸ hle), hnj⟩)
      rw [hover] at hapart
      cases hapart
  · intro h
    refine ⟨fun i hi j hj hij hmi hmj => ?_, fun i hi hmi => ?_, fun i hi hmi => ?_⟩
    · obtain ⟨hlti, hni⟩ := (maskOf_eq_one hi).1 hmi
      obtain ⟨hltj, hnj⟩ := (maskOf_eq_one hj).1 hmj
      by_contra hover
      rw [Bool.not_eq_false] at hover
      have hji : s.outranks j i = false := by
        by_contra hrank
        exact hni ⟨j, hj, hij, hover, by simpa using hrank⟩
      have hij' : s.outranks i j = false := by
        by_contra hrank
        exact hnj ⟨i, hi, hij.symm, (overlaps_comm j i).trans hover, by simpa using hrank⟩
      obtain ⟨hscore, harea⟩ := (not_outranks_iff (h.scores i hi) (h.scores j hj)).1 ⟨hij', hji⟩
      have hle := le_of_not_lt (h.scores i hi) (h.threshold (by omega)) hlti
      rcases h.ties i hi j hj hij hover hscore harea hle with hd | hd
      · exact hni hd
      · exact hnj hd
    · exact le_of_not_lt (h.scores i hi) (h.threshold (by omega)) ((maskOf_eq_one hi).1 hmi).1
    · rw [ne_eq, maskOf_eq_one hi] at hmi
      by_cases hlt : (s.score i).lt scoreThreshold = true
      · exact .inl hlt
      · refine .inr (by_contra fun hd => hmi ⟨by simpa using hlt, hd⟩)

/-- The boxes that a call marks are apart exactly when ties are settled by other boxes. -/
theorem selected_iff {inData outData scoreData : TensorInfo} {samples : List (Sample S)}
    {masks : List (List (BitVec 8))}
    (h : submit inData outData scoreData samples scoreThreshold iouThreshold = .ok masks)
    {k : Nat} {mask : List (BitVec 8)} (hs : samples[k]? = some s) (hm : masks[k]? = some mask) :
    Suppressed s scoreThreshold iouThreshold mask ↔ Separable s scoreThreshold iouThreshold := by
  unfold submit at h
  split at h
  · cases h
  · cases h
    rw [List.getElem?_map, hs] at hm
    cases hm
    exact suppressed_iff

/-! ## Two boxes -/

def boxTensor : TensorInfo := ⟨.s16x4, [1, 2]⟩

def maskTensor : TensorInfo := ⟨.u8, [1, 2]⟩

def scoreTensor : TensorInfo := ⟨.f32, [1, 2]⟩

/-- Two boxes of 10 by 10 in one place. -/
def twoBoxes (score1 score2 : ℚ) : Sample ℚ where
  bboxes := [⟨0, 0, 10, 10⟩, ⟨0, 0, 10, 10⟩]
  scores := [some score1, some score2]
  length_eq := rfl

theorem twoBoxes_submit (score1 score2 : ℚ) : submit boxTensor maskTensor scoreTensor
    [twoBoxes score1 score2] (some 0) (some (1 / 2)) =
      .ok [maskOf (twoBoxes score1 score2) (some 0) (some (1 / 2))] := by
  have hcheck : check boxTensor maskTensor scoreTensor (some (1 / 2)) = none := by decide +kernel
  unfold submit
  rw [hcheck]
  rfl

/-- With different scores one is left. -/
theorem unequal_twins : Suppressed (twoBoxes 1 2) (some 0) (some (1 / 2))
    (maskOf (twoBoxes 1 2) (some 0) (some (1 / 2))) := by
  refine (selected_iff (twoBoxes_submit 1 2) (k := 0) rfl rfl).2 ⟨?_, ?_, ?_⟩
  · decide +kernel
  · decide
  · -- the scores differ
    intro i hi j hj hij _ hscore
    have hlen : (twoBoxes 1 2).bboxes.length = 2 := rfl
    rcases (by omega : i = 0 ∧ j = 1 ∨ i = 1 ∧ j = 0) with ⟨rfl, rfl⟩ | ⟨rfl, rfl⟩
    · exact absurd hscore (by decide +kernel)
    · exact absurd hscore (by decide +kernel)

/-- With the same score both are. -/
theorem twins : ¬∀ (s : Sample ℚ) (scoreThreshold : Num ℚ) (iouThreshold : Num ℚ)
    (inData outData scoreData : TensorInfo) (masks : List (List (BitVec 8))),
    submit inData outData scoreData [s] scoreThreshold iouThreshold = .ok masks →
    ∃ mask, masks = [mask] ∧ Suppressed s scoreThreshold iouThreshold mask := by
  intro h
  obtain ⟨mask, hmask, hsup⟩ := h _ _ _ _ _ _ _ (twoBoxes_submit 1 1)
  cases hmask
  have hties := (suppressed_iff.1 hsup).ties 0 (by decide) 1 (by decide) (by decide)
    (by decide +kernel) rfl rfl (by decide +kernel)
  rcases hties with hd | hd
  · exact absurd hd (by decide +kernel)
  · exact absurd hd (by decide +kernel)

end Cvcuda.NonMaximumSuppression
