import CvCuda.Cvcuda.HistogramEq

/-! # Histogram equalisation from one call to the next

The kernels add to the histogram what they count, and leave the distribution there. The tensor path
clears its histogram first. The other path never does.

* `launches_out`: what is written, over any histogram.
* `infer_single`: the tensor path for one image.
* `run_agrees`: the two paths agree as long as every call finds its bins empty.
* `second_call_wrong`: the second call need not.
-/

namespace Cvcuda

open Kernel FloatRound

/-- A grid that `divUp` makes covers what it should, up to where `float` is exact. -/
theorem le_divUp_mul {a b : Nat} (ha : a ≤ 2 ^ 24) (hb : 0 < b) (hb24 : b ≤ 2 ^ 24) :
    a ≤ divUp a b * b := by
  have hbq : (0 : ℚ) < b := by exact_mod_cast hb
  unfold divUp
  rw [rn_natCast (by norm_num) ha, rn_natCast (by norm_num) hb24,
    ceil_rn_div (by norm_num) ha hb]
  have hle : (a / b : ℚ) ≤ (⌈(a / b : ℚ)⌉.toNat : ℚ) := by
    refine (Int.le_ceil _).trans ?_
    exact_mod_cast Int.self_le_toNat _
  rw [div_le_iff₀ hbq] at hle
  exact_mod_cast hle

theorem divUp_pos {a b : Nat} (ha : 0 < a) (hb : 0 < b) : 0 < divUp a b := by
  have hpos : ∀ n : Nat, 0 < n → 0 < rn 24 (n : ℚ) := fun n hn =>
    rn_pos (by norm_num) (by exact_mod_cast hn)
  have hceil := Int.ceil_pos.2 (rn_pos (p := 24) (by norm_num) (div_pos (hpos a ha) (hpos b hb)))
  unfold divUp
  omega

theorem divUp_zero (b : Nat) : divUp 0 b = 0 := by
  unfold divUp
  rw [Nat.cast_zero, rn_zero, zero_div, rn_zero, Int.ceil_zero]
  rfl

/-- Smaller blocks cover no more. -/
theorem divUp_mul_le (a : Nat) {b k : Nat} (h : b * 2 ^ k ≤ 2 ^ 24) :
    divUp a b * b ≤ divUp a (b * 2 ^ k) * (b * 2 ^ k) := by
  have hb : b ≤ 2 ^ 24 := (Nat.le_mul_of_pos_right b (by positivity)).trans h
  unfold divUp
  rw [rn_natCast (by norm_num) hb, rn_natCast (by norm_num) h]
  have hquot : rn 24 (a : ℚ) / b = 2 ^ k * (rn 24 a / (b * 2 ^ k : Nat)) := by
    push_cast
    field_simp
  rw [hquot, rn_two_pow_mul]
  generalize rn 24 (rn 24 (a : ℚ) / (b * 2 ^ k : Nat)) = z
  have hz : ⌈2 ^ k * z⌉.toNat ≤ 2 ^ k * ⌈z⌉.toNat := by
    rw [Int.toNat_le]
    refine Int.ceil_le.2 ?_
    push_cast
    refine mul_le_mul_of_nonneg_left ?_ (by positivity)
    exact (Int.le_ceil z).trans (by exact_mod_cast Int.self_le_toNat ⌈z⌉)
  calc ⌈2 ^ k * z⌉.toNat * b ≤ 2 ^ k * ⌈z⌉.toNat * b := Nat.mul_le_mul_right b hz
    _ = ⌈z⌉.toNat * (b * 2 ^ k) := by ring

/-- A grid that `divUp` makes covers no more than the power of two that its size is below. -/
theorem divUp_two_pow_mul_le {a e k : Nat} (ha : a < 2 ^ (e + k)) (hk : k ≤ 24) :
    divUp a (2 ^ k) * 2 ^ k ≤ 2 ^ (e + k) := by
  have hpow : rn 24 ((2 : ℚ) ^ e) = 2 ^ e := by
    have hone : rn 24 (1 : ℚ) = 1 := by
      exact_mod_cast rn_natCast (p := 24) (a := 1) (by norm_num) (by norm_num)
    simpa [hone] using rn_two_pow_mul 24 e 1
  rcases Nat.eq_zero_or_pos a with rfl | hpos
  · rw [divUp_zero, Nat.zero_mul]
    exact Nat.zero_le _
  · have hq : (0 : ℚ) < a := by exact_mod_cast hpos
    have hround : rn 24 (a : ℚ) ≤ 2 ^ (e + k) := by
      have := rn_le_zpow (p := 24) hq (e := (e + k : Nat)) (by rw [zpow_natCast]; exact_mod_cast ha)
      rwa [zpow_natCast] at this
    have hquot : rn 24 (rn 24 (a : ℚ) / rn 24 ((2 ^ k : Nat) : ℚ)) ≤ 2 ^ e := by
      rw [rn_natCast (by norm_num) (Nat.pow_le_pow_right two_pos hk)]
      push_cast
      have hle : rn 24 (a : ℚ) / 2 ^ k ≤ 2 ^ e := by
        rw [div_le_iff₀ (by positivity), ← pow_add]
        exact hround
      rcases hle.eq_or_lt with heq | hlt
      · rw [heq, hpow]
      · have hpos' : 0 < rn 24 (a : ℚ) / 2 ^ k :=
          div_pos (rn_pos (by norm_num) hq) (by positivity)
        have := rn_le_zpow (p := 24) hpos' (e := (e : Nat)) (by rw [zpow_natCast]; exact hlt)
        rwa [zpow_natCast] at this
    rw [pow_add]
    refine Nat.mul_le_mul_right _ ?_
    unfold divUp
    rw [Int.toNat_le]
    refine Int.ceil_le.2 ?_
    push_cast at hquot ⊢
    exact hquot

/-- The first size that `float` rounds down. -/
theorem divUp_16777217_16 : divUp 16777217 16 = 1048576 := by
  have hround : rn 24 16777217 = 16777216 := by
    rw [rn_of_log 24 (by norm_num) (by norm_num)]
    norm_num [roundEven]
  have h16 : rn 24 ((16 : Nat) : ℚ) = (16 : Nat) := rn_natCast (by norm_num) (by norm_num)
  have hquot : rn 24 ((1048576 : Nat) : ℚ) = (1048576 : Nat) :=
    rn_natCast (by norm_num) (by norm_num)
  have hdiv : (16777216 : ℚ) / (16 : Nat) = (1048576 : Nat) := by norm_num
  unfold divUp
  rw [h16, show ((16777217 : Nat) : ℚ) = 16777217 by norm_num, hround, hdiv, hquot,
    Int.ceil_natCast, Int.toNat_natCast]

namespace HistogramEq

open BoxBlur (ErrorCode DataFormat)

/-! ## Counting -/

/-- What a thread adds to a bin. -/
def pixelCount (src : Pixels) (size : Size2D) (channels i : Nat) (t : Nat × Nat) : ℤ :=
  if t.1 < size.1 ∧ t.2 < size.2 then
    ((List.range channels).map fun ch =>
      if i = (src (t.1, t.2, ch)).toNat + 256 * ch then 1 else 0).sum
  else 0

theorem pixelCount_nonneg (src : Pixels) (size : Size2D) (channels i : Nat) (t : Nat × Nat) :
    0 ≤ pixelCount src size channels i t := by
  unfold pixelCount
  split
  · refine List.sum_nonneg fun x hx => ?_
    obtain ⟨ch, -, rfl⟩ := List.mem_map.1 hx
    split <;> norm_num
  · exact le_rfl

theorem sharedHist_eq (src : Pixels) (size : Size2D) (channels : Nat) (threads : List (Nat × Nat))
    (i : Nat) :
    sharedHist src size channels threads i =
      (threads.map (pixelCount src size channels i)).sum := by
  have hthread : ∀ t : Nat × Nat, Adds (fun m : Nat → ℤ =>
      if t.1 < size.1 ∧ t.2 < size.2 then
        (List.range channels).foldl (fun shist ch =>
          atomicAdd shist ((src (t.1, t.2, ch)).toNat + 256 * ch) 1) m
      else m) fun i => pixelCount src size channels i t :=
    fun t => Adds.ite (Adds.foldl (fun ch => adds_atomicAdd _ 1) _) adds_id
  exact (Adds.foldl hthread threads _ i).trans (zero_add _)

theorem sharedHist_nonneg (src : Pixels) (size : Size2D) (channels : Nat)
    (threads : List (Nat × Nat)) (i : Nat) : 0 ≤ sharedHist src size channels threads i := by
  rw [sharedHist_eq]
  refine List.sum_nonneg fun x hx => ?_
  obtain ⟨t, -, rfl⟩ := List.mem_map.1 hx
  exact pixelCount_nonneg ..

/-- A block adds its counts to the bins of its image. -/
theorem adds_histBlock (src : Pixels) (size : Size2D) (channels row : Nat)
    (threads : List (Nat × Nat)) :
    Adds (histBlock src size channels row threads) fun a =>
      if row ≤ a ∧ a < row + 256 * channels then sharedHist src size channels threads (a - row)
      else 0 := by
  intro m a
  have h : Adds (histBlock src size channels row threads) _ :=
    Adds.foldl (fun localId => Adds.ite (adds_atomicAdd (row + localId)
      (sharedHist src size channels threads localId)) adds_id) _
  rw [h m a, sum_map_range]
  congr 1
  have hterm : ∀ i ∈ Finset.range (256 * channels),
      (if 0 < sharedHist src size channels threads i then
        if a = row + i then sharedHist src size channels threads i else 0 else 0) =
      if i = a - row then
        if row ≤ a then sharedHist src size channels threads (a - row) else 0 else 0 := by
    intro i _
    have hnn := sharedHist_nonneg src size channels threads i
    by_cases hi : a = row + i
    · subst hi
      rw [Nat.add_sub_cancel_left]
      simp only [if_true, Nat.le_add_right]
      split_ifs <;> omega
    · rw [if_neg hi, ite_self]
      split_ifs <;> omega
  rw [Finset.sum_congr rfl hterm, Finset.sum_ite_eq']
  simp only [Finset.mem_range]
  split_ifs <;> first | rfl | omega

/-- The extent of a grid for images of a size. -/
def extent (maxSize bs : Nat × Nat) : Nat × Nat :=
  (divUp maxSize.1 bs.1 * bs.1, divUp maxSize.2 bs.2 * bs.2)

/-- What the pixels of an image below an extent come to in a bin. -/
def hist (ext : Nat × Nat) (src : Pixels) (size : Size2D) (channels i : Nat) : ℤ :=
  ∑ y ∈ Finset.range ext.2, ∑ x ∈ Finset.range ext.1, pixelCount src size channels i (x, y)

theorem le_of_mul_lt_add {z z' n a : Nat} (h : z * n ≤ a) (h' : a < z' * n + n) : z ≤ z' := by
  have hlt : z * n < (z' + 1) * n := by
    rw [Nat.add_mul, Nat.one_mul]
    omega
  exact Nat.lt_succ_iff.1 (Nat.lt_of_mul_lt_mul_right hlt)

theorem histoRow_inj {channels z z' a : Nat} (h : histoRow channels z ≤ a)
    (h' : a < histoRow channels z + 256 * channels) (hz : histoRow channels z' ≤ a)
    (hz' : a < histoRow channels z' + 256 * channels) : z = z' :=
  le_antisymm (le_of_mul_lt_add h hz') (le_of_mul_lt_add hz h')

theorem histKernel_apply (maxSize : Size2D) (src : List Pixels) (size : Nat → Size2D)
    {channels z i : Nat} (hz : z < src.length) (hi : i < 256 * channels) (m : Nat → ℤ) :
    histKernel maxSize src size channels m (histoRow channels z + i) =
      m (histoRow channels z + i) +
        hist (extent maxSize (histBlockSize channels)) (src.getD z blank) (size z) channels i := by
  have h : Adds (histKernel maxSize src size channels) _ := Adds.foldl (fun z =>
    Adds.foldl (fun threads => adds_histBlock (src.getD z blank) (size z) channels
      (histoRow channels z) threads) _) _
  rw [h m, sum_map_range]
  congr 1
  rw [Finset.sum_eq_single_of_mem z (Finset.mem_range.2 hz)]
  · have hin : histoRow channels z ≤ histoRow channels z + i ∧
        histoRow channels z + i < histoRow channels z + 256 * channels := by omega
    simp only [if_pos hin, Nat.add_sub_cancel_left, sharedHist_eq]
    exact sum_blocks ..
  · -- the bins of other images
    intro z' _ hne
    have hout : ¬(histoRow channels z' ≤ histoRow channels z + i ∧
        histoRow channels z + i < histoRow channels z' + 256 * channels) := fun hin =>
      hne (histoRow_inj hin.1 hin.2 (Nat.le_add_right ..) (by omega))
    simp only [if_neg hout, List.map_const', List.sum_replicate, smul_zero]

/-! ## The distribution -/

/-- The bins of a channel of an image. -/
def OwnBins (channels : Nat) (b : Nat × Nat) (a : Nat) : Prop :=
  histoRow channels b.1 + 256 * b.2 ≤ a ∧ a < histoRow channels b.1 + 256 * b.2 + 256

theorem prefixBlock_own {base a : Nat} (ha : base ≤ a ∧ a < base + 256) (total : ℤ) (m : Nat → ℤ) :
    prefixBlock total base m a =
      normalizedCdf total (fun tid => if tid < 256 then m (base + tid) else 0) (a - base) :=
  if_pos ha

theorem confined_prefixBlock (size : Nat → Size2D) (batch channels : Nat) :
    Confined (fun b => prefixBlock ((size b.1).1 * (size b.1).2)
        (histoRow channels b.1 + 256 * b.2)) (OwnBins channels)
      ((List.range batch).product (List.range channels)) where
  frame := fun b _ m a ha => if_neg ha
  reads := by
    intro b _ m m' heq a ha
    have hbins : (fun tid => if tid < 256 then m (histoRow channels b.1 + 256 * b.2 + tid) else 0) =
        fun tid => if tid < 256 then m' (histoRow channels b.1 + 256 * b.2 + tid) else 0 := by
      funext tid
      split
      · exact heq _ ⟨Nat.le_add_right .., by omega⟩
      · rfl
    rw [prefixBlock_own ha, prefixBlock_own ha, hbins]
  disjoint := by
    intro b hb b' hb' a ha ha'
    have hc := List.mem_range.1 (List.pair_mem_product.1 hb).2
    have hc' := List.mem_range.1 (List.pair_mem_product.1 hb').2
    obtain ⟨h, h1⟩ := ha
    obtain ⟨h', h1'⟩ := ha'
    have hup : a < histoRow channels b.1 + 256 * channels := by omega
    have hup' : a < histoRow channels b'.1 + 256 * channels := by omega
    have hz : b.1 = b'.1 := histoRow_inj (by omega) hup (by omega) hup'
    rw [hz] at h h1
    exact Prod.ext hz (by omega)

theorem prefixKernel_apply (size : Nat → Size2D) {batch channels z ch v : Nat} (hz : z < batch)
    (hc : ch < channels) (hv : v < 256) (m : Nat → ℤ) :
    prefixSumWithNormKernel size batch channels m (histoRow channels z + (v + 256 * ch)) =
      normalizedCdf ((size z).1 * (size z).2)
        (fun tid => if tid < 256 then m (histoRow channels z + (tid + 256 * ch)) else 0) v := by
  have hmem : (z, ch) ∈ (List.range batch).product (List.range channels) :=
    List.pair_mem_product.2 ⟨List.mem_range.2 hz, List.mem_range.2 hc⟩
  have hown : OwnBins channels (z, ch) (histoRow channels z + (v + 256 * ch)) :=
    ⟨by dsimp only; omega, by dsimp only; omega⟩
  have hnodup := List.Nodup.product (List.nodup_range (n := batch)) (List.nodup_range (n := channels))
  refine ((confined_prefixBlock size batch channels).foldl_own hnodup hmem hown m).trans ?_
  have hsub : histoRow channels z + (v + 256 * ch) - (histoRow channels z + 256 * ch) = v := by
    omega
  have hadd : ∀ tid, histoRow channels z + 256 * ch + tid = histoRow channels z + (tid + 256 * ch) :=
    fun tid => by omega
  rw [prefixBlock_own hown, hsub]
  simp only [hadd]

/-! ## The output -/

/-- The pixels that a launch of `lookup` comes to. -/
def Looked (ext : Nat × Nat) (size : Size2D) (channels : Nat) (k : Nat × Nat × Nat) : Prop :=
  k.1 < ext.1 ∧ k.2.1 < ext.2 ∧ k.1 < size.1 ∧ k.2.1 < size.2 ∧ k.2.2 < channels

instance (ext : Nat × Nat) (size : Size2D) (channels : Nat) :
    DecidablePred (Looked ext size channels) :=
  fun _ => inferInstanceAs (Decidable (_ ∧ _))

theorem writes_update (k : Nat × Nat × Nat) (value : Pixels) :
    Writes (fun dst : Pixels => Function.update dst k (value k)) (· = k) value := by
  intro dst i
  constructor
  · rintro rfl
    exact Function.update_self ..
  · intro hne
    exact Function.update_of_ne hne ..

theorem lookup_apply (maxSize : Size2D) (src : Pixels) (size : Size2D) (channels : Nat)
    (temp : Nat → ℤ) (dst : Pixels) (k : Nat × Nat × Nat) :
    lookup maxSize src size channels temp dst k =
      if Looked (extent maxSize (32, 32)) size channels k then
        saturateCastUchar (temp ((src k).toNat + 256 * k.2.2))
      else dst k := by
  have hthread : ∀ t : Nat × Nat, Writes (fun dst : Pixels =>
      if t.1 < size.1 ∧ t.2 < size.2 then
        (List.range channels).foldl (fun dst ch => Function.update dst (t.1, t.2, ch)
          (saturateCastUchar (temp ((src (t.1, t.2, ch)).toNat + 256 * ch)))) dst
      else dst) (fun k => (t.1 < size.1 ∧ t.2 < size.2) ∧
        ∃ ch ∈ List.range channels, k = (t.1, t.2, ch))
      fun k => saturateCastUchar (temp ((src k).toNat + 256 * k.2.2)) := by
    intro t d i
    have h := Writes.foldl (fun ch => writes_update (t.1, t.2, ch)
      fun k => saturateCastUchar (temp ((src k).toNat + 256 * k.2.2))) (List.range channels) d i
    by_cases ht : t.1 < size.1 ∧ t.2 < size.2
    · simp only [if_pos ht]
      exact ⟨fun hex => h.1 hex.2, fun hnot => h.2 fun hex => hnot ⟨ht, hex⟩⟩
    · simp only [if_neg ht]
      exact ⟨fun hex => absurd hex.1 ht, fun _ => trivial⟩
  have hall := Writes.foldl (fun threads => Writes.foldl hthread threads)
    (blocks (divUp maxSize.1 32) (divUp maxSize.2 32) 32 32) dst k
  by_cases hk : Looked (extent maxSize (32, 32)) size channels k
  · rw [if_pos hk]
    obtain ⟨hx, hy, hw, hh, hch⟩ := hk
    obtain ⟨threads, hb, ht⟩ := mem_blocks hx hy
    exact hall.1 ⟨threads, hb, (k.1, k.2.1), ht, ⟨hw, hh⟩, k.2.2, List.mem_range.2 hch, rfl⟩
  · rw [if_neg hk]
    refine hall.2 ?_
    rintro ⟨threads, hb, t, ht, ⟨hw, hh⟩, ch, hch, rfl⟩
    obtain ⟨hx, hy⟩ := lt_of_mem_blocks hb ht
    exact hk ⟨hx, hy, hw, hh, List.mem_range.1 hch⟩

/-- The bins of a channel, over what they held before. -/
def channelHist (before : Nat → ℤ) (ext : Nat × Nat) (src : Pixels) (size : Size2D)
    (channels ch : Nat) : Nat → ℤ := fun tid =>
  if tid < 256 then before (tid + 256 * ch) + hist ext src size channels (tid + 256 * ch) else 0

theorem launches_histo (maxSize : Size2D) (srcSize dstSize : Nat → Size2D) {channels : Nat}
    (src dst : List Pixels) (histogram : Nat → ℤ) {z ch v : Nat} (hz : z < src.length)
    (hc : ch < channels) (hv : v < 256) :
    (launches maxSize srcSize dstSize channels src dst histogram).1
        (histoRow channels z + (v + 256 * ch)) =
      normalizedCdf ((dstSize z).1 * (dstSize z).2)
        (channelHist (fun i => histogram (histoRow channels z + i))
          (extent maxSize (histBlockSize channels)) (src.getD z blank) (srcSize z) channels ch) v := by
  refine (prefixKernel_apply dstSize hz hc hv _).trans ?_
  congr 1
  funext tid
  unfold channelHist
  by_cases ht : tid < 256
  · rw [if_pos ht, if_pos ht, histKernel_apply maxSize src srcSize hz (by omega)]
  · rw [if_neg ht, if_neg ht]

/-- The equalised image, over what is there before. -/
def equalized (before : Nat → ℤ) (histExt lookExt : Nat × Nat) (src : Pixels)
    (srcSize dstSize : Size2D) (channels : Nat) (dst : Pixels) : Pixels := fun k =>
  if Looked lookExt dstSize channels k then
    saturateCastUchar (normalizedCdf (dstSize.1 * dstSize.2)
      (channelHist before histExt src srcSize channels k.2.2) (src k).toNat)
  else dst k

theorem launches_out (maxSize : Size2D) (srcSize dstSize : Nat → Size2D) (channels : Nat)
    (src dst : List Pixels) (histogram : Nat → ℤ) {z : Nat} (hz : z < src.length) :
    (launches maxSize srcSize dstSize channels src dst histogram).2[z]? =
      some (equalized (fun i => histogram (histoRow channels z + i))
        (extent maxSize (histBlockSize channels)) (extent maxSize (32, 32)) (src.getD z blank)
        (srcSize z) (dstSize z) channels (dst.getD z blank)) := by
  have hget : (List.range src.length)[z]? = some z := List.getElem?_range hz
  simp only [launches, List.getElem?_map, hget, Option.map_some, Option.some.injEq]
  funext k
  rw [lookup_apply]
  unfold equalized
  by_cases hk : Looked (extent maxSize (32, 32)) (dstSize z) channels k
  · rw [if_pos hk, if_pos hk]
    exact congrArg saturateCastUchar (launches_histo maxSize srcSize dstSize src dst histogram hz
      hk.2.2.2.2 (src.getD z blank k).isLt)
  · rw [if_neg hk, if_neg hk]

/-- Only the bins of the image itself matter, and not where they are empty. -/
theorem equalized_of_clear {before : Nat → ℤ} {channels : Nat}
    (hclear : ∀ i < 256 * channels, before i = 0) (histExt lookExt : Nat × Nat) (src : Pixels)
    (srcSize dstSize : Size2D) (dst : Pixels) :
    equalized before histExt lookExt src srcSize dstSize channels dst =
      equalized 0 histExt lookExt src srcSize dstSize channels dst := by
  funext k
  unfold equalized
  by_cases hk : Looked lookExt dstSize channels k
  · rw [if_pos hk, if_pos hk]
    congr 2
    funext tid
    have hch : k.2.2 < channels := hk.2.2.2.2
    unfold channelHist
    by_cases ht : tid < 256
    · rw [if_pos ht, if_pos ht, hclear _ (by omega)]
      rfl
    · rw [if_neg ht, if_neg ht]
  · rw [if_neg hk, if_neg hk]

theorem launches_length (maxSize : Size2D) (srcSize dstSize : Nat → Size2D) (channels : Nat)
    (src dst : List Pixels) (histogram : Nat → ℤ) :
    (launches maxSize srcSize dstSize channels src dst histogram).2.length = src.length := by
  simp only [launches, List.length_map, List.length_range]

/-! ## Extents -/

/-- Two extents are the same as far as an image goes. -/
def SameCover (ext ext' : Nat × Nat) (size : Size2D) : Prop :=
  min ext.1 size.1 = min ext'.1 size.1 ∧ min ext.2 size.2 = min ext'.2 size.2

instance (ext ext' : Nat × Nat) (size : Size2D) : Decidable (SameCover ext ext' size) :=
  inferInstanceAs (Decidable (_ ∧ _))

theorem SameCover.hist {ext ext' : Nat × Nat} {size : Size2D} (h : SameCover ext ext' size)
    (src : Pixels) (channels i : Nat) :
    hist ext src size channels i = hist ext' src size channels i := by
  have hmin : ∀ e : Nat × Nat, HistogramEq.hist e src size channels i =
      HistogramEq.hist (min e.1 size.1, min e.2 size.2) src size channels i := by
    intro e
    unfold HistogramEq.hist
    have hsub : ∀ m n : Nat, Finset.range (min m n) ⊆ Finset.range m := fun m n =>
      Finset.range_subset_range.2 (min_le_left m n)
    rw [← Finset.sum_subset (hsub e.2 size.2)]
    · refine Finset.sum_congr rfl fun y _ => (Finset.sum_subset (hsub e.1 size.1) ?_).symm
      intro x hx hx'
      rw [Finset.mem_range] at hx hx'
      exact if_neg fun hin => hx' (lt_min hx hin.1)
    · intro y hy hy'
      rw [Finset.mem_range] at hy hy'
      exact Finset.sum_eq_zero fun x _ => if_neg fun hin => hy' (lt_min hy hin.2)
  rw [hmin ext, hmin ext', h.1, h.2]

theorem SameCover.looked {ext ext' : Nat × Nat} {size : Size2D} (h : SameCover ext ext' size)
    (channels : Nat) (k : Nat × Nat × Nat) :
    Looked ext size channels k ↔ Looked ext' size channels k := by
  obtain ⟨h1, h2⟩ := h
  unfold Looked
  omega

theorem SameCover.equalized {histExt histExt' lookExt lookExt' : Nat × Nat} {size : Size2D}
    (hh : SameCover histExt histExt' size) (hl : SameCover lookExt lookExt' size)
    (before : Nat → ℤ) (src : Pixels) (channels : Nat) (dst : Pixels) :
    equalized before histExt lookExt src size size channels dst =
      equalized before histExt' lookExt' src size size channels dst := by
  funext k
  have hbins : channelHist before histExt src size channels k.2.2 =
      channelHist before histExt' src size channels k.2.2 := by
    funext tid
    simp only [channelHist, hh.hist]
  simp only [HistogramEq.equalized, hbins, hl.looked]

/-- Where `float` is exact, the grid for the largest image does for each image what its own does. -/
theorem sameCover_extent {maxSize size bs : Nat × Nat} (h1 : size.1 ≤ maxSize.1)
    (h2 : size.2 ≤ maxSize.2) (hm1 : maxSize.1 ≤ 2 ^ 24) (hm2 : maxSize.2 ≤ 2 ^ 24)
    (hb1 : 0 < bs.1 ∧ bs.1 ≤ 2 ^ 24) (hb2 : 0 < bs.2 ∧ bs.2 ≤ 2 ^ 24) :
    SameCover (extent maxSize bs) (extent size bs) size := by
  have hmax1 := le_divUp_mul hm1 hb1.1 hb1.2
  have hmax2 := le_divUp_mul hm2 hb2.1 hb2.2
  have hsize1 := le_divUp_mul (h1.trans hm1) hb1.1 hb1.2
  have hsize2 := le_divUp_mul (h2.trans hm2) hb2.1 hb2.2
  unfold SameCover extent
  dsimp only
  omega

/-! ## Calls -/

theorem check_cases (inData outData : Tensor) :
    (∃ code, check inData outData = some code ∧ code ≠ .success) ∨
      check inData outData = none ∧ inData.numChannels ≤ 4 := by
  unfold check
  split_ifs
  all_goals first
    | exact .inl ⟨_, rfl, by decide⟩
    | exact .inr ⟨rfl, by omega⟩

/-- What the tensor path makes of an image alone, whatever the histogram holds. -/
theorem infer_single {maxBatchSize : Nat} (hmax : 1 ≤ maxBatchSize) (histoArray : Nat → ℤ)
    {inData outData : Tensor} {src dst : Pixels} (hin : inData.samples = [src])
    (hout : outData.samples = [dst])
    (h : (infer maxBatchSize inData outData histoArray).code = .success) :
    (infer maxBatchSize inData outData histoArray).out =
      [equalized 0 (extent inData.size (histBlockSize inData.numChannels))
        (extent inData.size (32, 32)) src inData.size inData.size inData.numChannels dst] := by
  unfold infer at h ⊢
  rcases check_cases inData outData with ⟨code, hcode, hne⟩ | ⟨hnone, hch⟩
  · rw [hcode] at h
    exact absurd h hne
  rw [hnone] at h ⊢
  dsimp only at h ⊢
  split at h
  · rename_i hstride
    rw [if_pos hstride]
    refine List.ext_getElem? fun z => ?_
    simp only [inferHistogram, hin, hout]
    rcases z with _ | z
    · rw [launches_out _ _ _ _ _ _ _ Nat.one_pos]
      simp only [List.getD_cons_zero, List.getElem?_cons_zero]
      rw [equalized_of_clear]
      intro i hi
      have hrow : histoRow inData.numChannels 0 = 0 := Nat.zero_mul _
      rw [hrow, Nat.zero_add, if_pos (by omega)]
    · rw [List.getElem?_cons_succ, List.getElem?_nil, List.getElem?_eq_none]
      rw [launches_length]
      exact Nat.le_add_left ..
  · cases h

/-- The image after is what the tensor path makes of the image alone. -/
def Alone (channels : Nat) (img : Image) (before after : Pixels) : Prop :=
  ∀ (maxBatchSize : Nat) (histoArray : Nat → ℤ) (inData outData : Tensor), 1 ≤ maxBatchSize →
    inData.samples = [img.pixels] → inData.size = img.size → inData.numChannels = channels →
    outData.samples = [before] →
    (infer maxBatchSize inData outData histoArray).code = .success →
    (infer maxBatchSize inData outData histoArray).out = [after]

/-- Not more images than the operator takes, and output images of the same sizes. -/
def Call.Valid (maxBatchSize : Nat) : Call → Prop
  | .tensor inData _ => inData.samples.length ≤ maxBatchSize
  | .varShape inData outData => inData.images.length ≤ maxBatchSize ∧
      inData.images.map Image.size = outData.images.map Image.size

/-- A call that succeeds writes each image as the tensor path does. -/
def Call.Agrees : Call → Result → Prop
  | .tensor _ _, _ => True
  | .varShape inData outData, r => r.code = .success →
      ∀ f, inData.uniqueFormat = some f → ∀ (z : Nat) (img dst : Image), inData.images[z]? = some img →
        outData.images[z]? = some dst →
        ∃ after, r.out[z]? = some after ∧ Alone f.numChannels img dst.pixels after

/-- A call for images of various sizes finds the bins that it uses empty, and its grids cover each
image as far as the grids for the image alone. -/
def Call.Clear (s : State) : Call → Prop
  | .tensor _ _ => True
  | .varShape inData _ => ∀ f, inData.uniqueFormat = some f →
      (∀ a < inData.images.length * (256 * f.numChannels), s.legacyOpVarShape a = 0) ∧
      ∀ img ∈ inData.images,
        SameCover (extent inData.maxSize (histBlockSize f.numChannels))
          (extent img.size (histBlockSize f.numChannels)) img.size ∧
        SameCover (extent inData.maxSize (32, 32)) (extent img.size (32, 32)) img.size

/-- Each call in turn is clear. -/
def Clear : State → List Call → Prop
  | _, [] => True
  | s, c :: cs => c.Clear s ∧ Clear (s.call c).1 cs

theorem size_of_images {inData outData : ImageBatch}
    (h : inData.images.map Image.size = outData.images.map Image.size) (z : Nat) :
    inData.size z = outData.size z := by
  unfold ImageBatch.size
  rw [← List.getElem?_map, ← List.getElem?_map, h]

theorem checkVarShape_ok {inData outData : ImageBatch} {channels : Nat} {f : ImageFormat}
    (h : checkVarShape inData outData = .ok channels) (hf : inData.uniqueFormat = some f) :
    f.numChannels = channels ∧ inData.images.length = outData.images.length := by
  unfold checkVarShape at h
  rw [hf] at h
  split at h
  · cases h
  · cases h
  · rename_i input output hin hout
    cases hin
    split_ifs at h with h1 h2 h3 h4 h5 h6
    exact ⟨by simpa using h, by simpa using h6⟩

theorem checkVarShape_error {inData outData : ImageBatch} {code : ErrorCode}
    (h : checkVarShape inData outData = .error code) : code ≠ .success := by
  unfold checkVarShape at h
  split at h
  · cases h
    decide
  · cases h
    decide
  · split_ifs at h <;> cases h <;> decide

theorem varShape_agrees (s : State) (inData outData : ImageBatch)
    (hv : (Call.varShape inData outData).Valid s.maxBatchSize)
    (hclear : (Call.varShape inData outData).Clear s) :
    (Call.varShape inData outData).Agrees (inferVarShape inData outData s.legacyOpVarShape) := by
  intro hsuccess f hf z img dst himg hdst
  unfold inferVarShape at hsuccess ⊢
  cases hcheck : checkVarShape inData outData with
  | error code =>
    rw [hcheck] at hsuccess
    exact absurd hsuccess (checkVarShape_error hcheck)
  | ok channels =>
    obtain ⟨rfl, hlen⟩ := checkVarShape_ok hcheck hf
    obtain ⟨hbins, hcover⟩ := hclear f hf
    have hz : z < inData.images.length := (List.getElem?_eq_some_iff.1 himg).1
    have hz' : z < (inData.images.map Image.pixels).length := by rwa [List.length_map]
    refine ⟨_, launches_out _ _ _ _ _ _ _ hz', ?_⟩
    have hsrc : (inData.images.map Image.pixels).getD z blank = img.pixels := by
      rw [List.getD_eq_getElem?_getD, List.getElem?_map, himg]
      rfl
    have hdst' : (outData.images.map Image.pixels).getD z blank = dst.pixels := by
      rw [List.getD_eq_getElem?_getD, List.getElem?_map, hdst]
      rfl
    have hsize : inData.size z = img.size := by
      rw [ImageBatch.size, himg]
      rfl
    rw [hsrc, hdst', ← size_of_images hv.2 z, hsize, equalized_of_clear]
    · obtain ⟨hhist, hlook⟩ := hcover img (List.mem_of_getElem? himg)
      rw [hhist.equalized hlook]
      intro maxBatchSize histoArray tin tout hmax hin hsz hch hout hok
      rw [infer_single hmax histoArray hin hout hok, hsz, hch]
    · intro i hi
      refine hbins _ ?_
      have hle : (z + 1) * (256 * f.numChannels) ≤ inData.images.length * (256 * f.numChannels) :=
        Nat.mul_le_mul_right _ hz
      rw [Nat.add_mul, Nat.one_mul] at hle
      unfold histoRow
      omega

theorem State.call_maxBatchSize (s : State) (c : Call) :
    (s.call c).1.maxBatchSize = s.maxBatchSize := by
  cases c <;> rfl

/-- In a run whose calls each find the bins that they use empty, the outputs are those of the
tensor path. -/
theorem run_agrees (s : State) (cs : List Call) (hv : ∀ c ∈ cs, c.Valid s.maxBatchSize)
    (h : Clear s cs) : List.Forall₂ Call.Agrees cs (s.run cs) := by
  induction cs generalizing s with
  | nil => exact .nil
  | cons c cs ih =>
    obtain ⟨hc, hcs⟩ := h
    refine .cons ?_ (ih _ (fun c' hc' => ?_) hcs)
    · cases c with
      | tensor inData outData => exact True.intro
      | varShape inData outData =>
        exact varShape_agrees s inData outData (hv _ List.mem_cons_self) hc
    · rw [s.call_maxBatchSize]
      exact hv c' (List.mem_cons_of_mem c hc')

/-! ## One pixel after another -/

/-- An image of one pixel of one channel. -/
def onePixel (v : BitVec 8) : ImageBatch := ⟨some ⟨.hwc, .cv8U, 1⟩, [⟨(1, 1), fun _ => v⟩]⟩

def oneTensor (v : BitVec 8) : Tensor := ⟨.hwc, .cv8U, 1, (1, 1), 0, [fun _ => v]⟩

/-- An operator whose memory happens to be 0. -/
def zeroed : State := ⟨1, 0, 0⟩

theorem extent_one (bs : Nat × Nat) (h1 : 0 < bs.1 ∧ bs.1 ≤ 2 ^ 24)
    (h2 : 0 < bs.2 ∧ bs.2 ≤ 2 ^ 24) : 1 ≤ (extent (1, 1) bs).1 ∧ 1 ≤ (extent (1, 1) bs).2 :=
  ⟨le_divUp_mul (by norm_num) h1.1 h1.2, le_divUp_mul (by norm_num) h2.1 h2.2⟩

/-- The first call is as it should be. -/
theorem run_agrees_onePixel : List.Forall₂ Call.Agrees [.varShape (onePixel 7) (onePixel 0)]
    (zeroed.run [.varShape (onePixel 7) (onePixel 0)]) := by
  refine run_agrees zeroed _ ?_ ⟨?_, trivial⟩
  · intro c hc
    rw [List.mem_singleton.1 hc]
    exact ⟨le_rfl, rfl⟩
  · rintro f hf
    cases hf
    refine ⟨fun _ _ => rfl, fun img himg => ?_⟩
    rw [List.mem_singleton.1 himg]
    exact ⟨sameCover_extent le_rfl le_rfl (by decide) (by decide) (by decide) (by decide),
      sameCover_extent le_rfl le_rfl (by decide) (by decide) (by decide) (by decide)⟩

theorem hist_onePixel (v : BitVec 8) (i : Nat) :
    hist (extent (1, 1) (histBlockSize 1)) (fun _ => v) (1, 1) 1 i =
      if i = v.toNat then 1 else 0 := by
  have hcover : SameCover (extent (1, 1) (histBlockSize 1)) (1, 1) (1, 1) := by
    obtain ⟨h1, h2⟩ := extent_one (histBlockSize 1) (by decide) (by decide)
    unfold SameCover
    dsimp only
    omega
  rw [hcover.hist]
  simp [hist, pixelCount]

theorem channelHist_onePixel (before : Nat → ℤ) (v : BitVec 8) :
    channelHist before (extent (1, 1) (histBlockSize 1)) (fun _ => v) (1, 1) 1 0 = fun tid =>
      if tid < 256 then before tid + (if tid = v.toNat then 1 else 0) else 0 := by
  funext tid
  unfold channelHist
  rw [Nat.mul_zero, Nat.add_zero, hist_onePixel]

/-- The bins of an image that seems to have one value. -/
theorem normalizedCdf_uniform (total : ℤ) (temp : Nat → ℤ) (m : Nat)
    (hm : minReduce (fun tid => if temp tid ≠ 0 then tid else 255) = m) (ht : temp m = total) :
    normalizedCdf total temp = fun _ => (m : ℤ) := by
  simp only [normalizedCdf, hm, if_pos ht]

theorem looked_origin : Looked (extent (1, 1) (32, 32)) (1, 1) 1 (0, 0, 0) := by
  obtain ⟨h1, h2⟩ := extent_one (32, 32) (by decide) (by decide)
  exact ⟨h1, h2, Nat.one_pos, Nat.one_pos, Nat.one_pos⟩

/-- What an image of one value is equalised to, over empty bins. -/
theorem equalized_seven : equalized 0 (extent (1, 1) (histBlockSize 1)) (extent (1, 1) (32, 32))
    (fun _ => 7) (1, 1) (1, 1) 1 (fun _ => 0) (0, 0, 0) = 7 := by
  unfold equalized
  rw [if_pos looked_origin, channelHist_onePixel]
  rw [normalizedCdf_uniform _ _ 7 ?_ ?_]
  · decide
  · decide +kernel
  · rfl

/-- And over bins that each hold 1. -/
theorem equalized_seven_over {before : Nat → ℤ} (h : ∀ tid < 256, before tid = 1) :
    equalized before (extent (1, 1) (histBlockSize 1)) (extent (1, 1) (32, 32)) (fun _ => 7) (1, 1)
      (1, 1) 1 (fun _ => 0) (0, 0, 0) = 0 := by
  have hbins : (fun tid => if tid < 256 then
        before tid + (if tid = (7 : BitVec 8).toNat then 1 else 0) else 0) =
      fun tid => if tid < 256 then (1 : ℤ) + (if tid = 7 then 1 else 0) else 0 := by
    funext tid
    by_cases ht : tid < 256
    · rw [if_pos ht, if_pos ht, h tid ht]
      rfl
    · rw [if_neg ht, if_neg ht]
  unfold equalized
  rw [if_pos looked_origin, channelHist_onePixel, hbins]
  rw [normalizedCdf_uniform _ _ 0 ?_ ?_]
  · decide
  · decide +kernel
  · rfl

/-- A pixel of 1 leaves 1 in each bin. -/
theorem bins_after_one {tid : Nat} (h : tid < 256) :
    (zeroed.call (.varShape (onePixel 1) (onePixel 0))).1.legacyOpVarShape (histoRow 1 0 + tid) =
      1 := by
  have hc : 0 < 1 := Nat.one_pos
  refine (launches_histo (1, 1) (onePixel 1).size (onePixel 0).size [fun _ => 1] [fun _ => 0] 0
    (z := 0) Nat.one_pos hc h).trans ?_
  have hbins := channelHist_onePixel (fun i => (0 : Nat → ℤ) (histoRow 1 0 + i)) 1
  refine (congrFun (congrArg (normalizedCdf 1) hbins) tid).trans ?_
  rw [normalizedCdf_uniform _ _ 1 ?_ ?_]
  · rfl
  · decide +kernel
  · rfl

/-- A pixel of 7 after a pixel of 1 is equalised to 0. -/
theorem second_call_wrong : ¬∀ (s : State) (cs : List Call),
    (∀ c ∈ cs, c.Valid s.maxBatchSize) → List.Forall₂ Call.Agrees cs (s.run cs) := by
  intro h
  have hrun := h zeroed [.varShape (onePixel 1) (onePixel 0), .varShape (onePixel 7) (onePixel 0)] (by
    intro c hc
    rcases List.mem_cons.1 hc with rfl | hc
    · exact ⟨le_rfl, rfl⟩
    · rw [List.mem_singleton.1 hc]
      exact ⟨le_rfl, rfl⟩)
  obtain ⟨-, hrest⟩ := List.forall₂_cons.1 hrun
  obtain ⟨hsecond, -⟩ := List.forall₂_cons.1 hrest
  obtain ⟨after, hafter, halone⟩ := hsecond rfl _ rfl 0 _ _ rfl rfl
  -- what the second call writes
  have hwrites := launches_out (1, 1) (onePixel 7).size (onePixel 0).size 1 [fun _ => 7]
    [fun _ => 0] (zeroed.call (.varShape (onePixel 1) (onePixel 0))).1.legacyOpVarShape
    (z := 0) Nat.one_pos
  obtain rfl := Option.some.inj (hafter.symm.trans hwrites)
  -- and what the tensor path makes of the pixel
  have hsingle : (infer 1 (oneTensor 7) (oneTensor 0) 0).out = _ :=
    infer_single le_rfl 0 rfl rfl rfl
  have heq := (halone 1 0 (oneTensor 7) (oneTensor 0) le_rfl rfl rfl rfl rfl rfl).symm.trans hsingle
  have hpixel := congrFun (List.cons.inj heq).1 (0, 0, 0)
  exact absurd ((equalized_seven_over fun tid ht => bins_after_one ht).symm.trans
    (hpixel.trans equalized_seven)) (by decide)

end HistogramEq

end Cvcuda
