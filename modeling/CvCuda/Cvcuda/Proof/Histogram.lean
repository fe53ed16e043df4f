import CvCuda.Cvcuda.Histogram

/-! # What a histogram holds in the end

`Leaves` fixes the entries whatever the order of the additions (`entry_of_leaves`): what the memset
has left of an entry and the pixels that the launch has threads for. The memset takes the number
of columns for a number of bytes, so only the first 64 of 256 entries are cleared
(`infer_exact_iff`).
-/

namespace Cvcuda.Histogram

open Kernel
open BoxBlur (ErrorCode DataFormat)

variable {call : Call} {maxGridZ numPixels n v : Nat} {histogram m : Entries}

/-! ## What is counted -/

/-- A pixel of the image `n` that the histogram counts as `v`. -/
def Hit (call : Call) (n v y x : Nat) : Prop :=
  (call.inData.pixels n y x).toNat = v ∧ ∀ mask ∈ call.mask, mask.pixels n y x ≠ 0

instance (call : Call) (n v y x : Nat) : Decidable (Hit call n v y x) :=
  inferInstanceAs (Decidable (_ ∧ _))

/-- The pixels of the image `n` with the value `v`, and a non-zero mask. -/
def pixelCount (call : Call) (n v : Nat) : Nat :=
  ∑ y ∈ Finset.range call.inData.shape.h.val, ∑ x ∈ Finset.range call.inData.shape.w.val,
    if Hit call n v y x then 1 else 0

/-- The entries are the numbers of pixels. -/
def Exact (call : Call) (m : Entries) : Prop :=
  ∀ n < call.inData.shape.n.val, ∀ v < 256, (m (n, v)).toInt = pixelCount call n v

/-- Whether the pixel with an index in its image counts. -/
def hitAt (call : Call) (n v i : Nat) : Nat :=
  if Hit call n v (i / call.inData.shape.w.val) (i % call.inData.shape.w.val) then 1 else 0

theorem counted_eq_some {i : Nat} :
    counted call numPixels n i = some v ↔
      i < numPixels ∧ Hit call n v (i / call.inData.shape.w.val) (i % call.inData.shape.w.val) := by
  unfold counted Hit
  dsimp only
  by_cases hi : i < numPixels
  · rw [if_pos hi]
    cases call.mask with
    | none => simp [hi]
    | some mask =>
      by_cases hmask : mask.pixels n (i / call.inData.shape.w.val) (i % call.inData.shape.w.val) = 0
      · simp [hmask]
      · simp [hi, and_comm]
  · simp [hi]

theorem pixelCount_eq_sum :
    pixelCount call n v =
      ∑ i ∈ Finset.range (call.inData.shape.h.val * call.inData.shape.w.val), hitAt call n v i := by
  unfold pixelCount
  rw [← sum_range_mul]
  refine Finset.sum_congr rfl fun y _ => Finset.sum_congr rfl fun x hx => ?_
  have hlt := Finset.mem_range.1 hx
  have hdiv : (y * call.inData.shape.w.val + x) / call.inData.shape.w.val = y := by
    rw [Nat.mul_comm, Nat.mul_add_div (by omega), Nat.div_eq_of_lt hlt, Nat.add_zero]
  have hmod : (y * call.inData.shape.w.val + x) % call.inData.shape.w.val = x := by
    rw [Nat.mul_comm, Nat.mul_add_mod, Nat.mod_eq_of_lt hlt]
  unfold hitAt
  rw [hdiv, hmod]

/-! ## A block -/

theorem blockHist_eq {blockIdx : Nat} {shist : Nat → Nat}
    (h : BlockHist call numPixels n blockIdx shist) :
    shist v = ∑ t ∈ Finset.range threadsBlock,
      if blockIdx * threadsBlock + t < numPixels then
        hitAt call n v (blockIdx * threadsBlock + t) else 0 := by
  obtain ⟨order, hperm, rfl⟩ := h
  rw [addAll_perm hperm, addAll_apply, zero_add, blockAdds, sum_map_filterMap, sum_map_range]
  refine Finset.sum_congr rfl fun t _ => ?_
  generalize blockIdx * threadsBlock + t = i
  have hsome := @counted_eq_some call numPixels n v i
  have hhit : (if i < numPixels then hitAt call n v i else 0) =
      if counted call numPixels n i = some v then 1 else 0 := by
    unfold hitAt
    rw [← ite_and]
    exact if_congr hsome.symm rfl rfl
  rw [hhit]
  cases counted call numPixels n i with
  | none => rfl
  | some b =>
    change (if b = v then 1 else 0) = _
    exact if_congr (Option.some_inj (a := b) (b := v)).symm rfl rfl

/-! ## The grid -/

/-- The pixels of an image below an index that have a value. -/
def countBelow (call : Call) (numPixels n v : Nat) : Nat :=
  ∑ i ∈ Finset.range numPixels, hitAt call n v i

theorem sum_blocks_eq {gridX : Nat} (h : numPixels ≤ gridX * threadsBlock) :
    ∑ b ∈ Finset.range gridX, ∑ t ∈ Finset.range threadsBlock,
        (if b * threadsBlock + t < numPixels then hitAt call n v (b * threadsBlock + t) else 0) =
      countBelow call numPixels n v := by
  rw [sum_range_mul gridX threadsBlock fun i => if i < numPixels then hitAt call n v i else 0]
  unfold countBelow
  rw [← Finset.sum_filter]
  refine Finset.sum_congr ?_ fun i _ => rfl
  ext i
  rw [Finset.mem_filter, Finset.mem_range, Finset.mem_range]
  omega

/-- What one block adds to an entry. -/
theorem sum_binAdds {z : Nat} {bins : Nat → Nat} (hv : v < threadsBlock) :
    (((List.range threadsBlock).filterMap fun subTid =>
      if 0 < bins subTid then some ((z, subTid), BitVec.ofNat 32 (bins subTid))
      else none).map fun s => if s.1 = (n, v) then s.2 else 0).sum =
        if z = n then (bins v : BitVec 32) else 0 := by
  rw [sum_map_filterMap, sum_map_range, Finset.sum_eq_single v]
  · split_ifs with hpos hz hz
    · exact if_pos (by rw [hz])
    · exact if_neg fun heq => hz (Prod.mk.inj heq).1
    · rw [Nat.eq_zero_of_not_pos hpos]
      rfl
    · rfl
  · intro b _ hb
    split_ifs with hpos
    · exact if_neg fun heq => hb (Prod.mk.inj heq).2
    · rfl
  · intro hnot
    exact absurd (Finset.mem_range.2 hv) hnot

/-- What is added to an entry. -/
theorem sum_gridAdds {gridX gridZ : Nat} {shist : Nat → Nat → Nat → Nat} (hn : n < gridZ)
    (hv : v < threadsBlock) :
    ((gridAdds gridX gridZ shist).map fun s => if s.1 = (n, v) then s.2 else 0).sum =
      ((∑ b ∈ Finset.range gridX, shist n b v : Nat) : BitVec 32) := by
  unfold gridAdds
  rw [sum_map_flatMap, sum_map_range, Finset.sum_eq_single n]
  · rw [sum_map_flatMap, sum_map_range, Nat.cast_sum]
    refine Finset.sum_congr rfl fun b _ => ?_
    rw [sum_binAdds hv, if_pos rfl]
  · intro z _ hz
    rw [sum_map_flatMap, sum_map_range]
    refine Finset.sum_eq_zero fun b _ => ?_
    rw [sum_binAdds hv, if_neg hz]
  · intro hnot
    exact absurd (Finset.mem_range.2 hn) hnot

/-- Whatever the order, an entry gets the pixels that have a thread. -/
theorem entry_of_leaves {gridX gridZ : Nat} (hn : n < gridZ) (hv : v < threadsBlock)
    (hgrid : numPixels ≤ gridX * threadsBlock)
    (h : Leaves call m (.launch gridX gridZ numPixels histogram)) :
    m (n, v) = histogram (n, v) + (countBelow call numPixels n v : BitVec 32) := by
  obtain ⟨shist, hshist, order, hperm, rfl⟩ := h
  have hblocks : ∑ b ∈ Finset.range gridX, shist n b v = countBelow call numPixels n v := by
    rw [← sum_blocks_eq hgrid]
    exact Finset.sum_congr rfl fun b _ => blockHist_eq (hshist n b)
  rw [addAll_perm hperm, addAll_apply, sum_gridAdds hn hv, hblocks]

theorem exists_leaves (gridX gridZ numPixels : Nat) (histogram : Entries) :
    ∃ m, Leaves call m (.launch gridX gridZ numPixels histogram) :=
  ⟨_, fun batchIdx blockIdx => addAll (blockAdds call numPixels batchIdx blockIdx) fun _ => 0,
    fun _ _ => ⟨_, .refl _, rfl⟩, _, .refl _, rfl⟩

/-! ## Clearing -/

@[simp] theorem clearBytes_zero (e : BitVec 32) : clearBytes 0 e = e := by simp [clearBytes]

@[simp] theorem clearBytes_four (e : BitVec 32) : clearBytes 4 e = 0 := by
  unfold clearBytes
  rw [BitVec.ushiftRight_eq_zero (by norm_num)]
  simp

/-- Of 256 entries in a row the first 64 are cleared. -/
theorem memset2D_row {height : Nat} (hn : n < height) :
    memset2D 256 height histogram (n, v) = if v < 64 then 0 else histogram (n, v) := by
  unfold memset2D
  rw [if_pos hn]
  split_ifs with hv
  · rw [Nat.min_eq_left (by omega), clearBytes_four]
  · rw [Nat.sub_eq_zero_of_le (by omega), Nat.min_eq_right (by norm_num), clearBytes_zero]

/-! ## Sizes -/

/-- The launch has sizes that the device has. -/
def Launches (maxGridZ : Nat) (shape : DataShape) : Prop :=
  0 < (gridSize shape).2 ∧ 0 < shape.n.val ∧ shape.n.val ≤ maxGridZ

theorem launch_of_launches {shape : DataShape} (h : Launches maxGridZ shape) (cleared : Entries) :
    launch maxGridZ shape cleared =
      .launch (gridSize shape).2.toNat shape.n.val (gridSize shape).1.toNat cleared := by
  unfold Launches at h
  unfold launch
  dsimp only
  rw [if_pos h]

theorem launch_of_not_launches {shape : DataShape} (h : ¬Launches maxGridZ shape)
    (cleared : Entries) : launch maxGridZ shape cleared = .abort := by
  unfold Launches at h
  unfold launch
  dsimp only
  rw [if_neg h]

theorem pos_of_tdiv_pos {q : Int} (h : 0 < q.tdiv 256) : 0 < q := by
  by_contra hle
  have hneg : (-q).tdiv 256 = -q.tdiv 256 := Int.neg_tdiv q 256
  have hnonneg : 0 ≤ (-q).tdiv 256 := Int.tdiv_nonneg (by omega) (by norm_num)
  omega

/-- A grid has a thread for each of the pixels that it is told of, and for no more than there are. -/
theorem gridSize_spec {shape : DataShape} (h : 0 < (gridSize shape).2) :
    (gridSize shape).1.toNat ≤ shape.h.val * shape.w.val ∧
      (gridSize shape).1.toNat ≤ (gridSize shape).2.toNat * threadsBlock := by
  unfold gridSize threadsBlock at *
  dsimp only at *
  generalize shape.h.val * shape.w.val = pixels at *
  have hlow := Int.le_bmod (x := (pixels : ℤ)) (m := 2 ^ 32) (by norm_num)
  have hhigh := Int.bmod_lt (x := (pixels : ℤ)) (m := 2 ^ 32) (by norm_num)
  have hle : (pixels : ℤ).bmod (2 ^ 32) ≤ pixels := by
    rw [Int.bmod_def]
    omega
  generalize (pixels : ℤ).bmod (2 ^ 32) = p at *
  have hpos := pos_of_tdiv_pos h
  have heq : (p + 255).bmod (2 ^ 32) = p + 255 := by
    rw [Int.bmod_def] at hpos ⊢
    omega
  rw [heq] at h hpos ⊢
  rw [Int.tdiv_eq_ediv_of_nonneg hpos.le] at h ⊢
  omega

/-! ## Exactness -/

/-- What the caller of the operator keeps to. -/
structure Valid (call : Call) : Prop where
  layout : call.inData.layout = .nhwc ∨ call.inData.layout = .hwc
  dtype : call.inData.dtype = .cv8U
  channels : call.inData.shape.c.val = 1
  histoLayout : call.histogram.layout = .hwc
  rows : call.inData.shape.n = call.histogram.shape.h
  cols : call.histogram.shape.w.val = 256
  mask : ∀ mask ∈ call.mask, mask.shape = call.inData.shape

theorem infer_eq_launch (hv : Valid call) :
    infer maxGridZ call histogram =
      launch maxGridZ call.inData.shape (memset2D 256 call.inData.shape.n.val histogram) := by
  have hlayout : call.inData.layout ∈ [DataFormat.nhwc, .hwc] := by
    rcases hv.layout with h | h
    · rw [h]
      decide
    · rw [h]
      decide
  unfold infer
  dsimp only
  rw [if_neg (not_not.2 hlayout), hv.histoLayout, if_neg (by decide), if_neg (not_not.2 hv.dtype),
    if_neg (not_not.2 hv.rows), if_neg (not_not.2 hv.channels), hv.cols, ← hv.rows]
  cases hmask : call.mask with
  | none => rfl
  | some mask => exact if_neg (not_not.2 (hv.mask mask hmask))

/-- The pixels of the image `n` with a value that have no thread: none where `int` holds the
number of an image's pixels. -/
def uncounted (call : Call) (n v : Nat) : Nat :=
  ∑ i ∈ Finset.Ico (gridSize call.inData.shape).1.toNat
    (call.inData.shape.h.val * call.inData.shape.w.val), hitAt call n v i

/-- The entries that the memset misses hold the pixels that the launch misses. -/
def Made (call : Call) (histogram : Entries) : Prop :=
  ∀ n < call.inData.shape.n.val, ∀ v < 256, pixelCount call n v < 2 ^ 31 ∧
    (if v < 64 then 0 else histogram (n, v)) = (uncounted call n v : BitVec 32)

theorem toInt_eq_natCast_iff {e : BitVec 32} {t : Nat} :
    e.toInt = t ↔ t < 2 ^ 31 ∧ e = (t : BitVec 32) := by
  have hcast : t < 2 ^ 31 → (t : BitVec 32).toInt = t := by
    intro ht
    rw [BitVec.natCast_eq_ofNat, BitVec.toInt_ofNat']
    exact Int.bmod_eq_of_le (by omega) (by omega)
  constructor
  · intro h
    have hlt := BitVec.toInt_lt (x := e)
    have ht : t < 2 ^ 31 := by omega
    exact ⟨ht, BitVec.eq_of_toInt_eq (h.trans (hcast ht).symm)⟩
  · rintro ⟨ht, rfl⟩
    exact hcast ht

/-- What a launch leaves is exact for an entry just if it has found there what it will miss. -/
theorem entry_exact_iff (hl : Launches maxGridZ call.inData.shape) (hn : n < call.inData.shape.n.val)
    (hv : v < 256)
    (h : Leaves call m (launch maxGridZ call.inData.shape
      (memset2D 256 call.inData.shape.n.val histogram))) :
    (m (n, v)).toInt = pixelCount call n v ↔ pixelCount call n v < 2 ^ 31 ∧
      (if v < 64 then 0 else histogram (n, v)) = (uncounted call n v : BitVec 32) := by
  obtain ⟨hle, hgrid⟩ := gridSize_spec hl.1
  rw [launch_of_launches hl] at h
  have hentry := entry_of_leaves hn hv hgrid h
  have hsplit : pixelCount call n v =
      countBelow call (gridSize call.inData.shape).1.toNat n v + uncounted call n v := by
    rw [pixelCount_eq_sum]
    exact (Finset.sum_range_add_sum_Ico _ hle).symm
  rw [toInt_eq_natCast_iff, hentry, memset2D_row hn]
  have hcancel : (if v < 64 then 0 else histogram (n, v)) +
        (countBelow call (gridSize call.inData.shape).1.toNat n v : BitVec 32) =
          (pixelCount call n v : BitVec 32) ↔
      (if v < 64 then 0 else histogram (n, v)) = (uncounted call n v : BitVec 32) := by
    rw [hsplit, Nat.cast_add, add_comm (Nat.cast (countBelow _ _ _ _)) (Nat.cast (uncounted _ _ _))]
    exact add_left_inj _
  rw [hcancel]

theorem made_of_exact (hv : Valid call) (hl : Launches maxGridZ call.inData.shape)
    (h : ∀ m, Leaves call m (infer maxGridZ call histogram) → Exact call m) :
    Made call histogram := by
  rw [infer_eq_launch hv] at h
  intro n hn v hvlt
  obtain ⟨m, hm⟩ := @exists_leaves call (gridSize call.inData.shape).2.toNat
    call.inData.shape.n.val (gridSize call.inData.shape).1.toNat
    (memset2D 256 call.inData.shape.n.val histogram)
  have hlaunch : Leaves call m (launch maxGridZ call.inData.shape
      (memset2D 256 call.inData.shape.n.val histogram)) := by
    rw [launch_of_launches hl]
    exact hm
  exact (entry_exact_iff hl hn hvlt hlaunch).1 (h m hlaunch n hn v hvlt)

theorem exact_of_made (hv : Valid call) (h : Launches maxGridZ call.inData.shape → Made call histogram)
    (hm : Leaves call m (infer maxGridZ call histogram)) : Exact call m := by
  rw [infer_eq_launch hv] at hm
  intro n hn v hvlt
  by_cases hl : Launches maxGridZ call.inData.shape
  · exact (entry_exact_iff hl hn hvlt hm).2 (h hl n hn v hvlt)
  · -- the call aborts
    rw [launch_of_not_launches hl] at hm
    exact hm.elim

/-- Images with as many pixels as an `int` holds have a thread for each. -/
theorem made_iff_of_lt (h : call.inData.shape.h.val * call.inData.shape.w.val < 2 ^ 31) :
    Made call histogram ↔ ∀ n < call.inData.shape.n.val, ∀ v < 256, 64 ≤ v →
      histogram (n, v) = 0 := by
  have hall : (gridSize call.inData.shape).1.toNat =
      call.inData.shape.h.val * call.inData.shape.w.val := by
    unfold gridSize
    dsimp only
    rw [Int.bmod_eq_of_le (by omega) (by omega), Int.toNat_natCast]
  have hnone : ∀ n v, uncounted call n v = 0 := by
    intro n v
    unfold uncounted
    rw [hall, Finset.Ico_self, Finset.sum_empty]
  have hcount : ∀ n v, pixelCount call n v < 2 ^ 31 := by
    intro n v
    have hle : pixelCount call n v ≤ call.inData.shape.h.val * call.inData.shape.w.val := by
      rw [pixelCount_eq_sum]
      refine (Finset.sum_le_card_nsmul _ _ 1 fun i _ => ?_).trans (by simp)
      unfold hitAt
      split_ifs
      · exact le_rfl
      · exact Nat.zero_le 1
    omega
  unfold Made
  constructor
  · intro hmade n hn v hv h64
    have hv' := (hmade n hn v hv).2
    rw [if_neg (by omega), hnone] at hv'
    exact hv'
  · intro hzero n hn v hv
    refine ⟨hcount n v, ?_⟩
    rw [hnone]
    split_ifs with h64
    · rfl
    · exact hzero n hn v hv (by omega)

/-- The histogram is exact if and only if a launch finds in the entries that the memset misses
just the pixels that it will miss. -/
theorem infer_exact_iff (hv : Valid call) :
    (∀ m, Leaves call m (infer maxGridZ call histogram) → Exact call m) ↔
      (Launches maxGridZ call.inData.shape → Made call histogram) := by
  constructor
  · intro h hl
    exact made_of_exact hv hl h
  · intro h m hm
    exact exact_of_made hv h hm

/-- An image of two pixels, of which a mask has the first. -/
def twoPixels : Call where
  inData := ⟨.hwc, .cv8U, ⟨1, 1, 1, 2⟩, fun _ _ x => if x = 0 then 64#8 else 200#8⟩
  mask := some ⟨.hwc, .cv8U, ⟨1, 1, 1, 2⟩, fun _ _ x => if x = 0 then 1#8 else 0#8⟩
  histogram := ⟨.hwc, ⟨1, 1, 1, 256⟩⟩

theorem valid_twoPixels : Valid twoPixels where
  layout := .inr rfl
  dtype := rfl
  channels := rfl
  histoLayout := rfl
  rows := rfl
  cols := rfl
  mask := by
    intro mask hmask
    obtain rfl := Option.some.inj hmask
    rfl

theorem infer_exact_iff_twoPixels : Valid twoPixels ∧
    ∀ m, Leaves twoPixels m (infer 65535 twoPixels fun k => if k.2 < 64 then 9 else 0) →
      Exact twoPixels m :=
  ⟨valid_twoPixels, (infer_exact_iff valid_twoPixels).2 fun _ =>
    (made_iff_of_lt (by decide)).2 fun _ _ _ _ h64 => if_neg (by omega)⟩

/-- A count of 5 that was there before is still in the count of the pixel. -/
theorem infer_adds_to_before : Valid twoPixels ∧
    ¬∀ m, Leaves twoPixels m (infer 65535 twoPixels fun _ => 5) → Exact twoPixels m := by
  refine ⟨valid_twoPixels, fun h => ?_⟩
  have hl : Launches 65535 twoPixels.inData.shape := by
    unfold Launches gridSize
    decide
  have hmade := made_of_exact valid_twoPixels hl h
  have hzero := (made_iff_of_lt (by decide)).1 hmade 0 (by decide) 64 (by decide) le_rfl
  exact absurd hzero (by decide)

end Cvcuda.Histogram
