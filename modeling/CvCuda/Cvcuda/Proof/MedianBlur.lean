import CvCuda.Lib.ForLoop
import CvCuda.Cvcuda.MedianBlur
import CvCuda.Cvcuda.Proof.HistogramEq

/-! # The median of a window

Both kernels find the element of the middle rank of a window, whatever elements are equal:

* `quickselect_eq`: a partition has the smaller elements before the pivot (`partition_spec`), so
  the rank is looked for on one side of it.
* `median_eq`: the elements in range keep the rank looked for (`Inv`), and every turn takes some of
  them out of the range or ends the loop (`turn_spec`).
* `fetchAs1d_eq`: what is fetched are the pixels of the window, those beside the image replicated.
* `medianBlur_iff`: the launched kernel leaves this in every pixel if and only if every pixel has
  a thread.
-/

namespace Cvcuda.MedianBlur

open Kernel Rank

variable {T : Type}

/-! ## The window -/

/-- The place of an image's edge that a place beside the image is replaced by. -/
def clampTo (n : Nat) (z : Int) : Nat := (max 0 (min z (n - 1))).toNat

/-- From the shared memory or not, what is fetched is the pixel, or the one at the edge. -/
theorem fetch_eq {src : Plane T} {h w blockSize : Nat} {p : Position} {before : Nat → T}
    (hh : 0 < h) (hw : 0 < w) (gx gy : Int) :
    fetch (loadTails src h w blockSize p before) src h w p.blockX p.blockY gx gy blockSize =
      src (clampTo h gy) (clampTo w gx) := by
  have hedge : ∀ {n : Nat}, 0 < n → ∀ z : Int,
      (if (n : Int) ≤ (if z < 0 then 0 else z) then (n : Int) - 1 else if z < 0 then 0 else z) =
        clampTo n z := by
    intro n hn z
    unfold clampTo
    split_ifs
    all_goals omega
  unfold fetch
  dsimp only
  rw [hedge hw gx, hedge hh gy]
  have hx : clampTo w gx < w := by unfold clampTo; omega
  have hy : clampTo h gy < h := by unfold clampTo; omega
  generalize clampTo w gx = x at hx ⊢
  generalize clampTo h gy = y at hy ⊢
  split_ifs with hout
  · rw [Int.toNat_natCast, Int.toNat_natCast]
  · -- the pixel is one of the block's own
    obtain ⟨i, rfl⟩ := Nat.exists_eq_add_of_le (show p.blockY ≤ y by omega)
    obtain ⟨j, rfl⟩ := Nat.exists_eq_add_of_le (show p.blockX ≤ x by omega)
    have hi : i < blockSize := by omega
    have hj : j < blockSize := by omega
    have hidx : ((((p.blockY + i : Nat) : Int) - p.blockY) * blockSize +
        ((p.blockX + j : Nat) : Int) - p.blockX).toNat = i * blockSize + j := by
      push_cast
      rw [show ((p.blockY + i - p.blockY : Int)) * blockSize + (p.blockX + j) - p.blockX =
        ((i * blockSize + j : Nat) : Int) by push_cast; ring, Int.toNat_natCast]
    have hmod : (i * blockSize + j) % blockSize = j := by
      rw [Nat.mul_comm, Nat.mul_add_mod, Nat.mod_eq_of_lt hj]
    have hdiv : (i * blockSize + j) / blockSize = i := by
      rw [Nat.mul_comm, Nat.mul_add_div (by omega), Nat.div_eq_of_lt hj, Nat.add_zero]
    have hlt : i * blockSize + j < blockSize * blockSize := lt_of_lt_of_le
      (Nat.add_lt_add_left hj _) (by rw [← Nat.succ_mul]; exact Nat.mul_le_mul_right _ hi)
    unfold loadTails
    rw [hidx]
    dsimp only
    rw [hmod, hdiv, if_pos ⟨hlt, hx, hy⟩]

/-! ## Quickselect -/

/-- The first elements of an array. -/
def seg (arr : Nat → T) (n : Nat) : List T := (List.range n).map arr

@[simp] theorem length_seg (arr : Nat → T) (n : Nat) : (seg arr n).length = n := by simp [seg]

theorem getElem_seg (arr : Nat → T) {n i : Nat} (h : i < (seg arr n).length) :
    (seg arr n)[i] = arr i := by simp [seg]

theorem seg_update (arr : Nat → T) {n i : Nat} (v : T) :
    seg (Function.update arr i v) n = (seg arr n).set i v := by
  refine List.ext_getElem (by simp) fun m hm hm' => ?_
  rw [getElem_seg, List.getElem_set]
  by_cases h : i = m
  · rw [if_pos h, h, Function.update_self]
  · rw [if_neg h, Function.update_of_ne (Ne.symm h), getElem_seg]

theorem swap_left (arr : Nat → T) (i j : Nat) : swap arr i j i = arr j := Function.update_self ..

theorem swap_right (arr : Nat → T) (i j : Nat) : swap arr i j j = arr i := by
  unfold swap
  by_cases h : j = i
  · rw [h, Function.update_self]
  · rw [Function.update_of_ne h, Function.update_self]

theorem swap_of_ne (arr : Nat → T) {i j m : Nat} (hi : m ≠ i) (hj : m ≠ j) :
    swap arr i j m = arr m := by
  unfold swap
  rw [Function.update_of_ne hi, Function.update_of_ne hj]

theorem seg_swap_perm (arr : Nat → T) {n i j : Nat} (hi : i < n) (hj : j < n) :
    (seg (swap arr i j) n).Perm (seg arr n) := by
  have hi' : i < (seg arr n).length := by rwa [length_seg]
  have hj' : j < (seg arr n).length := by rwa [length_seg]
  have h := List.set_set_perm hj' hi'
  rw [getElem_seg, getElem_seg] at h
  unfold swap
  rw [seg_update, seg_update]
  exact h

theorem seg_append (arr : Nat → T) (m n : Nat) :
    seg arr (m + n) = seg arr m ++ seg (fun i => arr (m + i)) n := by
  unfold seg
  rw [List.range_add, List.map_append, List.map_map]
  rfl

theorem mem_seg {arr : Nat → T} {n : Nat} {v : T} : v ∈ seg arr n ↔ ∃ i < n, arr i = v := by
  simp [seg]

variable [LinearOrder T]

theorem placePivot_spec (arr : Nat → T) {n : Nat} (hn : 0 < n) :
    (placePivot arr n).1 0 = (placePivot arr n).2 ∧
      (seg (placePivot arr n).1 n).Perm (seg arr n) := by
  unfold placePivot
  dsimp only
  split_ifs with h1 h2
  · exact ⟨swap_right .., seg_swap_perm arr (Nat.div_lt_self hn (by norm_num)) hn⟩
  · exact ⟨swap_right .., seg_swap_perm arr (by omega) hn⟩
  · exact ⟨rfl, .refl _⟩

/-- The loop of `partition` before the turn `j`. -/
structure Parted (arr0 : Nat → T) (n : Nat) (pvt : T) (j : Nat) (s : Parting T) : Prop where
  perm : (seg s.arr n).Perm (seg arr0 n)
  front : s.arr 0 = pvt
  pos : 1 ≤ s.i
  le : s.i ≤ j
  less : ∀ m, 1 ≤ m → m < s.i → s.arr m < pvt
  rest : ∀ m, s.i ≤ m → m < j → pvt ≤ s.arr m
  ahead : ∀ m, j ≤ m → s.arr m = arr0 m
  numOfEq : s.numOfEq = (seg arr0 j).count pvt

theorem Parted.turn {arr0 : Nat → T} {n j : Nat} {pvt : T} {s : Parting T} (hj : 1 ≤ j) (hjn : j < n)
    (h : Parted arr0 n pvt j s) : Parted arr0 n pvt (j + 1) (partitionTurn pvt s j) := by
  obtain ⟨hperm, hfront, hpos, hle, hless, hrest, hahead, heq⟩ := h
  have hjarr : s.arr j = arr0 j := hahead j le_rfl
  have hcount : (if s.arr j = pvt then s.numOfEq + 1 else s.numOfEq) =
      (seg arr0 (j + 1)).count pvt := by
    rw [seg_append, List.count_append, ← heq, hjarr]
    by_cases h : arr0 j = pvt
    · simp [seg, h]
    · simp [seg, h]
  unfold partitionTurn
  dsimp only
  by_cases hlt : s.arr j < pvt
  · -- the element goes to the end of the smaller ones
    rw [if_pos hlt]
    refine ⟨(seg_swap_perm s.arr (by omega) hjn).trans hperm, ?_, by dsimp only; omega,
      by dsimp only; omega, ?_, ?_, ?_, hcount⟩
    · exact (swap_of_ne s.arr (by omega) (by omega)).trans hfront
    · intro m hm hm'
      dsimp only at hm' ⊢
      by_cases hmi : m = s.i
      · rw [hmi, swap_left]
        exact hlt
      · rw [swap_of_ne s.arr hmi (by omega)]
        exact hless m hm (by omega)
    · intro m hm hm'
      dsimp only at hm ⊢
      by_cases hmj : m = j
      · rw [hmj, swap_right]
        exact hrest s.i le_rfl (by omega)
      · rw [swap_of_ne s.arr (by omega) hmj]
        exact hrest m (by omega) (by omega)
    · intro m hm
      exact (swap_of_ne s.arr (by omega) (by omega)).trans (hahead m (by omega))
  · rw [if_neg hlt]
    refine ⟨hperm, hfront, hpos, hle.trans (Nat.le_succ j), hless, ?_,
      fun m hm => hahead m (by omega), hcount⟩
    intro m hm hm'
    by_cases hmj : m = j
    · rw [hmj]
      exact not_lt.1 hlt
    · exact hrest m hm (by omega)

/-- A partition has the smaller elements before the pivot, and no smaller ones after it. -/
structure Partitioned (arr0 : Nat → T) (n : Nat) (pvt : T) (s : Parting T) : Prop where
  lt : s.i < n
  perm : (seg s.arr n).Perm (seg arr0 n)
  less : ∀ m < s.i, s.arr m < pvt
  pivot : s.arr s.i = pvt
  rest : ∀ m, s.i < m → m < n → pvt ≤ s.arr m
  numOfEq : s.numOfEq = (seg arr0 n).count pvt

theorem partition_spec {arr : Nat → T} {n : Nat} {pvt : T} (hn : 0 < n) (h0 : arr 0 = pvt) :
    Partitioned arr n pvt (partition arr n pvt) := by
  have hstart : Parted arr n pvt 1 ⟨arr, 1, 1⟩ := by
    refine ⟨.refl _, h0, le_rfl, le_rfl, ?_, ?_, fun m _ => rfl, ?_⟩
    · intro m h h'
      exact absurd h' (by dsimp only; omega)
    · intro m h h'
      exact absurd h' (by dsimp only at h; omega)
    · simp [seg, h0]
  have hloop := ForLoop.foldl_range' (n := n - 1) hstart fun j s hj hjn h =>
    h.turn (n := n) hj (by omega)
  rw [show 1 + (n - 1) = n by omega] at hloop
  unfold partition
  generalize List.foldl _ _ (List.range' 1 (n - 1)) = s at hloop ⊢
  obtain ⟨hperm, hfront, hpos, hle, hless, hrest, -, heq⟩ := hloop
  refine ⟨by dsimp only; omega, (seg_swap_perm s.arr (by omega) hn).trans hperm, ?_, ?_, ?_, heq⟩
  · intro m hm
    dsimp only at hm ⊢
    by_cases hm0 : m = 0
    · rw [hm0, swap_right]
      exact hless _ (by omega) (by omega)
    · rw [swap_of_ne s.arr (by omega) hm0]
      exact hless m (by omega) (by omega)
  · exact (swap_left ..).trans hfront
  · intro m hm hm'
    dsimp only at hm ⊢
    rw [swap_of_ne s.arr (by omega) (by omega)]
    exact hrest m (by omega) hm'

namespace Partitioned

variable {arr0 : Nat → T} {n k : Nat} {pvt : T} {s : Parting T}

theorem numOfEq_pos (h : Partitioned arr0 n pvt s) : 0 < s.numOfEq := by
  rw [h.numOfEq, ← h.perm.count_eq]
  exact List.count_pos_iff.2 (mem_seg.2 ⟨s.i, h.lt, h.pivot⟩)

/-- The elements from the pivot on. -/
theorem pivot_le (h : Partitioned arr0 n pvt s) {m : Nat} (hm : s.i ≤ m) (hmn : m < n) :
    pvt ≤ s.arr m := by
  rcases hm.eq_or_lt with rfl | hlt
  · exact h.pivot.ge
  · exact h.rest m hlt hmn

theorem perm_append (h : Partitioned arr0 n pvt s) {m : Nat} (hm : m ≤ n) :
    (seg arr0 n).Perm (seg s.arr m ++ seg (fun i => s.arr (m + i)) (n - m)) := by
  rw [← seg_append, Nat.add_sub_cancel' hm]
  exact h.perm.symm

/-- What is before the pivot is less than the rest. -/
theorem le_of_mem (h : Partitioned arr0 n pvt s) : ∀ x ∈ seg s.arr s.i,
    ∀ y ∈ seg (fun i => s.arr (s.i + i)) (n - s.i), x ≤ y := by
  intro x hx y hy
  obtain ⟨i, hi, rfl⟩ := mem_seg.1 hx
  obtain ⟨j, hj, rfl⟩ := mem_seg.1 hy
  exact (h.less i hi).le.trans (h.pivot_le (Nat.le_add_right ..) (by omega))

theorem nth_less (h : Partitioned arr0 n pvt s) (hk : k < s.i) :
    nth (seg arr0 n) k = nth (seg s.arr s.i) k := by
  rw [nth_perm (h.perm_append h.lt.le)]
  exact nth_append_left h.le_of_mem (by rwa [length_seg])

theorem nth_pivot (h : Partitioned arr0 n pvt s) (hk : s.i ≤ k) (hk' : k < s.i + s.numOfEq) :
    nth (seg arr0 n) k = some pvt := by
  have heq := h.numOfEq
  rw [(h.perm_append h.lt.le).count_eq, List.count_append] at heq
  have hnone : (seg s.arr s.i).count pvt = 0 := by
    refine List.count_eq_zero.2 fun hmem => ?_
    obtain ⟨i, hi, hpvt⟩ := mem_seg.1 hmem
    exact (h.less i hi).ne hpvt
  rw [nth_perm (h.perm_append h.lt.le), nth_append_right h.le_of_mem (by rwa [length_seg]),
    length_seg]
  refine nth_of_forall_le ?_ (by omega)
  intro x hx
  obtain ⟨i, hi, rfl⟩ := mem_seg.1 hx
  exact h.pivot_le (Nat.le_add_right ..) (by omega)

theorem nth_rest (h : Partitioned arr0 n pvt s) (hk : s.i + s.numOfEq ≤ k) :
    nth (seg arr0 n) k =
      nth (seg (fun i => s.arr (s.i + 1 + i)) (n - s.i - 1)) (k - s.i - 1) := by
  have hpos := h.numOfEq_pos
  rw [nth_perm (h.perm_append h.lt), nth_append_right ?_ (by rw [length_seg]; omega), length_seg]
  · rfl
  · intro x hx y hy
    obtain ⟨i, hi, rfl⟩ := mem_seg.1 hx
    obtain ⟨j, hj, rfl⟩ := mem_seg.1 hy
    have hle : s.arr i ≤ pvt := by
      rcases (Nat.lt_succ_iff.1 hi).eq_or_lt with rfl | hlt
      · exact h.pivot.le
      · exact (h.less i hlt).le
    exact hle.trans (h.rest _ (by omega) (by omega))

end Partitioned

/-- The loop of the small kernel ends with the element of the rank. -/
theorem quickselect_eq {fuel : Nat} {arr : Nat → T} {n k : Nat} (hk : k < n) (hfuel : n < fuel) :
    quickselect fuel arr n k = nth (seg arr n) k := by
  induction fuel generalizing arr n k with
  | zero => exact absurd hfuel (Nat.not_lt_zero n)
  | succ fuel ih =>
    unfold quickselect
    split_ifs with hn
    · obtain ⟨hfront, hplaced⟩ := placePivot_spec arr (Nat.zero_lt_of_lt hn)
      have hparted := partition_spec (Nat.zero_lt_of_lt hn) hfront
      dsimp only
      rw [← nth_perm hplaced]
      generalize partition (placePivot arr n).1 n (placePivot arr n).2 = s at hparted ⊢
      have hlt := hparted.lt
      split_ifs with hless heq
      · rw [ih hless (by omega), hparted.nth_less hless]
      · exact (hparted.nth_pivot (not_lt.1 hless) heq).symm
      · have hpos := hparted.numOfEq_pos
        rw [ih (by omega) (by omega), hparted.nth_rest (not_lt.1 heq)]
    · obtain rfl : n = 1 := by omega
      refine (nth_of_forall_eq (fun x hx => ?_) (by rwa [length_seg])).symm
      obtain ⟨i, hi, rfl⟩ := mem_seg.1 hx
      rw [Nat.lt_one_iff.1 hi]

variable {window : Nat → Option T} {a : Nat → T} {n : Nat}

theorem medianForSmallKernel_eq (hw : ∀ i < n, window i = some (a i)) (hn : 0 < n)
    (before : Nat → T) : medianForSmallKernel window n before = nth (seg a n) (n / 2) := by
  obtain ⟨arr, harr, hall⟩ := ForLoop.foldlM_range' (s := 0) (n := n) (b := before)
    (P := fun j arr => ∀ i < j, arr i = a i)
    (f := fun arr i => (window i).map (Function.update arr i))
    (fun i hi => absurd hi (Nat.not_lt_zero i)) (by
    intro j arr _ hj harr
    refine ⟨Function.update arr j (a j), by rw [hw j (by omega), Option.map_some], ?_⟩
    intro i hi
    by_cases hij : i = j
    · rw [hij, Function.update_self]
    · rw [Function.update_of_ne hij]
      exact harr i (by omega))
  have hseg : seg arr n = seg a n := by
    unfold seg
    exact List.map_congr_left fun i hi => hall i (by have := List.mem_range.1 hi; omega)
  unfold medianForSmallKernel
  rw [List.range_eq_range', harr, Option.bind_eq_bind, Option.bind_some,
    quickselect_eq (Nat.div_lt_self hn (by norm_num)) (Nat.lt_succ_self n), hseg]

/-! ## Selection in place -/

theorem outOf_eq (r : Range T) (v : T) : r.outOf v = !r.has v := by
  obtain ⟨lo, hi⟩ := r
  unfold Range.outOf Range.has
  cases lo with
  | none =>
    cases hi with
    | none => rfl
    | some hi => simp [← not_lt]
  | some lo =>
    cases hi with
    | none => simp [← not_lt]
    | some hi => simp [← not_lt]

theorem seekStart_spec {r : Range T} (hw : ∀ i < n, window i = some (a i)) (fuel : Nat) {start : Nat}
    (hex : ∃ i, start ≤ i ∧ i < n ∧ r.has (a i) = true) (hfuel : n < start + fuel) :
    ∃ lo, seekStart window r fuel start = some (lo, a lo) ∧ (start ≤ lo ∧ lo < n) ∧
      r.has (a lo) = true ∧ ∀ i, start ≤ i → r.has (a i) = true → lo ≤ i := by
  obtain ⟨i, hi, hin, hhas⟩ := hex
  induction fuel generalizing start with
  | zero => omega
  | succ fuel ih =>
    unfold seekStart
    rw [hw start (by omega), Option.bind_eq_bind, Option.bind_some, outOf_eq]
    cases hstart : r.has (a start) with
    | true => exact ⟨start, rfl, ⟨le_rfl, by omega⟩, hstart, fun i hi _ => hi⟩
    | false =>
      have hne : start ≠ i := by
        rintro rfl
        rw [hhas] at hstart
        cases hstart
      obtain ⟨lo, hlo, ⟨hle, hlt⟩, hhaslo, hleast⟩ := @ih (start + 1) (by omega) (by omega)
      refine ⟨lo, hlo, ⟨by omega, hlt⟩, hhaslo, fun m hm hhasm => hleast m ?_ hhasm⟩
      refine Nat.lt_of_le_of_ne hm ?_
      rintro rfl
      rw [hhasm] at hstart
      cases hstart

theorem seekEnd_spec {r : Range T} (hw : ∀ i < n, window i = some (a i)) (fuel : Nat) {stop : Nat}
    (hn : stop ≤ n) (hex : ∃ i, i < stop ∧ r.has (a i) = true) (hfuel : stop < fuel) :
    ∃ hi, seekEnd window r fuel stop = some (hi, a (hi - 1)) ∧ hi ≤ stop ∧
      r.has (a (hi - 1)) = true ∧ ∀ i, i < stop → r.has (a i) = true → i < hi := by
  obtain ⟨i, hi, hhas⟩ := hex
  induction fuel generalizing stop with
  | zero => omega
  | succ fuel ih =>
    cases stop with
    | zero => omega
    | succ stop =>
      unfold seekEnd
      rw [hw stop (by omega), Option.bind_eq_bind, Option.bind_some, outOf_eq]
      cases hstop : r.has (a stop) with
      | true => exact ⟨stop + 1, rfl, le_rfl, hstop, fun i hi _ => hi⟩
      | false =>
        have hne : ∀ m, r.has (a m) = true → m ≠ stop := by
          rintro m hm rfl
          rw [hm] at hstop
          cases hstop
        have hnei : i ≠ stop := hne i hhas
        obtain ⟨hi', hhi, hle, hhashi, hlast⟩ :=
          @ih stop (by omega) (by omega) (by omega)
        refine ⟨hi', hhi, by omega, hhashi, fun m hm hhasm => hlast m ?_ hhasm⟩
        have hnem := hne m hhasm
        omega

theorem seekMiddle_spec {r : Range T} (hw : ∀ i < n, window i = some (a i))
    (fuel idx : Nat) {start stop : Nat} (hn : stop ≤ n) (hstart : start < stop)
    (hhas : r.has (a start) = true) (hidx : idx < stop) (hfuel : stop < idx + fuel) :
    ∃ i < n, seekMiddle window r start stop fuel idx = some (a i) ∧ r.has (a i) = true := by
  induction fuel generalizing idx with
  | zero => omega
  | succ fuel ih =>
    unfold seekMiddle
    rw [hw idx (by omega), Option.bind_eq_bind, Option.bind_some, outOf_eq]
    cases hcur : r.has (a idx) with
    | true => exact ⟨idx, by omega, rfl, hcur⟩
    | false =>
      by_cases hlast : stop ≤ idx + 1
      · -- the search goes on at `start`, which is in range
        change ∃ i < n, seekMiddle window r start stop fuel (if stop ≤ idx + 1 then start else idx + 1) =
          some (a i) ∧ r.has (a i) = true
        rw [if_pos hlast]
        cases fuel with
        | zero => omega
        | succ fuel =>
          refine ⟨start, by omega, ?_, hhas⟩
          unfold seekMiddle
          rw [hw start (by omega), Option.bind_eq_bind, Option.bind_some, outOf_eq, hhas]
          rfl
      · change ∃ i < n, seekMiddle window r start stop fuel
          (if stop ≤ idx + 1 then start else idx + 1) = some (a i) ∧ r.has (a i) = true
        rw [if_neg hlast]
        exact ih (idx + 1) (by omega) (by omega)

theorem choosePivot_of {P : T → Prop} {p0 p1 p2 : T} (h0 : P p0) (h1 : P p1) (h2 : P p2) :
    P (choosePivot p0 p1 p2) := by
  unfold choosePivot
  split_ifs
  · exact h1
  · exact h2
  · exact h0

/-- The elements in range that have an index in an interval. -/
def between (a : Nat → T) (r : Range T) (lo hi : Nat) : List T :=
  ((List.range' lo (hi - lo)).map a).filter r.has

theorem between_succ (r : Range T) {lo j : Nat} (h : lo ≤ j) :
    between a r lo (j + 1) = between a r lo j ++ if r.has (a j) then [a j] else [] := by
  unfold between
  rw [Nat.succ_sub h, List.range'_concat, List.map_append, List.filter_append, Nat.one_mul,
    Nat.add_sub_cancel' h, List.map_cons, List.map_nil, List.filter_singleton]
  cases r.has (a j) with
  | true => rfl
  | false => rfl

/-- An interval that has all elements in range has them in the order of the window. -/
theorem filter_seg_eq {r : Range T} {lo hi : Nat} (hlo : lo ≤ hi) (hn : hi ≤ n)
    (hall : ∀ i < n, r.has (a i) = true → lo ≤ i ∧ i < hi) :
    (seg a n).filter r.has = between a r lo hi := by
  have hsplit : List.range n = List.range' 0 lo ++ (List.range' lo (hi - lo) ++
      List.range' hi (n - hi)) := by
    have h1 := @List.range'_append lo (hi - lo) (n - hi) 1
    have h2 := @List.range'_append 0 lo (hi - lo + (n - hi)) 1
    rw [Nat.one_mul, Nat.add_sub_cancel' hlo] at h1
    rw [Nat.one_mul, Nat.zero_add] at h2
    rw [h1, h2, List.range_eq_range']
    congr 1
    omega
  have hnone : ∀ l : List Nat, (∀ i ∈ l, i < n ∧ ¬(lo ≤ i ∧ i < hi)) →
      (l.map a).filter r.has = [] := by
    intro l hl
    refine List.filter_eq_nil_iff.2 fun v hv hhas => ?_
    obtain ⟨i, hi, rfl⟩ := List.mem_map.1 hv
    exact (hl i hi).2 (hall i (hl i hi).1 hhas)
  unfold seg between
  rw [hsplit, List.map_append, List.map_append, List.filter_append, List.filter_append,
    hnone (List.range' 0 lo), hnone (List.range' hi (n - hi)), List.nil_append, List.append_nil]
  · intro i hi
    obtain ⟨hle, hlt⟩ := List.mem_range'_1.1 hi
    omega
  · intro i hi
    obtain ⟨-, hlt⟩ := List.mem_range'_1.1 hi
    omega

/-- The counts of a turn before its loop comes to the index `j`. -/
structure Counted (a : Nat → T) (n : Nat) (r : Range T) (pivot0 : T) (lo j : Nat) (c : Counts) :
    Prop where
  lt : c.numOfLt = ((between a r lo j).filter (· < pivot0)).length
  eq : c.numOfEq = ((between a r lo j).filter (· = pivot0)).length
  gt : c.numOfGt = ((between a r lo j).filter (pivot0 < ·)).length
  bounds : ∀ i, lo ≤ i → i < j → r.has (a i) = true → c.start ≤ i ∧ i < c.stop
  start_le : c.start ≤ j
  stop_le : c.stop ≤ n
  flag : c.isAllPreviousOutOfRange = true → ∀ i, lo ≤ i → i < j → r.has (a i) = false

theorem Counted.countElement {r : Range T} {pivot0 : T} {lo j : Nat} {c : Counts}
    (hw : ∀ i < n, window i = some (a i)) (hj : lo ≤ j) (hjn : j < n)
    (h : Counted a n r pivot0 lo j c) :
    ∃ c', countElement window r pivot0 c j = some c' ∧ Counted a n r pivot0 lo (j + 1) c' := by
  obtain ⟨hlt, heq, hgt, hbounds, hstart, hstop, hflag⟩ := h
  have hprev : ∀ i, lo ≤ i → i < j + 1 → i ≠ j → i < j := fun i _ hi hne => by omega
  unfold MedianBlur.countElement
  rw [hw j hjn, Option.bind_eq_bind, Option.bind_some]
  have hsucc := between_succ (a := a) r hj
  cases hhas : r.has (a j) with
  | false =>
    rw [hhas] at hsucc
    rw [if_neg (by simp), List.append_nil] at hsucc
    refine ⟨c, rfl, hsucc ▸ hlt, hsucc ▸ heq, hsucc ▸ hgt, ?_, by omega, hstop, ?_⟩
    · intro i hi hij hi'
      refine hbounds i hi (hprev i hi hij ?_) hi'
      rintro rfl
      rw [hhas] at hi'
      cases hi'
    · intro hf i hi hij
      by_cases hne : i = j
      · rw [hne, hhas]
      · exact hflag hf i hi (hprev i hi hij hne)
  | true =>
    rw [hhas, if_pos rfl] at hsucc
    refine ⟨_, rfl, ?_, ?_, ?_, ?_, ?_, Nat.succ_le_of_lt hjn, fun hf => absurd hf (by simp)⟩
    · rw [hsucc, List.filter_append, List.length_append, ← hlt]
      by_cases h : a j < pivot0
      · simp [h]
      · simp [h]
    · rw [hsucc, List.filter_append, List.length_append, ← heq]
      rcases lt_trichotomy (a j) pivot0 with h | h | h
      · simp [h, h.ne]
      · simp [h]
      · simp [h, h.ne']
    · rw [hsucc, List.filter_append, List.length_append, ← hgt]
      by_cases h : pivot0 < a j
      · simp [h]
      · simp [h]
    · intro i hi hij hi'
      dsimp only
      refine ⟨?_, hij⟩
      split_ifs with hf
      · -- the first one in range
        by_contra hlt'
        have hnone := hflag hf i hi (by omega)
        rw [hnone] at hi'
        cases hi'
      · by_cases hne : i = j
        · omega
        · exact (hbounds i hi (hprev i hi hij hne) hi').1
    · dsimp only
      split_ifs
      · exact Nat.le_succ j
      · omega

/-- The elements in range keep the rank that is looked for, and lie between `start` and `end`. -/
structure Inv (a : Nat → T) (n : Nat) (s : Search T) : Prop where
  bounds : ∀ i < n, s.range.has (a i) = true → s.start ≤ i ∧ i < s.stop
  stop_le : s.stop ≤ n
  taken : ((seg a n).filter s.range.has).length + s.numOfTaken = n
  median_lt : s.median < ((seg a n).filter s.range.has).length
  nth_eq : nth ((seg a n).filter s.range.has) s.median = nth (seg a n) (n / 2)

theorem has_max {r : Range T} {p : T} (hp : r.has p = true) (v : T) :
    ({ r with max_ := some p } : Range T).has v = (r.has v && decide (v < p)) := by
  obtain ⟨lo, hi⟩ := r
  unfold Range.has at *
  cases hi with
  | none => simp
  | some hi =>
    have hphi : p < hi := by simpa using (Bool.and_eq_true_iff.1 hp).2
    by_cases hv : v < p
    · simp [hv, hv.trans hphi]
    · simp [hv]

theorem has_min {r : Range T} {p : T} (hp : r.has p = true) (v : T) :
    ({ r with min_ := some p } : Range T).has v = (r.has v && decide (p < v)) := by
  obtain ⟨lo, hi⟩ := r
  unfold Range.has at *
  cases lo with
  | none => simp [Bool.and_comm]
  | some lo =>
    have hlop : lo < p := by simpa using (Bool.and_eq_true_iff.1 hp).1
    by_cases hv : p < v
    · simp [hv, hlop.trans hv]
    · simp [hv]

/-- The elements in range. -/
def members (a : Nat → T) (n : Nat) (r : Range T) : List T := (seg a n).filter r.has

theorem mem_members {r : Range T} {i : Nat} (hi : i < n) (h : r.has (a i) = true) :
    a i ∈ members a n r :=
  List.mem_filter.2 ⟨mem_seg.2 ⟨i, hi, rfl⟩, h⟩

/-- A turn counts the elements in range against one of them. -/
theorem turn_eq {s : Search T} (hw : ∀ i < n, window i = some (a i)) (h : Inv a n s) :
    ∃ p ∈ members a n s.range, ∃ c : Counts,
      c.numOfLt = ((members a n s.range).filter (· < p)).length ∧
      c.numOfEq = ((members a n s.range).filter (· = p)).length ∧
      c.numOfGt = ((members a n s.range).filter (p < ·)).length ∧
      (∀ i < n, s.range.has (a i) = true → c.start ≤ i ∧ i < c.stop) ∧ c.stop ≤ n ∧
      turn window (n + 1) s = (if s.median < c.numOfLt then
        some (some { s with
          start := c.start
          stop := c.stop
          isAllPreviousOutOfRange := c.isAllPreviousOutOfRange
          range := { s.range with max_ := some p }
          numOfTaken := s.numOfTaken + c.numOfEq + c.numOfGt }, p)
      else if s.median < c.numOfLt + c.numOfEq then some (none, p)
      else some (some { s with
          start := c.start
          stop := c.stop
          isAllPreviousOutOfRange := c.isAllPreviousOutOfRange
          range := { s.range with min_ := some p }
          median := s.median - c.numOfLt - c.numOfEq
          numOfTaken := s.numOfTaken + c.numOfLt + c.numOfEq }, p)) := by
  obtain ⟨hbounds, hstop, htaken, hmedian, hnth⟩ := h
  obtain ⟨v, hv⟩ := List.exists_mem_of_length_pos (Nat.zero_lt_of_lt hmedian)
  obtain ⟨i, hi, rfl⟩ := mem_seg.1 (List.mem_filter.1 hv).1
  have hhas : s.range.has (a i) = true := (List.mem_filter.1 hv).2
  have hib := hbounds i hi hhas
  -- what the turn finds before it counts
  obtain ⟨lo, hlo, ⟨hlole, hlon⟩, hhaslo, hleast⟩ :=
    seekStart_spec hw (n + 1) ⟨i, hib.1, hi, hhas⟩ (by omega)
  obtain ⟨up, hup, huple, hhasup, hlast⟩ :=
    seekEnd_spec hw (n + 1) hstop ⟨i, hib.2, hhas⟩ (by omega)
  have hloup : lo < up := hlast lo (hbounds lo hlon hhaslo).2 hhaslo
  obtain ⟨m, hm, hmid, hhasmid⟩ := seekMiddle_spec hw (n + 1) ((lo + up) / 2)
    (huple.trans hstop) hloup hhaslo (by omega) (by omega)
  have hpmem := choosePivot_of (P := (· ∈ members a n s.range)) (mem_members hlon hhaslo)
    (mem_members hm hhasmid) (mem_members (i := up - 1) (by omega) hhasup)
  have hall : ∀ i < n, s.range.has (a i) = true → lo ≤ i ∧ i < up := fun i hi hhas =>
    ⟨hleast i (hbounds i hi hhas).1 hhas, hlast i (hbounds i hi hhas).2 hhas⟩
  generalize hp : choosePivot (a lo) (a m) (a (up - 1)) = p at hpmem
  obtain ⟨c, hc, hcounted⟩ := ForLoop.foldlM_range' (s := lo) (n := up - lo)
    (P := Counted a n s.range p lo) (b := ⟨0, 0, 0, lo, up, s.isAllPreviousOutOfRange⟩)
    (f := countElement window s.range p)
    (by
      refine ⟨?_, ?_, ?_, fun i hi hij => absurd hij (not_lt.2 hi), le_rfl, huple.trans hstop,
        fun _ i hi hij => absurd hij (not_lt.2 hi)⟩
      all_goals simp [between])
    (fun j c hj hjup hcounted => hcounted.countElement hw hj (by omega))
  rw [Nat.add_sub_cancel' hloup.le] at hcounted
  have hmembers : members a n s.range = between a s.range lo up :=
    filter_seg_eq hloup.le (huple.trans hstop) hall
  refine ⟨p, hpmem, c, hmembers ▸ hcounted.lt, hmembers ▸ hcounted.eq, hmembers ▸ hcounted.gt,
    fun i hi hhas => hcounted.bounds i (hall i hi hhas).1 (hall i hi hhas).2 hhas,
    hcounted.stop_le, ?_⟩
  unfold turn
  simp only [hlo, hup, hmid, hp, hc, Option.bind_eq_bind, Option.bind_some]

/-- A turn ends with the median, or with fewer elements in range. -/
theorem turn_spec {s : Search T} (hw : ∀ i < n, window i = some (a i)) (h : Inv a n s) :
    (∃ v, turn window (n + 1) s = some (none, v) ∧ nth (seg a n) (n / 2) = some v) ∨
      ∃ s' v, turn window (n + 1) s = some (some s', v) ∧ Inv a n s' ∧
        s.numOfTaken < s'.numOfTaken := by
  obtain ⟨p, hp, c, hlt, heq, hgt, hbounds, hstop, hturn⟩ := turn_eq hw h
  have hhasp : s.range.has p = true := (List.mem_filter.1 hp).2
  have htaken : (members a n s.range).length + s.numOfTaken = n := h.taken
  have hmedian : s.median < (members a n s.range).length := h.median_lt
  have hnth : nth (members a n s.range) s.median = nth (seg a n) (n / 2) := h.nth_eq
  have hlen := length_split (members a n s.range) p
  have hpos : 0 < c.numOfEq := by
    rw [heq]
    exact List.length_pos_of_mem (List.mem_filter.2 ⟨hp, by simp⟩)
  rw [hturn]
  split_ifs with h1 h2
  · -- the elements below the pivot stay
    have hrange : (seg a n).filter ({ s.range with max_ := some p } : Range T).has =
        (members a n s.range).filter (· < p) := by
      unfold members
      rw [List.filter_filter]
      exact List.filter_congr fun v _ => (has_max hhasp v).trans (Bool.and_comm ..)
    refine .inr ⟨_, p, rfl, ⟨?_, hstop, ?_, ?_, ?_⟩, by dsimp only; omega⟩
    · intro i hi hi'
      rw [has_max hhasp] at hi'
      exact hbounds i hi (Bool.and_eq_true_iff.1 hi').1
    · dsimp only
      rw [hrange]
      omega
    · dsimp only
      rw [hrange]
      omega
    · dsimp only
      rw [hrange, ← nth_split_lt _ _ (hlt ▸ h1), hnth]
  · exact .inl ⟨p, rfl, hnth ▸ nth_split_eq _ _ (by omega) (by omega)⟩
  · -- the elements above the pivot stay
    have hrange : (seg a n).filter ({ s.range with min_ := some p } : Range T).has =
        (members a n s.range).filter (p < ·) := by
      unfold members
      rw [List.filter_filter]
      exact List.filter_congr fun v _ => (has_min hhasp v).trans (Bool.and_comm ..)
    refine .inr ⟨_, p, rfl, ⟨?_, hstop, ?_, ?_, ?_⟩, by dsimp only; omega⟩
    · intro i hi hi'
      rw [has_min hhasp] at hi'
      exact hbounds i hi (Bool.and_eq_true_iff.1 hi').1
    · dsimp only
      rw [hrange]
      omega
    · dsimp only
      rw [hrange]
      omega
    · dsimp only
      rw [hrange, hlt, heq, ← nth_split_gt _ _ (by omega), hnth]

theorem search_eq {fuel : Nat} {s : Search T} (hw : ∀ i < n, window i = some (a i))
    (h : Inv a n s) (hfuel : n < s.numOfTaken + fuel) (pivot0 : Option T) :
    search window n fuel s pivot0 = nth (seg a n) (n / 2) := by
  have htaken := h.taken
  have hmedian := h.median_lt
  induction fuel generalizing s pivot0 with
  | zero => omega
  | succ fuel ih =>
    unfold search
    rw [if_pos (by omega)]
    rcases turn_spec hw h with ⟨v, hturn, hv⟩ | ⟨s', v, hturn, hs', hlt⟩
    · rw [hturn]
      exact hv.symm
    · rw [hturn]
      exact ih hs' (by omega) (some v) hs'.taken hs'.median_lt

/-- The loop of the general kernel ends with the element of the middle rank. -/
theorem median_eq (hw : ∀ i < n, window i = some (a i)) (hn : 0 < n) :
    median window n = nth (seg a n) (n / 2) := by
  have hall : (seg a n).filter (⟨none, none⟩ : Range T).has = seg a n :=
    List.filter_eq_self.2 fun v _ => rfl
  refine search_eq hw ⟨fun i hi _ => ⟨Nat.zero_le i, hi⟩, le_rfl, ?_, ?_, ?_⟩ ?_ none
  · rw [hall, length_seg]
    rfl
  · rw [hall, length_seg]
    exact Nat.div_lt_self hn (by norm_num)
  · rw [hall]
  · dsimp only
    omega

/-! ## The launch -/

namespace Call

variable {call : Call T} {shared : Nat → T}

/-- An element of the images. -/
def Element (call : Call T) (k : Cell) : Prop :=
  (k.batchIdx < call.batches ∧ k.channel < call.ch) ∧ k.x < call.cols ∧ k.y < call.rows

/-- The element of a window, with the pixels at the edge replicated. -/
def element (call : Call T) (k : Cell) (idx : Nat) : T :=
  call.src ⟨k.batchIdx, clampTo call.rows (k.y - (call.kHeight / 2 : Nat) + (idx / call.kWidth : Nat)),
    clampTo call.cols (k.x - (call.kWidth / 2 : Nat) + (idx % call.kWidth : Nat)), k.channel⟩

/-- The element of the middle rank of the window around a pixel. -/
def middle (call : Call T) (k : Cell) : Option T :=
  nth (seg (call.element k) (call.kWidth * call.kHeight)) (call.kWidth * call.kHeight / 2)

/-- Every pixel has a thread of the launch. -/
def Covered (call : Call T) : Prop := ∀ k, call.Element k →
  k.x < divUp call.cols call.blockSize * call.blockSize ∧
    k.y < divUp call.rows call.blockSize * call.blockSize

/-- Both kernels find the median at every pixel, and the launched one leaves it there. -/
structure Medians (call : Call T) (shared : Nat → T) : Prop where
  found : ∀ k p, call.Element k → p.x = k.x → p.y = k.y → ∃ v, call.middle k = some v ∧
    call.medianAt shared k.batchIdx k.channel p = some v ∧
    call.smallMedianAt shared k.batchIdx k.channel p = some v
  ends : ∃ stores, call.stores shared = some stores
  written : ∀ dst m, call.Leaves shared dst m → ∀ k, call.Element k → call.middle k = some (m k)

omit [LinearOrder T] in
theorem windowAt_eq {k : Cell} {p : Position} (hk : call.Element k) (hx : p.x = k.x)
    (hy : p.y = k.y) (blockSize : Nat) {idx : Nat} (hidx : idx < call.kWidth * call.kHeight) :
    call.windowAt blockSize shared k.batchIdx k.channel p idx = some (call.element k idx) := by
  unfold windowAt fetchAs1d
  dsimp only
  rw [if_pos hidx, fetch_eq (Nat.zero_lt_of_lt hk.2.2) (Nat.zero_lt_of_lt hk.2.1), hx, hy]
  rfl

theorem medianAt_eq {k : Cell} {p : Position} (hk : call.Element k) (hx : p.x = k.x)
    (hy : p.y = k.y) (hpos : 0 < call.kWidth * call.kHeight) :
    call.medianAt shared k.batchIdx k.channel p = call.middle k :=
  median_eq (fun _ hi => windowAt_eq hk hx hy 32 hi) hpos

theorem smallMedianAt_eq {k : Cell} {p : Position} (hk : call.Element k) (hx : p.x = k.x)
    (hy : p.y = k.y) (hpos : 0 < call.kWidth * call.kHeight) :
    call.smallMedianAt shared k.batchIdx k.channel p = call.middle k :=
  medianForSmallKernel_eq (fun _ hi => windowAt_eq hk hx hy 16 hi) hpos shared

theorem middle_eq_some (hpos : 0 < call.kWidth * call.kHeight) (k : Cell) :
    ∃ v, call.middle k = some v :=
  nth_eq_some (by rw [length_seg]; exact Nat.div_lt_self hpos (by norm_num))

theorem mapM_eq_some {α β : Type} {f : α → Option β} {g : α → β} {l : List α}
    (h : ∀ x ∈ l, f x = some (g x)) : l.mapM f = some (l.map g) := by
  induction l with
  | nil => rfl
  | cons x l ih =>
    rw [List.mapM_cons, h x List.mem_cons_self, ih fun y hy => h y (List.mem_cons_of_mem x hy)]
    rfl

/-- Where a thread is. -/
def position (call : Call T) (t : Thread) : Position :=
  ⟨t.blockIdx.1 * call.blockSize, t.blockIdx.2.1 * call.blockSize, t.threadIdx.1, t.threadIdx.2⟩

/-- The pixel of a thread. -/
def cellOf (call : Call T) (t : Thread) : Cell :=
  ⟨t.blockIdx.2.2 / call.ch, (call.position t).y, (call.position t).x, t.blockIdx.2.2 % call.ch⟩

/-- The threads of the launch. -/
def threads (call : Call T) : List Thread :=
  launch (divUp call.cols call.blockSize) (divUp call.rows call.blockSize)
    (call.ch * call.batches) call.blockSize call.blockSize

omit [LinearOrder T] in
theorem element_cellOf {t : Thread} (ht : t ∈ call.threads) (hx : (call.position t).x < call.cols)
    (hy : (call.position t).y < call.rows) : call.Element (call.cellOf t) := by
  obtain ⟨⟨-, -, hz⟩, -⟩ := mem_launch.1 ht
  have hch : 0 < call.ch := Nat.pos_of_mul_pos_right (Nat.zero_lt_of_lt hz)
  exact ⟨⟨Nat.div_lt_of_lt_mul hz, Nat.mod_lt _ hch⟩, hx, hy⟩

omit [LinearOrder T] in
/-- A pixel has a thread if it lies in the extent of the grid. -/
theorem exists_thread_iff {k : Cell} (hk : call.Element k) :
    (∃ t ∈ call.threads, call.cellOf t = k) ↔
      k.x < divUp call.cols call.blockSize * call.blockSize ∧
        k.y < divUp call.rows call.blockSize * call.blockSize := by
  have hbound : ∀ {i t n : Nat}, i < n → t < call.blockSize →
      i * call.blockSize + t < n * call.blockSize := fun hi ht =>
    lt_of_lt_of_le (Nat.add_lt_add_left ht _) (Nat.succ_mul .. ▸ Nat.mul_le_mul_right _ hi)
  constructor
  · rintro ⟨t, ht, rfl⟩
    obtain ⟨⟨hbx, hby, -⟩, htx, hty⟩ := mem_launch.1 ht
    exact ⟨hbound hbx htx, hbound hby hty⟩
  · rintro ⟨hx, hy⟩
    obtain ⟨⟨hb, hc⟩, -, -⟩ := hk
    have hbs : 0 < call.blockSize := Nat.pos_of_mul_pos_left (Nat.zero_lt_of_lt hx)
    refine ⟨⟨(k.x / call.blockSize, k.y / call.blockSize, call.ch * k.batchIdx + k.channel),
      (k.x % call.blockSize, k.y % call.blockSize)⟩, mem_launch.2 ⟨⟨?_, ?_, ?_⟩, Nat.mod_lt _ hbs,
        Nat.mod_lt _ hbs⟩, ?_⟩
    · exact (Nat.div_lt_iff_lt_mul hbs).2 hx
    · exact (Nat.div_lt_iff_lt_mul hbs).2 hy
    · exact lt_of_lt_of_le (Nat.add_lt_add_left hc _) (Nat.mul_succ .. ▸ Nat.mul_le_mul_left _ hb)
    · have hpos : 0 < call.ch := Nat.zero_lt_of_lt hc
      have hdiv : (call.ch * k.batchIdx + k.channel) / call.ch = k.batchIdx := by
        rw [Nat.mul_add_div hpos, Nat.div_eq_of_lt hc, Nat.add_zero]
      have hmod : (call.ch * k.batchIdx + k.channel) % call.ch = k.channel := by
        rw [Nat.mul_add_mod, Nat.mod_eq_of_lt hc]
      unfold cellOf position Position.x Position.y
      dsimp only
      rw [hdiv, hmod, Nat.div_add_mod', Nat.div_add_mod']

/-- What the launch stores: at every pixel with a thread the median. -/
theorem stores_eq (hpos : 0 < call.kWidth * call.kHeight) (shared : Nat → T) :
    ∃ stores, call.stores shared = some stores ∧ ∀ s : Cell × T,
      s ∈ stores ↔ call.Element s.1 ∧ (∃ t ∈ call.threads, call.cellOf t = s.1) ∧
        call.middle s.1 = some s.2 := by
  have hthread : ∀ t ∈ call.threads, call.threadStore shared t = some
      (if (call.position t).x < call.cols ∧ (call.position t).y < call.rows then
        (call.middle (call.cellOf t)).map (call.cellOf t, ·) else none) := by
    intro t ht
    unfold threadStore
    dsimp only
    change (if (call.position t).x < call.cols ∧ (call.position t).y < call.rows then _ else _) = _
    split_ifs with hin hsmall
    · have hk := element_cellOf ht hin.1 hin.2
      obtain ⟨v, hv⟩ := middle_eq_some hpos (call.cellOf t)
      have hvalue : call.smallMedianAt shared (call.cellOf t).batchIdx (call.cellOf t).channel
          (call.position t) = some v := (smallMedianAt_eq hk rfl rfl hpos).trans hv
      rw [hv]
      exact congrArg (Option.map _) hvalue
    · have hk := element_cellOf ht hin.1 hin.2
      obtain ⟨v, hv⟩ := middle_eq_some hpos (call.cellOf t)
      have hvalue : call.medianAt shared (call.cellOf t).batchIdx (call.cellOf t).channel
          (call.position t) = some v := (medianAt_eq hk rfl rfl hpos).trans hv
      rw [hv]
      exact congrArg (Option.map _) hvalue
    · rfl
  have hstores := mapM_eq_some hthread
  refine ⟨_, congrArg (Option.map _) hstores, fun s => ?_⟩
  rw [List.mem_filterMap]
  constructor
  · rintro ⟨o, ho, hs⟩
    obtain ⟨t, ht, rfl⟩ := List.mem_map.1 ho
    have hs' : (if (call.position t).x < call.cols ∧ (call.position t).y < call.rows then
      (call.middle (call.cellOf t)).map (call.cellOf t, ·) else none) = some s := hs
    split_ifs at hs' with hin
    obtain ⟨v, hv, rfl⟩ := Option.map_eq_some_iff.1 hs'
    exact ⟨element_cellOf ht hin.1 hin.2, ⟨t, ht, rfl⟩, hv⟩
  · rintro ⟨hk, ⟨t, ht, hcell⟩, hv⟩
    refine ⟨some s, List.mem_map.2 ⟨t, ht, ?_⟩, rfl⟩
    have hin : (call.position t).x < call.cols ∧ (call.position t).y < call.rows := by
      rw [← hcell] at hk
      exact ⟨hk.2.1, hk.2.2⟩
    rw [if_pos hin, hcell, hv]
    rfl

end Call

/-- A pixel without a thread keeps what was there. -/
theorem covered_of_medians [Nontrivial T] {call : Call T} {shared : Nat → T}
    (hpos : 0 < call.kWidth * call.kHeight) (h : call.Medians shared) : call.Covered := by
  obtain ⟨stores, hstores, hmem⟩ := Call.stores_eq hpos shared
  intro k hk
  obtain ⟨v, hv⟩ := Call.middle_eq_some hpos k
  obtain ⟨w, hne⟩ := exists_ne v
  have hwritten := h.written (fun _ => w) _ ⟨stores, stores, hstores, .refl _, rfl⟩ k hk
  refine (Call.exists_thread_iff hk).1 ?_
  by_contra hnone
  have hnot : ∀ s ∈ stores, s.1 ≠ k := by
    rintro s hs rfl
    exact hnone ((hmem s).1 hs).2.1
  rw [store_of_notMem hnot, hv] at hwritten
  exact hne (Option.some.inj hwritten).symm

theorem medians_of_covered {call : Call T} {shared : Nat → T}
    (hpos : 0 < call.kWidth * call.kHeight) (hcov : call.Covered) : call.Medians shared := by
  obtain ⟨stores, hstores, hmem⟩ := Call.stores_eq hpos shared
  refine ⟨fun k p hk hx hy => ?_, ⟨stores, hstores⟩, ?_⟩
  · obtain ⟨v, hv⟩ := Call.middle_eq_some hpos k
    exact ⟨v, hv, (Call.medianAt_eq hk hx hy hpos).trans hv,
      (Call.smallMedianAt_eq hk hx hy hpos).trans hv⟩
  · rintro dst m ⟨stores', order, hstores', hperm, rfl⟩ k hk
    obtain rfl := Option.some.inj (hstores.symm.trans hstores')
    obtain ⟨v, hv⟩ := Call.middle_eq_some hpos k
    have hthread := (Call.exists_thread_iff hk).2 (hcov k hk)
    rw [hv, store_of_mem ⟨(k, v), hperm.mem_iff.2 ((hmem _).2 ⟨hk, hthread, hv⟩), rfl⟩]
    intro s hs hsk
    have hs' := ((hmem s).1 (hperm.mem_iff.1 hs)).2.2
    rw [hsk, hv] at hs'
    exact (Option.some.inj hs').symm

omit [LinearOrder T] in
/-- Up to where `float` is exact, every pixel has a thread. -/
theorem covered_of_le {call : Call T} (hcols : call.cols ≤ 2 ^ 24) (hrows : call.rows ≤ 2 ^ 24) :
    call.Covered := by
  have hbs : 0 < call.blockSize ∧ call.blockSize ≤ 2 ^ 24 := by
    unfold Call.blockSize
    split_ifs
    · exact ⟨by norm_num, by norm_num⟩
    · exact ⟨by norm_num, by norm_num⟩
  exact fun k hk => ⟨hk.2.1.trans_le (le_divUp_mul hcols hbs.1 hbs.2),
    hk.2.2.trans_le (le_divUp_mul hrows hbs.1 hbs.2)⟩

/-- A window of nine on an image of as many pixels. -/
def ninePixels : Call Nat where
  src := fun k => (k.y * 7 + k.x * 5) % 8
  batches := 1
  rows := 3
  cols := 3
  ch := 1
  kWidth := 3
  kHeight := 3
  sizeofT := 1

/-- An image whose width `float` rounds down. -/
def wide : Call Nat where
  src := fun _ => 0
  batches := 1
  rows := 1
  cols := 16777217
  ch := 1
  kWidth := 1
  kHeight := 1
  sizeofT := 1

end Cvcuda.MedianBlur
