import CvCuda.Cvcuda.PillowResize

/-! # The taps and the rows of a pass

* `window_spec`: what the window of an output index has.
* `writeRow_apply`: what a thread writes to its row.
* `filled_of_direct`, `filled_of_shared`: what a launch leaves, in whatever order its threads come.
* `windows_exact`: both for the passes that `pillow_resize_v2` makes.
-/

namespace Cvcuda.PillowResize

open Kernel

variable {filter : Filter} {inSize outSize : Nat}

/-! ## Windows -/

theorem Filter.half_le_support (filter : Filter) : 1 / 2 ≤ filter.support := by
  cases filter <;> norm_num [Filter.support]

namespace Pass

/-- The taps of an output index are some, lie in the input, fit the row and miss no index within the
support. -/
structure Exact (p : Pass) (xx : Nat) : Prop where
  nonempty : 0 < (p.window xx).xmax
  first : 0 ≤ (p.window xx).xmin
  last : (p.window xx).xmin + (p.window xx).xmax ≤ p.inSize
  row : (p.window xx).xmax ≤ p.kSize
  complete : ∀ j : ℤ, 0 ≤ j → j < p.inSize → |j + 1 / 2 - p.center xx| < p.support →
    (p.window xx).xmin ≤ j ∧ j < (p.window xx).xmin + (p.window xx).xmax

/-- Truncating and then clamping is rounding down and then clamping. -/
theorem clamp_trunc (q : ℚ) : (if trunc q < 0 then 0 else trunc q) = max 0 ⌊q⌋ := by
  unfold trunc
  by_cases hq : 0 ≤ q
  · have hfloor : 0 ≤ ⌊q⌋ := Int.floor_nonneg.2 hq
    rw [if_pos hq, if_neg (by omega), max_eq_right hfloor]
  · have hceil : ⌈q⌉ ≤ 0 := Int.ceil_le.2 (by exact_mod_cast (not_le.1 hq).le)
    have hfloor : ⌊q⌋ < 0 := Int.floor_lt.2 (by exact_mod_cast not_le.1 hq)
    rw [if_neg hq, max_eq_left hfloor.le]
    split <;> omega

/-- The ends of a window, where the upper one is positive. -/
theorem window_eq {p : Pass} {xx : Nat} (h : 0 ≤ p.center xx + p.support + 1 / 2) :
    p.window xx = ⟨max 0 ⌊p.center xx - p.support + 1 / 2⌋,
      min (p.inSize : ℤ) ⌊p.center xx + p.support + 1 / 2⌋ -
        max 0 ⌊p.center xx - p.support + 1 / 2⌋⟩ := by
  have hmax : trunc (p.center xx + p.support + 1 / 2) = ⌊p.center xx + p.support + 1 / 2⌋ :=
    if_pos h
  unfold window
  dsimp only
  rw [clamp_trunc, hmax]
  congr 2
  split <;> omega

/-- How large the quantities of a pass are. -/
structure Sized (p : Pass) : Prop where
  scale : 0 < p.scale
  half : 1 / 2 ≤ p.support
  half_scale : p.scale / 2 ≤ p.support
  center : ∀ xx, xx < p.outSize → 0 < p.center xx ∧ p.center xx + p.scale / 2 ≤ p.inSize
  kSize : (p.kSize : ℤ) = 2 * ⌈p.support⌉ + 1

theorem exact_of_sized {p : Pass} (h : p.Sized) {xx : Nat} (hxx : xx < p.outSize) :
    p.Exact xx := by
  obtain ⟨hcenter, hend⟩ := h.center xx hxx
  have hscale := h.scale
  have hhalf := h.half
  set a := p.center xx - p.support + 1 / 2 with ha
  set b := p.center xx + p.support + 1 / 2 with hb
  have hone : 1 ≤ ⌊b⌋ := Int.le_floor.2 (by push_cast; linarith)
  have hlow : ⌊a⌋ < p.inSize := Int.floor_lt.2 (by push_cast; linarith)
  have hstep : ⌊a⌋ + 1 ≤ ⌊b⌋ := by
    rw [← Int.floor_add_one]
    exact Int.floor_le_floor (by linarith)
  have hlen : ⌊b⌋ < ⌊a⌋ + 1 + 2 * ⌈p.support⌉ := by
    have hceil := Int.le_ceil p.support
    have hfloor := Int.lt_floor_add_one a
    exact Int.floor_lt.2 (by push_cast; linarith)
  have hin : (0 : ℚ) < p.inSize := by linarith
  have hin : 0 < p.inSize := by exact_mod_cast hin
  have hw := @window_eq p xx (by linarith)
  rw [← ha, ← hb] at hw
  have hk := h.kSize
  constructor
  all_goals rw [hw]; dsimp only
  · omega
  · omega
  · omega
  · omega
  · intro j hj hjin hdist
    obtain ⟨hleft, hright⟩ := abs_lt.1 hdist
    have hmin : ⌊a⌋ < j + 1 := Int.floor_lt.2 (by push_cast; linarith)
    have hmax : j + 1 ≤ ⌊b⌋ := Int.le_floor.2 (by push_cast; linarith)
    omega

end Pass

theorem sized_pass (filter : Filter) (hin : 0 < inSize) (hout : 0 < outSize) :
    (pass filter inSize outSize).Sized := by
  have hinQ : (0 : ℚ) < inSize := by exact_mod_cast hin
  have houtQ : (0 : ℚ) < outSize := by exact_mod_cast hout
  have hscale : (0 : ℚ) < (inSize : ℚ) / outSize := div_pos hinQ houtQ
  have hsupport := filter.half_le_support
  have hone : 1 ≤ if (inSize : ℚ) / outSize < 1 then 1 else (inSize : ℚ) / outSize := by
    split_ifs with h
    · exact le_rfl
    · exact not_lt.1 h
  have hle : (inSize : ℚ) / outSize ≤
      if (inSize : ℚ) / outSize < 1 then 1 else (inSize : ℚ) / outSize := by
    split_ifs with h
    · exact h.le
    · exact le_rfl
  constructor
  all_goals simp only [pass, Pass.center]
  · exact hscale
  · nlinarith
  · nlinarith
  · intro xx hxx
    have hxx : (xx : ℚ) + 1 ≤ outSize := by exact_mod_cast hxx
    have hend : ((xx : ℚ) + 1) * (inSize / outSize) ≤ inSize := by
      rw [mul_div_assoc', div_le_iff₀ houtQ, mul_comm]
      exact mul_le_mul_of_nonneg_left hxx hinQ.le
    constructor
    · push_cast
      positivity
    · push_cast
      linarith
  · have hpos : 0 ≤ ⌈filter.support *
        if (inSize : ℚ) / outSize < 1 then 1 else (inSize : ℚ) / outSize⌉ :=
      Int.ceil_nonneg (by positivity)
    push_cast
    omega

namespace Pass

variable (p : Pass) (weights : ℚ → ℚ) (normalizeCoeff : Bool)

/-! ## Rows -/

/-- `ww` after the first loop. -/
def total (xx : Nat) : ℚ :=
  (List.range' 0 (p.window xx).xmax.toNat).foldl (fun ww x => ww + p.weight weights xx x) 0

/-- The entry of a row. -/
def coefficient (xx i : Nat) : ℚ :=
  let val := if i < (p.window xx).xmax.toNat then
    if 1 / 100000 < |p.total weights xx| then p.weight weights xx i / p.total weights xx
    else p.weight weights xx i
  else 0
  if normalizeCoeff then normalize val else val

variable {p weights normalizeCoeff}

theorem foldl_weights (xx base : Nat) (l : List Nat) (m : Nat → ℚ) (ww : ℚ) :
    l.foldl (fun (s : (Nat → ℚ) × ℚ) x =>
      (Function.update s.1 (base + x) (p.weight weights xx x), s.2 + p.weight weights xx x))
      (m, ww) =
      (l.foldl (fun m x => Function.update m (base + x) (p.weight weights xx x)) m,
        l.foldl (fun ww x => ww + p.weight weights xx x) ww) := by
  induction l generalizing m ww with
  | nil => rfl
  | cons x l ih => exact ih _ _

theorem update_ite {c : Prop} [Decidable c] (m : Nat → ℚ) (k : Nat) (v : ℚ) :
    (if c then Function.update m k v else m) = Function.update m k (if c then v else m k) := by
  split
  · rfl
  · rw [Function.update_eq_self]

/-- The loops before the entries become integers. -/
theorem sweeps_apply {n kSize : Nat} (h : n ≤ kSize) (base : Nat) (m : Nat → ℚ) (k : Nat)
    (w : Nat → ℚ) (ww : ℚ) :
    (List.range' n (kSize - n)).foldl (fun m x => Function.update m (base + x) 0)
      ((List.range' 0 n).foldl (fun m x => Function.update m (base + x)
          (if 1 / 100000 < |ww| then m (base + x) / ww else m (base + x)))
        ((List.range' 0 n).foldl (fun m x => Function.update m (base + x) (w x)) m)) k =
      if base ≤ k ∧ k < base + kSize then
        if k - base < n then if 1 / 100000 < |ww| then w (k - base) / ww else w (k - base) else 0
      else m k := by
  rw [foldl_sweep (fun _ _ => 0), foldl_sweep (fun _ v => if 1 / 100000 < |ww| then v / ww else v),
    foldl_sweep (fun x _ => w x)]
  by_cases hk : base ≤ k ∧ k < base + kSize
  · rw [if_pos hk]
    by_cases hn : k - base < n
    · have htap : base + 0 ≤ k ∧ k < base + 0 + n := by omega
      rw [if_neg (by omega)]
      simp only [if_pos htap, if_pos hn]
    · rw [if_pos (by omega), if_neg hn]
  · have htap : ¬(base + 0 ≤ k ∧ k < base + 0 + n) := by omega
    rw [if_neg hk, if_neg (by omega), if_neg htap, if_neg htap]

theorem writeRow_apply {xx : Nat} (h : (p.window xx).xmax ≤ p.kSize) (base : Nat) (m : Nat → ℚ)
    (k : Nat) : p.writeRow weights normalizeCoeff xx base m k =
      if base ≤ k ∧ k < base + p.kSize then p.coefficient weights normalizeCoeff xx (k - base)
      else m k := by
  have hrow : (p.window xx).xmax.toNat ≤ p.kSize := by omega
  unfold writeRow coefficient
  simp only [foldl_weights, update_ite]
  cases normalizeCoeff with
  | false =>
    simp only [Bool.false_eq_true, if_false]
    exact sweeps_apply hrow base m k (p.weight weights xx) (p.total weights xx)
  | true =>
    simp only [if_true]
    rw [foldl_sweep (fun _ v => normalize v)]
    have hsweeps := sweeps_apply hrow base m k (p.weight weights xx) (p.total weights xx)
    by_cases hk : base ≤ k ∧ k < base + p.kSize
    · rw [if_pos hk] at hsweeps ⊢
      rw [if_pos (by omega)]
      exact congrArg normalize hsweeps
    · rw [if_neg hk] at hsweeps ⊢
      rw [if_neg (by omega)]
      exact hsweeps

/-! ## Launches -/

variable (p weights normalizeCoeff)

def bound (c : Nat) : ℤ := if c % 2 = 0 then (p.window (c / 2)).xmin else (p.window (c / 2)).xmax

/-- The rows of some output indices are in the tables. -/
structure Filled (rows : Nat → Prop) (tables tables' : Tables) : Prop where
  bounds : Wrote (fun c => rows (c / 2)) p.bound tables.bounds tables'.bounds
  kk : Wrote (fun k => rows (k / p.kSize))
    (fun k => p.coefficient weights normalizeCoeff (k / p.kSize) (k % p.kSize)) tables.kk tables'.kk

/-- Rows hold their taps. -/
structure Rows : Prop where
  pos : 0 < p.kSize
  taps : ∀ xx, xx < p.outSize → (p.window xx).xmax ≤ p.kSize

variable {p weights normalizeCoeff}

theorem Filled.unique {rows : Nat → Prop} {tables a b : Tables}
    (ha : p.Filled weights normalizeCoeff rows tables a)
    (hb : p.Filled weights normalizeCoeff rows tables b) : a = b := by
  cases a
  cases b
  exact congrArg₂ Tables.mk (ha.bounds.unique hb.bounds) (ha.kk.unique hb.kk)

theorem writes_bounds (xx : Nat) :
    Writes (fun m => if xx < p.outSize then p.writeBounds xx m else m)
      (fun c => c / 2 = xx ∧ xx < p.outSize) p.bound := by
  intro m c
  dsimp only
  unfold bound writeBounds
  constructor
  · rintro ⟨rfl, hxx⟩
    rw [if_pos hxx]
    rcases Nat.mod_two_eq_zero_or_one c with hc | hc
    · have hne : c ≠ c / 2 * 2 + 1 := by omega
      have heq : c / 2 * 2 = c := by omega
      rw [if_pos hc, Function.update_of_ne hne, heq, Function.update_self]
    · have heq : c / 2 * 2 + 1 = c := by omega
      rw [if_neg (by omega), heq, Function.update_self]
  · intro hnot
    split
    · have hne : c / 2 ≠ xx := fun h => hnot ⟨h, ‹_›⟩
      rw [Function.update_of_ne (by omega), Function.update_of_ne (by omega)]
    · rfl

variable (weights normalizeCoeff) in
/-- A row of the memory, `offset` rows after the first of the tables. -/
theorem writes_row (h : p.Rows) (offset row : Nat) :
    Writes (fun m => if offset + row < p.outSize then
        p.writeRow weights normalizeCoeff (offset + row) (row * p.kSize) m else m)
      (fun k => k / p.kSize = row ∧ offset + row < p.outSize)
      (fun k => p.coefficient weights normalizeCoeff (offset + k / p.kSize) (k % p.kSize)) := by
  intro m k
  dsimp only
  have hcell : row * p.kSize ≤ k ∧ k < row * p.kSize + p.kSize ↔ k / p.kSize = row := by
    rw [Nat.div_eq_iff h.pos]
    have := h.pos
    omega
  constructor
  · rintro ⟨hk, hrow⟩
    have hrest : k - row * p.kSize = k % p.kSize := by
      rw [← hk, Nat.mod_eq_sub_div_mul]
    rw [if_pos hrow, writeRow_apply (h.taps _ hrow), if_pos (hcell.2 hk), hrest, hk]
  · intro hnot
    split
    · rw [writeRow_apply (h.taps _ ‹_›), if_neg fun hin => hnot ⟨hcell.1 hin, ‹_›⟩]
    · rfl

theorem mem_threads {grid : Nat} {t : Nat × Nat} :
    t ∈ threads grid ↔ t.1 < grid ∧ t.2 < coefBlock := by
  simp only [threads, List.mem_flatMap, List.mem_map, List.mem_range]
  constructor
  · rintro ⟨b, hb, l, hl, rfl⟩
    exact ⟨hb, hl⟩
  · rintro ⟨hb, hl⟩
    exact ⟨_, hb, _, hl, rfl⟩

/-- An output index has one thread. -/
theorem exists_thread {grid xx : Nat} :
    (∃ t ∈ threads grid, xx = t.1 * coefBlock + t.2) ↔ xx < grid * coefBlock := by
  constructor
  · rintro ⟨t, ht, rfl⟩
    have := mem_threads.1 ht
    unfold coefBlock at *
    omega
  · intro h
    refine ⟨(xx / coefBlock, xx % coefBlock), mem_threads.2 ?_, ?_⟩
    all_goals
      unfold coefBlock at *
      dsimp only
      omega

section
variable (p weights normalizeCoeff)

theorem direct_bounds (order : List (Nat × Nat)) (tables : Tables) :
    (order.foldl (fun tables t => p.threadDirect weights normalizeCoeff t tables) tables).bounds =
      order.foldl (fun m t => if t.1 * coefBlock + t.2 < p.outSize then
        p.writeBounds (t.1 * coefBlock + t.2) m else m) tables.bounds := by
  refine (List.foldl_hom Tables.bounds fun tables t => ?_).symm
  unfold threadDirect
  dsimp only
  split <;> rfl

theorem direct_kk (order : List (Nat × Nat)) (tables : Tables) :
    (order.foldl (fun tables t => p.threadDirect weights normalizeCoeff t tables) tables).kk =
      order.foldl (fun m t => if 0 + (t.1 * coefBlock + t.2) < p.outSize then
        p.writeRow weights normalizeCoeff (0 + (t.1 * coefBlock + t.2))
          ((t.1 * coefBlock + t.2) * p.kSize) m else m) tables.kk := by
  refine (List.foldl_hom Tables.kk fun tables t => ?_).symm
  unfold threadDirect
  dsimp only
  rw [Nat.zero_add, Nat.add_mul]
  split <;> rfl

end

/-- What a launch without shared memory leaves. -/
theorem filled_of_direct (h : p.Rows) {grid : Nat} {tables tables' : Tables}
    (hd : p.Direct weights normalizeCoeff grid tables tables') :
    p.Filled weights normalizeCoeff (fun xx => xx < p.outSize ∧ xx < grid * coefBlock) tables
      tables' := by
  obtain ⟨order, hperm, rfl⟩ := hd
  have hrows : ∀ xx, (∃ t ∈ order, xx = t.1 * coefBlock + t.2 ∧ t.1 * coefBlock + t.2 < p.outSize) ↔
      xx < p.outSize ∧ xx < grid * coefBlock := by
    intro xx
    rw [← exists_thread]
    constructor
    · rintro ⟨t, ht, rfl, hlt⟩
      exact ⟨hlt, t, hperm.mem_iff.1 ht, rfl⟩
    · rintro ⟨hlt, t, ht, rfl⟩
      exact ⟨t, hperm.mem_iff.2 ht, rfl, hlt⟩
  constructor
  · rw [direct_bounds]
    have hfold := Writes.foldl
      (fun t : Nat × Nat => writes_bounds (p := p) (t.1 * coefBlock + t.2)) order tables.bounds
    exact Wrote.congr hfold (fun c => hrows (c / 2)) fun _ _ => rfl
  · rw [direct_kk]
    have hfold := Writes.foldl (fun t : Nat × Nat =>
      writes_row weights normalizeCoeff h 0 (t.1 * coefBlock + t.2)) order tables.kk
    refine Wrote.congr hfold (fun k => ?_) fun k _ => ?_
    · rw [← hrows]
      simp only [Nat.zero_add]
    · rw [Nat.zero_add]

theorem shared_bounds (b : Nat) (order : List Nat) (s : (Nat → ℤ) × (Nat → ℚ)) :
    (order.foldl (p.threadShared weights normalizeCoeff b) s).1 =
      order.foldl (fun m l => if b * coefBlock + l < p.outSize then
        p.writeBounds (b * coefBlock + l) m else m) s.1 := by
  refine (List.foldl_hom Prod.fst fun s l => ?_).symm
  unfold threadShared
  dsimp only
  split <;> rfl

theorem shared_smem (b : Nat) (order : List Nat) (s : (Nat → ℤ) × (Nat → ℚ)) :
    (order.foldl (p.threadShared weights normalizeCoeff b) s).2 =
      order.foldl (fun m l => if b * coefBlock + l < p.outSize then
        p.writeRow weights normalizeCoeff (b * coefBlock + l) (l * p.kSize) m else m) s.2 := by
  refine (List.foldl_hom Prod.snd fun s l => ?_).symm
  unfold threadShared
  dsimp only
  split <;> rfl

theorem writes_copy (b : Nat) (smem : Nat → ℚ) (localId : Nat) :
    Writes (fun kkOut => p.copyShared b smem kkOut localId)
      (fun k => ∃ j ∈ List.range p.kSize, k = b * coefBlock * p.kSize + (localId + j * coefBlock) ∧
        localId + j * coefBlock < (p.outSize - b * coefBlock) * p.kSize ∧
        localId + j * coefBlock < coefBlock * p.kSize)
      (fun k => smem (k - b * coefBlock * p.kSize)) := by
  unfold copyShared
  dsimp only
  refine Writes.foldl (fun j => ?_) _
  intro m k
  dsimp only
  constructor
  · rintro ⟨rfl, hlt⟩
    rw [if_pos hlt, Function.update_self, Nat.add_sub_cancel_left]
  · intro hnot
    split
    · exact Function.update_of_ne (fun hk => hnot ⟨hk, ‹_›⟩) _ _
    · rfl

/-- The threads of a block copy its rows. -/
theorem copied_iff (h : 0 < p.kSize) {b k : Nat} :
    (∃ l ∈ List.range coefBlock, ∃ j ∈ List.range p.kSize,
      k = b * coefBlock * p.kSize + (l + j * coefBlock) ∧
        l + j * coefBlock < (p.outSize - b * coefBlock) * p.kSize ∧
        l + j * coefBlock < coefBlock * p.kSize) ↔
      k / p.kSize / coefBlock = b ∧ k / p.kSize < p.outSize := by
  have hdiv : ∀ i, (b * coefBlock * p.kSize + i) / p.kSize = b * coefBlock + i / p.kSize := by
    intro i
    rw [Nat.add_comm, Nat.add_mul_div_right _ _ h, Nat.add_comm]
  constructor
  · rintro ⟨l, -, j, -, rfl, hout, hin⟩
    have hrow := (Nat.div_lt_iff_lt_mul h).2 hin
    have hlast := (Nat.div_lt_iff_lt_mul h).2 hout
    rw [hdiv]
    generalize (l + j * coefBlock) / p.kSize = r at hrow hlast ⊢
    unfold coefBlock at *
    omega
  · rintro ⟨hb, hk⟩
    have hle : b * coefBlock * p.kSize ≤ k := by
      refine (Nat.le_div_iff_mul_le h).1 ?_
      unfold coefBlock at *
      omega
    obtain ⟨i, rfl⟩ := Nat.exists_eq_add_of_le hle
    rw [hdiv] at hb hk
    have hin : i < coefBlock * p.kSize := by
      refine (Nat.div_lt_iff_lt_mul h).1 ?_
      unfold coefBlock at *
      omega
    have hout : i < (p.outSize - b * coefBlock) * p.kSize := by
      refine (Nat.div_lt_iff_lt_mul h).1 ?_
      omega
    have hi : i % coefBlock + i / coefBlock * coefBlock = i := by
      rw [Nat.mul_comm]
      exact Nat.mod_add_div i coefBlock
    refine ⟨i % coefBlock, List.mem_range.2 (Nat.mod_lt i (by decide)), i / coefBlock,
      List.mem_range.2 (Nat.div_lt_of_lt_mul hin), ?_⟩
    rw [hi]
    exact ⟨rfl, hout, hin⟩

/-- What a block leaves. -/
theorem filled_of_block (h : p.Rows) {b : Nat} {tables tables' : Tables}
    (hb : p.Block weights normalizeCoeff tables b tables') :
    p.Filled weights normalizeCoeff (fun xx => xx / coefBlock = b ∧ xx < p.outSize) tables
      tables' := by
  obtain ⟨smem, order, order', hperm, hperm', rfl⟩ := hb
  constructor
  · dsimp only
    rw [shared_bounds]
    have hfold := Writes.foldl (fun l : Nat => writes_bounds (p := p) (b * coefBlock + l)) order
      tables.bounds
    refine Wrote.congr hfold (fun c => ?_) fun _ _ => rfl
    constructor
    · rintro ⟨l, hl, hc, hlt⟩
      have hl := List.mem_range.1 (hperm.mem_iff.1 hl)
      unfold coefBlock at *
      omega
    · rintro ⟨rfl, hlt⟩
      refine ⟨c / 2 % coefBlock, hperm.mem_iff.2 (List.mem_range.2 (Nat.mod_lt _ (by decide))), ?_⟩
      unfold coefBlock at *
      omega
  · dsimp only
    have hfold := Writes.foldl (fun l : Nat => writes_copy (p := p) b
      (order.foldl (p.threadShared weights normalizeCoeff b) (tables.bounds, smem)).2 l) order'
      tables.kk
    have hsmem := Writes.foldl (fun l : Nat =>
      writes_row weights normalizeCoeff h (b * coefBlock) l) order smem
    refine Wrote.congr hfold (fun k => ?_) fun k hk => ?_
    · rw [← copied_iff h.pos]
      simp only [hperm'.mem_iff]
    · rw [shared_smem]
      obtain ⟨l, hl, j, hj, rfl, hout, hin⟩ := hk
      have hrow := (Nat.div_lt_iff_lt_mul h.pos).2 hin
      have hlast := (Nat.div_lt_iff_lt_mul h.pos).2 hout
      have hk : (b * coefBlock * p.kSize + (l + j * coefBlock)) / p.kSize =
          b * coefBlock + (l + j * coefBlock) / p.kSize := by
        rw [Nat.add_comm, Nat.add_mul_div_right _ _ h.pos, Nat.add_comm]
      rw [Nat.add_sub_cancel_left, hk, Nat.mul_add_mod_self_right]
      refine (hsmem (l + j * coefBlock)).1 ⟨_, ?_, rfl, ?_⟩
      · exact hperm.mem_iff.2 (List.mem_range.2 hrow)
      · exact Nat.add_lt_of_lt_sub' hlast

/-- What a launch with shared memory leaves. -/
theorem filled_of_shared (h : p.Rows) {grid : Nat} {tables tables' : Tables}
    (hs : p.Shared weights normalizeCoeff grid tables tables') :
    p.Filled weights normalizeCoeff (fun xx => xx < p.outSize ∧ xx < grid * coefBlock) tables
      tables' := by
  obtain ⟨order, hperm, hrun⟩ := hs
  have hfilled : p.Filled weights normalizeCoeff
      (fun xx => ∃ b ∈ order, xx / coefBlock = b ∧ xx < p.outSize) tables tables' := by
    clear hperm
    induction hrun with
    | nil tables => exact ⟨Wrote.nil fun c => by simp, Wrote.nil fun k => by simp⟩
    | @cons tables tables₁ tables' b order hb hrun ih =>
      have hfirst := filled_of_block h hb
      have hiff : ∀ xx, (xx / coefBlock = b ∧ xx < p.outSize ∨
          ∃ b ∈ order, xx / coefBlock = b ∧ xx < p.outSize) ↔
          ∃ c ∈ b :: order, xx / coefBlock = c ∧ xx < p.outSize := by
        intro xx
        simp only [List.mem_cons, exists_eq_or_imp]
      exact ⟨(hfirst.bounds.trans ih.bounds).congr (fun c => hiff _) fun _ _ => rfl,
        (hfirst.kk.trans ih.kk).congr (fun k => hiff _) fun _ _ => rfl⟩
  have hrows : ∀ xx, (∃ b ∈ order, xx / coefBlock = b ∧ xx < p.outSize) ↔
      xx < p.outSize ∧ xx < grid * coefBlock := by
    intro xx
    simp only [hperm.mem_iff, List.mem_range]
    unfold coefBlock
    constructor
    · rintro ⟨b, hb, rfl, hlt⟩
      omega
    · rintro ⟨hlt, hgrid⟩
      exact ⟨_, by omega, rfl, hlt⟩
  exact ⟨hfilled.bounds.congr (fun c => hrows _) fun _ _ => rfl,
    hfilled.kk.congr (fun k => hrows _) fun _ _ => rfl⟩

variable (p weights normalizeCoeff)

theorem exists_direct (grid : Nat) (tables : Tables) :
    ∃ tables', p.Direct weights normalizeCoeff grid tables tables' :=
  ⟨_, threads grid, .refl _, rfl⟩

theorem exists_shared (grid : Nat) (tables : Tables) :
    ∃ tables', p.Shared weights normalizeCoeff grid tables tables' := by
  have hrun : ∀ (order : List Nat) (tables : Tables),
      ∃ tables', Run (p.Block weights normalizeCoeff) tables order tables' := by
    intro order
    induction order with
    | nil => exact fun tables => ⟨tables, .nil tables⟩
    | cons b order ih =>
      intro tables
      obtain ⟨tables', hrun⟩ := ih _
      exact ⟨tables', .cons ⟨fun _ => 0, _, _, .refl _, .refl _, rfl⟩ hrun⟩
  obtain ⟨tables', hrun⟩ := hrun (List.range grid) tables
  exact ⟨tables', _, .refl _, hrun⟩

end Pass

/-- The taps of a pass fit its rows, also where there is no input. -/
theorem rows_pass (filter : Filter) (inSize : Nat) (hout : 0 < outSize) :
    (pass filter inSize outSize).Rows := by
  refine ⟨Nat.succ_pos _, fun xx hxx => ?_⟩
  rcases Nat.eq_zero_or_pos inSize with rfl | hin
  · have hle : (Pass.window (pass filter 0 outSize) xx).xmax ≤ 0 := by
      unfold Pass.window
      dsimp only [pass]
      split_ifs <;> omega
    omega
  · exact (Pass.exact_of_sized (sized_pass filter hin hout) hxx).row

/-- **Taps.** The windows of a pass are exact, and its tables hold the same rows whether they are
written through shared memory or directly, in whatever order. -/
theorem windows_exact (filter : Filter) (hin : 0 < inSize) (hout : 0 < outSize) :
    (∀ xx, xx < outSize → (pass filter inSize outSize).Exact xx) ∧
      ∀ weights normalizeCoeff grid tables, ∃ written,
        (∀ tables', (pass filter inSize outSize).Direct weights normalizeCoeff grid tables tables' ↔
          tables' = written) ∧
        ∀ tables', (pass filter inSize outSize).Shared weights normalizeCoeff grid tables tables' ↔
          tables' = written := by
  have hrows := rows_pass filter inSize hout
  refine ⟨fun xx hxx => Pass.exact_of_sized (sized_pass filter hin hout) hxx, ?_⟩
  intro weights normalizeCoeff grid tables
  obtain ⟨written, hd⟩ := Pass.exists_direct (pass filter inSize outSize) weights normalizeCoeff
    grid tables
  have hwritten := Pass.filled_of_direct hrows hd
  refine ⟨written, fun tables' => ⟨fun h => ?_, fun h => h ▸ hd⟩, fun tables' => ⟨fun h => ?_, ?_⟩⟩
  · exact (Pass.filled_of_direct hrows h).unique hwritten
  · exact (Pass.filled_of_shared hrows h).unique hwritten
  · rintro rfl
    obtain ⟨tables', hs⟩ := Pass.exists_shared (pass filter inSize outSize) weights normalizeCoeff
      grid tables
    exact (Pass.filled_of_shared hrows hs).unique hwritten ▸ hs

/-- Three pixels from seven. -/
theorem windows_exact_seven :
    (∀ xx, xx < 3 → (pass .bicubic 7 3).Exact xx) ∧
      ∀ weights normalizeCoeff grid tables, ∃ written,
        (∀ tables', (pass .bicubic 7 3).Direct weights normalizeCoeff grid tables tables' ↔
          tables' = written) ∧
        ∀ tables', (pass .bicubic 7 3).Shared weights normalizeCoeff grid tables tables' ↔
          tables' = written :=
  windows_exact .bicubic (by decide) (by decide)

end Cvcuda.PillowResize
