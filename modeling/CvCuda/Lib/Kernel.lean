import Mathlib.Tactic

/-! # Kernels over a grid of blocks

A launch runs the threads of a grid of blocks, here one after another, on a memory of cells `κ`.

* `blocks`: the global coordinates of the threads of each block; together they are each coordinate
  below the grid's extent once (`sum_blocks`).
* `Adds`: steps that only add to cells, which come together in any order.
* `addAll`: amounts that are added to cells, in whatever order they come (`addAll_perm`).
* `Writes`: steps that write cells with values that depend on the cell only; `Wrote`: what they
  leave; `foldl_sweep`: a loop over neighbouring cells.
* `store`: values that go into cells; what a cell holds in the end.
* `Confined`: steps that read and write cells of their own.
-/

namespace Kernel

variable {κ β α : Type}

/-! ## Grids -/

/-- The coordinates of the threads of each block of a grid. -/
def blocks (gridX gridY bsX bsY : Nat) : List (List (Nat × Nat)) :=
  (List.range gridY).flatMap fun j => (List.range gridX).map fun i =>
    (List.range bsY).flatMap fun y => (List.range bsX).map fun x => (i * bsX + x, j * bsY + y)

section Sums

variable {M : Type} [AddCommMonoid M]

theorem sum_map_range (f : Nat → M) (n : Nat) :
    ((List.range n).map f).sum = ∑ i ∈ Finset.range n, f i := by
  induction n with
  | zero => rfl
  | succ n ih =>
    rw [List.range_succ, List.map_append, List.sum_append, ih, Finset.sum_range_succ]
    simp

theorem sum_map_flatMap (l : List β) (g : β → List α) (f : α → M) :
    ((l.flatMap g).map f).sum = (l.map fun b => ((g b).map f).sum).sum := by
  induction l with
  | nil => rfl
  | cons b l ih =>
    rw [List.flatMap_cons, List.map_append, List.sum_append, ih, List.map_cons, List.sum_cons]

theorem sum_map_filterMap (l : List β) (g : β → Option α) (f : α → M) :
    ((l.filterMap g).map f).sum = (l.map fun b => ((g b).map f).getD 0).sum := by
  induction l with
  | nil => rfl
  | cons b l ih =>
    rw [List.map_cons, List.sum_cons, ← ih]
    cases hb : g b with
    | none => rw [List.filterMap_cons_none hb, Option.map_none, Option.getD_none, zero_add]
    | some a =>
      rw [List.filterMap_cons_some hb, List.map_cons, List.sum_cons, Option.map_some,
        Option.getD_some]

theorem sum_range_mul (m n : Nat) (f : Nat → M) :
    ∑ i ∈ Finset.range m, ∑ x ∈ Finset.range n, f (i * n + x) =
      ∑ i ∈ Finset.range (m * n), f i := by
  induction m with
  | zero => simp
  | succ m ih => rw [Finset.sum_range_succ, ih, Nat.succ_mul, Finset.sum_range_add]

end Sums

/-- Each coordinate below the extent of the grid has one thread. -/
theorem sum_blocks (gridX gridY bsX bsY : Nat) (g : Nat × Nat → ℤ) :
    ((blocks gridX gridY bsX bsY).map fun threads => (threads.map g).sum).sum =
      ∑ y ∈ Finset.range (gridY * bsY), ∑ x ∈ Finset.range (gridX * bsX), g (x, y) := by
  unfold blocks
  rw [sum_map_flatMap, sum_map_range, ← sum_range_mul gridY bsY]
  refine Finset.sum_congr rfl fun j _ => ?_
  rw [List.map_map, sum_map_range]
  have hblock : ∀ i ∈ Finset.range gridX,
      (((fun threads => (List.map g threads).sum) ∘ fun i =>
        (List.range bsY).flatMap fun y => (List.range bsX).map fun x =>
          (i * bsX + x, j * bsY + y)) i) =
      ∑ y ∈ Finset.range bsY, ∑ x ∈ Finset.range bsX, g (i * bsX + x, j * bsY + y) := by
    intro i _
    rw [Function.comp_apply, sum_map_flatMap, sum_map_range]
    refine Finset.sum_congr rfl fun y _ => ?_
    rw [List.map_map, sum_map_range]
    rfl
  rw [Finset.sum_congr rfl hblock, Finset.sum_comm]
  exact Finset.sum_congr rfl fun y _ => sum_range_mul gridX bsX fun x => g (x, j * bsY + y)

theorem mem_blocks {gridX gridY bsX bsY : Nat} {x y : Nat} (hx : x < gridX * bsX)
    (hy : y < gridY * bsY) : ∃ threads ∈ blocks gridX gridY bsX bsY, (x, y) ∈ threads := by
  have hbx : 0 < bsX := Nat.pos_of_mul_pos_left (by omega : 0 < gridX * bsX)
  have hby : 0 < bsY := Nat.pos_of_mul_pos_left (by omega : 0 < gridY * bsY)
  refine ⟨_, List.mem_flatMap.2 ⟨y / bsY, List.mem_range.2 (Nat.div_lt_of_lt_mul ?_),
    List.mem_map.2 ⟨x / bsX, List.mem_range.2 (Nat.div_lt_of_lt_mul ?_), rfl⟩⟩, ?_⟩
  · rwa [Nat.mul_comm]
  · rwa [Nat.mul_comm]
  · refine List.mem_flatMap.2 ⟨y % bsY, List.mem_range.2 (Nat.mod_lt _ hby),
      List.mem_map.2 ⟨x % bsX, List.mem_range.2 (Nat.mod_lt _ hbx), ?_⟩⟩
    rw [Nat.mul_comm, Nat.div_add_mod, Nat.mul_comm, Nat.div_add_mod]

theorem lt_of_mem_blocks {gridX gridY bsX bsY : Nat} {threads : List (Nat × Nat)} {t : Nat × Nat}
    (hb : threads ∈ blocks gridX gridY bsX bsY) (ht : t ∈ threads) :
    t.1 < gridX * bsX ∧ t.2 < gridY * bsY := by
  obtain ⟨j, hj, hb⟩ := List.mem_flatMap.1 hb
  obtain ⟨i, hi, rfl⟩ := List.mem_map.1 hb
  obtain ⟨y, hy, ht⟩ := List.mem_flatMap.1 ht
  obtain ⟨x, hx, rfl⟩ := List.mem_map.1 ht
  rw [List.mem_range] at hi hj hx hy
  have hbound : ∀ {a b m n : Nat}, a < m → b < n → a * n + b < m * n := by
    intro a b m n ha hb
    have hle : (a + 1) * n ≤ m * n := Nat.mul_le_mul_right n ha
    rw [Nat.succ_mul] at hle
    omega
  exact ⟨hbound hi hx, hbound hj hy⟩

/-- A thread of a launch. -/
structure Thread where
  blockIdx : Nat × Nat × Nat
  threadIdx : Nat × Nat

/-- The threads of a grid of blocks in three dimensions. -/
def launch (gridX gridY gridZ bsX bsY : Nat) : List Thread :=
  (List.range gridZ).flatMap fun bz => (List.range gridY).flatMap fun by' =>
    (List.range gridX).flatMap fun bx => (List.range bsY).flatMap fun ty =>
      (List.range bsX).map fun tx => ⟨(bx, by', bz), (tx, ty)⟩

theorem mem_launch {gridX gridY gridZ bsX bsY : Nat} {t : Thread} :
    t ∈ launch gridX gridY gridZ bsX bsY ↔
      (t.blockIdx.1 < gridX ∧ t.blockIdx.2.1 < gridY ∧ t.blockIdx.2.2 < gridZ) ∧
        t.threadIdx.1 < bsX ∧ t.threadIdx.2 < bsY := by
  simp only [launch, List.mem_flatMap, List.mem_map, List.mem_range]
  constructor
  · rintro ⟨bz, hz, by', hy, bx, hx, ty, hty, tx, htx, rfl⟩
    exact ⟨⟨hx, hy, hz⟩, htx, hty⟩
  · rintro ⟨⟨hx, hy, hz⟩, htx, hty⟩
    exact ⟨_, hz, _, hy, _, hx, _, hty, _, htx, rfl⟩

/-- Each coordinate below the extent of the grid has a thread. -/
theorem exists_mem_launch {gridX gridY gridZ bsX bsY : Nat} {P : Nat → Nat → Nat → Prop} :
    (∃ t ∈ launch gridX gridY gridZ bsX bsY, P t.blockIdx.2.2
        (t.blockIdx.2.1 * bsY + t.threadIdx.2) (t.blockIdx.1 * bsX + t.threadIdx.1)) ↔
      ∃ n y x, n < gridZ ∧ y < gridY * bsY ∧ x < gridX * bsX ∧ P n y x := by
  simp only [mem_launch]
  constructor
  · rintro ⟨⟨⟨bx, by', bz⟩, tx, ty⟩, ⟨⟨hbx, hby, hbz⟩, htx, hty⟩, h⟩
    simp only at hbx hby hbz htx hty h
    exact ⟨_, _, _, hbz, by nlinarith, by nlinarith, h⟩
  · rintro ⟨n, y, x, hn, hy, hx, h⟩
    have hbsX : 0 < bsX := Nat.pos_of_mul_pos_left (Nat.zero_lt_of_lt hx)
    have hbsY : 0 < bsY := Nat.pos_of_mul_pos_left (Nat.zero_lt_of_lt hy)
    refine ⟨⟨(x / bsX, y / bsY, n), (x % bsX, y % bsY)⟩, ⟨⟨(Nat.div_lt_iff_lt_mul hbsX).2 hx,
      (Nat.div_lt_iff_lt_mul hbsY).2 hy, hn⟩, Nat.mod_lt _ hbsX, Nat.mod_lt _ hbsY⟩, ?_⟩
    simpa only [Nat.div_add_mod'] using h

/-! ## Adding -/

/-- `atomicAdd`. -/
def atomicAdd [DecidableEq κ] (m : κ → ℤ) (k : κ) (v : ℤ) : κ → ℤ :=
  Function.update m k (m k + v)

/-- A step that adds to each cell what does not depend on the memory. -/
def Adds (step : (κ → ℤ) → κ → ℤ) (d : κ → ℤ) : Prop := ∀ m k, step m k = m k + d k

theorem adds_atomicAdd [DecidableEq κ] (k : κ) (v : ℤ) :
    Adds (fun m => atomicAdd m k v) fun i => if i = k then v else 0 := by
  intro m i
  simp only [atomicAdd, Function.update_apply]
  by_cases h : i = k
  · rw [if_pos h, if_pos h, h]
  · rw [if_neg h, if_neg h, add_zero]

theorem adds_id : Adds (fun m : κ → ℤ => m) fun _ => 0 := fun _ _ => (add_zero _).symm

theorem Adds.ite {p : Prop} [Decidable p] {f g : (κ → ℤ) → κ → ℤ} {d e : κ → ℤ} (hf : Adds f d)
    (hg : Adds g e) : Adds (fun m => if p then f m else g m) fun k => if p then d k else e k := by
  intro m k
  by_cases h : p
  · simp only [if_pos h]
    exact hf m k
  · simp only [if_neg h]
    exact hg m k

theorem Adds.foldl {step : β → (κ → ℤ) → κ → ℤ} {d : β → κ → ℤ} (h : ∀ b, Adds (step b) (d b))
    (l : List β) : Adds (fun m => l.foldl (fun m b => step b m) m)
      fun k => (l.map fun b => d b k).sum := by
  induction l with
  | nil => exact adds_id
  | cons b l ih =>
    intro m k
    simp only [List.foldl_cons, List.map_cons, List.sum_cons]
    rw [← add_assoc, ← h b m k]
    exact ih _ k

section AddAll

variable {M : Type} [AddCommMonoid M] [DecidableEq κ]

/-- Amounts are added to cells, one after another. -/
def addAll (l : List (κ × M)) (m : κ → M) : κ → M :=
  l.foldl (fun m s => Function.update m s.1 (m s.1 + s.2)) m

@[simp] theorem addAll_cons (s : κ × M) (l : List (κ × M)) (m : κ → M) :
    addAll (s :: l) m = addAll l (Function.update m s.1 (m s.1 + s.2)) := rfl

theorem addAll_apply (l : List (κ × M)) (m : κ → M) (k : κ) :
    addAll l m k = m k + (l.map fun s => if s.1 = k then s.2 else 0).sum := by
  induction l generalizing m with
  | nil => exact (add_zero _).symm
  | cons s l ih =>
    rw [addAll_cons, ih, List.map_cons, List.sum_cons, ← add_assoc]
    congr 1
    by_cases h : s.1 = k
    · rw [if_pos h, ← h, Function.update_self]
    · rw [if_neg h, Function.update_of_ne (Ne.symm h), add_zero]

theorem addAll_perm {l l' : List (κ × M)} (h : l.Perm l') (m : κ → M) :
    addAll l m = addAll l' m := by
  funext k
  rw [addAll_apply, addAll_apply, (h.map _).sum_eq]

end AddAll

/-! ## Writing -/

/-- A step that writes some cells, each with a value of its own, and leaves the others. -/
def Writes (step : (κ → α) → κ → α) (cell : κ → Prop) (value : κ → α) : Prop :=
  ∀ m k, (cell k → step m k = value k) ∧ (¬cell k → step m k = m k)

theorem Writes.foldl {step : β → (κ → α) → κ → α} {cell : β → κ → Prop} {value : κ → α}
    (h : ∀ b, Writes (step b) (cell b) value) (l : List β) :
    Writes (fun m => l.foldl (fun m b => step b m) m) (fun k => ∃ b ∈ l, cell b k) value := by
  induction l with
  | nil => exact fun m k => ⟨fun ⟨b, hb, _⟩ => absurd hb List.not_mem_nil, fun _ => rfl⟩
  | cons b l ih =>
    intro m k
    simp only [List.foldl_cons]
    obtain ⟨hin, hout⟩ := ih (step b m) k
    constructor
    · intro hex
      by_cases hl : ∃ c ∈ l, cell c k
      · exact hin hl
      · -- it is the first step that writes the cell
        obtain ⟨c, hc, hk⟩ := hex
        rcases List.mem_cons.1 hc with rfl | hc
        · exact (hout hl).trans ((h c m k).1 hk)
        · exact absurd ⟨c, hc, hk⟩ hl
    · intro hnot
      have hl : ¬∃ c ∈ l, cell c k := fun ⟨c, hc, hk⟩ =>
        hnot ⟨c, List.mem_cons_of_mem b hc, hk⟩
      exact (hout hl).trans ((h b m k).2 fun hk => hnot ⟨b, List.mem_cons_self, hk⟩)

/-- Some cells hold values of their own, and the others what they held. -/
def Wrote (cell : κ → Prop) (value : κ → α) (m m' : κ → α) : Prop :=
  ∀ k, (cell k → m' k = value k) ∧ (¬cell k → m' k = m k)

namespace Wrote

variable {cell cell' : κ → Prop} {value value' : κ → α} {m m' m'' : κ → α}

theorem nil (h : ∀ k, ¬cell k) : Wrote cell value m m :=
  fun k => ⟨fun hk => absurd hk (h k), fun _ => rfl⟩

theorem trans (h : Wrote cell value m m') (h' : Wrote cell' value m' m'') :
    Wrote (fun k => cell k ∨ cell' k) value m m'' := by
  intro k
  by_cases hk : cell' k
  · exact ⟨fun _ => (h' k).1 hk, fun hnot => absurd (.inr hk) hnot⟩
  · refine ⟨fun hor => ?_, fun hnot => ?_⟩
    · exact ((h' k).2 hk).trans ((h k).1 (hor.resolve_right hk))
    · exact ((h' k).2 hk).trans ((h k).2 fun hc => hnot (.inl hc))

theorem congr (h : Wrote cell value m m') (hcell : ∀ k, cell k ↔ cell' k)
    (hvalue : ∀ k, cell k → value k = value' k) : Wrote cell' value' m m' := by
  intro k
  rw [← hcell]
  exact ⟨fun hk => ((h k).1 hk).trans (hvalue k hk), (h k).2⟩

theorem unique (h : Wrote cell value m m') (h' : Wrote cell value m m'') : m' = m'' := by
  funext k
  by_cases hk : cell k
  · rw [(h k).1 hk, (h' k).1 hk]
  · rw [(h k).2 hk, (h' k).2 hk]

end Wrote

/-- A loop over neighbouring cells that changes each by itself. -/
theorem foldl_sweep (f : Nat → α → α) (base s n : Nat) (m : Nat → α) (k : Nat) :
    (List.range' s n).foldl (fun m x => Function.update m (base + x) (f x (m (base + x)))) m k =
      if base + s ≤ k ∧ k < base + s + n then f (k - base) (m k) else m k := by
  induction n generalizing k with
  | zero =>
    rw [if_neg (by omega)]
    rfl
  | succ n ih =>
    rw [List.range'_concat, List.foldl_append, List.foldl_cons, List.foldl_nil, Nat.one_mul]
    by_cases hk : k = base + (s + n)
    · rw [hk, Function.update_self, ih, if_neg (by omega), if_pos (by omega),
        Nat.add_sub_cancel_left]
    · have hiff : base + s ≤ k ∧ k < base + s + n ↔ base + s ≤ k ∧ k < base + s + (n + 1) := by
        omega
      rw [Function.update_of_ne hk, ih]
      simp only [hiff]

/-! ## Storing -/

section Store

variable [DecidableEq κ] {l : List (κ × α)} {k : κ}

/-- Values go into cells, one after another. -/
def store (l : List (κ × α)) (m : κ → α) : κ → α := l.foldl (fun m s => Function.update m s.1 s.2) m

@[simp] theorem store_nil (m : κ → α) : store [] m = m := rfl

@[simp] theorem store_cons (s : κ × α) (l : List (κ × α)) (m : κ → α) :
    store (s :: l) m = store l (Function.update m s.1 s.2) := rfl

theorem store_of_notMem (h : ∀ s ∈ l, s.1 ≠ k) (m : κ → α) : store l m k = m k := by
  induction l generalizing m with
  | nil => rfl
  | cons s l ih =>
    rw [store_cons, ih fun s' hs' => h s' (List.mem_cons_of_mem s hs')]
    exact Function.update_of_ne (h s List.mem_cons_self).symm _ _

/-- What a cell holds that is stored to does not depend on what was there before. -/
theorem store_congr (h : ∃ s ∈ l, s.1 = k) (m m' : κ → α) : store l m k = store l m' k := by
  induction l generalizing m m' with
  | nil =>
    obtain ⟨s, hs, _⟩ := h
    cases hs
  | cons s l ih =>
    rw [store_cons, store_cons]
    by_cases hl : ∃ s' ∈ l, s'.1 = k
    · exact ih hl _ _
    · -- it is the first store that the cell keeps
      have hnot : ∀ s' ∈ l, s'.1 ≠ k := fun s' hs' hk => hl ⟨s', hs', hk⟩
      rw [store_of_notMem hnot, store_of_notMem hnot]
      obtain ⟨s', hs', rfl⟩ := h
      rcases List.mem_cons.1 hs' with rfl | hs'
      · rw [Function.update_self, Function.update_self]
      · exact absurd rfl (hnot s' hs')

theorem store_of_mem {v : α} (h : ∃ s ∈ l, s.1 = k) (hv : ∀ s ∈ l, s.1 = k → s.2 = v) (m : κ → α) :
    store l m k = v := by
  induction l generalizing m with
  | nil =>
    obtain ⟨s, hs, _⟩ := h
    cases hs
  | cons s l ih =>
    rw [store_cons]
    by_cases hl : ∃ s' ∈ l, s'.1 = k
    · exact ih hl (fun s' hs' => hv s' (List.mem_cons_of_mem s hs')) _
    · rw [store_of_notMem fun s' hs' hk => hl ⟨s', hs', hk⟩]
      obtain ⟨s', hs', rfl⟩ := h
      rcases List.mem_cons.1 hs' with rfl | hs'
      · rw [Function.update_self, hv s' List.mem_cons_self rfl]
      · exact absurd ⟨s', hs', rfl⟩ hl

end Store

/-! ## Cells of one's own -/

/-- The steps of a list leave all cells but their own, and read no others. -/
structure Confined (step : β → (κ → α) → κ → α) (own : β → κ → Prop) (l : List β) : Prop where
  frame : ∀ b ∈ l, ∀ m k, ¬own b k → step b m k = m k
  reads : ∀ b ∈ l, ∀ m m', (∀ k, own b k → m k = m' k) → ∀ k, own b k → step b m k = step b m' k
  disjoint : ∀ b ∈ l, ∀ b' ∈ l, ∀ k, own b k → own b' k → b = b'

theorem Confined.tail {step : β → (κ → α) → κ → α} {own : β → κ → Prop} {b : β} {l : List β}
    (h : Confined step own (b :: l)) : Confined step own l where
  frame := fun c hc => h.frame c (List.mem_cons_of_mem b hc)
  reads := fun c hc => h.reads c (List.mem_cons_of_mem b hc)
  disjoint := fun c hc d hd =>
    h.disjoint c (List.mem_cons_of_mem b hc) d (List.mem_cons_of_mem b hd)

theorem Confined.foldl_frame {step : β → (κ → α) → κ → α} {own : β → κ → Prop} {l : List β}
    (h : Confined step own l) {k : κ} (hk : ∀ b ∈ l, ¬own b k) (m : κ → α) :
    l.foldl (fun m b => step b m) m k = m k := by
  induction l generalizing m with
  | nil => rfl
  | cons b l ih =>
    rw [List.foldl_cons, ih h.tail fun b' hb' => hk b' (List.mem_cons_of_mem b hb')]
    exact h.frame b List.mem_cons_self m k (hk b List.mem_cons_self)

/-- A step's cells hold in the end what it makes of the first memory. -/
theorem Confined.foldl_own {step : β → (κ → α) → κ → α} {own : β → κ → Prop} {l : List β}
    (h : Confined step own l) (hl : l.Nodup) {b : β} (hb : b ∈ l) {k : κ} (hk : own b k)
    (m : κ → α) : l.foldl (fun m b => step b m) m k = step b m k := by
  induction l generalizing m with
  | nil => cases hb
  | cons c l ih =>
    obtain ⟨hc, hl⟩ := List.nodup_cons.1 hl
    rw [List.foldl_cons]
    rcases List.mem_cons.1 hb with rfl | hbl
    · refine h.tail.foldl_frame (fun b' hb' hown => ?_) _
      exact hc (h.disjoint b hb b' (List.mem_cons_of_mem b hb') k hk hown ▸ hb')
    · rw [ih h.tail hl hbl]
      refine h.reads b hb _ _ (fun k' hk' => ?_) k hk
      refine h.frame c List.mem_cons_self m k' fun hown => hc ?_
      exact h.disjoint b hb c List.mem_cons_self k' hk' hown ▸ hbl

end Kernel
