import CvCuda.Cvcuda.Label2D
import CvCuda.Cvcuda.Proof.LabelThreads

/-! # The labels are those of the connected components

* `block_roots`: in a block, two labels have the same root exactly if the threads' pixels are
  connected in the block.
* `Joined`-classes grow by the edges between blocks: `joined_vertical`, `joined_horizontal`.
* `labels2D_exact`: two pixels have the same label exactly if they are connected.
-/

namespace Cvcuda.Label

open Forest

namespace Sample

variable {ST : Type} [LinearOrder ST] [Zero ST] [One ST] {s : Sample ST}

/-! ## Connected pixels -/

/-- The second pixel is right of the first or below, with the same value. -/
def Next (s : Sample ST) (p q : Nat × Nat) : Prop :=
  (q = (p.1, p.2 + 1) ∨ q = (p.1 + 1, p.2)) ∧ q.1 < s.height ∧ q.2 < s.width ∧
    s.pixel p.1 p.2 = s.pixel q.1 q.2

/-- Connected by neighbours with the same value. -/
def Connected (s : Sample ST) : Nat × Nat → Nat × Nat → Prop := Relation.EqvGen s.Next

/-! ## A block -/

section
variable {b : BlockIdx} {i j : Nat}

omit [LinearOrder ST] [Zero ST] [One ST] in
theorem mem_blockThreads : i ∈ s.blockThreads b ↔ i < BW * BH ∧ s.Inside b i := by
  simp [blockThreads]

theorem nym1x_iff : s.nym1x b i = true ↔
    BW ≤ i ∧ s.pixel (gcy b i) (gcx b i) = s.pixel (gcy b (i - BW)) (gcx b (i - BW)) := by
  have hdiv : 0 < i / BW ↔ BW ≤ i := by simp only [BW]; omega
  simp only [nym1x, Bool.and_eq_true, decide_eq_true_eq, hdiv]
  refine and_congr_right fun hi => ?_
  have hy : gcy b (i - BW) = gcy b i - 1 := by simp only [gcy, BW] at *; omega
  have hx : gcx b (i - BW) = gcx b i := by simp only [gcx, BW] at *; omega
  rw [hy, hx]

theorem nyxm1_iff : s.nyxm1 b i = true ↔
    0 < i % BW ∧ s.pixel (gcy b i) (gcx b i) = s.pixel (gcy b (i - 1)) (gcx b (i - 1)) := by
  simp only [nyxm1, Bool.and_eq_true, decide_eq_true_eq]
  refine and_congr_right fun hi => ?_
  have hy : gcy b (i - 1) = gcy b i := by simp only [gcy, BW] at *; omega
  have hx : gcx b (i - 1) = gcx b i - 1 := by simp only [gcx, BW] at *; omega
  rw [hy, hx, shflUp, if_neg hi.ne']

theorem nym1xm1_iff : s.nym1xm1 b i = true ↔ BW ≤ i ∧ 0 < i % BW ∧
    s.pixel (gcy b i) (gcx b i) = s.pixel (gcy b (i - BW - 1)) (gcx b (i - BW - 1)) := by
  have hdiv : 0 < i / BW ↔ BW ≤ i := by simp only [BW]; omega
  simp only [nym1xm1, Bool.and_eq_true, decide_eq_true_eq, hdiv, and_assoc]
  refine and_congr_right fun hi => and_congr_right fun hx => ?_
  have hy : gcy b (i - BW - 1) = gcy b i - 1 := by simp only [gcy, BW] at *; omega
  have hx' : gcx b (i - BW - 1) = gcx b i - 1 := by simp only [gcx, BW] at *; omega
  rw [hy, hx', shflUp, if_neg hx.ne']

theorem label1_eq : s.label1 b i =
    if s.nym1x b i then i - BW else if s.nyxm1 b i then i - 1 else i := by
  unfold label1
  split
  · rename_i h
    have := (nym1x_iff.1 h).1
    simp only [BW] at *
    omega
  · split
    · rename_i h
      have := (nyxm1_iff.1 h).1
      simp only [BW] at *
      omega
    · simp only [BW]
      omega

omit [LinearOrder ST] [Zero ST] [One ST] in
/-- A thread above or left of one is in the image with it. -/
theorem mem_of_le (hi : i ∈ s.blockThreads b) (hx : j % BW ≤ i % BW) (hy : j / BW ≤ i / BW) :
    j ∈ s.blockThreads b := by
  rw [mem_blockThreads] at hi ⊢
  obtain ⟨hlt, hgx, hgy⟩ := hi
  simp only [Inside, gcx, gcy, BW, BH] at *
  omega

omit [LinearOrder ST] [Zero ST] [One ST] in
theorem up_mem (hi : i ∈ s.blockThreads b) (h : BW ≤ i) : i - BW ∈ s.blockThreads b :=
  mem_of_le hi (by simp only [BW] at *; omega) (by simp only [BW] at *; omega)

omit [LinearOrder ST] [Zero ST] [One ST] in
theorem left_mem (hi : i ∈ s.blockThreads b) (h : 0 < i % BW) : i - 1 ∈ s.blockThreads b :=
  mem_of_le hi (by simp only [BW] at *; omega) (by simp only [BW] at *; omega)

theorem label1_mem (hi : i ∈ s.blockThreads b) :
    s.label1 b i ∈ s.blockThreads b ∧ s.label1 b i ≤ i := by
  rw [label1_eq]
  split
  · rename_i h
    exact ⟨up_mem hi (nym1x_iff.1 h).1, Nat.sub_le _ _⟩
  · split
    · rename_i h
      exact ⟨left_mem hi (nyxm1_iff.1 h).1, Nat.sub_le _ _⟩
    · exact ⟨hi, le_rfl⟩

/-- The threads of a block whose pixels are neighbours with the same value. -/
def BlockNext (s : Sample ST) (b : BlockIdx) (j i : Nat) : Prop :=
  i ∈ s.blockThreads b ∧
    (s.nym1x b i = true ∧ j = i - BW ∨ s.nyxm1 b i = true ∧ j = i - 1)

theorem mem_corners : i ∈ s.corners b ↔ i ∈ s.blockThreads b ∧ s.nym1x b i = true ∧
    s.nyxm1 b i = true ∧ ¬s.nym1xm1 b i = true := by
  simp [corners, and_assoc]

/-- Links and calls of a block join neighbours with the same value. -/
theorem eq_of_blockNext {r : Nat → Nat}
    (hlink : ∀ i ∈ s.blockThreads b, r (s.label1 b i) = r i)
    (hcorner : ∀ i ∈ s.corners b, r (s.label1 b i) = r (i - 1)) (h : s.BlockNext b j i) :
    r j = r i := by
  induction i using Nat.strong_induction_on generalizing j with
  | h i ih =>
    obtain ⟨hi, ⟨hup, rfl⟩ | ⟨hleft, rfl⟩⟩ := h
    · have := hlink i hi
      rwa [label1_eq, if_pos hup] at this
    · by_cases hup : s.nym1x b i = true
      · by_cases hdiag : s.nym1xm1 b i = true
        · -- around the square, whose upper edge is joined by induction
          obtain ⟨hBW, hvalup⟩ := nym1x_iff.1 hup
          obtain ⟨hmod, hvalleft⟩ := nyxm1_iff.1 hleft
          obtain ⟨-, -, hvaldiag⟩ := nym1xm1_iff.1 hdiag
          have hsub : i - 1 - BW = i - BW - 1 := by omega
          have hleftup : s.nym1x b (i - 1) = true := by
            refine nym1x_iff.2 ⟨by simp only [BW] at *; omega, ?_⟩
            rw [hsub, ← hvalleft, hvaldiag]
          have hupleft : s.nyxm1 b (i - BW) = true := by
            refine nyxm1_iff.2 ⟨by simp only [BW] at *; omega, ?_⟩
            rw [← hvalup, hvaldiag]
          have hside := hlink (i - 1) (left_mem hi hmod)
          rw [label1_eq, if_pos hleftup, hsub] at hside
          have hedge := ih (i - BW) (by simp only [BW] at *; omega)
            ⟨up_mem hi hBW, .inr ⟨hupleft, rfl⟩⟩
          have hthis := hlink i hi
          rw [label1_eq, if_pos hup] at hthis
          rw [← hside, hedge, hthis]
        · rw [← hcorner i (mem_corners.2 ⟨hi, hup, hleft, hdiag⟩), hlink i hi]
      · have := hlink i hi
        rwa [label1_eq, if_neg hup, if_pos hleft] at this

/-- What links join is connected. -/
theorem label1_joined (hi : i ∈ s.blockThreads b) : Joined (s.BlockNext b) (s.label1 b i) i := by
  rw [label1_eq]
  split
  · rename_i h
    exact .rel _ _ ⟨hi, .inl ⟨h, rfl⟩⟩
  · split
    · rename_i h
      exact .rel _ _ ⟨hi, .inr ⟨h, rfl⟩⟩
    · exact .refl _

theorem findRoot_masked {D : Finset Nat} {labels : List Nat} (h : Closed D labels) {fuel : Nat}
    (hi : i ∈ D) : findRoot labels fuel i = findRoot (masked D labels) fuel i := by
  induction fuel generalizing i with
  | zero => rfl
  | succ fuel ih =>
    obtain ⟨v, hv, -, hmem⟩ := h i hi
    rw [findRoot, findRoot, getElem?_masked_of_mem hi, hv]
    simp only [Option.bind_eq_bind, Option.bind_some, ih hmem]

/-- The labels that the threads of a block store first. -/
theorem closed_stored {stored : List Nat}
    (h : ∀ i ∈ s.blockThreads b, stored[i]? = some (s.label1 b i)) :
    Closed (s.blockThreads b).toFinset stored := fun i hi => by
  rw [List.mem_toFinset] at hi
  obtain ⟨hmem, hle⟩ := label1_mem hi
  exact ⟨_, h i hi, hle, List.mem_toFinset.2 hmem⟩

theorem roots_fit {stored : List Nat}
    (h : ∀ i ∈ s.blockThreads b, stored[i]? = some (s.label1 b i)) :
    ∀ t ∈ (s.blockThreads b).map fun i => RootThread.read i (s.label1 b i),
      t.Fits (s.blockThreads b).toFinset stored := by
  intro t ht
  obtain ⟨i, hi, rfl⟩ := List.mem_map.1 ht
  exact ⟨List.mem_toFinset.2 hi, h i hi⟩

theorem corners_fit : ∀ t ∈ (s.corners b).map fun i => UnionThread.half (s.label1 b i) (i - 1),
    t.Fits (s.blockThreads b).toFinset := by
  intro t ht
  obtain ⟨i, hi, rfl⟩ := List.mem_map.1 ht
  obtain ⟨hi, -, hleft, -⟩ := mem_corners.1 hi
  exact ⟨List.mem_toFinset.2 (label1_mem hi).1,
    List.mem_toFinset.2 (left_mem hi (nyxm1_iff.1 hleft).1)⟩

/-- **A block**: at its last barrier, labels with the same root are those of pixels connected in the
block, and `FindRoot` returns the root. -/
theorem BlockLabels.spec {labels returned : List Nat} (h : s.BlockLabels b labels returned) :
    let D := (s.blockThreads b).toFinset
    Closed D labels ∧
      (∀ i j, root (linkOn D labels) i = root (linkOn D labels) j ↔ Joined (s.BlockNext b) i j) ∧
      ∀ i ∈ s.blockThreads b, findRoot labels (BW * BH) (s.lastLabel b i returned) =
        some (root (linkOn D labels) i) := by
  intro D
  obtain ⟨stored, rooted, hlen, hstored, hroots, hunites⟩ := h
  have hD : ∀ {i}, i ∈ D ↔ i ∈ s.blockThreads b := List.mem_toFinset
  have hclosed : Closed D stored := closed_stored hstored
  have hlinked : ∀ i ∈ s.blockThreads b, linkOn D stored i = s.label1 b i := fun i hi =>
    linkOn_eq (hD.2 hi) (hstored i hi)
  have hR := hroots.roots hclosed (roots_fit hstored)
  have hJ := hunites.joins hR.closed corners_fit
  have hwants : ∀ x y, (x, y) ∈ ((s.corners b).map fun i =>
      UnionThread.half (s.label1 b i) (i - 1)).map UnionThread.wanted ↔
      ∃ i ∈ s.corners b, x = s.label1 b i ∧ y = i - 1 := by
    intro x y
    simp [UnionThread.wanted, eq_comm]
  have hlink : ∀ i ∈ s.blockThreads b,
      root (linkOn D labels) (s.label1 b i) = root (linkOn D labels) i := fun i hi => by
    refine (hJ.classes _ _).2 (.rel _ _ (.inl ?_))
    rw [hR.root_eq, ← hlinked i hi, root_link hclosed.descending]
  have hcorner : ∀ i ∈ s.corners b,
      root (linkOn D labels) (s.label1 b i) = root (linkOn D labels) (i - 1) := fun i hi =>
    (hJ.classes _ _).2 (.rel _ _ (.inr ((hwants _ _).2 ⟨i, hi, rfl, rfl⟩)))
  refine ⟨hJ.closed, fun i j => ⟨fun hij => ?_, fun hij => ?_⟩, fun i hi => ?_⟩
  · refine joined_of_gen (fun x y hxy => ?_) ((hJ.classes i j).1 hij)
    rcases hxy with hroot | hmem
    · rw [hR.root_eq, root_eq_iff hclosed.descending] at hroot
      refine joined_of_gen (fun x y hxy => ?_) hroot
      subst hxy
      by_cases hx : x ∈ D
      · rw [hlinked x (hD.1 hx)]
        exact .symm _ _ (label1_joined (hD.1 hx))
      · rw [linkOn_of_notMem hx]
        exact .refl x
    · obtain ⟨i, hi, rfl, rfl⟩ := (hwants _ _).1 hmem
      obtain ⟨hi, -, hleft, -⟩ := mem_corners.1 hi
      exact .trans _ _ _ (label1_joined hi) (.symm _ _ (.rel _ _ ⟨hi, .inr ⟨hleft, rfl⟩⟩))
  · induction hij with
    | rel x y hxy => exact eq_of_blockNext hlink hcorner hxy
    | refl x => rfl
    | symm x y _ ih => exact ih.symm
    | trans x y z _ _ ih ih' => exact ih.trans ih'
  · have hlast : s.lastLabel b i returned ∈ D ∧
        root (linkOn D labels) (s.lastLabel b i returned) = root (linkOn D labels) i := by
      unfold lastLabel
      cases hlookup : ((s.corners b).zip returned).lookup i with
      | none => exact ⟨hD.2 (label1_mem hi).1, hlink i hi⟩
      | some label =>
        obtain ⟨l₁, l₂, he, -⟩ := List.lookup_eq_some_iff.1 hlookup
        have hk : ((s.corners b).zip returned)[l₁.length]? = some (i, label) := by simp [he]
        obtain ⟨hcorn, hret⟩ := List.getElem?_zip_eq_some.1 hk
        obtain ⟨hmem, hroot⟩ := hJ.returns l₁.length (s.label1 b i, i - 1) label
          (by simp [hcorn, UnionThread.wanted]) hret
        exact ⟨hmem, hroot.trans (hlink i hi)⟩
    rw [findRoot_masked hJ.closed hlast.1, ← hlast.2]
    have hlt : s.lastLabel b i returned < BW * BH := (mem_blockThreads.1 (hD.1 hlast.1)).1
    refine findRoot_returns hJ.closed.descending ?_ hlt
    rw [length_masked]
    exact hJ.closed.lt_length hlast.1

end

/-! ## Positions -/

/-- A pixel of the image. -/
def InImage (s : Sample ST) (p : Nat × Nat) : Prop := p.1 < s.height ∧ p.2 < s.width

/-- Where the labels of the pixels are. -/
def positions (s : Sample ST) (stride : Nat) : Finset Nat :=
  (Finset.range s.height ×ˢ Finset.range s.width).image fun p => pos stride p.1 p.2

section
variable {stride : Nat} {p q : Nat × Nat}

omit [LinearOrder ST] [Zero ST] [One ST] in
theorem mem_positions {j : Nat} :
    j ∈ s.positions stride ↔ ∃ p, s.InImage p ∧ j = pos stride p.1 p.2 := by
  simp [positions, InImage, eq_comm]

omit [LinearOrder ST] [Zero ST] [One ST] in
theorem pos_mem (h : s.InImage p) : pos stride p.1 p.2 ∈ s.positions stride :=
  mem_positions.2 ⟨p, h, rfl⟩

omit [LinearOrder ST] [Zero ST] [One ST] in
theorem pos_inj (hstride : s.width ≤ stride) (hp : s.InImage p) (hq : s.InImage q)
    (h : pos stride p.1 p.2 = pos stride q.1 q.2) : p = q := by
  have hpx : p.2 < stride := hp.2.trans_le hstride
  have hqx : q.2 < stride := hq.2.trans_le hstride
  have hx := congrArg (· % stride) h
  have hy := congrArg (· / stride) h
  simp only [pos, Nat.mul_comm _ stride, Nat.mul_add_mod, Nat.mod_eq_of_lt hpx,
    Nat.mod_eq_of_lt hqx] at hx
  simp only [pos, Nat.mul_comm _ stride, Nat.mul_add_div (Nat.zero_lt_of_lt hpx),
    Nat.div_eq_of_lt hpx, Nat.div_eq_of_lt hqx, Nat.add_zero] at hy
  exact Prod.ext hy hx

/-- The block of a pixel, and its thread there. -/
def blockOf (p : Nat × Nat) : BlockIdx := ⟨p.2 / BW, p.1 / BH⟩

def threadOf (p : Nat × Nat) : Nat := p.1 % BH * BW + p.2 % BW

theorem blockOf_right {y x : Nat} (h : (x + 1) % BW ≠ 0) :
    blockOf (y, x) = blockOf (y, x + 1) := by
  have hx : x / BW = (x + 1) / BW := by
    simp only [BW] at *
    omega
  rw [blockOf, blockOf, hx]

theorem blockOf_below {y x : Nat} (h : (y + 1) % BH ≠ 0) :
    blockOf (y, x) = blockOf (y + 1, x) := by
  have hy : y / BH = (y + 1) / BH := by
    simp only [BH] at *
    omega
  rw [blockOf, blockOf, hy]

theorem gcx_threadOf : gcx (blockOf p) (threadOf p) = p.2 := by
  simp only [gcx, blockOf, threadOf, BW, BH]
  omega

theorem gcy_threadOf : gcy (blockOf p) (threadOf p) = p.1 := by
  simp only [gcy, blockOf, threadOf, BW, BH]
  omega

omit [LinearOrder ST] [Zero ST] [One ST] in
theorem threadOf_mem (h : s.InImage p) : threadOf p ∈ s.blockThreads (blockOf p) := by
  refine mem_blockThreads.2 ⟨by simp only [threadOf, BW, BH]; omega, ?_, ?_⟩
  · rw [gcx_threadOf]
    exact h.2
  · rw [gcy_threadOf]
    exact h.1

omit [LinearOrder ST] [Zero ST] [One ST] in
theorem blockOf_lt (h : s.InImage p) :
    (blockOf p).x < s.labBlocks.x ∧ (blockOf p).y < s.labBlocks.y := by
  obtain ⟨hy, hx⟩ := h
  simp only [blockOf, labBlocks, divUp, BW, BH]
  omega

theorem next_of_blockNext {b : BlockIdx} {i j : Nat} (h : s.BlockNext b j i) :
    s.Next (gcy b j, gcx b j) (gcy b i, gcx b i) := by
  obtain ⟨hi, ⟨hup, rfl⟩ | ⟨hleft, rfl⟩⟩ := h
  · obtain ⟨hBW, hval⟩ := nym1x_iff.1 hup
    obtain ⟨-, hx, hy⟩ := mem_blockThreads.1 hi
    refine ⟨.inr (Prod.ext ?_ ?_), hy, hx, hval.symm⟩
    · simp only [gcy, BW, BH] at *
      omega
    · simp only [gcx, BW] at *
      omega
  · obtain ⟨hmod, hval⟩ := nyxm1_iff.1 hleft
    obtain ⟨-, hx, hy⟩ := mem_blockThreads.1 hi
    refine ⟨.inl (Prod.ext ?_ ?_), hy, hx, hval.symm⟩
    · simp only [gcy, BW, BH] at *
      omega
    · simp only [gcx, BW] at *
      omega

/-- What is connected in a block is connected. -/
theorem connected_of_block {b : BlockIdx} {i j : Nat} (h : Joined (s.BlockNext b) i j) :
    s.Connected (gcy b i, gcx b i) (gcy b j, gcx b j) := by
  induction h with
  | rel i j h => exact .rel _ _ (next_of_blockNext h)
  | refl i => exact .refl _
  | symm i j _ ih => exact .symm _ _ ih
  | trans i j k _ _ ih ih' => exact .trans _ _ _ ih ih'

/-- Labels of an image whose edges `E` are joined: their roots tell only connected pixels alike. -/
structure Merged (s : Sample ST) (stride : Nat) (E : Nat × Nat → Nat × Nat → Prop)
    (labels : List Nat) : Prop where
  closed : Closed (s.positions stride) labels
  sound : ∀ p q, s.InImage p → s.InImage q →
    root (linkOn (s.positions stride) labels) (pos stride p.1 p.2) =
      root (linkOn (s.positions stride) labels) (pos stride q.1 q.2) → s.Connected p q
  joined : ∀ p q, E p q →
    root (linkOn (s.positions stride) labels) (pos stride p.1 p.2) =
      root (linkOn (s.positions stride) labels) (pos stride q.1 q.2)

/-- Neighbours in one block. -/
def NextInBlock (s : Sample ST) (p q : Nat × Nat) : Prop := s.Next p q ∧ blockOf p = blockOf q

theorem inImage_of_next (h : s.Next p q) : s.InImage p ∧ s.InImage q := by
  obtain ⟨rfl | rfl, hy, hx, -⟩ := h
  · exact ⟨⟨hy, Nat.lt_of_succ_lt hx⟩, hy, hx⟩
  · exact ⟨⟨Nat.lt_of_succ_lt hy, hx⟩, hy, hx⟩

/-- The threads of neighbours in one block. -/
theorem blockNext_of_nextInBlock (h : s.NextInBlock p q) :
    s.BlockNext (blockOf q) (threadOf p) (threadOf q) := by
  obtain ⟨hnext, hblock⟩ := h
  obtain ⟨hp, hq⟩ := inImage_of_next hnext
  have hmem := threadOf_mem hq
  have hqy := gcy_threadOf (p := q)
  have hqx := gcx_threadOf (p := q)
  have hpy := gcy_threadOf (p := p)
  have hpx := gcx_threadOf (p := p)
  rw [hblock] at hpy hpx
  obtain ⟨hdir, -, -, hval⟩ := hnext
  have hbx := congrArg BlockIdx.x hblock
  have hby := congrArg BlockIdx.y hblock
  simp only [blockOf, BW, BH] at hbx hby
  refine ⟨hmem, ?_⟩
  rcases hdir with rfl | rfl
  · have hsub : threadOf p = threadOf (p.1, p.2 + 1) - 1 := by
      simp only [threadOf, BW, BH] at *
      omega
    refine .inr ⟨nyxm1_iff.2 ⟨?_, ?_⟩, hsub⟩
    · simp only [threadOf, BW, BH] at *
      omega
    · rw [← hsub, hqy, hqx, hpy, hpx]
      exact hval.symm
  · have hsub : threadOf p = threadOf (p.1 + 1, p.2) - BW := by
      simp only [threadOf, BW, BH] at *
      omega
    refine .inl ⟨nym1x_iff.2 ⟨?_, ?_⟩, hsub⟩
    · simp only [threadOf, BW, BH] at *
      omega
    · rw [← hsub, hqy, hqx, hpy, hpx]
      exact hval.symm

omit [LinearOrder ST] [Zero ST] [One ST] in
/-- What `BlockLabel2D` writes for a pixel. -/
theorem globalLabel_eq {b : BlockIdx} {i : Nat} (hi : i ∈ s.blockThreads b) :
    globalLabel stride b i = pos stride (gcy b i) (gcx b i) := by
  have hlt := (mem_blockThreads.1 hi).1
  have hmod : i / BW % BH = i / BW := by
    simp only [BW, BH] at *
    omega
  rw [globalLabel, hmod, pos, gcy, gcx, Nat.add_assoc]

/-- What a block writes: at every pixel, the position of one that it is connected with. -/
theorem BlockLabel2D.block {dst dst' : List Nat} (h : s.BlockLabel2D stride dst dst')
    {b : BlockIdx} (hx : b.x < s.labBlocks.x) (hy : b.y < s.labBlocks.y) :
    ∃ r : Nat → Nat, (∀ i ∈ s.blockThreads b, r i ∈ s.blockThreads b ∧ r i ≤ i ∧ r (r i) = r i ∧
        Joined (s.BlockNext b) i (r i) ∧
        dst'[pos stride (gcy b i) (gcx b i)]? =
          some (pos stride (gcy b (r i)) (gcx b (r i)))) ∧
      ∀ i j, s.BlockNext b j i → r j = r i := by
  obtain ⟨labels, returned, hlabels, hwritten⟩ := h.written b hx hy
  obtain ⟨hclosed, hclasses, hfind⟩ := hlabels.spec
  refine ⟨root (linkOn (s.blockThreads b).toFinset labels), fun i hi => ?_, fun i j hij => ?_⟩
  · obtain ⟨label, hlabel, hdst⟩ := hwritten i hi
    obtain rfl := Option.some.inj ((hfind i hi).symm.trans hlabel)
    have hmem := List.mem_toFinset.1 (hclosed.root_mem.2 (List.mem_toFinset.2 hi))
    have hroot := root_of_fixed (root_fixed hclosed.descending i)
    exact ⟨hmem, root_le hclosed.descending i, hroot, (hclasses _ _).1 hroot.symm,
      hdst.trans (congrArg some (globalLabel_eq hmem))⟩
  · exact (hclasses _ _).2 (.rel _ _ hij)

omit [LinearOrder ST] [Zero ST] [One ST] in
theorem pos_le (hstride : s.width ≤ stride) {b : BlockIdx} {i j : Nat} (hij : j ≤ i)
    (hj : j ∈ s.blockThreads b) :
    pos stride (gcy b j) (gcx b j) ≤ pos stride (gcy b i) (gcx b i) := by
  have hx : gcx b j < stride := (mem_blockThreads.1 hj).2.1.trans_le hstride
  have hrow : gcy b j ≤ gcy b i := by
    simp only [gcy, BW, BH]
    omega
  unfold pos
  rcases hrow.lt_or_eq with hlt | heq
  · have := Nat.mul_le_mul_right stride (Nat.succ_le_of_lt hlt)
    rw [Nat.succ_mul] at this
    omega
  · have hcol : gcx b j ≤ gcx b i := by
      simp only [gcx, gcy, BW, BH] at *
      omega
    rw [heq]
    omega

/-- **`BlockLabel2D`** joins neighbours in one block. -/
theorem BlockLabel2D.merged {dst dst' : List Nat} (hstride : s.width ≤ stride)
    (h : s.BlockLabel2D stride dst dst') : s.Merged stride s.NextInBlock dst' := by
  -- every pixel's label is the position of a pixel that is its own label
  have hpixel : ∀ p, s.InImage p → ∃ q, s.InImage q ∧ s.Connected p q ∧
      pos stride q.1 q.2 ≤ pos stride p.1 p.2 ∧
      dst'[pos stride p.1 p.2]? = some (pos stride q.1 q.2) ∧
      dst'[pos stride q.1 q.2]? = some (pos stride q.1 q.2) := by
    intro p hp
    obtain ⟨hx, hy⟩ := blockOf_lt hp
    obtain ⟨r, hr, -⟩ := h.block hx hy
    obtain ⟨hmem, hle, hrr, hjoined, hdst⟩ := hr _ (threadOf_mem hp)
    obtain ⟨-, -, -, -, hdst'⟩ := hr _ hmem
    have hconn := connected_of_block hjoined
    have hle := pos_le hstride hle hmem
    rw [gcy_threadOf, gcx_threadOf] at hconn hle hdst
    rw [hrr] at hdst'
    obtain ⟨-, hqx, hqy⟩ := mem_blockThreads.1 hmem
    exact ⟨_, ⟨hqy, hqx⟩, hconn, hle, hdst, hdst'⟩
  have hclosed : Closed (s.positions stride) dst' := fun j hj => by
    obtain ⟨p, hp, rfl⟩ := mem_positions.1 hj
    obtain ⟨q, hq, -, hle, hdst, -⟩ := hpixel p hp
    exact ⟨_, hdst, hle, pos_mem hq⟩
  -- so that it is the root
  have hroot : ∀ p, s.InImage p → ∀ q, s.InImage q →
      dst'[pos stride p.1 p.2]? = some (pos stride q.1 q.2) →
      dst'[pos stride q.1 q.2]? = some (pos stride q.1 q.2) →
      root (linkOn (s.positions stride) dst') (pos stride p.1 p.2) = pos stride q.1 q.2 := by
    intro p hp q hq hpq hqq
    rw [← root_link hclosed.descending, linkOn_eq (pos_mem hp) hpq]
    exact root_of_fixed (linkOn_eq (pos_mem hq) hqq)
  refine ⟨hclosed, fun p q hp hq heq => ?_, fun p q hpq => ?_⟩
  · obtain ⟨p', hp', hconnp, -, hdstp, hdstp'⟩ := hpixel p hp
    obtain ⟨q', hq', hconnq, -, hdstq, hdstq'⟩ := hpixel q hq
    rw [hroot p hp p' hp' hdstp hdstp', hroot q hq q' hq' hdstq hdstq'] at heq
    obtain rfl := pos_inj hstride hp' hq' heq
    exact .trans _ _ _ hconnp (.symm _ _ hconnq)
  · obtain ⟨hp, hq⟩ := inImage_of_next hpq.1
    obtain ⟨hx, hy⟩ := blockOf_lt hq
    obtain ⟨r, hr, hnext⟩ := h.block hx hy
    have hthread := hnext _ _ (blockNext_of_nextInBlock hpq)
    have hmem := threadOf_mem hp
    rw [hpq.2] at hmem
    obtain ⟨-, -, -, -, hdstp⟩ := hr _ hmem
    obtain ⟨-, -, -, -, hdstq⟩ := hr _ (threadOf_mem hq)
    rw [hthread, ← hpq.2, gcy_threadOf, gcx_threadOf, hpq.2] at hdstp
    rw [gcy_threadOf, gcx_threadOf] at hdstq
    rw [← root_link hclosed.descending, linkOn_eq (pos_mem hp) hdstp,
      ← root_link hclosed.descending (pos stride q.1 q.2), linkOn_eq (pos_mem hq) hdstq]

/-! ## The edges between blocks -/

/-- Threads that unite labels of connected pixels add their edges. -/
theorem Merged.unite {E : Nat × Nat → Nat × Nat → Prop} {labels labels' returned : List Nat}
    {wants : List (Nat × Nat)} (hstride : s.width ≤ stride) (h : s.Merged stride E labels)
    (hJ : Joins (s.positions stride) labels wants labels' returned)
    (hwants : ∀ w ∈ wants, ∃ p q, s.InImage p ∧ s.InImage q ∧ s.Connected p q ∧
      w = (pos stride p.1 p.2, pos stride q.1 q.2)) :
    s.Merged stride
      (fun p q => E p q ∨ (pos stride p.1 p.2, pos stride q.1 q.2) ∈ wants) labels' where
  closed := hJ.closed
  sound p q hp hq heq := by
    have key : ∀ x y, Joined (fun x y => root (linkOn (s.positions stride) labels) x =
        root (linkOn (s.positions stride) labels) y ∨ (x, y) ∈ wants) x y →
        (x ∈ s.positions stride ↔ y ∈ s.positions stride) ∧
        ∀ p q, s.InImage p → s.InImage q → x = pos stride p.1 p.2 → y = pos stride q.1 q.2 →
          s.Connected p q := by
      intro x y hxy
      induction hxy with
      | rel x y hxy =>
        rcases hxy with hroot | hmem
        · refine ⟨?_, fun p q hp hq hx hy => h.sound p q hp hq (hx ▸ hy ▸ hroot)⟩
          rw [← h.closed.root_mem, hroot, h.closed.root_mem]
        · obtain ⟨p', q', hp', hq', hconn, he⟩ := hwants _ hmem
          obtain ⟨rfl, rfl⟩ := Prod.mk.inj he
          refine ⟨iff_of_true (pos_mem hp') (pos_mem hq'), fun p q hp hq hx hy => ?_⟩
          obtain rfl := pos_inj hstride hp' hp hx
          obtain rfl := pos_inj hstride hq' hq hy
          exact hconn
      | refl x =>
        refine ⟨Iff.rfl, fun p q hp hq hx hy => ?_⟩
        obtain rfl := pos_inj hstride hp hq (hx.symm.trans hy)
        exact .refl _
      | symm x y _ ih =>
        exact ⟨ih.1.symm, fun p q hp hq hx hy => .symm _ _ (ih.2 q p hq hp hy hx)⟩
      | trans x y z _ _ ih ih' =>
        refine ⟨ih.1.trans ih'.1, fun p q hp hq hx hz => ?_⟩
        obtain ⟨m, hm, hy⟩ := mem_positions.1 (ih.1.1 (hx ▸ pos_mem hp))
        exact .trans _ _ _ (ih.2 p m hp hm hx hy) (ih'.2 m q hm hq hy hz)
    exact (key _ _ ((hJ.classes _ _).1 heq)).2 p q hp hq rfl rfl
  joined p q hpq := by
    refine (hJ.classes _ _).2 (.rel _ _ ?_)
    exact hpq.imp_left (h.joined p q)

theorem mem_yThreads {t : UnionThread} : t ∈ s.yThreads stride ↔ ∃ y x, (x < s.width ∧
    y + 1 < s.height) ∧ (y + 1) % BH = 0 ∧ s.UnitesY (y + 1) x ∧
    t = .start (pos stride (y + 1) x) (pos stride y x) := by
  simp only [yThreads, List.mem_flatMap, List.mem_range, List.mem_filterMap,
    Option.ite_none_right_eq_some, Option.some.injEq]
  constructor
  · rintro ⟨k, -, x, -, ⟨hin, hunites⟩, rfl⟩
    have hy : k * BH + BH = (k * BH + BH - 1) + 1 := by simp only [BH]; omega
    refine ⟨k * BH + BH - 1, x, ?_⟩
    rw [← hy]
    exact ⟨hin, by simp only [BH]; omega, hunites, rfl⟩
  · rintro ⟨y, x, ⟨hx, hy⟩, hmod, hunites, rfl⟩
    have hk : (y + 1) / BH - 1 < divUp s.labBlocks.y BH * BH := by
      simp only [labBlocks, divUp, BH] at *
      omega
    have he : ((y + 1) / BH - 1) * BH + BH = y + 1 := by
      simp only [BH] at *
      omega
    refine ⟨(y + 1) / BH - 1, hk, x, ?_, ?_⟩
    · simp only [divUp, BW]
      omega
    · rw [he]
      exact ⟨⟨⟨hx, hy⟩, hunites⟩, rfl⟩

theorem mem_xThreads {t : UnionThread} : t ∈ s.xThreads stride ↔ ∃ y x, (x + 1 < s.width ∧
    y < s.height) ∧ (x + 1) % BW = 0 ∧ s.UnitesX y (x + 1) ∧
    t = .start (pos stride y (x + 1)) (pos stride y x) := by
  simp only [xThreads, List.mem_flatMap, List.mem_range, List.mem_filterMap,
    Option.ite_none_right_eq_some, Option.some.injEq]
  constructor
  · rintro ⟨k, -, y, -, ⟨hin, hunites⟩, rfl⟩
    have hx : k * BW + BW = (k * BW + BW - 1) + 1 := by simp only [BW]; omega
    refine ⟨y, k * BW + BW - 1, ?_⟩
    rw [← hx]
    exact ⟨hin, by simp only [BW]; omega, hunites, rfl⟩
  · rintro ⟨y, x, ⟨hx, hy⟩, hmod, hunites, rfl⟩
    have hk : (x + 1) / BW - 1 < divUp s.labBlocks.x BH * BH := by
      simp only [labBlocks, divUp, BW, BH] at *
      omega
    have he : ((x + 1) / BW - 1) * BW + BW = x + 1 := by
      simp only [BW] at *
      omega
    refine ⟨(x + 1) / BW - 1, hk, y, ?_, ?_⟩
    · simp only [divUp, BW]
      omega
    · rw [he]
      exact ⟨⟨⟨hx, hy⟩, hunites⟩, rfl⟩

theorem yThreads_fit : ∀ t ∈ s.yThreads stride, t.Fits (s.positions stride) := by
  intro t ht
  obtain ⟨y, x, ⟨hx, hy⟩, -, -, rfl⟩ := mem_yThreads.1 ht
  exact ⟨pos_mem (p := (y + 1, x)) ⟨hy, hx⟩, pos_mem (p := (y, x)) ⟨Nat.lt_of_succ_lt hy, hx⟩⟩

theorem xThreads_fit : ∀ t ∈ s.xThreads stride, t.Fits (s.positions stride) := by
  intro t ht
  obtain ⟨y, x, ⟨hx, hy⟩, -, -, rfl⟩ := mem_xThreads.1 ht
  exact ⟨pos_mem (p := (y, x + 1)) ⟨hy, hx⟩, pos_mem (p := (y, x)) ⟨hy, Nat.lt_of_succ_lt hx⟩⟩

/-- Neighbours in one block or in one column. -/
def NextInColumn (s : Sample ST) (p q : Nat × Nat) : Prop :=
  s.Next p q ∧ (blockOf p = blockOf q ∨ q = (p.1 + 1, p.2))

/-- **`YLabelReduction2D`** joins neighbours in one column: where a thread does nothing, the column
to the left is joined, and the rows are. -/
theorem Merged.columns {labels labels' returned : List Nat} (hstride : s.width ≤ stride)
    (h : s.Merged stride s.NextInBlock labels)
    (hrun : Unites labels (s.yThreads stride) labels' returned) :
    s.Merged stride s.NextInColumn labels' := by
  have hJ := hrun.joins h.closed yThreads_fit
  have hwants : ∀ w ∈ (s.yThreads stride).map UnionThread.wanted, ∃ p q, s.InImage p ∧
      s.InImage q ∧ s.Connected p q ∧ w = (pos stride p.1 p.2, pos stride q.1 q.2) := by
    intro w hw
    obtain ⟨t, ht, rfl⟩ := List.mem_map.1 hw
    obtain ⟨y, x, ⟨hx, hy⟩, -, ⟨hval, -⟩, rfl⟩ := mem_yThreads.1 ht
    have hnext : s.Next (y, x) (y + 1, x) := ⟨.inr rfl, hy, hx, hval.symm⟩
    exact ⟨(y + 1, x), (y, x), ⟨hy, hx⟩, ⟨Nat.lt_of_succ_lt hy, hx⟩, .symm _ _ (.rel _ _ hnext),
      rfl⟩
  have hM := h.unite hstride hJ hwants
  refine ⟨hM.closed, hM.sound, fun p q hpq => ?_⟩
  obtain ⟨hnext, hblock | rfl⟩ := hpq
  · exact hM.joined p q (.inl ⟨hnext, hblock⟩)
  obtain ⟨y, x⟩ := p
  by_cases hmod : (y + 1) % BH = 0
  · obtain ⟨-, hy, hx, hval⟩ := hnext
    induction x with
    | zero =>
      have ht : .start (pos stride (y + 1) 0) (pos stride y 0) ∈ s.yThreads stride :=
        mem_yThreads.2 ⟨y, 0, ⟨hx, hy⟩, hmod, ⟨hval.symm, .inl rfl⟩, rfl⟩
      exact (hM.joined (y + 1, 0) (y, 0) (.inr (List.mem_map_of_mem ht))).symm
    | succ x ih =>
      by_cases hunites : s.UnitesY (y + 1) (x + 1)
      · have ht : .start (pos stride (y + 1) (x + 1)) (pos stride y (x + 1)) ∈ s.yThreads stride :=
          mem_yThreads.2 ⟨y, x + 1, ⟨hx, hy⟩, hmod, hunites, rfl⟩
        exact (hM.joined (y + 1, x + 1) (y, x + 1) (.inr (List.mem_map_of_mem ht))).symm
      · obtain ⟨hlane, hleft, hdiag⟩ : (x + 1) % BW ≠ 0 ∧
            s.pixel (y + 1) (x + 1) = s.pixel (y + 1) x ∧
            s.pixel (y + 1) (x + 1) = s.pixel y x := by
          simp only [UnitesY, not_and_or, not_or, not_not, shflUp] at hunites
          rcases hunites with hne | ⟨hlane, hleft, hdiag⟩
          · exact absurd hval.symm hne
          · rw [if_neg hlane] at hleft hdiag
            exact ⟨hlane, hleft, hdiag⟩
        have hcolumn : blockOf (y, x) = blockOf (y, x + 1) ∧
            blockOf (y + 1, x) = blockOf (y + 1, x + 1) :=
          ⟨blockOf_right hlane, blockOf_right hlane⟩
        have hup := hM.joined (y, x) (y, x + 1)
          (.inl ⟨⟨.inl rfl, Nat.lt_of_succ_lt hy, hx, hdiag.symm.trans hval.symm⟩, hcolumn.1⟩)
        have hdown := hM.joined (y + 1, x) (y + 1, x + 1)
          (.inl ⟨⟨.inl rfl, hy, hx, hleft.symm⟩, hcolumn.2⟩)
        have hside := ih hy (Nat.lt_of_succ_lt hx) (hdiag.symm.trans hleft)
        exact hup.symm.trans (hside.trans hdown)
  · exact hM.joined _ _ (.inl ⟨hnext, blockOf_below hmod⟩)

/-- **`XLabelReduction2D`** joins all neighbours: where a thread does nothing, the row above is
joined, and the columns are. -/
theorem Merged.rows {labels labels' returned : List Nat} (hstride : s.width ≤ stride)
    (h : s.Merged stride s.NextInColumn labels)
    (hrun : Unites labels (s.xThreads stride) labels' returned) :
    s.Merged stride s.Next labels' := by
  have hJ := hrun.joins h.closed xThreads_fit
  have hwants : ∀ w ∈ (s.xThreads stride).map UnionThread.wanted, ∃ p q, s.InImage p ∧
      s.InImage q ∧ s.Connected p q ∧ w = (pos stride p.1 p.2, pos stride q.1 q.2) := by
    intro w hw
    obtain ⟨t, ht, rfl⟩ := List.mem_map.1 hw
    obtain ⟨y, x, ⟨hx, hy⟩, -, ⟨hval, -⟩, rfl⟩ := mem_xThreads.1 ht
    have hnext : s.Next (y, x) (y, x + 1) := ⟨.inl rfl, hy, hx, hval.symm⟩
    exact ⟨(y, x + 1), (y, x), ⟨hy, hx⟩, ⟨hy, Nat.lt_of_succ_lt hx⟩, .symm _ _ (.rel _ _ hnext),
      rfl⟩
  have hM := h.unite hstride hJ hwants
  refine ⟨hM.closed, hM.sound, fun p q hnext => ?_⟩
  obtain ⟨rfl | rfl, -⟩ := id hnext
  · obtain ⟨y, x⟩ := p
    by_cases hmod : (x + 1) % BW = 0
    · obtain ⟨-, hy, hx, hval⟩ := hnext
      induction y with
      | zero =>
        have ht : .start (pos stride 0 (x + 1)) (pos stride 0 x) ∈ s.xThreads stride :=
          mem_xThreads.2 ⟨0, x, ⟨hx, hy⟩, hmod, ⟨hval.symm, .inl rfl⟩, rfl⟩
        exact (hM.joined (0, x + 1) (0, x) (.inr (List.mem_map_of_mem ht))).symm
      | succ y ih =>
        by_cases hunites : s.UnitesX (y + 1) (x + 1)
        · have ht : .start (pos stride (y + 1) (x + 1)) (pos stride (y + 1) x) ∈
              s.xThreads stride :=
            mem_xThreads.2 ⟨y + 1, x, ⟨hx, hy⟩, hmod, hunites, rfl⟩
          exact (hM.joined (y + 1, x + 1) (y + 1, x) (.inr (List.mem_map_of_mem ht))).symm
        · obtain ⟨hup, hdiag⟩ : s.pixel (y + 1) (x + 1) = s.pixel y (x + 1) ∧
              s.pixel (y + 1) (x + 1) = s.pixel y x := by
            simp only [UnitesX, not_and_or, not_or, not_not, shflUp] at hunites
            rcases hunites with hne | ⟨hrow, hup, hdiag⟩
            · exact absurd hval.symm hne
            · -- a row that does not begin a block is not that of the first lane
              have hlane : (y + 1) % BW ≠ 0 := by
                simp only [BW, BH] at *
                omega
              rw [if_neg hlane] at hup hdiag
              exact ⟨hup, hdiag⟩
          have hleft := hM.joined (y, x) (y + 1, x)
            (.inl ⟨⟨.inr rfl, hy, Nat.lt_of_succ_lt hx, hdiag.symm.trans hval.symm⟩, .inr rfl⟩)
          have hright := hM.joined (y, x + 1) (y + 1, x + 1)
            (.inl ⟨⟨.inr rfl, hy, hx, hup.symm⟩, .inr rfl⟩)
          have habove := ih (Nat.lt_of_succ_lt hy) hx (hdiag.symm.trans hup)
          exact hleft.symm.trans (habove.trans hright)
    · exact hM.joined _ _ (.inl ⟨hnext, .inl (blockOf_right hmod)⟩)
  · exact hM.joined _ _ (.inl ⟨hnext, .inr rfl⟩)

/-! ## All kernels -/

omit [LinearOrder ST] [Zero ST] [One ST] in
theorem mem_resolveThreads {t : RootThread} : t ∈ s.resolveThreads stride ↔
    ∃ p, s.InImage p ∧ t = .load (pos stride p.1 p.2) := by
  simp only [resolveThreads, List.mem_flatMap, List.mem_range, List.mem_filterMap,
    Option.ite_none_right_eq_some, Option.some.injEq]
  constructor
  · rintro ⟨y, -, x, -, ⟨hx, hy⟩, rfl⟩
    exact ⟨(y, x), ⟨hy, hx⟩, rfl⟩
  · rintro ⟨⟨y, x⟩, ⟨hy, hx⟩, rfl⟩
    refine ⟨y, ?_, x, ?_, ⟨hx, hy⟩, rfl⟩
    · simp only [labBlocks, divUp, BH]
      omega
    · simp only [labBlocks, divUp, BW]
      omega

omit [LinearOrder ST] [Zero ST] [One ST] in
theorem resolveThreads_fit {labels : List Nat} :
    ∀ t ∈ s.resolveThreads stride, t.Fits (s.positions stride) labels := by
  intro t ht
  obtain ⟨p, hp, rfl⟩ := mem_resolveThreads.1 ht
  exact pos_mem hp

/-- **Connected components**: after the kernels, in whatever order their threads take their steps,
the label of a pixel is the position of one that it is connected with, and two pixels have the same
label exactly if they are connected; nothing else is written. -/
theorem labels2D_exact (hstride : s.width ≤ stride) {dst dst' : List Nat}
    (h : s.Labels2D stride dst dst') :
    (∀ p, s.InImage p → ∃ q, s.InImage q ∧ s.Connected p q ∧
      dst'[pos stride p.1 p.2]? = some (pos stride q.1 q.2)) ∧
    (∀ p q, s.InImage p → s.InImage q →
      (dst'[pos stride p.1 p.2]? = dst'[pos stride q.1 q.2]? ↔ s.Connected p q)) ∧
    ∀ j, (∀ p, s.InImage p → j ≠ pos stride p.1 p.2) → dst'[j]? = dst[j]? := by
  obtain ⟨blocks, ys, xs, returnedY, returnedX, hblocks, hy, hx, hresolve⟩ := h
  have hB := hblocks.merged hstride
  have hY := hB.columns hstride hy
  have hX := hY.rows hstride hx
  have hR := hresolve.roots hX.closed resolveThreads_fit
  have hdst : ∀ p, s.InImage p → dst'[pos stride p.1 p.2]? =
      some (root (linkOn (s.positions stride) xs) (pos stride p.1 p.2)) := fun p hp =>
    hR.stored _ (List.mem_map.2 ⟨_, mem_resolveThreads.2 ⟨p, hp, rfl⟩, rfl⟩)
  have hconn : ∀ p q, s.Connected p q →
      root (linkOn (s.positions stride) xs) (pos stride p.1 p.2) =
        root (linkOn (s.positions stride) xs) (pos stride q.1 q.2) := by
    intro p q hpq
    induction hpq with
    | rel p q h => exact hX.joined p q h
    | refl p => rfl
    | symm p q _ ih => exact ih.symm
    | trans p q r _ _ ih ih' => exact ih.trans ih'
  refine ⟨fun p hp => ?_, fun p q hp hq => ?_, fun j hj => ?_⟩
  · obtain ⟨q, hq, he⟩ := mem_positions.1 (hX.closed.root_mem.2 (pos_mem hp))
    refine ⟨q, hq, hX.sound p q hp hq ?_, (hdst p hp).trans (congrArg some he)⟩
    rw [← he, root_of_fixed (root_fixed hX.closed.descending _)]
  · rw [hdst p hp, hdst q hq, Option.some.injEq]
    exact ⟨hX.sound p q hp hq, hconn p q⟩
  · have hout : j ∉ s.positions stride := fun hmem => by
      obtain ⟨p, hp, he⟩ := mem_positions.1 hmem
      exact hj p hp he
    rw [hR.outside j hout, (hx.joins hY.closed xThreads_fit).outside j hout,
      (hy.joins hB.closed yThreads_fit).outside j hout]
    exact hblocks.others j fun y x hy hx => hj (y, x) ⟨hy, hx⟩

end

/-! ## A run -/

/-- Three pixels around a corner. -/
def corner : Sample Nat := ⟨2, 2, fun y x => if y = 0 ∧ x = 0 then 1 else 5, none, none⟩

theorem runs_of_exec {τ : Type} {stepOf : List Nat → τ → Option (List Nat × τ)}
    {t t' : Threads τ} {order : List Nat}
    (h : Run.exec (Threads.step stepOf) (fun _ _ => True) t order = some t') :
    Threads.Runs stepOf t order t' :=
  (Run.of_exec h).mono fun _ _ _ hs => hs.1

/-- The block: the last thread unites the labels above and to the left of it. -/
theorem corner_block : corner.BlockLabels ⟨0, 0⟩ (((List.range 128).set 33 1).set 32 1) [1] := by
  refine ⟨(List.range 128).set 33 1, (List.range 128).set 33 1, by simp [BW, BH], by decide +kernel, ?_, ?_⟩
  · exact ⟨[0, 1, 2, 3, 0, 1, 2, 3], [0, 1, 32, 33], runs_of_exec (by decide +kernel)⟩
  · exact ⟨[0, 0, 0, 0, 0, 0, 0], runs_of_exec (by decide +kernel)⟩

theorem corner_labels2D : corner.Labels2D 2 [9, 9, 9, 9] [0, 1, 1, 1] := by
  refine ⟨[0, 1, 1, 1], [0, 1, 1, 1], [0, 1, 1, 1], [], [], ⟨rfl, ?_, ?_⟩, ⟨[], ?_⟩, ⟨[], ?_⟩, ?_⟩
  · rintro ⟨x, y⟩ hx hy
    obtain rfl : x = 0 := Nat.lt_one_iff.1 hx
    obtain rfl : y = 0 := Nat.lt_one_iff.1 hy
    refine ⟨_, _, corner_block, fun i hi => ?_⟩
    have hroots : ∀ i ∈ corner.blockThreads ⟨0, 0⟩, ∃ label ∈ [0, 1],
        findRoot (((List.range 128).set 33 1).set 32 1) (BW * BH)
          (corner.lastLabel ⟨0, 0⟩ i [1]) = some label ∧
        [0, 1, 1, 1][pos 2 (gcy ⟨0, 0⟩ i) (gcx ⟨0, 0⟩ i)]? =
          some (globalLabel 2 ⟨0, 0⟩ label) := by
      decide +kernel
    obtain ⟨label, -, h⟩ := hroots i hi
    exact ⟨label, h⟩
  · intro j hj
    have hout : 4 ≤ j := by
      by_contra hlt
      apply hj (j / 2) (j % 2) (by simp only [corner]; omega) (by simp only [corner]; omega)
      simp only [pos]
      omega
    rw [List.getElem?_eq_none hout, List.getElem?_eq_none hout]
  · exact runs_of_exec (by decide +kernel)
  · exact runs_of_exec (by decide +kernel)
  · exact ⟨[0, 1, 2, 3, 0, 1, 2, 3, 0, 1, 2, 3], [0, 1, 2, 3], runs_of_exec (by decide +kernel)⟩

theorem labels2D_exact_corner :
    corner.Connected (0, 1) (1, 0) ∧ ¬corner.Connected (0, 0) (1, 1) := by
  have h := (labels2D_exact le_rfl corner_labels2D).2.1
  have hin (y x : Nat) (hy : y < 2) (hx : x < 2) : corner.InImage (y, x) := ⟨hy, hx⟩
  refine ⟨(h (0, 1) (1, 0) ?_ ?_).1 rfl, fun hconn => ?_⟩
  · exact hin 0 1 (by decide) (by decide)
  · exact hin 1 0 (by decide) (by decide)
  · have heq := (h (0, 0) (1, 1) (hin 0 0 (by decide) (by decide))
      (hin 1 1 (by decide) (by decide))).2 hconn
    exact absurd heq (by decide)

end Sample

end Cvcuda.Label
