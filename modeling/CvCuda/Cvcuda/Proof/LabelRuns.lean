import CvCuda.Cvcuda.Proof.Label2D

/-! # The labelling kernels come to their end

* `Threads.finishes`: threads whose steps left go down, and which always have a step, come to an
  end, whatever steps they have taken.
* `Unites.finishes`, `StoresRoots.finishes`: so do the threads of the kernels.
* `labels2D_total`: from any output that has a place for every pixel, the kernels lead to another.
-/

namespace Cvcuda

open Forest

/-! ## Threads -/

/-- **Termination**: when steps keep `P` and make `left` smaller, and a thread that is not `done`
has a step, all threads get done. -/
theorem Threads.finishes {τ : Type} {stepOf : List Nat → τ → Option (List Nat × τ)}
    (P : Threads τ → Prop) (left : Threads τ → Nat) (done : τ → Prop)
    (hstep : ∀ s i s', P s → s.step stepOf i = some s' → P s' ∧ left s' < left s)
    (hprogress : ∀ (s : Threads τ) (i : Nat) t, P s → s.threads[i]? = some t →
      done t ∨ ∃ s', s.step stepOf i = some s')
    {s : Threads τ} (hs : P s) :
    ∃ more s', Threads.Runs stepOf s more s' ∧ ∀ t ∈ s'.threads, done t := by
  induction hn : left s using Nat.strong_induction_on generalizing s with
  | h n ih =>
    by_cases hdone : ∀ t ∈ s.threads, done t
    · exact ⟨[], s, .nil s, hdone⟩
    · push Not at hdone
      obtain ⟨t, ht, hnot⟩ := hdone
      obtain ⟨i, hi⟩ := List.mem_iff_getElem?.1 ht
      obtain ⟨s₁, h₁⟩ := (hprogress s i t hs hi).resolve_left hnot
      obtain ⟨hP, hlt⟩ := hstep s i s₁ hs h₁
      obtain ⟨more, s', hrun, hend⟩ := ih _ (hn ▸ hlt) hP rfl
      exact ⟨i :: more, s', .cons h₁ hrun, hend⟩

/-- Threads that unite labels take finitely many steps in any order, and none is ever stuck: they
come to their end from wherever they are. -/
theorem Unites.finishes {D : Finset Nat} {labels : List Nat} {threads : List UnionThread}
    {order : List Nat} {s : Threads UnionThread} (hD : Closed D labels)
    (hfit : ∀ t ∈ threads, t.Fits D)
    (hrun : Threads.Runs UnionThread.step ⟨labels, threads⟩ order s) :
    order.length ≤ (threads.map UnionThread.left).sum ∧
      ∃ more labels', ∃ returned : List Nat, Threads.Runs UnionThread.step s more
        ⟨labels', returned.map fun label => .call (.returned label)⟩ := by
  have hwants := fits_wanted hfit
  obtain ⟨hinv, hle⟩ := (UnionInv.begin hD hfit).run hwants hrun
  refine ⟨by dsimp only at hle; omega, ?_⟩
  obtain ⟨more, s', hmore, hdone⟩ := Threads.finishes 
    (fun s => ∃ pairs, UnionInv D labels (threads.map UnionThread.wanted) pairs s)
    (fun s => (s.threads.map UnionThread.left).sum)
    (fun t => ∃ label, t = .call (.returned label))
    (fun s i s' ⟨pairs, h⟩ hs => h.step hwants hs)
    (fun s i t ⟨pairs, h⟩ ht => h.progress hwants ht) hinv
  choose! returned hreturned using hdone
  refine ⟨more, s'.labels, s'.threads.map returned, ?_⟩
  have he : s'.threads = (s'.threads.map returned).map fun label => .call (.returned label) := by
    rw [List.map_map]
    exact (List.map_id _).symm.trans (List.map_congr_left fun t ht => hreturned t ht)
  rw [← he]
  exact hmore

/-- So do threads that store roots. -/
theorem StoresRoots.finishes {D : Finset Nat} {labels : List Nat} {threads : List RootThread}
    {order : List Nat} {s : Threads RootThread} (hD : Closed D labels)
    (hfit : ∀ t ∈ threads, t.Fits D labels)
    (hrun : Threads.Runs RootThread.step ⟨labels, threads⟩ order s) :
    order.length ≤ (threads.map RootThread.left).sum ∧
      ∃ more labels', ∃ places : List Nat, Threads.Runs RootThread.step s more
        ⟨labels', places.map RootThread.stored⟩ := by
  obtain ⟨hinv, hle⟩ := (RootInv.begin hD hfit).run hrun
  refine ⟨by dsimp only at hle; omega, ?_⟩
  obtain ⟨more, s', hmore, hdone⟩ := Threads.finishes
    (RootInv D labels (threads.map RootThread.place))
    (fun s => (s.threads.map RootThread.left).sum) (fun t => ∃ p, t = .stored p)
    (fun s i s' h hs => h.step hs) (fun s i t h ht => h.progress ht) hinv
  choose! places hplaces using hdone
  refine ⟨more, s'.labels, s'.threads.map places, ?_⟩
  have he : s'.threads = (s'.threads.map places).map RootThread.stored := by
    rw [List.map_map]
    exact (List.map_id _).symm.trans (List.map_congr_left fun t ht => hplaces t ht)
  rw [← he]
  exact hmore

/-! ## The kernels -/

namespace Label.Sample

variable {ST : Type} [LinearOrder ST] [Zero ST] [One ST] {s : Sample ST}

/-- The threads of a block come to the last barrier. -/
theorem exists_blockLabels (b : BlockIdx) :
    ∃ labels returned, s.BlockLabels b labels returned := by
  have hstored : ∀ i ∈ s.blockThreads b,
      ((List.range (BW * BH)).map (s.label1 b))[i]? = some (s.label1 b i) := by
    intro i hi
    have hlt := (mem_blockThreads.1 hi).1
    rw [List.getElem?_map, List.getElem?_range hlt]
    rfl
  have hclosed := closed_stored hstored
  obtain ⟨-, order, rooted, places, hroots⟩ :=
    StoresRoots.finishes hclosed (roots_fit hstored) (.nil _)
  have hrooted : StoresRoots _ _ rooted := ⟨order, places, hroots⟩
  obtain ⟨-, order', labels, returned, hunites⟩ :=
    Unites.finishes (hrooted.roots hclosed (roots_fit hstored)).closed corners_fit (.nil _)
  exact ⟨labels, returned, _, rooted, by simp, hstored, hrooted, order', hunites⟩

variable {stride : Nat}

omit [LinearOrder ST] [Zero ST] [One ST] in
theorem blockOf_gc {b : BlockIdx} {i : Nat} (hi : i ∈ s.blockThreads b) :
    blockOf (gcy b i, gcx b i) = b ∧ threadOf (gcy b i, gcx b i) = i := by
  have hlt := (mem_blockThreads.1 hi).1
  obtain ⟨x, y⟩ := b
  simp only [blockOf, threadOf, gcx, gcy, BW, BH, BlockIdx.mk.injEq] at *
  omega

theorem exists_blockLabel2D (hstride : s.width ≤ stride) {dst : List Nat}
    (hplace : ∀ p, s.InImage p → pos stride p.1 p.2 < dst.length) :
    ∃ dst', s.BlockLabel2D stride dst dst' := by
  choose labels returned hlabels using exists_blockLabels (s := s)
  let label (p : Nat × Nat) : Nat :=
    root (linkOn (s.blockThreads (blockOf p)).toFinset (labels (blockOf p))) (threadOf p)
  let dst' := dst.mapIdx fun j old => if j ∈ s.positions stride then
    globalLabel stride (blockOf (j / stride, j % stride)) (label (j / stride, j % stride)) else old
  refine ⟨dst', ⟨by simp [dst'], fun b _ _ => ⟨labels b, returned b, hlabels b, fun i hi => ?_⟩,
    fun j hj => ?_⟩⟩
  · obtain ⟨-, -, hfind⟩ := (hlabels b).spec
    have hin : s.InImage (gcy b i, gcx b i) := (mem_blockThreads.1 hi).2.symm
    have hx : gcx b i < stride := hin.2.trans_le hstride
    have hdiv : pos stride (gcy b i) (gcx b i) / stride = gcy b i := by
      rw [pos, Nat.mul_comm, Nat.mul_add_div (Nat.zero_lt_of_lt hx), Nat.div_eq_of_lt hx,
        Nat.add_zero]
    have hmod : pos stride (gcy b i) (gcx b i) % stride = gcx b i := by
      rw [pos, Nat.mul_comm, Nat.mul_add_mod, Nat.mod_eq_of_lt hx]
    obtain ⟨hblock, hthread⟩ := blockOf_gc hi
    refine ⟨_, hfind i hi, ?_⟩
    rw [List.getElem?_mapIdx, List.getElem?_eq_getElem (hplace _ hin), Option.map_some,
      if_pos (pos_mem hin), hdiv, hmod, hblock]
    simp only [label, hblock, hthread]
  · have hout : j ∉ s.positions stride := fun hmem => by
      obtain ⟨p, hp, he⟩ := mem_positions.1 hmem
      exact hj p.1 p.2 hp.1 hp.2 he
    simp [dst', List.getElem?_mapIdx, hout]

end Label.Sample

end Cvcuda
