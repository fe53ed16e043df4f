import CvCuda.Cvcuda.LabelThreads
import CvCuda.Cvcuda.Proof.LabelReduction

/-! # What the threads of the labelling kernels leave

Of the labels that threads share, only those at some places matter; these have labels of such
places, no greater than themselves (`Closed`). Other places hold anything.

* `Unites.classes`: threads that unite labels join what they are there for, and nothing else.
* `StoresRoots.roots`: threads that store roots change no root.
-/

namespace Cvcuda

open Forest

/-! ## Places that matter -/

/-- The labels, with those that do not matter replaced. -/
def masked (D : Finset Nat) (labels : List Nat) : List Nat :=
  labels.mapIdx fun i v => if i ∈ D then v else i

/-- Where a place that matters is linked to. -/
def linkOn (D : Finset Nat) (labels : List Nat) : Nat → Nat := linkOf (masked D labels)

/-- Every place that matters is linked to one that does, no greater. -/
def Closed (D : Finset Nat) (labels : List Nat) : Prop :=
  ∀ i ∈ D, ∃ v, labels[i]? = some v ∧ v ≤ i ∧ v ∈ D

section
variable {D : Finset Nat} {labels : List Nat} {i v : Nat}

@[simp] theorem length_masked : (masked D labels).length = labels.length := List.length_mapIdx

theorem getElem?_masked : (masked D labels)[i]? = labels[i]?.map fun v => if i ∈ D then v else i :=
  List.getElem?_mapIdx

theorem getElem?_masked_of_mem (hi : i ∈ D) : (masked D labels)[i]? = labels[i]? := by
  simp [getElem?_masked, hi]

theorem masked_set (hi : i ∈ D) : masked D (labels.set i v) = (masked D labels).set i v := by
  apply List.ext_getElem?
  intro j
  simp only [getElem?_masked, List.getElem?_set, length_masked]
  by_cases hij : i = j
  · subst hij
    by_cases hlen : i < labels.length <;> simp [hi, hlen]
  · simp [hij]

theorem linkOn_eq (hi : i ∈ D) (h : labels[i]? = some v) : linkOn D labels i = v :=
  linkOf_eq ((getElem?_masked_of_mem hi).trans h)

theorem linkOn_of_notMem (hi : i ∉ D) : linkOn D labels i = i := by
  unfold linkOn linkOf
  rw [List.getD_eq_getElem?_getD, getElem?_masked]
  cases labels[i]? <;> simp [hi]

theorem Closed.descending (h : Closed D labels) : Descending (linkOn D labels) := by
  intro i
  by_cases hi : i ∈ D
  · obtain ⟨v, hv, hle, -⟩ := h i hi
    rwa [linkOn_eq hi hv]
  · exact (linkOn_of_notMem hi).le

theorem Closed.lt_length (h : Closed D labels) (hi : i ∈ D) : i < labels.length := by
  obtain ⟨v, hv, -⟩ := h i hi
  exact (List.getElem?_eq_some_iff.1 hv).1

theorem Closed.link_mem (h : Closed D labels) : linkOn D labels i ∈ D ↔ i ∈ D := by
  by_cases hi : i ∈ D
  · obtain ⟨v, hv, -, hmem⟩ := h i hi
    simp [linkOn_eq hi hv, hmem, hi]
  · rw [linkOn_of_notMem hi]

theorem Closed.iterate_mem (h : Closed D labels) (k : Nat) :
    (linkOn D labels)^[k] i ∈ D ↔ i ∈ D := by
  induction k with
  | zero => rfl
  | succ k ih => rw [Function.iterate_succ_apply', h.link_mem, ih]

/-- A root of what matters does. -/
theorem Closed.root_mem (h : Closed D labels) : root (linkOn D labels) i ∈ D ↔ i ∈ D :=
  h.iterate_mem i

/-- Links that go down and stay within, read back from the masked labels. -/
theorem closed_of_descending (hlen : ∀ i ∈ D, i < labels.length)
    (hdown : Descending (linkOn D labels)) (hmem : ∀ i ∈ D, linkOn D labels i ∈ D) :
    Closed D labels := by
  intro i hi
  have hv := List.getElem?_eq_getElem (hlen i hi)
  have hlink := linkOn_eq hi hv
  exact ⟨_, hv, hlink ▸ hdown i, hlink ▸ hmem i hi⟩

end

/-! ## A call on the places that matter -/

namespace Reduction

/-- Where the next step reads or writes. -/
def touched : Reduction → List Nat
  | first label1 label2 => if label1 ≠ label2 then [label1] else []
  | second label1 label2 _ => if label1 ≠ label2 then [label2] else []
  | loop1 label1 label2 next1 _ => if label1 ≠ label2 ∧ label1 ≠ next1 then [next1] else []
  | loop2 label1 label2 next2 => if label1 ≠ label2 ∧ label2 ≠ next2 then [next2] else []
  | link label1 label2 => if label1 ≠ label2 then [max label1 label2] else []
  | returned _ => []

section
variable {D : Finset Nat} {labels : List Nat} {R : Nat → Nat → Prop} {c : Reduction} {n a b : Nat}

theorem map_masked {f : Nat → Reduction} {i : Nat} (hi : i ∈ D) :
    (masked D labels)[i]?.map (fun v => (masked D labels, f v)) =
      (labels[i]?.map fun v => (labels, f v)).map fun r => (masked D r.1, r.2) := by
  rw [getElem?_masked_of_mem hi, Option.map_map]
  rfl

/-- A step on the masked labels is one on the labels. -/
theorem step_masked (h : ∀ i ∈ c.touched, i ∈ D) :
    c.step (masked D labels) = (c.step labels).map fun r => (masked D r.1, r.2) := by
  cases c with
  | first label1 label2 =>
    by_cases hne : label1 = label2
    · simp [step, hne]
    · have hmem := h label1 (by simp [touched, hne])
      simpa [step, hne] using map_masked hmem
  | second label1 label2 next1 =>
    by_cases hne : label1 = label2
    · simp [step, hne]
    · have hmem := h label2 (by simp [touched, hne])
      simpa [step, hne] using map_masked hmem
  | loop1 label1 label2 next1 next2 =>
    by_cases hne : label1 ≠ label2 ∧ label1 ≠ next1
    · have hmem := h next1 (by simp [touched, hne])
      simp only [step, if_pos hne]
      exact map_masked hmem
    · simp only [step, if_neg hne, Option.map_some]
  | loop2 label1 label2 next2 =>
    by_cases hne : label1 ≠ label2 ∧ label2 ≠ next2
    · have hmem := h next2 (by simp [touched, hne])
      simp only [step, if_pos hne]
      exact map_masked hmem
    · simp only [step, if_neg hne, Option.map_some]
  | link label1 label2 =>
    by_cases hne : label1 = label2
    · simp [step, hne]
    · have hmem := h (max label1 label2) (by simp [touched, hne])
      by_cases hlt : label1 < label2
      · rw [max_eq_right hlt.le] at hmem
        simp [step, hne, hlt, atomicMin, getElem?_masked_of_mem hmem, masked_set hmem,
          Option.map_map, Function.comp_def]
      · rw [max_eq_left (not_lt.1 hlt)] at hmem
        simp [step, hne, hlt, atomicMin, getElem?_masked_of_mem hmem, masked_set hmem,
          Option.map_map, Function.comp_def]
  | returned label => rfl

/-- A call for places that matter touches such places. -/
theorem Local.touched (hR : ∀ x y, R x y → (x ∈ D ↔ y ∈ D)) (ha : a ∈ D) (hb : b ∈ D)
    (hc : c.Local R n a b) : ∀ i ∈ c.touched, i ∈ D := by
  intro i hi
  cases c with
  | first label1 label2 =>
    obtain ⟨rfl, rfl, -⟩ := hc
    simp only [Reduction.touched] at hi
    split at hi <;> simp_all
  | second label1 label2 next1 =>
    obtain ⟨rfl, rfl, -⟩ := hc
    simp only [Reduction.touched] at hi
    split at hi <;> simp_all
  | loop1 label1 label2 next1 next2 =>
    obtain ⟨h1, -, -, -, hn⟩ := hc
    simp only [Reduction.touched] at hi
    split at hi
    · rename_i hne
      obtain rfl := List.mem_singleton.1 hi
      exact (hR _ _ (hn hne.1).1.1).1 ((hR _ _ h1).1 ha)
    · cases hi
  | loop2 label1 label2 next2 =>
    obtain ⟨-, h2, -, -, hn⟩ := hc
    simp only [Reduction.touched] at hi
    split at hi
    · rename_i hne
      obtain rfl := List.mem_singleton.1 hi
      exact (hR _ _ (hn hne.1).1).1 ((hR _ _ h2).1 hb)
    · cases hi
  | link label1 label2 =>
    obtain ⟨h1, h2, -⟩ := hc
    simp only [Reduction.touched] at hi
    split at hi
    · obtain rfl := List.mem_singleton.1 hi
      rcases max_choice label1 label2 with hm | hm
      · rw [hm]
        exact (hR _ _ h1).1 ha
      · rw [hm]
        exact (hR _ _ h2).1 hb
    · cases hi
  | returned label => cases hi

end

end Reduction

/-! ## Threads that unite labels -/

namespace Reductions

/-- A pair that asks for nothing is replaced by another. -/
theorem joined_wanted_set {labels : List Nat} {pairs : List (Nat × Nat)} {i a x y : Nat}
    {pair : Nat × Nat} (hpair : pairs[i]? = some (a, a)) (h : Joined (Wanted labels pairs) x y) :
    Joined (Wanted labels (pairs.set i pair)) x y := by
  refine joined_of_gen (fun x y hxy => ?_) h
  rcases hxy with hlink | hmem
  · exact .rel _ _ (.inl hlink)
  · obtain ⟨j, hj, he⟩ := List.getElem_of_mem hmem
    by_cases hij : i = j
    · subst hij
      rw [List.getElem?_eq_getElem hj, he, Option.some.injEq] at hpair
      cases hpair
      exact .refl _
    · have hset : (pairs.set i pair)[j]? = some (x, y) := by
        rw [List.getElem?_set_ne hij, List.getElem?_eq_getElem hj, he]
      exact .rel _ _ (.inr (List.mem_of_getElem? hset))

/-- A call that links nothing is replaced by another, for other labels. -/
theorem Inv.replace {labels : List Nat} {pairs : List (Nat × Nat)} {s : Reductions} {i a : Nat}
    {c c' : Reduction} {pair : Nat × Nat} (h : s.Inv labels pairs) (hc : s.calls[i]? = some c)
    (hpend : c.pending = none) (hpair : pairs[i]? = some (a, a)) (hpend' : c'.pending = none)
    (hlocal : c'.Local (Joined s.Near) s.labels.length pair.1 pair.2) :
    Inv labels (pairs.set i pair) ⟨s.labels, s.calls.set i c'⟩ := by
  have hnear : ∀ x y, Near ⟨s.labels, s.calls.set i c'⟩ x y ↔ s.Near x y := by
    intro x y
    rw [near_set_iff hc, near_iff hc, hpend, hpend']
  have hjoined : ∀ {x y}, Joined (Near ⟨s.labels, s.calls.set i c'⟩) x y ↔ Joined s.Near x y := by
    intro x y
    rw [show Near ⟨s.labels, s.calls.set i c'⟩ = s.Near from funext₂ fun x y => propext (hnear x y)]
  have hi : i < pairs.length := (List.getElem?_eq_some_iff.1 hpair).1
  exact
    { length := h.length
      calls := by simpa using h.calls
      down := h.down
      keeps := fun x => hjoined.2 (h.keeps x)
      wanted := fun x y hxy => joined_wanted_set hpair (h.wanted x y ((hnear x y).1 hxy))
      locals := fun j d p hd hp => by
        by_cases hj : i = j
        · subst hj
          rw [List.getElem?_set_self ((List.getElem?_eq_some_iff.1 hc).1)] at hd
          rw [List.getElem?_set_self hi] at hp
          cases hd
          cases hp
          exact hlocal.mono fun _ _ => hjoined.2
        · rw [List.getElem?_set_ne hj] at hd hp
          exact (h.locals j d p hd hp).mono fun _ _ => hjoined.2 }

/-- What is wanted is joined with what matters only where it matters. -/
theorem wanted_mem {D : Finset Nat} {labels : List Nat} {pairs : List (Nat × Nat)}
    (hD : Closed D labels) (hpairs : ∀ pair ∈ pairs, pair.1 ∈ D ∧ pair.2 ∈ D) {x y : Nat}
    (h : Joined (Wanted (masked D labels) pairs) x y) : x ∈ D ↔ y ∈ D := by
  induction h with
  | rel x y hxy =>
    rcases hxy with hlink | hmem
    · subst hlink
      exact hD.link_mem.symm
    · obtain ⟨hx, hy⟩ := hpairs _ hmem
      exact iff_of_true hx hy
  | refl x => rfl
  | symm x y _ ih => exact ih.symm
  | trans x y z _ _ ih ih' => exact ih.trans ih'

end Reductions

namespace UnionThread

/-- A thread that has not called yet, at places that matter. -/
def Fits (D : Finset Nat) : UnionThread → Prop
  | start p q => p ∈ D ∧ q ∈ D
  | half label1 q => label1 ∈ D ∧ q ∈ D
  | call _ => False

/-- What a thread that has not called yet is there to unite. -/
def wanted : UnionThread → Nat × Nat
  | start p q => (p, q)
  | half label1 q => (label1, q)
  | call _ => (0, 0)

/-- A thread as a call; one that has not called yet has nothing to do. -/
def toCall : UnionThread → Reduction
  | start p _ => .returned p
  | half label1 _ => .returned label1
  | call c => c

/-- At most this many steps are left. -/
def left : UnionThread → Nat
  | start p q => p + q + 7
  | half label1 q => label1 + q + 6
  | call c => c.left

/-- What a thread for `w` has united so far, by `P`, and the pair that it calls for. -/
def Knows (P : Nat → Nat → Prop) (w pair : Nat × Nat) : UnionThread → Prop
  | start p q => w = (p, q) ∧ pair = (p, p)
  | half label1 q => w.2 = q ∧ P w.1 label1 ∧ pair = (label1, label1)
  | call _ => P w.1 w.2 ∧ P w.1 pair.1

theorem Knows.mono {P P' : Nat → Nat → Prop} {w pair : Nat × Nat} {t : UnionThread}
    (h : t.Knows P w pair) (hP : ∀ x y, P x y → P' x y) : t.Knows P' w pair := by
  cases t <;> simp only [Knows] at h ⊢ <;> grind

end UnionThread

open Reductions in
/-- The invariant of threads that are there to unite `wants`; they call for `pairs`. -/
structure UnionInv (D : Finset Nat) (labels : List Nat) (wants pairs : List (Nat × Nat))
    (s : Threads UnionThread) : Prop where
  start : Closed D labels
  calls : Inv (masked D labels) pairs ⟨masked D s.labels, s.threads.map UnionThread.toCall⟩
  closed : Closed D s.labels
  outside : ∀ i, i ∉ D → s.labels[i]? = labels[i]?
  length : s.threads.length = wants.length
  mem : ∀ pair ∈ pairs, pair.1 ∈ D ∧ pair.2 ∈ D
  sound : ∀ pair ∈ pairs, Joined (Wanted (masked D labels) wants) pair.1 pair.2
  knows : ∀ (i : Nat) t w pair, s.threads[i]? = some t → wants[i]? = some w →
    pairs[i]? = some pair → t.Knows (Joined (Wanted (masked D labels) pairs)) w pair

namespace UnionInv

open Reductions UnionThread

variable {D : Finset Nat} {labels : List Nat} {wants pairs : List (Nat × Nat)}
  {s s' : Threads UnionThread} {i : Nat} {t t' : UnionThread} {w pair : Nat × Nat}

/-- What the calls of the threads have near. -/
abbrev near (D : Finset Nat) (s : Threads UnionThread) : Nat → Nat → Prop :=
  Reductions.Near ⟨masked D s.labels, s.threads.map toCall⟩

theorem near_wanted (h : UnionInv D labels wants pairs s) {x y : Nat}
    (hxy : Joined (near D s) x y) : Joined (Wanted (masked D labels) pairs) x y :=
  joined_of_gen h.calls.wanted hxy

/-- What a thread reads at a place that matters. -/
theorem read (h : UnionInv D labels wants pairs s) {p v : Nat} (hp : p ∈ D)
    (hv : s.labels[p]? = some v) :
    v ∈ D ∧ v ≤ p ∧ Joined (Wanted (masked D labels) pairs) p v := by
  obtain ⟨v', hv', hle, hmem⟩ := h.closed p hp
  obtain rfl := Option.some.inj (hv.symm.trans hv')
  exact ⟨hmem, hle, h.near_wanted (.rel _ _ (.inl (linkOn_eq hp hv)))⟩

/-- The pairs that are called for are united by what is wanted. -/
theorem pairs_wants (h : UnionInv D labels wants pairs s) {x y : Nat}
    (hxy : Joined (Wanted (masked D labels) pairs) x y) :
    Joined (Wanted (masked D labels) wants) x y := by
  refine joined_of_gen (fun x y hxy => ?_) hxy
  rcases hxy with hlink | hmem
  · exact .rel _ _ (.inl hlink)
  · exact h.sound _ hmem

/-- A thread reads, and is to call for another pair from then on. -/
theorem replace (h : UnionInv D labels wants pairs s) {a : Nat} (ht : s.threads[i]? = some t)
    (hw : wants[i]? = some w) (hpend : t.toCall.pending = none) (hpair : pairs[i]? = some (a, a))
    (hpend' : t'.toCall.pending = none)
    (hlocal : t'.toCall.Local (Joined (near D s)) (masked D s.labels).length pair.1 pair.2)
    (hmem : pair.1 ∈ D ∧ pair.2 ∈ D)
    (hsound : Joined (Wanted (masked D labels) wants) pair.1 pair.2)
    (hknows : t'.Knows (Joined (Wanted (masked D labels) (pairs.set i pair))) w pair) :
    UnionInv D labels wants (pairs.set i pair) ⟨s.labels, s.threads.set i t'⟩ := by
  have hcall : (s.threads.map toCall)[i]? = some t.toCall := by simp [ht]
  have hi : i < pairs.length := (List.getElem?_eq_some_iff.1 hpair).1
  have hcases : ∀ p ∈ pairs.set i pair, p = pair ∨ p ∈ pairs := fun p hp =>
    (List.mem_or_eq_of_mem_set hp).symm
  refine ⟨h.start, ?_, h.closed, h.outside, by simpa using h.length, fun p hp => ?_, fun p hp => ?_,
    fun j u w' p hu hw' hp => ?_⟩
  · simpa [List.map_set] using h.calls.replace hcall hpend hpair hpend' hlocal
  · rcases hcases p hp with rfl | hp
    · exact hmem
    · exact h.mem p hp
  · rcases hcases p hp with rfl | hp
    · exact hsound
    · exact h.sound p hp
  · by_cases hj : i = j
    · subst hj
      rw [List.getElem?_set_self (List.getElem?_eq_some_iff.1 ht).1] at hu
      rw [List.getElem?_set_self hi] at hp
      cases hu
      cases hp
      exact Option.some.inj (hw.symm.trans hw') ▸ hknows
    · rw [List.getElem?_set_ne hj] at hu hp
      exact (h.knows j u w' p hu hw' hp).mono fun _ _ => joined_wanted_set hpair

/-- A call touches places that matter. -/
theorem touched (h : UnionInv D labels wants pairs s) {c : Reduction}
    (hcall : (s.threads.map toCall)[i]? = some c) (hpair : pairs[i]? = some pair) :
    ∀ j ∈ c.touched, j ∈ D := by
  obtain ⟨ha, hb⟩ := h.mem pair (List.mem_of_getElem? hpair)
  exact (h.calls.locals i c pair hcall hpair).touched
    (fun x y hxy => wanted_mem h.start h.mem (h.near_wanted hxy)) ha hb

/-- A call takes a step. -/
theorem call (h : UnionInv D labels wants pairs s) {c : Reduction}
    (ht : s.threads[i]? = some (.call c)) {labels' : List Nat} {c' : Reduction}
    (hr : c.step s.labels = some (labels', c')) :
    UnionInv D labels wants pairs ⟨labels', s.threads.set i (.call c')⟩ ∧ c'.left < c.left := by
  have hcall : (s.threads.map toCall)[i]? = some c := by
    rw [List.getElem?_map, ht]
    rfl
  have hi : i < pairs.length := by
    rw [← h.calls.calls]
    exact (List.getElem?_eq_some_iff.1 hcall).1
  have hpair := List.getElem?_eq_getElem hi
  have hlocal := h.calls.locals i c _ hcall hpair
  have htouched := h.touched hcall hpair
  have hmasked : c.step (masked D s.labels) = some (masked D labels', c') := by
    rw [Reduction.step_masked htouched, hr]
    rfl
  have hstep : Reductions.step ⟨masked D s.labels, s.threads.map toCall⟩ i =
      some ⟨masked D labels', (s.threads.set i (.call c')).map toCall⟩ := by
    rw [Reductions.step, hcall, Option.bind_some, hmasked, List.map_set]
    rfl
  obtain ⟨hcalls, -⟩ := h.calls.step hstep
  have hlen : labels'.length = s.labels.length := by
    have := hcalls.length.trans h.calls.length.symm
    simpa using this
  have hleft : c'.left < c.left :=
    (Reduction.Local.step (R := fun _ _ => True) ⟨fun _ => trivial, fun _ => trivial,
      fun _ _ => trivial⟩ h.calls.down (fun _ => trivial) (fun _ _ _ => trivial)
      (hlocal.mono fun _ _ _ => trivial) hmasked).2
  refine ⟨⟨h.start, hcalls, ?_, fun j hj => ?_, by simpa using h.length, h.mem, h.sound,
    fun j u w p hu hw hp => ?_⟩, hleft⟩
  · refine closed_of_descending (fun j hj => hlen ▸ h.closed.lt_length hj) hcalls.down fun j hj => ?_
    exact (wanted_mem h.start h.mem (hcalls.wanted _ _ (.inl rfl))).1 hj
  · rw [← h.outside j hj]
    cases Reduction.effect hr with
    | quiet _ _ => rfl
    | enter _ _ _ => rfl
    | leave _ => rfl
    | @relink label1 label2 lo hi old hlt hold hlh =>
      have hmem : hi ∈ D := by
        apply htouched
        rcases hlh with ⟨rfl, rfl⟩ | ⟨rfl, rfl⟩
        · simp [Reduction.touched, hlt.ne, hlt.le]
        · simp [Reduction.touched, hlt.ne', hlt.le]
      exact List.getElem?_set_ne fun (e : hi = j) => hj (e ▸ hmem)
  · by_cases hij : i = j
    · subst hij
      rw [List.getElem?_set_self (List.getElem?_eq_some_iff.1 ht).1] at hu
      cases hu
      have hk := h.knows i _ w p ht hw hp
      exact hk
    · rw [List.getElem?_set_ne hij] at hu
      exact h.knows j u w p hu hw hp

/-- **A step** keeps the invariant, and one step less is left. -/
theorem step (h : UnionInv D labels wants pairs s) (hwants : ∀ w ∈ wants, w.1 ∈ D ∧ w.2 ∈ D)
    (hs : s.step UnionThread.step i = some s') :
    (∃ pairs', UnionInv D labels wants pairs' s') ∧
      (s'.threads.map UnionThread.left).sum < (s.threads.map UnionThread.left).sum := by
  obtain ⟨t, ht, hs⟩ := Option.bind_eq_some_iff.1 hs
  obtain ⟨r, hr, rfl⟩ := Option.map_eq_some_iff.1 hs
  have hti := (List.getElem?_eq_some_iff.1 ht).1
  have hlen : s.threads.length = pairs.length := by simpa using h.calls.calls
  obtain ⟨w, hw⟩ : ∃ w, wants[i]? = some w := ⟨_, List.getElem?_eq_getElem (h.length ▸ hti)⟩
  obtain ⟨pair, hpair⟩ : ∃ pair, pairs[i]? = some pair :=
    ⟨_, List.getElem?_eq_getElem (hlen ▸ hti)⟩
  have hknows := h.knows i t w pair ht hw hpair
  have hwmem := List.mem_of_getElem? hw
  obtain ⟨hw1, hw2⟩ := hwants w hwmem
  cases t with
  | start p q =>
    obtain ⟨v, hv, rfl⟩ := Option.map_eq_some_iff.1 hr
    obtain ⟨rfl, rfl⟩ := hknows
    obtain ⟨hvD, hle, hpv⟩ := h.read hw1 hv
    refine ⟨⟨_, h.replace ht hw rfl hpair rfl ⟨.refl _, .refl _, ?_⟩ ⟨hvD, hvD⟩
      (.refl _) ⟨rfl, joined_wanted_set hpair hpv, rfl⟩⟩, sum_map_set_lt ht ?_⟩
    · rw [length_masked]
      exact h.closed.lt_length hvD
    · simp only [UnionThread.left]
      omega
  | half label1 q =>
    obtain ⟨v, hv, rfl⟩ := Option.map_eq_some_iff.1 hr
    obtain ⟨rfl, hw1l, rfl⟩ := hknows
    obtain ⟨hvD, hle, hqv⟩ := h.read hw2 hv
    have hl : label1 ∈ D := (h.mem _ (List.mem_of_getElem? hpair)).1
    have hwant : Joined (Wanted (masked D labels) wants) w.1 w.2 := .rel _ _ (.inr hwmem)
    have hlv : Joined (Wanted (masked D labels) wants) label1 v :=
      .trans _ _ _ (.symm _ _ (h.pairs_wants hw1l)) (.trans _ _ _ hwant (h.pairs_wants hqv))
    have hcalled : Joined (Wanted (masked D labels) (pairs.set i (label1, v))) label1 v :=
      .rel _ _ (.inr (List.mem_of_getElem? (List.getElem?_set_self (hlen ▸ hti))))
    have hknows' : (UnionThread.call (.first label1 v)).Knows
        (Joined (Wanted (masked D labels) (pairs.set i (label1, v)))) w (label1, v) :=
      ⟨.trans _ _ _ (joined_wanted_set hpair hw1l)
        (.trans _ _ _ hcalled (.symm _ _ (joined_wanted_set hpair hqv))),
        joined_wanted_set hpair hw1l⟩
    refine ⟨⟨_, h.replace ht hw rfl hpair rfl ⟨rfl, rfl, ?_, ?_⟩ ⟨hl, hvD⟩ hlv hknows'⟩,
      sum_map_set_lt ht ?_⟩
    · rw [length_masked]
      exact h.closed.lt_length hl
    · rw [length_masked]
      exact h.closed.lt_length hvD
    · simp only [UnionThread.left, Reduction.left]
      omega
  | call c =>
    obtain ⟨⟨labels', c'⟩, hr', rfl⟩ := Option.map_eq_some_iff.1 hr
    obtain ⟨hinv, hleft⟩ := h.call ht hr'
    exact ⟨⟨_, hinv⟩, sum_map_set_lt ht hleft⟩

theorem begin {threads : List UnionThread} (hD : Closed D labels)
    (hfit : ∀ t ∈ threads, t.Fits D) :
    UnionInv D labels (threads.map wanted) (threads.map fun t => (t.wanted.1, t.wanted.1))
      ⟨labels, threads⟩ where
  start := hD
  calls :=
    { length := rfl
      calls := by simp
      down := hD.descending
      keeps := fun x => .rel _ _ (.inl rfl)
      wanted := fun x y hxy => by
        rcases hxy with hlink | ⟨i, hi⟩
        · exact .rel _ _ (.inl hlink)
        · obtain ⟨c, hc, hpend⟩ := Option.bind_eq_some_iff.1 hi
          obtain ⟨t, ht, rfl⟩ := List.mem_map.1 (List.mem_of_getElem? hc)
          have hfits := hfit t ht
          cases t with
          | start p q => cases hpend
          | half label1 q => cases hpend
          | call c => cases hfits
      locals := fun i c p hc hp => by
        rw [List.getElem?_map] at hc hp
        obtain ⟨t, ht, rfl⟩ := Option.map_eq_some_iff.1 hc
        rw [ht] at hp
        cases hp
        have hfits := hfit t (List.mem_of_getElem? ht)
        cases t with
        | start p q => exact ⟨.refl _, .refl _, by simpa using hD.lt_length hfits.1⟩
        | half label1 q => exact ⟨.refl _, .refl _, by simpa using hD.lt_length hfits.1⟩
        | call c => cases hfits }
  closed := hD
  outside _ _ := rfl
  length := by simp
  mem pair hpair := by
    obtain ⟨t, ht, rfl⟩ := List.mem_map.1 hpair
    have hfits := hfit t ht
    cases t with
    | start p q => exact ⟨hfits.1, hfits.1⟩
    | half label1 q => exact ⟨hfits.1, hfits.1⟩
    | call c => cases hfits
  sound pair hpair := by
    obtain ⟨t, ht, rfl⟩ := List.mem_map.1 hpair
    exact .refl _
  knows i t w pair ht hw hp := by
    rw [List.getElem?_map, ht] at hw hp
    cases hw
    cases hp
    have hfits := hfit t (List.mem_of_getElem? ht)
    cases t with
    | start p q => exact ⟨rfl, rfl⟩
    | half label1 q => exact ⟨rfl, .refl _, rfl⟩
    | call c => cases hfits

/-- **A run** keeps the invariant, and takes no more steps than are left. -/
theorem run (h : UnionInv D labels wants pairs s) (hwants : ∀ w ∈ wants, w.1 ∈ D ∧ w.2 ∈ D)
    {order : List Nat} (r : Threads.Runs UnionThread.step s order s') :
    (∃ pairs', UnionInv D labels wants pairs' s') ∧
      (s'.threads.map UnionThread.left).sum + order.length ≤
        (s.threads.map UnionThread.left).sum := by
  induction r generalizing pairs with
  | nil => exact ⟨⟨pairs, h⟩, le_rfl⟩
  | cons hs _ ih =>
    obtain ⟨⟨pairs₁, h₁⟩, hlt⟩ := h.step hwants hs
    obtain ⟨hinv, hle⟩ := ih h₁
    refine ⟨hinv, ?_⟩
    rw [List.length_cons]
    omega

/-- A thread that has not returned has a step. -/
theorem progress (h : UnionInv D labels wants pairs s) (hwants : ∀ w ∈ wants, w.1 ∈ D ∧ w.2 ∈ D)
    (ht : s.threads[i]? = some t) :
    (∃ label, t = .call (.returned label)) ∨ ∃ s', s.step UnionThread.step i = some s' := by
  have hti := (List.getElem?_eq_some_iff.1 ht).1
  have hlen : s.threads.length = pairs.length := by simpa using h.calls.calls
  obtain ⟨w, hw⟩ : ∃ w, wants[i]? = some w := ⟨_, List.getElem?_eq_getElem (h.length ▸ hti)⟩
  obtain ⟨pair, hpair⟩ : ∃ pair, pairs[i]? = some pair :=
    ⟨_, List.getElem?_eq_getElem (hlen ▸ hti)⟩
  have hknows := h.knows i t w pair ht hw hpair
  obtain ⟨hw1, hw2⟩ := hwants w (List.mem_of_getElem? hw)
  cases t with
  | start p q =>
    obtain ⟨rfl, -⟩ := hknows
    obtain ⟨v, hv, -⟩ := h.closed p hw1
    exact .inr ⟨_, by rw [Threads.step, ht, Option.bind_some, UnionThread.step, hv]; rfl⟩
  | half label1 q =>
    obtain ⟨rfl, -⟩ := hknows
    obtain ⟨v, hv, -⟩ := h.closed w.2 hw2
    exact .inr ⟨_, by rw [Threads.step, ht, Option.bind_some, UnionThread.step, hv]; rfl⟩
  | call c =>
    have hcall : (s.threads.map toCall)[i]? = some c := by
      rw [List.getElem?_map, ht]
      rfl
    have hlocal := h.calls.locals i c pair hcall hpair
    rcases hlocal.progress with ⟨label, rfl⟩ | ⟨r, hr⟩
    · exact .inl ⟨label, rfl⟩
    · rw [Reduction.step_masked (h.touched hcall hpair)] at hr
      obtain ⟨r', hr', -⟩ := Option.map_eq_some_iff.1 hr
      refine .inr ⟨⟨r'.1, s.threads.set i (.call r'.2)⟩, ?_⟩
      rw [Threads.step, ht, Option.bind_some, UnionThread.step, hr']
      rfl

/-- When all threads have returned, the classes are what was wanted, and so are the labels that were
returned. -/
theorem classes {returned : List Nat} (h : UnionInv D labels wants pairs s)
    (hdone : s.threads = returned.map fun label => .call (.returned label)) :
    (∀ x y, root (linkOn D s.labels) x = root (linkOn D s.labels) y ↔
      Joined (fun x y => root (linkOn D labels) x = root (linkOn D labels) y ∨ (x, y) ∈ wants)
        x y) ∧
    ∀ (i : Nat) w label, wants[i]? = some w → returned[i]? = some label →
      label ∈ D ∧ root (linkOn D s.labels) label = root (linkOn D s.labels) w.1 := by
  have hcalls : s.threads.map toCall = returned.map .returned := by
    rw [hdone, List.map_map]
    rfl
  have hall : ∀ c ∈ s.threads.map toCall, ∃ label, c = Reduction.returned label := by
    rw [hcalls]
    intro c hc
    obtain ⟨label, -, rfl⟩ := List.mem_map.1 hc
    exact ⟨label, rfl⟩
  have hdown : Descending (linkOn D labels) := h.start.descending
  have hclasses : ∀ x y, root (linkOn D s.labels) x = root (linkOn D s.labels) y ↔
      Joined (fun x y => root (linkOn D labels) x = root (linkOn D labels) y ∨ (x, y) ∈ pairs)
        x y := fun x y => h.calls.classes hall hdown
  -- links are joined by their roots
  have hroots : ∀ {l : List (Nat × Nat)} {x y : Nat}, Joined (Wanted (masked D labels) l) x y →
      Joined (fun x y => root (linkOn D labels) x = root (linkOn D labels) y ∨ (x, y) ∈ l) x y :=
    fun hxy => hxy.mono fun x y hw => hw.imp_left fun hlink => by
      rw [← hlink]
      exact (root_link hdown x).symm
  have hknows : ∀ (i : Nat) w pair, wants[i]? = some w → pairs[i]? = some pair →
      Joined (Wanted (masked D labels) pairs) w.1 w.2 ∧
        Joined (Wanted (masked D labels) pairs) w.1 pair.1 := by
    intro i w pair hw hp
    have hi : i < returned.length := by
      have := h.length
      rw [hdone, List.length_map] at this
      exact this ▸ (List.getElem?_eq_some_iff.1 hw).1
    have hti : s.threads[i]? = some (.call (.returned returned[i])) := by
      rw [hdone, List.getElem?_map, List.getElem?_eq_getElem hi]
      rfl
    exact h.knows i _ w pair hti hw hp
  refine ⟨fun x y => (hclasses x y).trans ⟨fun hj => ?_, fun hj => ?_⟩, fun i w label hw hl => ?_⟩
  · refine joined_of_gen (fun x y hxy => ?_) hj
    rcases hxy with hroot | hmem
    · exact .rel _ _ (.inl hroot)
    · exact hroots (h.sound _ hmem)
  · refine joined_of_gen (fun x y hxy => ?_) hj
    rcases hxy with hroot | hmem
    · exact .rel _ _ (.inl hroot)
    · obtain ⟨i, hi, he⟩ := List.getElem_of_mem hmem
      have hip : i < pairs.length := by
        have := h.calls.calls
        simp only [List.length_map, h.length] at this
        exact this ▸ hi
      have := (hknows i _ _ (List.getElem?_eq_getElem hi) (List.getElem?_eq_getElem hip)).1
      rw [he] at this
      exact hroots this
  · have hli := (List.getElem?_eq_some_iff.1 hl).1
    have hcall : (s.threads.map toCall)[i]? = some (.returned label) := by
      rw [hcalls, List.getElem?_map, hl]
      rfl
    have hip : i < pairs.length := by
      rw [← h.calls.calls]
      exact (List.getElem?_eq_some_iff.1 hcall).1
    have hpair := List.getElem?_eq_getElem hip
    obtain ⟨hr, -, -⟩ := h.calls.locals i _ _ hcall hpair
    have hmem := (wanted_mem h.start h.mem (h.near_wanted hr)).1 (h.mem _ (List.getElem_mem hip)).1
    refine ⟨hmem, ?_⟩
    calc root (linkOn D s.labels) label = root (linkOn D s.labels) pairs[i].1 :=
          (hclasses _ _).2 (.symm _ _ (hroots (h.near_wanted hr)))
      _ = root (linkOn D s.labels) w.1 :=
          (hclasses _ _).2 (.symm _ _ (hroots (hknows i w _ hw hpair).2))

end UnionInv

/-- What threads leave that were there to unite `wants`. -/
structure Joins (D : Finset Nat) (labels : List Nat) (wants : List (Nat × Nat))
    (labels' : List Nat) (returned : List Nat) : Prop where
  closed : Closed D labels'
  length : labels'.length = labels.length
  outside : ∀ i, i ∉ D → labels'[i]? = labels[i]?
  classes : ∀ x y, root (linkOn D labels') x = root (linkOn D labels') y ↔
    Joined (fun x y => root (linkOn D labels) x = root (linkOn D labels) y ∨ (x, y) ∈ wants) x y
  returns : ∀ (i : Nat) w label, wants[i]? = some w → returned[i]? = some label →
    label ∈ D ∧ root (linkOn D labels') label = root (linkOn D labels') w.1

theorem fits_wanted {D : Finset Nat} {threads : List UnionThread} (hfit : ∀ t ∈ threads, t.Fits D) :
    ∀ w ∈ threads.map UnionThread.wanted, w.1 ∈ D ∧ w.2 ∈ D := by
  intro w hw
  obtain ⟨t, ht, rfl⟩ := List.mem_map.1 hw
  have hfits := hfit t ht
  cases t with
  | start p q => exact hfits
  | half label1 q => exact hfits
  | call c => cases hfits

/-- **Threads that unite labels** join what they are there for, and nothing else, in whatever order
they take their steps. -/
theorem Unites.joins {D : Finset Nat} {labels labels' returned : List Nat}
    {threads : List UnionThread} (hD : Closed D labels) (hfit : ∀ t ∈ threads, t.Fits D)
    (h : Unites labels threads labels' returned) :
    Joins D labels (threads.map UnionThread.wanted) labels' returned := by
  obtain ⟨order, hrun⟩ := h
  obtain ⟨⟨pairs, hinv⟩, -⟩ := (UnionInv.begin hD hfit).run (fits_wanted hfit) hrun
  obtain ⟨hclasses, hreturned⟩ := hinv.classes rfl
  have hlen : (masked D labels').length = (masked D labels).length := hinv.calls.length
  exact ⟨hinv.closed, by simpa using hlen, hinv.outside, hclasses, hreturned⟩

/-! ## Threads that store roots -/

namespace RootThread

/-- Where a thread stores. -/
def place : RootThread → Nat
  | load p => p
  | read p _ => p
  | store p _ => p
  | stored p => p

/-- At most this many steps are left. -/
def left : RootThread → Nat
  | load p => p + 3
  | read _ label => label + 2
  | store _ _ => 1
  | stored _ => 0

/-- What a thread knows of the roots of the labels that it started with. -/
def Knows (D : Finset Nat) (r : Nat → Nat) (now : List Nat) : RootThread → Prop
  | load _ => True
  | read p label => label ∈ D ∧ r label = r p
  | store p label => label = r p
  | stored p => now[p]? = some (r p)

end RootThread

/-- The invariant of threads that store roots. -/
structure RootInv (D : Finset Nat) (labels places : List Nat) (s : Threads RootThread) : Prop where
  start : Closed D labels
  link : ∀ i ∈ D, s.labels[i]? = labels[i]? ∨ s.labels[i]? = some (root (linkOn D labels) i)
  length : s.labels.length = labels.length
  outside : ∀ i, i ∉ D → s.labels[i]? = labels[i]?
  atPlaces : s.threads.map RootThread.place = places
  mem : ∀ p ∈ places, p ∈ D
  knows : ∀ t ∈ s.threads, t.Knows D (root (linkOn D labels)) s.labels

namespace RootInv

open RootThread

variable {D : Finset Nat} {labels places : List Nat} {s s' : Threads RootThread} {i : Nat}
  {t : RootThread}

theorem root_eq (h : RootInv D labels places s) :
    root (linkOn D s.labels) = root (linkOn D labels) := by
  refine root_of_shortcuts h.start.descending fun i => ?_
  by_cases hi : i ∈ D
  · rcases h.link i hi with hl | hl
    · obtain ⟨v, hv, -⟩ := h.start i hi
      exact .inl ((linkOn_eq hi (hl.trans hv)).trans (linkOn_eq hi hv).symm)
    · exact .inr (linkOn_eq hi hl)
  · exact .inl ((linkOn_of_notMem hi).trans (linkOn_of_notMem hi).symm)

theorem closed (h : RootInv D labels places s) : Closed D s.labels := by
  intro i hi
  obtain ⟨v, hv, hle, hmem⟩ := h.start i hi
  rcases h.link i hi with hl | hl
  · exact ⟨v, hl.trans hv, hle, hmem⟩
  · exact ⟨_, hl, root_le h.start.descending i, h.start.root_mem.2 hi⟩

/-- A label that is its own link is a root. -/
theorem root_of_link (h : RootInv D labels places s) {label : Nat} (hl : label ∈ D)
    (hfix : s.labels[label]? = some label) : root (linkOn D labels) label = label := by
  rw [← h.root_eq]
  exact root_of_fixed (linkOn_eq hl hfix)

/-- A read leads on to the same root. -/
theorem root_read (h : RootInv D labels places s) {label next : Nat} (hl : label ∈ D)
    (hnext : s.labels[label]? = some next) :
    next ∈ D ∧ next ≤ label ∧ root (linkOn D labels) next = root (linkOn D labels) label := by
  obtain ⟨v, hv, hle, hmem⟩ := h.closed label hl
  obtain rfl := Option.some.inj (hnext.symm.trans hv)
  refine ⟨hmem, hle, ?_⟩
  rw [← h.root_eq, ← linkOn_eq hl hnext, root_link h.closed.descending]

theorem map_place_set {t' : RootThread} (h : RootInv D labels places s)
    (ht : s.threads[i]? = some t) (hplace : t'.place = t.place) :
    (s.threads.set i t').map RootThread.place = places := by
  obtain ⟨hi, rfl⟩ := List.getElem?_eq_some_iff.1 ht
  have hi' : i < (s.threads.map RootThread.place).length := by simpa using hi
  rw [← h.atPlaces, List.map_set, hplace, ← List.getElem_map RootThread.place (h := hi'),
    List.set_getElem_self]

/-- A thread reads and goes on. -/
theorem goes {t' : RootThread} (h : RootInv D labels places s) (ht : s.threads[i]? = some t)
    (hplace : t'.place = t.place) (hknows : t'.Knows D (root (linkOn D labels)) s.labels) :
    RootInv D labels places ⟨s.labels, s.threads.set i t'⟩ where
  start := h.start
  link := h.link
  length := h.length
  outside := h.outside
  atPlaces := h.map_place_set ht hplace
  mem := h.mem
  knows u hu := by
    rcases List.mem_or_eq_of_mem_set hu with hu | rfl
    · exact h.knows u hu
    · exact hknows

theorem place_mem (h : RootInv D labels places s) (ht : s.threads[i]? = some t) : t.place ∈ D :=
  h.mem _ (h.atPlaces ▸ List.mem_map_of_mem (List.mem_of_getElem? ht))

/-- A thread stores the root. -/
theorem stores {p : Nat} (h : RootInv D labels places s)
    (ht : s.threads[i]? = some (.store p (root (linkOn D labels) p))) :
    RootInv D labels places
      ⟨s.labels.set p (root (linkOn D labels) p), s.threads.set i (.stored p)⟩ := by
  have hp : p ∈ D := h.place_mem ht
  have hlt : p < s.labels.length := h.closed.lt_length hp
  exact
    { start := h.start
      link := fun j hj => by
        by_cases e : p = j
        · subst e
          exact .inr (List.getElem?_set_self hlt)
        · simpa [List.getElem?_set_ne e] using h.link j hj
      length := by simpa using h.length
      outside := fun j hj => by
        have e : p ≠ j := fun e => hj (e ▸ hp)
        simpa [List.getElem?_set_ne e] using h.outside j hj
      atPlaces := h.map_place_set ht rfl
      mem := h.mem
      knows := fun u hu => by
        rcases List.mem_or_eq_of_mem_set hu with hu | rfl
        · have hknows := h.knows u hu
          cases u with
          | stored q =>
            by_cases e : p = q
            · subst e
              exact List.getElem?_set_self hlt
            · exact (List.getElem?_set_ne e).trans hknows
          | load q => exact hknows
          | read q label => exact hknows
          | store q label => exact hknows
        · exact List.getElem?_set_self hlt }

/-- **A step** keeps the invariant, and one step less is left. -/
theorem step (h : RootInv D labels places s) (hs : s.step RootThread.step i = some s') :
    RootInv D labels places s' ∧
      (s'.threads.map RootThread.left).sum < (s.threads.map RootThread.left).sum := by
  obtain ⟨t, ht, hs⟩ := Option.bind_eq_some_iff.1 hs
  obtain ⟨r, hr, rfl⟩ := Option.map_eq_some_iff.1 hs
  have hp := h.place_mem ht
  have hknows := h.knows t (List.mem_of_getElem? ht)
  cases t with
  | load p =>
    have hp : p ∈ D := hp
    obtain ⟨v, hv, rfl⟩ := Option.map_eq_some_iff.1 hr
    obtain ⟨hmem, hle, hroot⟩ := h.root_read hp hv
    refine ⟨h.goes ht rfl ⟨hmem, hroot⟩, Reductions.sum_map_set_lt ht ?_⟩
    simp only [RootThread.left]
    omega
  | read p label =>
    obtain ⟨next, hnext, rfl⟩ := Option.map_eq_some_iff.1 hr
    obtain ⟨hl, hlroot⟩ := hknows
    obtain ⟨hmem, hle, hroot⟩ := h.root_read hl hnext
    by_cases he : label = next
    · subst he
      have hfix := h.root_of_link hl hnext
      simp only [ne_eq, not_true_eq_false, if_false]
      refine ⟨h.goes ht rfl (hfix.symm.trans hlroot), Reductions.sum_map_set_lt ht ?_⟩
      simp [RootThread.left]
    · simp only [ne_eq, he, not_false_eq_true, if_true]
      refine ⟨h.goes ht rfl ⟨hmem, hroot.trans hlroot⟩, Reductions.sum_map_set_lt ht ?_⟩
      simp only [RootThread.left]
      omega
  | store p label =>
    obtain rfl : label = root (linkOn D labels) p := hknows
    have hlt : p < s.labels.length := h.closed.lt_length hp
    rw [RootThread.step, if_pos hlt] at hr
    cases hr
    exact ⟨h.stores ht, Reductions.sum_map_set_lt ht (by simp [RootThread.left])⟩
  | stored p => cases hr

/-- **A run** keeps the invariant, and takes no more steps than are left. -/
theorem run {order : List Nat} (h : RootInv D labels places s)
    (r : Threads.Runs RootThread.step s order s') :
    RootInv D labels places s' ∧
      (s'.threads.map RootThread.left).sum + order.length ≤
        (s.threads.map RootThread.left).sum := by
  induction r with
  | nil => exact ⟨h, le_rfl⟩
  | cons hs _ ih =>
    obtain ⟨h₁, hlt⟩ := h.step hs
    obtain ⟨hinv, hle⟩ := ih h₁
    refine ⟨hinv, ?_⟩
    rw [List.length_cons]
    omega

/-- A thread that has not stored has a step. -/
theorem progress (h : RootInv D labels places s) (ht : s.threads[i]? = some t) :
    (∃ p, t = .stored p) ∨ ∃ s', s.step RootThread.step i = some s' := by
  have hp := h.place_mem ht
  have hknows := h.knows t (List.mem_of_getElem? ht)
  cases t with
  | load p =>
    obtain ⟨v, hv, -⟩ := h.closed p hp
    exact .inr ⟨_, by rw [Threads.step, ht, Option.bind_some, RootThread.step, hv]; rfl⟩
  | read p label =>
    obtain ⟨v, hv, -⟩ := h.closed label hknows.1
    exact .inr ⟨_, by rw [Threads.step, ht, Option.bind_some, RootThread.step, hv]; rfl⟩
  | store p label =>
    have hlt : p < s.labels.length := h.closed.lt_length hp
    exact .inr ⟨_, by rw [Threads.step, ht, Option.bind_some, RootThread.step, if_pos hlt]; rfl⟩
  | stored p => exact .inl ⟨p, rfl⟩

end RootInv

/-- What threads leave that store roots at `places`. -/
structure Roots (D : Finset Nat) (labels places labels' : List Nat) : Prop where
  closed : Closed D labels'
  length : labels'.length = labels.length
  outside : ∀ i, i ∉ D → labels'[i]? = labels[i]?
  root_eq : root (linkOn D labels') = root (linkOn D labels)
  stored : ∀ p ∈ places, labels'[p]? = some (root (linkOn D labels) p)

namespace RootThread

/-- A thread that has not begun, at places that matter. -/
def Fits (D : Finset Nat) (labels : List Nat) : RootThread → Prop
  | load p => p ∈ D
  | read p label => p ∈ D ∧ labels[p]? = some label
  | _ => False

end RootThread

theorem RootInv.begin {D : Finset Nat} {labels : List Nat} {threads : List RootThread}
    (hD : Closed D labels) (hfit : ∀ t ∈ threads, t.Fits D labels) :
    RootInv D labels (threads.map RootThread.place) ⟨labels, threads⟩ where
  start := hD
  link _ _ := .inl rfl
  length := rfl
  outside _ _ := rfl
  atPlaces := rfl
  mem p hp := by
    obtain ⟨t, ht, rfl⟩ := List.mem_map.1 hp
    have hfits := hfit t ht
    cases t with
    | load p => exact hfits
    | read p label => exact hfits.1
    | store p label => cases hfits
    | stored p => cases hfits
  knows t ht := by
    have hfits := hfit t ht
    cases t with
    | load p => trivial
    | read p label =>
      obtain ⟨hp, hl⟩ := hfits
      obtain ⟨v, hv, -, hmem⟩ := hD p hp
      obtain rfl := Option.some.inj (hl.symm.trans hv)
      exact ⟨hmem, by rw [← linkOn_eq hp hl, root_link hD.descending]⟩
    | store p label => cases hfits
    | stored p => cases hfits

/-- **Threads that store roots** change no root, in whatever order they take their steps. -/
theorem StoresRoots.roots {D : Finset Nat} {labels labels' : List Nat} {threads : List RootThread}
    (hD : Closed D labels) (hfit : ∀ t ∈ threads, t.Fits D labels)
    (h : StoresRoots labels threads labels') :
    Roots D labels (threads.map RootThread.place) labels' := by
  obtain ⟨order, places, hrun⟩ := h
  obtain ⟨hinv, -⟩ := (RootInv.begin hD hfit).run hrun
  refine ⟨hinv.closed, hinv.length, hinv.outside, hinv.root_eq, fun p hp => ?_⟩
  rw [← hinv.atPlaces] at hp
  obtain ⟨t, ht, rfl⟩ := List.mem_map.1 hp
  obtain ⟨q, -, rfl⟩ := List.mem_map.1 ht
  exact hinv.knows _ ht

end Cvcuda
