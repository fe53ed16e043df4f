import CvCuda.Cvcuda.LabelReduction
import CvCuda.Lib.Forest

/-! # What calls of `Reduction` join

A call that still links two labels has them joined as if by a link: with these pairs, a step of any
call keeps what is joined, and joins nothing but what is asked for. Every call gets along, whatever
the other calls do to the labels, since its own labels go down.

* `Reductions.Inv`: the invariant; `Inv.step`, `Inv.run`: it is kept.
* `Reduction.Local`, `Reduction.left`: what a call knows, and how many steps it has left.
* `reductions_exact`: what calls do, alone and in any order of their steps.
-/

namespace Cvcuda

open Forest

/-- Where a label is linked to. -/
def linkOf (labels : List Nat) (i : Nat) : Nat := labels.getD i i

section
variable {labels : List Nat} {i j v : Nat}

theorem linkOf_eq (h : labels[i]? = some v) : linkOf labels i = v := by
  rw [linkOf, List.getD_eq_getElem?_getD, h]
  rfl

theorem getElem?_linkOf (h : i < labels.length) : labels[i]? = some (linkOf labels i) := by
  rw [linkOf_eq (List.getElem?_eq_getElem h), List.getElem?_eq_getElem h]

theorem linkOf_set (h : i < labels.length) :
    linkOf (labels.set i v) j = if j = i then v else linkOf labels j := by
  unfold linkOf
  rw [List.getD_eq_getElem?_getD, List.getD_eq_getElem?_getD, List.getElem?_set]
  by_cases hj : i = j
  · subst hj
    rw [if_pos rfl, if_pos h, if_pos rfl]
    rfl
  · rw [if_neg hj, if_neg (Ne.symm hj)]

/-- `FindRoot` returns the root. -/
theorem findRoot_returns (h : Descending (linkOf labels)) (hi : i < labels.length) {fuel : Nat}
    (hf : i < fuel) : findRoot labels fuel i = some (root (linkOf labels) i) := by
  induction fuel generalizing i with
  | zero => omega
  | succ fuel ih =>
    rw [findRoot, getElem?_linkOf hi]
    change (if i ≠ linkOf labels i then findRoot labels fuel (linkOf labels i) else some i) = _
    have hle := h i
    split_ifs with he
    · rw [ih (hle.trans_lt hi) (by omega), root_link h]
    · rw [root_of_fixed (not_not.1 he).symm]

end

/-! ## One step of a call -/

namespace Reduction

/-- The labels that the call is about to link. -/
def pending : Reduction → Option (Nat × Nat)
  | link label1 label2 => some (label1, label2)
  | _ => none

/-- At most this many steps are left. -/
def left : Reduction → Nat
  | first label1 label2 => label1 + label2 + 5
  | second label1 label2 _ => label1 + label2 + 4
  | loop1 label1 label2 _ _ => label1 + label2 + 3
  | loop2 label1 label2 _ => label1 + label2 + 2
  | link label1 label2 => label1 + label2 + 1
  | returned _ => 0

/-- What a call for `a` and `b` knows: its labels are joined with them by `R`, and what it read is
joined with where it was read. -/
def Local (R : Nat → Nat → Prop) (n a b : Nat) : Reduction → Prop
  | first label1 label2 => label1 = a ∧ label2 = b ∧ a < n ∧ b < n
  | second label1 label2 next1 => label1 = a ∧ label2 = b ∧ a < n ∧ b < n ∧
      (label1 ≠ label2 → R label1 next1 ∧ next1 ≤ label1)
  | loop1 label1 label2 next1 next2 => R a label1 ∧ R b label2 ∧ label1 < n ∧ label2 < n ∧
      (label1 ≠ label2 → (R label1 next1 ∧ next1 ≤ label1) ∧ R label2 next2 ∧ next2 ≤ label2)
  | loop2 label1 label2 next2 => R a label1 ∧ R b label2 ∧ label1 < n ∧ label2 < n ∧
      (label1 ≠ label2 → R label2 next2 ∧ next2 ≤ label2)
  | link label1 label2 => R a label1 ∧ R b label2 ∧ label1 < n ∧ label2 < n
  | returned label => R a label ∧ R b label ∧ label < n

/-- What a step does to the labels and to the labels it is about to link. -/
inductive Effect (labels : List Nat) : Reduction → List Nat → Reduction → Prop where
  | quiet {c c' : Reduction} (h : c.pending = none) (h' : c'.pending = none) :
      Effect labels c labels c'
  | enter (label1 label2 next2 : Nat) :
      Effect labels (loop2 label1 label2 next2) labels (link label1 label2)
  | leave (label : Nat) : Effect labels (link label label) labels (returned label)
  | relink {label1 label2 lo hi old : Nat} (hlt : lo < hi) (hold : labels[hi]? = some old)
      (h : lo = label1 ∧ hi = label2 ∨ lo = label2 ∧ hi = label1) :
      Effect labels (link label1 label2) (labels.set hi (min old lo))
        (link (if hi = old then lo else old) lo)

section
variable {R R' : Nat → Nat → Prop} {labels labels' : List Nat} {c c' : Reduction} {n a b : Nat}

theorem Local.mono (h : c.Local R n a b) (hR : ∀ x y, R x y → R' x y) : c.Local R' n a b := by
  cases c <;> simp only [Local] at h ⊢ <;> grind

theorem effect (h : c.step labels = some (labels', c')) : Effect labels c labels' c' := by
  cases c with
  | first label1 label2 =>
    rw [step] at h
    split_ifs at h with hne
    · obtain ⟨v, -, he⟩ := Option.map_eq_some_iff.1 h
      cases he
      exact .quiet rfl rfl
    · cases h
      exact .quiet rfl rfl
  | second label1 label2 next1 =>
    rw [step] at h
    split_ifs at h with hne
    · obtain ⟨v, -, he⟩ := Option.map_eq_some_iff.1 h
      cases he
      exact .quiet rfl rfl
    · cases h
      exact .quiet rfl rfl
  | loop1 label1 label2 next1 next2 =>
    rw [step] at h
    split_ifs at h with hne
    · obtain ⟨v, -, he⟩ := Option.map_eq_some_iff.1 h
      cases he
      exact .quiet rfl rfl
    · cases h
      exact .quiet rfl rfl
  | loop2 label1 label2 next2 =>
    rw [step] at h
    split_ifs at h with hne
    · obtain ⟨v, -, he⟩ := Option.map_eq_some_iff.1 h
      cases he
      exact .quiet rfl rfl
    · cases h
      exact .enter _ _ _
  | link label1 label2 =>
    rw [step] at h
    by_cases hne : label1 = label2
    · subst hne
      rw [if_neg (not_not_intro rfl)] at h
      cases h
      exact .leave _
    rw [if_pos hne] at h
    by_cases hlt : label1 < label2
    · simp only [if_pos hlt] at h
      obtain ⟨⟨old, l⟩, hm, he⟩ := Option.map_eq_some_iff.1 h
      obtain ⟨v, hv, he'⟩ := Option.map_eq_some_iff.1 hm
      cases he'
      cases he
      exact .relink hlt hv (.inl ⟨rfl, rfl⟩)
    · simp only [if_neg hlt] at h
      obtain ⟨⟨old, l⟩, hm, he⟩ := Option.map_eq_some_iff.1 h
      obtain ⟨v, hv, he'⟩ := Option.map_eq_some_iff.1 hm
      cases he'
      cases he
      exact .relink (by omega) hv (.inr ⟨rfl, rfl⟩)
  | returned label => cases h

/-- A call keeps what it knows, and gets along. -/
theorem Local.step (hR : Equivalence R) (hdown : Descending (linkOf labels))
    (hlink : ∀ x, R x (linkOf labels x)) (hp : ∀ x y, c.pending = some (x, y) → R x y)
    (hc : c.Local R labels.length a b) (h : c.step labels = some (labels', c')) :
    c'.Local R labels'.length a b ∧ c'.left < c.left := by
  have hread : ∀ {i v}, labels[i]? = some v → R i v ∧ v ≤ i := by
    intro i v hv
    rw [← linkOf_eq hv]
    exact ⟨hlink i, hdown i⟩
  cases c with
  | first label1 label2 =>
    obtain ⟨rfl, rfl, ha, hb⟩ := hc
    rw [Reduction.step] at h
    split_ifs at h with hne
    · obtain ⟨v, hv, he⟩ := Option.map_eq_some_iff.1 h
      cases he
      exact ⟨⟨rfl, rfl, ha, hb, fun _ => hread hv⟩, Nat.lt_succ_self _⟩
    · cases h
      exact ⟨⟨rfl, rfl, ha, hb, fun he => absurd he hne⟩, Nat.lt_succ_self _⟩
  | second label1 label2 next1 =>
    obtain ⟨rfl, rfl, ha, hb, hn⟩ := hc
    rw [Reduction.step] at h
    split_ifs at h with hne
    · obtain ⟨v, hv, he⟩ := Option.map_eq_some_iff.1 h
      cases he
      exact ⟨⟨hR.refl _, hR.refl _, ha, hb, fun he => ⟨hn he, hread hv⟩⟩, Nat.lt_succ_self _⟩
    · cases h
      exact ⟨⟨hR.refl _, hR.refl _, ha, hb, fun he => absurd he hne⟩, Nat.lt_succ_self _⟩
  | loop1 label1 label2 next1 next2 =>
    obtain ⟨ha, hb, h1, h2, hn⟩ := hc
    rw [Reduction.step] at h
    split_ifs at h with hne
    · obtain ⟨v, hv, he⟩ := Option.map_eq_some_iff.1 h
      cases he
      obtain ⟨⟨hr, hle⟩, hn2⟩ := hn hne.1
      refine ⟨⟨hR.trans ha hr, hb, hle.trans_lt h1, h2, fun _ => ⟨hread hv, hn2⟩⟩, ?_⟩
      simp only [left]
      omega
    · cases h
      exact ⟨⟨ha, hb, h1, h2, fun he => (hn he).2⟩, Nat.lt_succ_self _⟩
  | loop2 label1 label2 next2 =>
    obtain ⟨ha, hb, h1, h2, hn⟩ := hc
    rw [Reduction.step] at h
    split_ifs at h with hne
    · obtain ⟨v, hv, he⟩ := Option.map_eq_some_iff.1 h
      cases he
      obtain ⟨hr, hle⟩ := hn hne.1
      refine ⟨⟨ha, hR.trans hb hr, h1, hle.trans_lt h2, fun _ => hread hv⟩, ?_⟩
      simp only [left]
      omega
    · cases h
      exact ⟨⟨ha, hb, h1, h2⟩, Nat.lt_succ_self _⟩
  | link label1 label2 =>
    obtain ⟨ha, hb, h1, h2⟩ := hc
    have h12 : R label1 label2 := hp _ _ rfl
    cases effect h with
    | quiet he _ => cases he
    | leave => exact ⟨⟨ha, hb, h1⟩, Nat.succ_pos _⟩
    | @relink _ _ lo hi old hlt hold hlh =>
      obtain ⟨hrold, hle⟩ := hread hold
      have hlohi : R a lo ∧ R b lo ∧ R a hi ∧ lo < labels.length ∧ hi < labels.length ∧
          lo + hi = label1 + label2 := by
        rcases hlh with ⟨rfl, rfl⟩ | ⟨rfl, rfl⟩
        · exact ⟨ha, hR.trans hb (hR.symm h12), hR.trans ha h12, h1, h2, rfl⟩
        · exact ⟨hR.trans ha h12, hb, ha, h2, h1, Nat.add_comm _ _⟩
      obtain ⟨halo, hblo, hahi, hlo, hhi, hsum⟩ := hlohi
      rw [List.length_set]
      simp only [left, Local]
      split_ifs with he
      · exact ⟨⟨halo, hblo, hlo, hlo⟩, by omega⟩
      · exact ⟨⟨hR.trans hahi hrold, hblo, by omega, hlo⟩, by omega⟩
  | returned label => cases h

/-- A call that has not returned has a step. -/
theorem Local.progress (hc : c.Local R labels.length a b) :
    (∃ label, c = returned label) ∨ ∃ r, c.step labels = some r := by
  have hread : ∀ {i}, i < labels.length → labels[i]? = some (linkOf labels i) := getElem?_linkOf
  cases c with
  | first label1 label2 =>
    obtain ⟨rfl, rfl, ha, hb⟩ := hc
    rw [Reduction.step, hread ha]
    split_ifs
    · exact .inr ⟨_, rfl⟩
    · exact .inr ⟨_, rfl⟩
  | second label1 label2 next1 =>
    obtain ⟨rfl, rfl, ha, hb, hn⟩ := hc
    rw [Reduction.step, hread hb]
    split_ifs
    · exact .inr ⟨_, rfl⟩
    · exact .inr ⟨_, rfl⟩
  | loop1 label1 label2 next1 next2 =>
    obtain ⟨ha, hb, h1, h2, hn⟩ := hc
    rw [Reduction.step]
    split_ifs with hne
    · rw [hread ((hn hne.1).1.2.trans_lt h1)]
      exact .inr ⟨_, rfl⟩
    · exact .inr ⟨_, rfl⟩
  | loop2 label1 label2 next2 =>
    obtain ⟨ha, hb, h1, h2, hn⟩ := hc
    rw [Reduction.step]
    split_ifs with hne
    · rw [hread ((hn hne.1).2.trans_lt h2)]
      exact .inr ⟨_, rfl⟩
    · exact .inr ⟨_, rfl⟩
  | link label1 label2 =>
    obtain ⟨ha, hb, h1, h2⟩ := hc
    rw [Reduction.step]
    split_ifs with hne hlt
    · simp only [atomicMin, hread h2]
      exact .inr ⟨_, rfl⟩
    · simp only [atomicMin, hread h1]
      exact .inr ⟨_, rfl⟩
    · exact .inr ⟨_, rfl⟩
  | returned label => exact .inl ⟨label, rfl⟩

end

end Reduction

/-- After a label is linked to the lower of two, it is joined with both, for the call is about to
link these. -/
theorem joined_relink {r : Nat → Nat → Prop} {labels : List Nat} {lo hi old : Nat}
    (hlt : lo < hi) (hhi : hi < labels.length) (hlink : ∀ x, r x (linkOf (labels.set hi (min old lo)) x))
    (hpend : r (if hi = old then lo else old) lo) : Joined r hi old ∧ Joined r hi lo := by
  have hmin := hlink hi
  rw [linkOf_set hhi, if_pos rfl] at hmin
  by_cases he : hi = old
  · subst he
    rw [Nat.min_eq_right hlt.le] at hmin
    exact ⟨.refl _, .rel _ _ hmin⟩
  · rw [if_neg he] at hpend
    rcases Nat.le_total old lo with hle | hle
    · rw [Nat.min_eq_left hle] at hmin
      exact ⟨.rel _ _ hmin, .trans _ _ _ (.rel _ _ hmin) (.rel _ _ hpend)⟩
    · rw [Nat.min_eq_right hle] at hmin
      exact ⟨.trans _ _ _ (.rel _ _ hmin) (.symm _ _ (.rel _ _ hpend)), .rel _ _ hmin⟩

/-! ## Steps of several calls -/

namespace Reductions

/-- Linked, or about to be linked. -/
def Near (s : Reductions) (x y : Nat) : Prop :=
  linkOf s.labels x = y ∨ ∃ i : Nat, (s.calls[i]?).bind Reduction.pending = some (x, y)

/-- Linked at first, or to be joined. -/
def Wanted (labels : List Nat) (pairs : List (Nat × Nat)) (x y : Nat) : Prop :=
  linkOf labels x = y ∨ (x, y) ∈ pairs

/-- The invariant of calls for `pairs` on `labels`. -/
structure Inv (labels : List Nat) (pairs : List (Nat × Nat)) (s : Reductions) : Prop where
  length : s.labels.length = labels.length
  calls : s.calls.length = pairs.length
  down : Descending (linkOf s.labels)
  keeps : ∀ x, Joined s.Near x (linkOf labels x)
  wanted : ∀ x y, s.Near x y → Joined (Wanted labels pairs) x y
  locals : ∀ (i : Nat) c p, s.calls[i]? = some c → pairs[i]? = some p →
    c.Local (Joined s.Near) s.labels.length p.1 p.2

/-- At most this many steps are left. -/
def left (s : Reductions) : Nat := (s.calls.map Reduction.left).sum

section
variable {labels : List Nat} {pairs : List (Nat × Nat)} {s s' : Reductions} {i : Nat}
  {labels' : List Nat} {c c' : Reduction} {x y : Nat}

theorem step_cases (h : s.step i = some s') : ∃ c r, s.calls[i]? = some c ∧
    c.step s.labels = some r ∧ s' = ⟨r.1, s.calls.set i r.2⟩ := by
  obtain ⟨c, hc, h⟩ := Option.bind_eq_some_iff.1 h
  obtain ⟨r, hr, rfl⟩ := Option.map_eq_some_iff.1 h
  exact ⟨c, r, hc, hr, rfl⟩

/-- Near by a link, by the call `i`, or by another call. -/
theorem near_iff (hc : s.calls[i]? = some c) : s.Near x y ↔ linkOf s.labels x = y ∨
    c.pending = some (x, y) ∨
      ∃ j : Nat, j ≠ i ∧ (s.calls[j]?).bind Reduction.pending = some (x, y) := by
  refine or_congr_right ⟨?_, ?_⟩
  · rintro ⟨j, hj⟩
    by_cases hji : j = i
    · subst hji
      rw [hc] at hj
      exact .inl hj
    · exact .inr ⟨j, hji, hj⟩
  · rintro (h | ⟨j, -, hj⟩)
    · exact ⟨i, by rw [hc]; exact h⟩
    · exact ⟨j, hj⟩

theorem near_set_iff (hc : s.calls[i]? = some c) :
    Near ⟨labels', s.calls.set i c'⟩ x y ↔ linkOf labels' x = y ∨ c'.pending = some (x, y) ∨
      ∃ j : Nat, j ≠ i ∧ (s.calls[j]?).bind Reduction.pending = some (x, y) := by
  have hi : i < s.calls.length := (List.getElem?_eq_some_iff.1 hc).1
  rw [near_iff (List.getElem?_set_self hi)]
  refine or_congr_right (or_congr_right (exists_congr fun j => and_congr_right fun hj => ?_))
  rw [List.getElem?_set_ne (Ne.symm hj)]

/-- What is joined stays so. -/
theorem joined_step (h : s.step i = some s') (hj : Joined s.Near x y) : Joined s'.Near x y := by
  obtain ⟨c, ⟨labels', c'⟩, hc, hr, rfl⟩ := step_cases h
  refine joined_of_gen (fun x y hxy => ?_) hj
  have hgen : ∀ x y, _ → Near ⟨labels', s.calls.set i c'⟩ x y := fun x y =>
    (near_set_iff hc).2
  rcases (near_iff hc).1 hxy with hlink | hpend | hother
  · cases Reduction.effect hr with
    | quiet _ _ => exact .rel _ _ (hgen _ _ (.inl hlink))
    | enter _ _ _ => exact .rel _ _ (hgen _ _ (.inl hlink))
    | leave _ => exact .rel _ _ (hgen _ _ (.inl hlink))
    | @relink label1 label2 lo hi old hlt hold _ =>
      have hhi := (List.getElem?_eq_some_iff.1 hold).1
      by_cases hx : x = hi
      · -- the link that is replaced
        subst hx
        rw [linkOf_eq hold] at hlink
        subst hlink
        exact (joined_relink hlt hhi (fun x => hgen _ _ (.inl rfl))
          (hgen _ _ (.inr (.inl rfl)))).1
      · refine .rel _ _ (hgen _ _ (.inl ?_))
        rw [linkOf_set hhi, if_neg hx, hlink]
  · cases Reduction.effect hr with
    | quiet hn _ =>
      rw [hn] at hpend
      cases hpend
    | enter _ _ _ => cases hpend
    | leave _ =>
      cases hpend
      exact .refl _
    | @relink label1 label2 lo hi old hlt hold h =>
      have hhi := (List.getElem?_eq_some_iff.1 hold).1
      have hboth := (joined_relink hlt hhi (fun x => hgen _ _ (.inl rfl))
        (hgen _ _ (.inr (.inl rfl)))).2
      cases hpend
      rcases h with ⟨rfl, rfl⟩ | ⟨rfl, rfl⟩
      · exact .symm _ _ hboth
      · exact hboth
  · exact .rel _ _ (hgen _ _ (.inr (.inr hother)))

/-- Nothing gets joined but what is wanted. -/
theorem Inv.near_step (hI : s.Inv labels pairs) (h : s.step i = some s') (hxy : s'.Near x y) :
    Joined (Wanted labels pairs) x y := by
  obtain ⟨c, ⟨labels', c'⟩, hc, hr, rfl⟩ := step_cases h
  have hw : ∀ x y, _ → Joined (Wanted labels pairs) x y := fun x y hg =>
    hI.wanted x y ((near_iff hc).2 hg)
  -- what a call that links two labels has joined
  have hrelink : ∀ {label1 label2 lo hi old : Nat}, c = .link label1 label2 →
      s.labels[hi]? = some old → (lo = label1 ∧ hi = label2 ∨ lo = label2 ∧ hi = label1) →
      Joined (Wanted labels pairs) hi old ∧ Joined (Wanted labels pairs) hi lo := by
    intro label1 label2 lo hi old hcl hold h
    have hpair : Joined (Wanted labels pairs) label1 label2 :=
      hw _ _ (.inr (.inl (by rw [hcl]; rfl)))
    refine ⟨hw _ _ (.inl (linkOf_eq hold)), ?_⟩
    rcases h with ⟨rfl, rfl⟩ | ⟨rfl, rfl⟩
    · exact .symm _ _ hpair
    · exact hpair
  rcases (near_set_iff hc).1 hxy with hlink | hpend | hother
  · cases Reduction.effect hr with
    | quiet _ _ => exact hw _ _ (.inl hlink)
    | enter _ _ _ => exact hw _ _ (.inl hlink)
    | leave _ => exact hw _ _ (.inl hlink)
    | @relink label1 label2 lo hi old hlt hold hlh =>
      have hhi := (List.getElem?_eq_some_iff.1 hold).1
      rw [linkOf_set hhi] at hlink
      split_ifs at hlink with hx
      · obtain ⟨ho, hl⟩ := hrelink rfl hold hlh
        subst hx hlink
        rcases Nat.le_total old lo with hle | hle
        · rwa [Nat.min_eq_left hle]
        · rwa [Nat.min_eq_right hle]
      · exact hw _ _ (.inl hlink)
  · cases Reduction.effect hr with
    | quiet _ hn =>
      rw [hn] at hpend
      cases hpend
    | enter label1 label2 next2 =>
      cases hpend
      have hi : i < pairs.length := by
        rw [← hI.calls]
        exact (List.getElem?_eq_some_iff.1 hc).1
      have hp := List.getElem?_eq_getElem hi
      obtain ⟨ha, hb, -⟩ := hI.locals i _ _ hc hp
      have ha' := joined_of_gen hI.wanted ha
      have hab : Joined (Wanted labels pairs) pairs[i].1 pairs[i].2 :=
        .rel _ _ (.inr (List.mem_of_getElem? hp))
      exact .trans _ _ _ (.symm _ _ ha') (.trans _ _ _ hab (joined_of_gen hI.wanted hb))
    | leave _ => cases hpend
    | @relink label1 label2 lo hi old hlt hold hlh =>
      obtain ⟨ho, hl⟩ := hrelink rfl hold hlh
      cases hpend
      split_ifs
      · exact .refl _
      · exact .trans _ _ _ (.symm _ _ ho) hl
  · exact hw _ _ (.inr (.inr hother))

theorem sum_map_set_lt {α : Type} {f : α → Nat} {l : List α} {a b : α} (h : l[i]? = some a)
    (hlt : f b < f a) : ((l.set i b).map f).sum < (l.map f).sum := by
  induction l generalizing i with
  | nil => cases h
  | cons c l ih =>
    cases i with
    | zero =>
      cases h
      simp only [List.set_cons_zero, List.map_cons, List.sum_cons]
      omega
    | succ i =>
      have := ih h
      simp only [List.set_cons_succ, List.map_cons, List.sum_cons]
      omega

/-- A step keeps the invariant, and one step less is left. -/
theorem Inv.step (hI : s.Inv labels pairs) (h : s.step i = some s') :
    s'.Inv labels pairs ∧ s'.left < s.left := by
  have hmono : ∀ x y, Joined s.Near x y → Joined s'.Near x y := fun _ _ => joined_step h
  have hwanted : ∀ x y, s'.Near x y → Joined (Wanted labels pairs) x y :=
    fun _ _ => hI.near_step h
  obtain ⟨c, ⟨labels', c'⟩, hc, hr, rfl⟩ := step_cases h
  have hi := (List.getElem?_eq_some_iff.1 hc).1
  have hlen : labels'.length = s.labels.length := by
    cases Reduction.effect hr with
    | quiet _ _ => rfl
    | enter _ _ _ => rfl
    | leave _ => rfl
    | relink _ _ _ => exact List.length_set
  have hdown : Descending (linkOf labels') := by
    cases Reduction.effect hr with
    | quiet _ _ => exact hI.down
    | enter _ _ _ => exact hI.down
    | leave _ => exact hI.down
    | relink hlt hold _ =>
      intro x
      rw [linkOf_set (List.getElem?_eq_some_iff.1 hold).1]
      split_ifs with hx
      · omega
      · exact hI.down x
  have hlocal : ∀ p, pairs[i]? = some p →
      c'.Local (Joined (Near ⟨labels', s.calls.set i c'⟩)) labels'.length p.1 p.2 ∧
        c'.left < c.left := by
    intro p hp
    refine Reduction.Local.step (Relation.EqvGen.is_equivalence _) hI.down (fun x => ?_)
      (fun x y hxy => ?_) ((hI.locals i c p hc hp).mono hmono) hr
    · exact hmono _ _ (.rel _ _ (.inl rfl))
    · exact hmono _ _ (.rel _ _ ((near_iff hc).2 (.inr (.inl hxy))))
  have hip : i < pairs.length := by rwa [← hI.calls]
  refine ⟨⟨hlen.trans hI.length, List.length_set.trans hI.calls, hdown,
    fun x => hmono _ _ (hI.keeps x), hwanted, fun j d p hd hp => ?_⟩, ?_⟩
  · by_cases hj : j = i
    · subst hj
      rw [List.getElem?_set_self hi] at hd
      cases hd
      exact (hlocal p hp).1
    · rw [List.getElem?_set_ne (Ne.symm hj)] at hd
      rw [hlen]
      exact (hI.locals j d p hd hp).mono hmono
  · exact sum_map_set_lt hc (hlocal _ (List.getElem?_eq_getElem hip)).2

theorem Inv.start (h : Descending (linkOf labels))
    (hp : ∀ p ∈ pairs, p.1 < labels.length ∧ p.2 < labels.length) :
    (start labels pairs).Inv labels pairs where
  length := rfl
  calls := List.length_map _
  down := h
  keeps x := .rel _ _ (.inl rfl)
  wanted x y hxy := by
    rcases hxy with hlink | ⟨i, hi⟩
    · exact .rel _ _ (.inl hlink)
    · obtain ⟨c, hc, hi⟩ := Option.bind_eq_some_iff.1 hi
      obtain ⟨p, -, rfl⟩ := List.mem_map.1 (List.mem_of_getElem? hc)
      cases hi
  locals i c p hc hpi := by
    rw [Reductions.start, List.getElem?_map, hpi] at hc
    cases hc
    exact ⟨rfl, rfl, hp p (List.mem_of_getElem? hpi)⟩

/-- A run keeps the invariant, and takes as many steps as are no longer left. -/
theorem Inv.run {order : List Nat} (hI : s.Inv labels pairs) (h : Runs s order s') :
    s'.Inv labels pairs ∧ s'.left + order.length ≤ s.left := by
  induction h with
  | nil s => exact ⟨hI, le_rfl⟩
  | cons hs _ ih =>
    obtain ⟨hI₁, hlt⟩ := hI.step hs
    obtain ⟨hI', hle⟩ := ih hI₁
    refine ⟨hI', ?_⟩
    rw [List.length_cons]
    omega

/-- Where a call has not returned, it can take a step. -/
theorem Inv.progress (hI : s.Inv labels pairs) (hc : s.calls[i]? = some c) :
    (∃ label, c = .returned label) ∨ ∃ s', s.step i = some s' := by
  have hip : i < pairs.length := by
    rw [← hI.calls]
    exact (List.getElem?_eq_some_iff.1 hc).1
  refine (hI.locals i c _ hc (List.getElem?_eq_getElem hip)).progress.imp_right ?_
  rintro ⟨r, hr⟩
  exact ⟨_, by rw [Reductions.step, hc, Option.bind_some, hr, Option.map_some]⟩

theorem near_done (hd : ∀ c ∈ s.calls, ∃ label, c = Reduction.returned label) :
    ∀ x y, s.Near x y → linkOf s.labels x = y := by
  rintro x y (hlink | ⟨i, hi⟩)
  · exact hlink
  · obtain ⟨c, hc, hi⟩ := Option.bind_eq_some_iff.1 hi
    obtain ⟨label, rfl⟩ := hd c (List.mem_of_getElem? hc)
    cases hi

/-- When all calls have returned, the classes are what was wanted. -/
theorem Inv.classes (hI : s.Inv labels pairs)
    (hd : ∀ c ∈ s.calls, ∃ label, c = Reduction.returned label) (h : Descending (linkOf labels)) :
    root (linkOf s.labels) x = root (linkOf s.labels) y ↔
      Joined (fun x y => root (linkOf labels) x = root (linkOf labels) y ∨ (x, y) ∈ pairs) x y := by
  have hnear : ∀ x y, s.Near x y → linkOf s.labels x = y := near_done hd
  rw [root_eq_iff hI.down]
  constructor
  · intro hj
    refine joined_of_gen (fun x y hxy => ?_)
      (joined_of_gen hI.wanted (hj.mono fun x y hxy => .inl hxy))
    refine .rel _ _ (hxy.imp_left fun hlink => ?_)
    rw [← hlink, root_link h]
  · intro hj
    have hclass : ∀ x y, Joined s.Near x y → Joined (fun x y => linkOf s.labels x = y) x y :=
      fun x y hxy => hxy.mono hnear
    refine joined_of_gen (fun x y hxy => ?_) hj
    rcases hxy with hroot | hpair
    · refine joined_of_gen (fun x y hlink => ?_) ((root_eq_iff h).1 hroot)
      rw [← hlink]
      exact hclass _ _ (hI.keeps x)
    · obtain ⟨i, hi, he⟩ := List.getElem_of_mem hpair
      have hic : i < s.calls.length := by rwa [hI.calls]
      obtain ⟨label, hlabel⟩ := hd _ (List.getElem_mem hic)
      obtain ⟨ha, hb, -⟩ := hI.locals i _ _ ((List.getElem?_eq_getElem hic).trans
        (congrArg some hlabel)) (List.getElem?_eq_getElem hi)
      rw [he] at ha hb
      exact hclass _ _ (.trans _ _ _ ha (.symm _ _ hb))

end

end Reductions

/-! ## A call alone -/

namespace Reduction

variable {labels labels' : List Nat} {c c' : Reduction} {a b r : Nat}

/-- The call for `a` and `b` is the only one: what it has read is still so, and `b` was not passed
on the way from `a`. -/
def Alone (labels : List Nat) (a b : Nat) (now : List Nat) : Reduction → Prop
  | first label1 label2 => now = labels ∧ label1 = a ∧ label2 = b
  | second label1 label2 next1 => now = labels ∧ label1 = a ∧ label2 = b ∧
      (label1 ≠ label2 → next1 = linkOf labels label1)
  | loop1 label1 label2 next1 next2 => now = labels ∧ label2 = b ∧
      (∃ k, (linkOf labels)^[k] a = label1 ∧ ∀ i < k, (linkOf labels)^[i] a ≠ b) ∧
      (label1 ≠ label2 → next1 = linkOf labels label1 ∧ next2 = linkOf labels label2)
  | loop2 label1 label2 next2 => now = labels ∧
      (label1 = b ∧ label2 = b ∧ (∃ k, (linkOf labels)^[k] a = b) ∨
        (¬∃ k, (linkOf labels)^[k] a = b) ∧ label1 = root (linkOf labels) a ∧
          root (linkOf labels) label2 = root (linkOf labels) b ∧
          (label1 ≠ label2 → next2 = linkOf labels label2))
  | link label1 label2 => label1 = b ∧ label2 = b ∧ (∃ k, (linkOf labels)^[k] a = b) ∨
      (¬∃ k, (linkOf labels)^[k] a = b) ∧
        (label1 = min (root (linkOf labels) a) (root (linkOf labels) b) ∧ label2 = label1 ∨
          now = labels ∧ label1 = root (linkOf labels) a ∧ label2 = root (linkOf labels) b)
  | returned label => label = b ∧ (∃ k, (linkOf labels)^[k] a = b) ∨
      (¬∃ k, (linkOf labels)^[k] a = b) ∧
        label = min (root (linkOf labels) a) (root (linkOf labels) b)

theorem Alone.step {now now' : List Nat} (h : Descending (linkOf labels))
    (hc : c.Alone labels a b now) (hs : c.step now = some (now', c')) :
    c'.Alone labels a b now' := by
  cases c with
  | first label1 label2 =>
    obtain ⟨rfl, rfl, rfl⟩ := hc
    rw [Reduction.step] at hs
    split_ifs at hs with hne
    · obtain ⟨v, hv, he⟩ := Option.map_eq_some_iff.1 hs
      cases he
      exact ⟨rfl, rfl, rfl, fun _ => (linkOf_eq hv).symm⟩
    · cases hs
      exact ⟨rfl, rfl, rfl, fun he => absurd he hne⟩
  | second label1 label2 next1 =>
    obtain ⟨rfl, rfl, rfl, hn⟩ := hc
    rw [Reduction.step] at hs
    split_ifs at hs with hne
    · obtain ⟨v, hv, he⟩ := Option.map_eq_some_iff.1 hs
      cases he
      exact ⟨rfl, rfl, ⟨0, rfl, by simp⟩, fun he => ⟨hn he, (linkOf_eq hv).symm⟩⟩
    · cases hs
      exact ⟨rfl, rfl, ⟨0, rfl, by simp⟩, fun he => absurd he hne⟩
  | loop1 label1 label2 next1 next2 =>
    obtain ⟨rfl, rfl, ⟨k, hk, hbefore⟩, hn⟩ := hc
    rw [Reduction.step] at hs
    split_ifs at hs with hne
    · obtain ⟨v, hv, he⟩ := Option.map_eq_some_iff.1 hs
      cases he
      obtain ⟨h1, h2⟩ := hn hne.1
      refine ⟨rfl, rfl, ⟨k + 1, ?_, fun i hi => ?_⟩, fun _ => ⟨(linkOf_eq hv).symm, h2⟩⟩
      · rw [Function.iterate_succ_apply', hk, h1]
      · rcases Nat.lt_succ_iff_lt_or_eq.1 hi with hi | rfl
        · exact hbefore i hi
        · rw [hk]
          exact hne.1
    · cases hs
      by_cases he : label1 = label2
      · exact ⟨rfl, .inl ⟨he, rfl, k, hk.trans he⟩⟩
      · -- the way from `a` ends here, at its root
        have hfix : linkOf now label1 = label1 := by
          by_contra hf
          exact hne ⟨he, fun hl => hf (((hn he).1).symm.trans hl.symm)⟩
        have hroot : label1 = root (linkOf now) a := by
          rw [← hk] at hfix ⊢
          exact iterate_fixed_eq_root h hfix
        refine ⟨rfl, .inr ⟨?_, hroot, rfl, fun he => (hn he).2⟩⟩
        rintro ⟨i, hi⟩
        rcases Nat.lt_or_ge i k with hik | hik
        · exact hbefore i hik hi
        · obtain ⟨m, rfl⟩ := Nat.exists_eq_add_of_le' hik
          rw [Function.iterate_add_apply, hk, Function.iterate_fixed hfix] at hi
          exact he hi
  | loop2 label1 label2 next2 =>
    obtain ⟨rfl, hcase⟩ := hc
    rw [Reduction.step] at hs
    split_ifs at hs with hne
    · obtain ⟨v, hv, he⟩ := Option.map_eq_some_iff.1 hs
      cases he
      rcases hcase with ⟨rfl, rfl, -⟩ | ⟨hoff, h1, h2, hn⟩
      · exact absurd rfl hne.1
      · refine ⟨rfl, .inr ⟨hoff, h1, ?_, fun _ => (linkOf_eq hv).symm⟩⟩
        rw [hn hne.1, root_link h, h2]
    · cases hs
      rcases hcase with hon | ⟨hoff, h1, h2, hn⟩
      · exact .inl hon
      · refine .inr ⟨hoff, .inr ⟨rfl, h1, ?_⟩⟩
        rw [← h2]
        by_cases he : label1 = label2
        · rw [← he, h1]
          exact (root_of_fixed (root_fixed h a)).symm
        · have hfix : linkOf now label2 = label2 := by
            by_contra hf
            exact hne ⟨he, fun hl => hf ((hn he).symm.trans hl.symm)⟩
          exact (root_of_fixed hfix).symm
  | link label1 label2 =>
    cases effect hs with
    | quiet he _ => cases he
    | leave =>
      rcases hc with ⟨h1, -, hon⟩ | ⟨hoff, ⟨h1, -⟩ | ⟨-, h1, h2⟩⟩
      · exact .inl ⟨h1, hon⟩
      · exact .inr ⟨hoff, h1⟩
      · refine .inr ⟨hoff, ?_⟩
        rw [← h1, ← h2, Nat.min_self]
    | @relink _ _ lo hi old hlt hold hlh =>
      rcases hc with ⟨h1, h2, -⟩ | ⟨hoff, ⟨-, h2⟩ | ⟨rfl, h1, h2⟩⟩
      · omega
      · omega
      · -- both are roots
        have hfix : ∀ i, linkOf now (root (linkOf now) i) = root (linkOf now) i := root_fixed h
        have hhi : hi = old := by
          rw [← linkOf_eq hold]
          rcases hlh with ⟨-, rfl⟩ | ⟨-, rfl⟩
          · rw [h2, hfix]
          · rw [h1, hfix]
        rw [if_pos hhi]
        refine .inr ⟨hoff, .inl ⟨?_, rfl⟩⟩
        omega
  | returned label => cases hs

/-- A call alone returns, by steps of a run. -/
theorem exec_runs {labels : List Nat} {fuel : Nat} {now : List Nat}
    (hI : Reductions.Inv labels [(a, b)] ⟨now, [c]⟩) (hc : c.Alone labels a b now)
    (h : Descending (linkOf labels)) (hf : c.left ≤ fuel) :
    ∃ order now' r, c.exec fuel now = some (now', r) ∧
      Reductions.Runs ⟨now, [c]⟩ order ⟨now', [returned r]⟩ ∧ (returned r).Alone labels a b now' := by
  induction fuel generalizing c now with
  | zero =>
    rcases hI.progress (i := 0) rfl with ⟨r, rfl⟩ | ⟨s', hs⟩
    · exact ⟨[], now, r, rfl, .nil _, hc⟩
    · have := (hI.step hs).2
      simp only [Reductions.left, List.map_cons, List.map_nil, List.sum_cons, List.sum_nil] at this
      omega
  | succ fuel ih =>
    rcases hI.progress (i := 0) rfl with ⟨r, rfl⟩ | ⟨s', hs⟩
    · exact ⟨[], now, r, rfl, .nil _, hc⟩
    obtain ⟨d, ⟨now₁, c₁⟩, hd, hr, rfl⟩ := Reductions.step_cases hs
    cases hd
    obtain ⟨hI₁, hlt⟩ := hI.step hs
    simp only [Reductions.left, List.map_cons, List.map_nil, List.sum_cons, List.sum_nil,
      List.set_cons_zero] at hlt hI₁
    obtain ⟨order, now', r, hexec, hrun, hret⟩ := ih hI₁ (hc.step h hr) (by omega)
    refine ⟨0 :: order, now', r, ?_, .cons hs hrun, hret⟩
    have hnr : ∀ label, c ≠ returned label := by
      rintro label rfl
      cases hr
    rw [exec, hr]
    · exact hexec
    · exact fun label he => hnr label he

end Reduction

/-! ## All calls -/

section
variable {labels : List Nat}

theorem forall_of_all (h : ∀ i < labels.length, ∀ v ∈ labels[i]?, v ≤ i) :
    ∀ (i v : Nat), labels[i]? = some v → v ≤ i := fun i v hv =>
  h i (List.getElem?_eq_some_iff.1 hv).1 v hv

theorem descending_of (h : ∀ (i v : Nat), labels[i]? = some v → v ≤ i) :
    Descending (linkOf labels) := by
  intro i
  by_cases hi : i < labels.length
  · exact h i _ (getElem?_linkOf hi)
  · rw [linkOf, List.getD_eq_getElem?_getD, List.getElem?_eq_none (Nat.le_of_not_lt hi)]
    rfl

/-- The classes when two are joined. -/
theorem joined_pair_iff {f : Nat → Nat} {a b x y : Nat} :
    Joined (fun x y => f x = f y ∨ (x, y) ∈ [(a, b)]) x y ↔
      f x = f y ∨ (f x = f a ∧ f y = f b) ∨ (f x = f b ∧ f y = f a) := by
  constructor
  · intro hj
    induction hj with
    | rel x y hxy =>
      refine hxy.imp_right fun hp => .inl ?_
      cases List.mem_singleton.1 hp
      exact ⟨rfl, rfl⟩
    | refl x => exact .inl rfl
    | symm x y _ ih => grind
    | trans x y z _ _ ih ih' => grind
  · have hsame : ∀ x y, f x = f y → Joined (fun x y => f x = f y ∨ (x, y) ∈ [(a, b)]) x y :=
      fun x y h => .rel _ _ (.inl h)
    have hab : Joined (fun x y => f x = f y ∨ (x, y) ∈ [(a, b)]) a b :=
      .rel _ _ (.inr (List.mem_singleton.2 rfl))
    rintro (h | ⟨hx, hy⟩ | ⟨hx, hy⟩)
    · exact hsame _ _ h
    · exact .trans _ _ _ (hsame _ _ hx) (.trans _ _ _ hab (hsame _ _ hy.symm))
    · exact .trans _ _ _ (hsame _ _ hx) (.trans _ _ _ (.symm _ _ hab) (hsame _ _ hy.symm))

/-- The labels `labels'` after a call for `a` and `b` that has returned `r`. -/
structure Reduced (labels labels' : List Nat) (a b r : Nat) : Prop where
  length : labels'.length = labels.length
  down : Descending (linkOf labels')
  classes : ∀ x y, root (linkOf labels') x = root (linkOf labels') y ↔
    root (linkOf labels) x = root (linkOf labels) y ∨
      (root (linkOf labels) x = root (linkOf labels) a ∧
        root (linkOf labels) y = root (linkOf labels) b) ∨
      (root (linkOf labels) x = root (linkOf labels) b ∧
        root (linkOf labels) y = root (linkOf labels) a)
  left : root (linkOf labels') r = root (linkOf labels') a
  right : root (linkOf labels') r = root (linkOf labels') b
  /-- The links lead from `a` to `b`. -/
  passed : (∃ k, (linkOf labels)^[k] a = b) → r = b
  top : (¬∃ k, (linkOf labels)^[k] a = b) → r = root (linkOf labels') r

/-- A call alone returns and joins the two classes. -/
theorem reduction_reduced (h : Descending (linkOf labels)) {a b : Nat} (ha : a < labels.length)
    (hb : b < labels.length) {fuel : Nat} (hf : a + b + 5 ≤ fuel) :
    ∃ labels' r, reduction fuel labels a b = some (labels', r) ∧ Reduced labels labels' a b r := by
  have hI : (Reductions.start labels [(a, b)]).Inv labels [(a, b)] :=
    .start h fun p hp => by
      rw [List.mem_singleton.1 hp]
      exact ⟨ha, hb⟩
  have hc : (Reduction.first a b).Alone labels a b labels := ⟨rfl, rfl, rfl⟩
  obtain ⟨order, labels', r, hexec, hrun, hret⟩ := Reduction.exec_runs hI hc h hf
  obtain ⟨hI', -⟩ := hI.run hrun
  have hd : ∀ c ∈ [Reduction.returned r], ∃ label, c = Reduction.returned label := fun c hc =>
    ⟨r, List.mem_singleton.1 hc⟩
  have hclass := fun x y => (hI'.classes (x := x) (y := y) hd h).trans joined_pair_iff
  have hfix : ∀ x, root (linkOf labels) (root (linkOf labels) x) = root (linkOf labels) x :=
    fun x => root_of_fixed (root_fixed h x)
  have hra : root (linkOf labels) r = root (linkOf labels) a ∨
      root (linkOf labels) r = root (linkOf labels) b := by
    rcases hret with ⟨rfl, -⟩ | ⟨-, rfl⟩
    · exact .inr rfl
    · rcases Nat.le_total (root (linkOf labels) a) (root (linkOf labels) b) with hle | hle
      · exact .inl (by rw [Nat.min_eq_left hle, hfix])
      · exact .inr (by rw [Nat.min_eq_right hle, hfix])
  refine ⟨labels', r, hexec, hI'.length, hI'.down, hclass, (hclass r a).2 ?_, (hclass r b).2 ?_,
    fun hon => ?_, fun hoff => ?_⟩
  · exact hra.imp_right fun hr => .inr ⟨hr, rfl⟩
  · exact hra.symm.imp_right fun hr => .inl ⟨hr, rfl⟩
  · exact (hret.resolve_right fun hr => hr.1 hon).1
  · -- the root of `r` is not below the lower of the two roots
    obtain ⟨-, hr⟩ := hret.resolve_left fun hr => hoff hr.2
    have hle := root_le hI'.down r
    have hrr := (hclass r (root (linkOf labels') r)).1
      (root_of_fixed (root_fixed hI'.down r)).symm
    have hle' := root_le h (root (linkOf labels') r)
    simp only at hle hrr hle' ⊢
    omega

/-- **Union-find**: a call alone, and calls whose steps are taken in any order. -/
theorem reductions_exact (h : ∀ (i v : Nat), labels[i]? = some v → v ≤ i) :
    (∀ a b, a < labels.length → b < labels.length → ∀ fuel, a + b + 5 ≤ fuel →
      ∃ labels' r, reduction fuel labels a b = some (labels', r) ∧
        Reduced labels labels' a b r) ∧
    ∀ pairs : List (Nat × Nat), (∀ p ∈ pairs, p.1 < labels.length ∧ p.2 < labels.length) →
      ∀ order s, (Reductions.start labels pairs).Runs order s →
        order.length ≤ (pairs.map fun p => p.1 + p.2 + 5).sum ∧
        s.labels.length = labels.length ∧ Descending (linkOf s.labels) ∧
        (∀ (i : Nat) c, s.calls[i]? = some c →
          (∃ label, c = .returned label) ∨ ∃ s', s.step i = some s') ∧
        ((∀ c ∈ s.calls, ∃ label, c = Reduction.returned label) →
          (∀ x y, root (linkOf s.labels) x = root (linkOf s.labels) y ↔
            Joined (fun x y => root (linkOf labels) x = root (linkOf labels) y ∨ (x, y) ∈ pairs)
              x y) ∧
          ∀ (i : Nat) p label, pairs[i]? = some p → s.calls[i]? = some (.returned label) →
            root (linkOf s.labels) label = root (linkOf s.labels) p.1 ∧
              root (linkOf s.labels) label = root (linkOf s.labels) p.2) := by
  have hdown := descending_of h
  refine ⟨fun a b ha hb fuel hf => reduction_reduced hdown ha hb hf, ?_⟩
  intro pairs hp order s hrun
  have hstart := Reductions.Inv.start hdown hp
  obtain ⟨hI, hsteps⟩ := hstart.run hrun
  have hleft : (Reductions.start labels pairs).left = (pairs.map fun p => p.1 + p.2 + 5).sum := by
    rw [Reductions.left, Reductions.start, List.map_map]
    rfl
  refine ⟨by omega, hI.length, hI.down, fun i c hc => hI.progress hc, fun hd => ?_⟩
  refine ⟨fun x y => hI.classes hd hdown, fun i p label hpi hci => ?_⟩
  obtain ⟨ha, hb, -⟩ := hI.locals i _ p hci hpi
  have hnear : ∀ x y, s.Near x y → linkOf s.labels x = y := Reductions.near_done hd
  rw [root_eq_iff hI.down, root_eq_iff hI.down]
  exact ⟨.symm _ _ (ha.mono hnear), .symm _ _ (hb.mono hnear)⟩

/-- Of four labels, three are linked. -/
theorem reductions_exact_four :
    ∃ labels' r, reduction 10 [0, 0, 1, 3] 2 3 = some (labels', r) ∧
      Reduced [0, 0, 1, 3] labels' 2 3 r :=
  (reductions_exact (forall_of_all (by decide))).1 2 3 (by decide) (by decide) 10 (by decide)

/-- Where the second label is on the way from the first to the root, it is returned, not the
root. -/
theorem parent_returned :
    ¬∀ (labels : List Nat) (a b : Nat), (∀ (i v : Nat), labels[i]? = some v → v ≤ i) →
      a < labels.length → b < labels.length → ∀ fuel labels' r,
        reduction fuel labels a b = some (labels', r) → r = root (linkOf labels') a := by
  intro hroot
  have h := hroot [0, 0, 1] 2 1 (forall_of_all (by decide)) (by decide) (by decide) 10 [0, 0, 1] 1
    (by decide)
  exact absurd h (by decide)

end

end Cvcuda
