import Mathlib.Tactic

/-! # Custody of things

Things are made, each with a number of its own, kept in cells, used, and disposed of. `Custody`
says in which cell each of them is, which were given away, and what was done so far.

* `CustodyStep`: what keeps every thing in one place.
* `Custody.Ok`: nothing is in two places, nothing is lost, and nothing is done to a thing that was
  disposed of (`Custody.Placed.step`, `Custody.Ok.steps`).
* `Custody.Ok.sound`: a thing is disposed of once, or kept, or given away.
-/

/-- What is done to a thing. -/
inductive CustodyEvent where
  | used (a : Nat)
  | disposed (a : Nat)
  deriving DecidableEq

/-- The thing in each cell, those given away, how many were made, and what was done. -/
structure Custody (κ : Type) where
  cell : κ → Option Nat
  out : List Nat
  next : Nat
  log : List CustodyEvent

section
variable {κ : Type} [DecidableEq κ]

/-- What may be done. -/
inductive CustodyStep (s : Custody κ) : Custody κ → Prop where
  | make {k : κ} (free : s.cell k = none) :
      CustodyStep s
        { s with cell := Function.update s.cell k (some s.next), next := s.next + 1 }
  | pass {k k' : κ} {a : Nat} (has : s.cell k = some a) (free : s.cell k' = none) :
      CustodyStep s
        { s with cell := Function.update (Function.update s.cell k none) k' (some a) }
  | use {k : κ} {a : Nat} (has : s.cell k = some a) :
      CustodyStep s { s with log := s.log ++ [.used a] }
  | dispose {k : κ} {a : Nat} (has : s.cell k = some a) :
      CustodyStep s
        { s with cell := Function.update s.cell k none, log := s.log ++ [.disposed a] }
  | giveAway {k : κ} {a : Nat} (has : s.cell k = some a) :
      CustodyStep s { s with cell := Function.update s.cell k none, out := a :: s.out }
  | takeBack {k : κ} {a : Nat} {out : List Nat} (free : s.cell k = none)
      (perm : s.out.Perm (a :: out)) :
      CustodyStep s { s with cell := Function.update s.cell k (some a), out := out }

abbrev CustodySteps : Custody κ → Custody κ → Prop := Relation.ReflTransGen CustodyStep

/-- Where a thing is. -/
inductive Place (κ : Type) where
  | unmade
  | cell (k : κ)
  | away
  | gone

/-- What is not done any more to a thing that was disposed of. -/
def CustodyEvent.After (e e' : CustodyEvent) : Prop :=
  ∀ a, e = .disposed a → e' ≠ .used a ∧ e' ≠ .disposed a

/-- Every thing is where `place` has it. -/
structure Custody.Placed (s : Custody κ) (place : Nat → Place κ) : Prop where
  cell : ∀ k a, s.cell k = some a ↔ place a = .cell k
  out : ∀ a, a ∈ s.out ↔ place a = .away
  nodup : s.out.Nodup
  gone : ∀ a, .disposed a ∈ s.log ↔ place a = .gone
  unmade : ∀ a, place a = .unmade ↔ s.next ≤ a
  order : s.log.Pairwise CustodyEvent.After

/-- Every thing is in one place, and nothing is done to one that was disposed of. -/
def Custody.Ok (s : Custody κ) : Prop := ∃ place, s.Placed place

/-- A thing is in one cell at most, it is disposed of once unless it is kept or was given away, and
nothing is done to it afterwards. -/
structure Custody.Sound (s : Custody κ) : Prop where
  one : ∀ k k' a, s.cell k = some a → s.cell k' = some a → k = k'
  kept : ∀ k a, s.cell k = some a → a ∉ s.out ∧ s.log.count (.disposed a) = 0
  away : ∀ a ∈ s.out, s.log.count (.disposed a) = 0
  gone : ∀ a < s.next, (∀ k, s.cell k ≠ some a) → a ∉ s.out → s.log.count (.disposed a) = 1
  order : s.log.Pairwise CustodyEvent.After

namespace Custody

variable {s s' : Custody κ} {place : Nat → Place κ}

omit [DecidableEq κ] in
theorem Placed.append_order {a : Nat} {e : CustodyEvent} (h : s.Placed place)
    (ha : place a ≠ .gone) (he : e = .used a ∨ e = .disposed a) :
    (s.log ++ [e]).Pairwise CustodyEvent.After := by
  refine List.pairwise_append.2 ⟨h.order, List.pairwise_singleton _ _, ?_⟩
  rintro d hd e' he' b rfl
  rw [List.mem_singleton.1 he']
  have hne : a ≠ b := by
    rintro rfl
    exact ha ((h.gone a).1 hd)
  rcases he with rfl | rfl
  · exact ⟨fun h => hne (CustodyEvent.used.inj h), CustodyEvent.noConfusion⟩
  · exact ⟨CustodyEvent.noConfusion, fun h => hne (CustodyEvent.disposed.inj h)⟩

/-- Each step has a thing somewhere else, or where it was. -/
theorem Placed.step (h : s.Placed place) (hs : CustodyStep s s') : s'.Ok := by
  obtain ⟨hcell, hout, hnodup, hgone, hunmade, horder⟩ := h
  have h : s.Placed place := ⟨hcell, hout, hnodup, hgone, hunmade, horder⟩
  cases hs with
  | @make k free =>
    have hnext : place s.next = .unmade := (hunmade _).2 le_rfl
    refine ⟨Function.update place s.next (.cell k), fun k' b => ?_, fun b => ?_, hnodup,
      fun b => ?_, fun b => ?_, horder⟩
    all_goals grind [Function.update_apply]
  | @pass k k' a has free =>
    have ha := (hcell k a).1 has
    refine ⟨Function.update place a (.cell k'), fun l b => ?_, fun b => ?_, hnodup, fun b => ?_,
      fun b => ?_, horder⟩
    all_goals grind [Function.update_apply]
  | @use k a has =>
    have ha := (hcell k a).1 has
    refine ⟨place, hcell, hout, hnodup, fun b => ?_, hunmade,
      h.append_order (fun hg => Place.noConfusion rfl (heq_of_eq (ha.symm.trans hg))) (.inl rfl)⟩
    grind
  | @dispose k a has =>
    have ha := (hcell k a).1 has
    refine ⟨Function.update place a .gone, fun l b => ?_, fun b => ?_, hnodup, fun b => ?_,
      fun b => ?_, h.append_order (fun hg => ?_) (.inr rfl)⟩
    all_goals grind [Function.update_apply]
  | @giveAway k a has =>
    have ha := (hcell k a).1 has
    refine ⟨Function.update place a .away, fun l b => ?_, fun b => ?_,
      List.nodup_cons.2 ⟨fun hmem => ?_, hnodup⟩, fun b => ?_, fun b => ?_, horder⟩
    all_goals grind [Function.update_apply]
  | @takeBack k a out free perm =>
    have ha := (hout a).1 (perm.mem_iff.2 List.mem_cons_self)
    obtain ⟨hnot, hnodup'⟩ := List.nodup_cons.1 (perm.nodup_iff.1 hnodup)
    have hmem : ∀ b, b ∈ s.out ↔ b = a ∨ b ∈ out := fun b => perm.mem_iff.trans List.mem_cons
    refine ⟨Function.update place a (.cell k), fun l b => ?_, fun b => ?_, hnodup', fun b => ?_,
      fun b => ?_, horder⟩
    all_goals grind [Function.update_apply]

theorem Ok.steps (h : s.Ok) (hs : CustodySteps s s') : s'.Ok := by
  induction hs with
  | refl => exact h
  | tail _ hstep ih =>
    obtain ⟨place, hplace⟩ := ih
    exact hplace.step hstep

omit [DecidableEq κ] in
/-- Nothing was disposed of twice. -/
theorem Placed.count_disposed (h : s.Placed place) (a : Nat) :
    s.log.count (.disposed a) ≤ 1 := by
  have horder := h.order
  generalize s.log = log at horder
  induction log with
  | nil => exact Nat.zero_le 1
  | cons e log ih =>
    obtain ⟨hafter, hrest⟩ := List.pairwise_cons.1 horder
    rw [List.count_cons]
    by_cases he : e = .disposed a
    · have hnone : log.count (.disposed a) = 0 :=
        List.count_eq_zero.2 fun hmem => (hafter _ hmem a he).2 rfl
      rw [hnone, if_pos (beq_iff_eq.2 he)]
    · rw [if_neg (fun hbeq => he (beq_iff_eq.1 hbeq))]
      exact ih hrest

omit [DecidableEq κ] in
theorem Ok.sound (h : s.Ok) : s.Sound := by
  obtain ⟨place, h⟩ := h
  have hzero : ∀ {a}, place a ≠ .gone → s.log.count (.disposed a) = 0 := fun hne =>
    List.count_eq_zero.2 fun hmem => hne ((h.gone _).1 hmem)
  refine ⟨fun k k' a hk hk' => ?_, fun k a hk => ?_, fun a ha => ?_, fun a ha hk hout => ?_,
    h.order⟩
  · have heq := ((h.cell k a).1 hk).symm.trans ((h.cell k' a).1 hk')
    exact Place.cell.inj heq
  · have hplace := (h.cell k a).1 hk
    refine ⟨fun hmem => ?_, hzero fun hg => ?_⟩
    · cases hplace.symm.trans ((h.out a).1 hmem)
    · cases hplace.symm.trans hg
  · have hplace := (h.out a).1 ha
    refine hzero fun hg => ?_
    cases hplace.symm.trans hg
  · have hgone : place a = .gone := by
      cases hplace : place a with
      | unmade => exact absurd ((h.unmade a).1 hplace) (Nat.not_le.2 ha)
      | cell k => exact absurd ((h.cell k a).2 hplace) (hk k)
      | away => exact absurd ((h.out a).2 hplace) hout
      | gone => rfl
    exact Nat.le_antisymm (h.count_disposed a) (List.count_pos_iff.2 ((h.gone a).2 hgone))

end Custody
end
