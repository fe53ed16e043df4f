import Mathlib.Tactic

/-! # Items in exactly one place

`Placed items shared owned`: every item is in the shared list or in the list of one owner, in one
of these only and once there (`Placed.one_place`). Moving items from an owner to the shared list
(`Placed.share`) or the front item of the shared list to an owner (`Placed.take`) keeps it.
-/

/-- The items, each in exactly one place. -/
structure Placed {α T : Type*} (items : Set α) (shared : List α) (owned : T → List α) : Prop where
  mem_iff : ∀ x, x ∈ items ↔ x ∈ shared ∨ ∃ t, x ∈ owned t
  shared_nodup : shared.Nodup
  owned_nodup : ∀ t, (owned t).Nodup
  not_both : ∀ t, ∀ x ∈ shared, x ∉ owned t
  owner_unique : ∀ t t', ∀ x ∈ owned t, x ∈ owned t' → t = t'

namespace Placed

variable {α T : Type*} {items : Set α} {shared : List α} {owned : T → List α}

theorem mem_owned (h : Placed items shared owned) {t : T} {x : α} (hx : x ∈ owned t) :
    x ∈ items := (h.mem_iff x).2 (.inr ⟨t, hx⟩)

theorem mem_shared (h : Placed items shared owned) {x : α} (hx : x ∈ shared) : x ∈ items :=
  (h.mem_iff x).2 (.inl hx)

/-- **One place**: an item is once in the shared list and with no owner, or not shared and once
with one owner. -/
theorem one_place [DecidableEq α] (h : Placed items shared owned) {x : α} (hx : x ∈ items) :
    (shared.count x = 1 ∧ ∀ t, x ∉ owned t) ∨
      (x ∉ shared ∧ ∃ t, (owned t).count x = 1 ∧ ∀ t', x ∈ owned t' → t' = t) := by
  rcases (h.mem_iff x).1 hx with hs | ⟨t, ht⟩
  · exact .inl ⟨List.count_eq_one_of_mem h.shared_nodup hs, fun t => h.not_both t x hs⟩
  · exact .inr ⟨fun hs => h.not_both t x hs ht, t, List.count_eq_one_of_mem (h.owned_nodup t) ht,
      fun t' ht' => h.owner_unique t' t x ht' ht⟩

section
variable [DecidableEq α] [DecidableEq T]

/-- The lists after an owner's list lost `ns`. -/
theorem mem_update_filter {t t' : T} {ns : List α} {x : α} :
    x ∈ Function.update owned t ((owned t).filter (· ∉ ns)) t' ↔
      x ∈ owned t' ∧ (t' = t → x ∉ ns) := by
  by_cases e : t' = t
  · subst e
    simp
  · simp [e]

/-- An owner's items move to the shared list. -/
theorem share (h : Placed items shared owned) {t : T} {ns : List α}
    (hns : ∀ n ∈ ns, n ∈ owned t) (hnd : ns.Nodup) :
    Placed items (ns ++ shared)
      (Function.update owned t ((owned t).filter (· ∉ ns))) where
  mem_iff x := by
    simp only [h.mem_iff x, List.mem_append, mem_update_filter]
    constructor
    · rintro (hs | ⟨t', ht'⟩)
      · exact .inl (.inr hs)
      · by_cases hx : x ∈ ns
        · exact .inl (.inl hx)
        · exact .inr ⟨t', ht', fun _ => hx⟩
    · rintro ((hx | hs) | ⟨t', ht', -⟩)
      · exact .inr ⟨t, hns x hx⟩
      · exact .inl hs
      · exact .inr ⟨t', ht'⟩
  shared_nodup := List.nodup_append.2 ⟨hnd, h.shared_nodup, fun a ha b hb e =>
    h.not_both t b hb (e ▸ hns a ha)⟩
  owned_nodup t' := by
    by_cases e : t' = t
    · subst e
      rw [Function.update_self]
      exact (h.owned_nodup _).filter _
    · rw [Function.update_of_ne e]
      exact h.owned_nodup t'
  not_both t' x hx hx' := by
    rw [mem_update_filter] at hx'
    rcases List.mem_append.1 hx with hx | hx
    · exact hx'.2 (h.owner_unique t' t x hx'.1 (hns x hx)) hx
    · exact h.not_both t' x hx hx'.1
  owner_unique t₁ t₂ x h₁ h₂ := by
    rw [mem_update_filter] at h₁ h₂
    exact h.owner_unique t₁ t₂ x h₁.1 h₂.1

omit [DecidableEq α] in
/-- The front item of the shared list moves to an owner. -/
theorem take {n : α} (h : Placed items (n :: shared) owned) (t : T) :
    Placed items shared (Function.update owned t (n :: owned t)) := by
  have mem : ∀ {x t'}, x ∈ Function.update owned t (n :: owned t) t' ↔
      x ∈ owned t' ∨ (t' = t ∧ x = n) := by
    intro x t'
    by_cases e : t' = t
    · subst e
      simp [or_comm]
    · simp [e]
  have hn := List.nodup_cons.1 h.shared_nodup
  have hno : ∀ t, n ∉ owned t := fun t => h.not_both t n (.head _)
  refine ⟨fun x => ?_, hn.2, fun t' => ?_, fun t' x hx hx' => ?_, fun t₁ t₂ x h₁ h₂ => ?_⟩
  · simp only [h.mem_iff x, List.mem_cons, mem]
    constructor
    · rintro ((rfl | hs) | ⟨t', ht'⟩)
      · exact .inr ⟨t, .inr ⟨rfl, rfl⟩⟩
      · exact .inl hs
      · exact .inr ⟨t', .inl ht'⟩
    · rintro (hs | ⟨t', ht' | ⟨-, rfl⟩⟩)
      · exact .inl (.inr hs)
      · exact .inr ⟨t', ht'⟩
      · exact .inl (.inl rfl)
  · by_cases e : t' = t
    · subst e
      rw [Function.update_self]
      exact List.nodup_cons.2 ⟨hno _, h.owned_nodup _⟩
    · rw [Function.update_of_ne e]
      exact h.owned_nodup t'
  · rcases mem.1 hx' with hx' | ⟨-, rfl⟩
    · exact h.not_both t' x (.tail _ hx) hx'
    · exact hn.1 hx
  · rcases mem.1 h₁ with i₁ | ⟨rfl, rfl⟩
    · rcases mem.1 h₂ with i₂ | ⟨-, rfl⟩
      · exact h.owner_unique t₁ t₂ x i₁ i₂
      · exact absurd i₁ (hno t₁)
    · rcases mem.1 h₂ with i₂ | ⟨e, -⟩
      · exact absurd i₂ (hno t₂)
      · exact e.symm

end

end Placed
