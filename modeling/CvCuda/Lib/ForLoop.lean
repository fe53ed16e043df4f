import Mathlib.Tactic

/-! # Loops over a range

What holds before the first turn of `for (j = s; j < s + n; j++)` and goes from one turn to the next
holds after the last, for a loop that always goes on and for one that may fail.
-/

namespace ForLoop

variable {σ : Type} {P : Nat → σ → Prop}

theorem foldl_range' {f : σ → Nat → σ} {s n : Nat} {b : σ} (h0 : P s b)
    (hstep : ∀ j b, s ≤ j → j < s + n → P j b → P (j + 1) (f b j)) :
    P (s + n) ((List.range' s n).foldl f b) := by
  induction n with
  | zero => exact h0
  | succ n ih =>
    rw [List.range'_concat, List.foldl_append, List.foldl_cons, List.foldl_nil, Nat.one_mul]
    refine hstep _ _ (Nat.le_add_right s n) (Nat.lt_succ_self _) (ih fun j b hs hj => ?_)
    exact hstep j b hs (hj.trans (Nat.lt_succ_self _))

theorem foldlM_range' {f : σ → Nat → Option σ} {s n : Nat} {b : σ} (h0 : P s b)
    (hstep : ∀ j b, s ≤ j → j < s + n → P j b → ∃ b', f b j = some b' ∧ P (j + 1) b') :
    ∃ b', (List.range' s n).foldlM f b = some b' ∧ P (s + n) b' := by
  induction n with
  | zero => exact ⟨b, rfl, h0⟩
  | succ n ih =>
    obtain ⟨c, hc, hP⟩ := ih fun j b hs hj => hstep j b hs (hj.trans (Nat.lt_succ_self _))
    obtain ⟨c', hc', hP'⟩ := hstep (s + n) c (Nat.le_add_right s n) (Nat.lt_succ_self _) hP
    refine ⟨c', ?_, hP'⟩
    rw [List.range'_concat, List.foldlM_append, hc, Nat.one_mul]
    change (List.foldlM f c [s + n]) = some c'
    rw [List.foldlM_cons, hc']
    rfl

end ForLoop
