import Mathlib.Tactic

/-! # Stores of counted objects

`RefStore H O` maps each live handle to its object and to the number of its references beyond the
first, so that a live object has a reference. `Moved s s' released acquired` says what releasing
and acquiring references does to a store: the counts move by the counts in the two lists, and an
object that still has a reference is the object it was.

* `acquire_moved`, `release_moved`: one acquisition, one release.
* `Moved.trans`: one change after another.
-/

/-- The objects of the live handles, each with its references beyond the first. -/
abbrev RefStore (H O : Type*) := H → Option (O × Nat)

namespace RefStore

variable {H O : Type*}

def obj (s : RefStore H O) (h : H) : Option O := (s h).map Prod.fst

def refs (s : RefStore H O) (h : H) : Nat :=
  match s h with
  | none => 0
  | some (_, n) => n + 1

variable [DecidableEq H]

/-- A new object with one reference. -/
def add (s : RefStore H O) (h : H) (o : O) : RefStore H O := Function.update s h (some (o, 0))

/-- One more reference to a live object. -/
def acquire (s : RefStore H O) (h : H) : Option (RefStore H O) :=
  match s h with
  | none => none
  | some (o, n) => some (Function.update s h (some (o, n + 1)))

/-- One reference less; the object goes with its last one. -/
def release (s : RefStore H O) (h : H) : Option (RefStore H O) :=
  match s h with
  | none => none
  | some (_, 0) => some (Function.update s h none)
  | some (o, n + 1) => some (Function.update s h (some (o, n)))

/-- `s'` is `s` with the references in one list released and those in another acquired. -/
structure Moved (s s' : RefStore H O) (released acquired : List H) : Prop where
  refs : ∀ x, s'.refs x + released.count x = s.refs x + acquired.count x
  obj : ∀ x, 0 < s'.refs x → s'.obj x = s.obj x

/-! ## Live handles -/

omit [DecidableEq H] in
theorem refs_pos {s : RefStore H O} {h : H} : 0 < s.refs h ↔ s.obj h ≠ none := by
  unfold refs obj
  cases s h <;> simp

omit [DecidableEq H] in
theorem refs_eq_zero_iff {s : RefStore H O} {h : H} : s.refs h = 0 ↔ s h = none := by
  unfold refs
  cases s h <;> simp

omit [DecidableEq H] in
theorem refs_eq_zero {s : RefStore H O} {h : H} (hn : s.obj h = none) : s.refs h = 0 :=
  refs_eq_zero_iff.2 (Option.map_eq_none_iff.1 hn)

theorem refs_pos_of_acquire {s s' : RefStore H O} {h : H} (ha : s.acquire h = some s') :
    0 < s.refs h := by
  apply Nat.pos_of_ne_zero
  intro h0
  simp [acquire, refs_eq_zero_iff.1 h0] at ha

theorem refs_update (s : RefStore H O) (h x : H) (v : Option (O × Nat)) :
    refs (Function.update s h v) x =
      if x = h then refs (fun _ : H => v) x else s.refs x := by
  by_cases hx : x = h
  · subst hx
    simp [refs]
  · simp [refs, hx]

theorem obj_update (s : RefStore H O) (h x : H) (v : Option (O × Nat)) :
    obj (Function.update s h v) x = if x = h then v.map Prod.fst else s.obj x := by
  by_cases hx : x = h
  · subst hx
    simp [obj]
  · simp [obj, hx]

/-! ## Changes -/

theorem Moved.refl (s : RefStore H O) : Moved s s [] [] := ⟨fun _ => rfl, fun _ _ => rfl⟩

theorem Moved.trans {s s₁ s₂ : RefStore H O} {r₁ a₁ r₂ a₂ : List H} (h₁ : Moved s s₁ r₁ a₁)
    (h₂ : Moved s₁ s₂ r₂ a₂) : Moved s s₂ (r₁ ++ r₂) (a₁ ++ a₂) := by
  constructor
  · intro x
    have e₁ := h₁.refs x
    have e₂ := h₂.refs x
    rw [List.count_append, List.count_append]
    omega
  · intro x hx
    have e₂ := h₂.obj x hx
    have hx₁ : 0 < s₁.refs x := refs_pos.2 (e₂ ▸ refs_pos.1 hx)
    rw [e₂, h₁.obj x hx₁]

/-- Acquiring references changes no object. -/
theorem Moved.obj_eq {s s' : RefStore H O} {acquired : List H} (h : Moved s s' [] acquired) :
    s'.obj = s.obj := by
  funext x
  by_cases hx : 0 < s'.refs x
  · exact h.obj x hx
  · have hr := h.refs x
    rw [List.count_nil] at hr
    have h' : s'.obj x = none := by
      by_contra hne
      exact hx (refs_pos.2 hne)
    have h₀ : s.obj x = none := by
      by_contra hne
      have := refs_pos.2 hne
      omega
    rw [h', h₀]

/-- Where no reference moves, nothing changes. -/
theorem Moved.eq_of_nil {s s' : RefStore H O} (h : Moved s s' [] []) : s' = s := by
  funext x
  have ho : (s' x).map Prod.fst = (s x).map Prod.fst := congrFun h.obj_eq x
  have hr := h.refs x
  cases hs : s x with
  | none =>
    rw [hs] at ho
    exact Option.map_eq_none_iff.1 ho
  | some p =>
    rw [hs] at ho
    obtain ⟨q, hq, hqp⟩ := Option.map_eq_some_iff.1 ho
    simp only [RefStore.refs, hs, hq, List.count_nil, Nat.add_zero,
      Nat.add_right_cancel_iff] at hr
    rw [hq, Prod.ext hqp hr]

theorem acquire_moved {s : RefStore H O} {h : H} (hl : 0 < s.refs h) :
    ∃ s', s.acquire h = some s' ∧ Moved s s' [] [h] := by
  unfold acquire
  cases hh : s h with
  | none => simp [refs, hh] at hl
  | some p =>
    obtain ⟨o, n⟩ := p
    refine ⟨_, rfl, fun x => ?_, fun x _ => ?_⟩
    · rw [refs_update]
      by_cases hx : x = h
      · subst hx
        simp [refs, hh]
      · simp [hx, Ne.symm hx]
    · rw [obj_update]
      by_cases hx : x = h
      · subst hx
        simp [obj, hh]
      · simp [hx]

theorem release_moved {s : RefStore H O} {h : H} (hl : 0 < s.refs h) :
    ∃ s', s.release h = some s' ∧ Moved s s' [h] [] := by
  unfold release
  cases hh : s h with
  | none => simp [refs, hh] at hl
  | some p =>
    obtain ⟨o, n⟩ := p
    cases n with
    | zero =>
      refine ⟨_, rfl, fun x => ?_, fun x h0 => ?_⟩
      · rw [refs_update]
        by_cases hx : x = h
        · subst hx
          simp [refs, hh]
        · simp [hx, Ne.symm hx]
      · rw [refs_update] at h0
        by_cases hx : x = h
        · simp [hx, refs] at h0
        · simp [obj_update, hx]
    | succ n =>
      refine ⟨_, rfl, fun x => ?_, fun x _ => ?_⟩
      · rw [refs_update]
        by_cases hx : x = h
        · subst hx
          simp [refs, hh]
        · simp [hx, Ne.symm hx]
      · rw [obj_update]
        by_cases hx : x = h
        · subst hx
          simp [obj, hh]
        · simp [hx]

end RefStore
