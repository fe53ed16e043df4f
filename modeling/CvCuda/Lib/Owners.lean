import CvCuda.Lib.RefStore

/-! # Owners of references

`Owned` is a store of counted objects beside the references some party holds on each of them; the
others are held by somebody else (`Accounted`). What owners do with references of their own
(`OwnerStep`) keeps the account of the others' references and the objects these are on.

* `Owned.moved`: references moved on behalf of the owners.
* `OwnerStep.accounted`, `OwnerSteps.accounted`: one step, any number of steps.
-/

/-- A store, and the references on each object that its owners hold. -/
structure Owned (H O : Type*) where
  objs : RefStore H O
  owned : H → Nat

/-- Every reference is held by somebody else, `held` of them, or by an owner; nothing is at the
null handle. -/
structure Accounted {H O : Type*} (null : H) (held : H → Nat) (s : Owned H O) : Prop where
  refs : ∀ x, s.objs.refs x = held x + s.owned x
  null : s.objs.refs null = 0

variable {H O : Type*} [DecidableEq H]

/-- What an owner does: it creates an object, takes another reference on one, gives one of its
references back. -/
inductive OwnerStep (null : H) (s : Owned H O) : Owned H O → Prop where
  | create {h : H} (o : O) (ne : h ≠ null) (free : s.objs.obj h = none) :
      OwnerStep null s ⟨s.objs.add h o, Function.update s.owned h (s.owned h + 1)⟩
  | acquire {h : H} {objs : RefStore H O} (eq : s.objs.acquire h = some objs) :
      OwnerStep null s ⟨objs, Function.update s.owned h (s.owned h + 1)⟩
  | release {h : H} {objs : RefStore H O} (own : 0 < s.owned h)
      (eq : s.objs.release h = some objs) :
      OwnerStep null s ⟨objs, Function.update s.owned h (s.owned h - 1)⟩

/-- Steps of owners, one after another. -/
abbrev OwnerSteps (null : H) : Owned H O → Owned H O → Prop := Relation.ReflTransGen (OwnerStep null)

section
variable {null : H} {held : H → Nat} {s s' : Owned H O}

omit [DecidableEq H] in
theorem Accounted.pos {x : H} (h : Accounted null held s) (hx : 0 < held x) :
    0 < s.objs.refs x := by
  rw [h.refs]
  exact Nat.add_pos_left hx _

/-- References moved by somebody, in the store and in the account. -/
theorem Accounted.moved {r a : List H} {objs : RefStore H O} {held' owned' : H → Nat}
    (h : Accounted null held s) (hm : s.objs.Moved objs r a) (ha : null ∉ a)
    (hc : ∀ x, held' x + owned' x + r.count x = held x + s.owned x + a.count x) :
    Accounted null held' ⟨objs, owned'⟩ := by
  constructor
  · intro x
    have hx := hm.refs x
    have hs := h.refs x
    have := hc x
    show objs.refs x = held' x + owned' x
    omega
  · have hx := hm.refs null
    have hs := h.null
    rw [List.count_eq_zero.2 ha] at hx
    show objs.refs null = 0
    omega

/-- **A step of an owner** leaves the references of others alone, and what they are on. -/
theorem OwnerStep.accounted (hs : OwnerStep null s s') (h : Accounted null held s) :
    Accounted null held s' ∧ ∀ x, 0 < held x → s'.objs.obj x = s.objs.obj x := by
  cases hs with
  | @create x o ne free =>
    have hx := RefStore.refs_eq_zero free
    refine ⟨⟨fun y => ?_, ?_⟩, fun y hy => ?_⟩
    · have hoy := h.refs y
      simp only [RefStore.add, RefStore.refs_update]
      by_cases hyx : y = x
      · subst hyx
        have h1 : RefStore.refs (fun _ : H => some (o, 0)) y = 1 := rfl
        rw [if_pos rfl, Function.update_self, h1]
        omega
      · rw [if_neg hyx, Function.update_of_ne hyx]
        exact hoy
    · simp only [RefStore.add, RefStore.refs_update]
      rw [if_neg (Ne.symm ne)]
      exact h.null
    · have hpos := h.pos hy
      simp only [RefStore.add, RefStore.obj_update]
      rw [if_neg]
      rintro rfl
      omega
  | @acquire x objs eq =>
    have hx := RefStore.refs_pos_of_acquire eq
    obtain ⟨objs', eq', hm⟩ := RefStore.acquire_moved hx
    rw [eq] at eq'
    cases eq'
    have hn : null ≠ x := by
      rintro rfl
      have := h.null
      omega
    refine ⟨h.moved hm (by simpa using hn) fun y => ?_, fun y hy => hm.obj y ?_⟩
    · by_cases hyx : y = x
      · subst hyx
        simp only [Function.update_self, List.count_nil, List.count_cons_self]
        omega
      · simp [hyx, Ne.symm hyx]
    · have := hm.refs y
      have hp := h.pos hy
      rw [List.count_nil] at this
      omega
  | @release x objs own eq =>
    have hx : 0 < s.objs.refs x := by
      rw [h.refs]
      omega
    obtain ⟨objs', eq', hm⟩ := RefStore.release_moved hx
    rw [eq] at eq'
    cases eq'
    have hc : ∀ y, held y + Function.update s.owned x (s.owned x - 1) y + [x].count y =
        held y + s.owned y + [].count y := by
      intro y
      by_cases hyx : y = x
      · subst hyx
        simp only [Function.update_self, List.count_nil, List.count_cons_self]
        omega
      · simp [hyx, Ne.symm hyx]
    refine ⟨h.moved hm (by simp) hc, fun y hy => hm.obj y ?_⟩
    rw [(h.moved hm (by simp) hc).refs]
    exact Nat.add_pos_left hy _

theorem OwnerSteps.accounted (hs : OwnerSteps null s s') (h : Accounted null held s) :
    Accounted null held s' ∧ ∀ x, 0 < held x → s'.objs.obj x = s.objs.obj x := by
  induction hs with
  | refl => exact ⟨h, fun _ _ => rfl⟩
  | tail _ h₂ ih =>
    obtain ⟨h₃, e₃⟩ := h₂.accounted ih.1
    exact ⟨h₃, fun x hx => (e₃ x hx).trans (ih.2 x hx)⟩

end
