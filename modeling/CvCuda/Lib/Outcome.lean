import Mathlib.Tactic

/-! # Calls that return, throw or have no outcome

A call is an `ExceptT ε Option α`: it returns a value, throws, or is `none`, where the language
gives it no meaning (an overrun array, an overflow).

* `Returns x a`: the call `x` returns `a`; one rule for each way a call is put together.
* `Defined x`: the call `x` has an outcome; likewise. `Throws x`: it throws.
* `refuse`: a guard that throws.
-/

namespace Outcome

variable {ε α β : Type}

/-- The call returns `a`. -/
def Returns (x : ExceptT ε Option α) (a : α) : Prop := x.run = some (.ok a)

instance [DecidableEq ε] [DecidableEq α] (x : ExceptT ε Option α) (a : α) :
    Decidable (Returns x a) :=
  decidable_of_iff ((x.run.elim false fun r => match r with
      | .ok b => decide (b = a)
      | .error _ => false) = true) (by
    unfold Returns
    rcases x.run with _ | _ | b <;> simp)

/-- `if (p) throw e;` -/
def refuse (p : Prop) [Decidable p] (e : ε) : ExceptT ε Option Unit :=
  if p then throw e else pure ()

@[simp] theorem returns_pure {a b : α} : Returns (pure a : ExceptT ε Option α) b ↔ a = b := by
  rw [Returns, ExceptT.run_pure]
  simp

@[simp] theorem not_returns_throw {e : ε} {a : α} :
    ¬Returns (throw e : ExceptT ε Option α) a := by
  rw [Returns, ExceptT.run_throw]
  simp

theorem returns_bind {x : ExceptT ε Option α} {f : α → ExceptT ε Option β} {b : β} :
    Returns (x >>= f) b ↔ ∃ a, Returns x a ∧ Returns (f a) b := by
  unfold Returns
  rw [ExceptT.run_bind]
  rcases x.run with _ | _ | a <;> simp

theorem returns_lift {x : Option α} {a : α} :
    Returns (liftM x : ExceptT ε Option α) a ↔ x = some a := by
  unfold Returns
  cases x <;> simp [liftM, monadLift, MonadLift.monadLift, ExceptT.lift, ExceptT.mk, ExceptT.run]

theorem lift_some_bind {a : α} {f : α → ExceptT ε Option β} :
    (liftM (some a) : ExceptT ε Option α) >>= f = f a := rfl

theorem returns_ofExcept {x : Except ε α} {a : α} :
    Returns (ExceptT.mk (some x) : ExceptT ε Option α) a ↔ x = .ok a := by
  rw [Returns, ExceptT.run_mk, Option.some.injEq]

@[simp] theorem returns_refuse {p : Prop} [Decidable p] {e : ε} {u : Unit} :
    Returns (refuse p e) u ↔ ¬p := by
  unfold refuse
  by_cases h : p
  · rw [if_pos h]
    exact iff_of_false not_returns_throw (not_not_intro h)
  · rw [if_neg h]
    exact iff_of_true (returns_pure.2 rfl) h

theorem returns_refuse_bind {p : Prop} [Decidable p] {e : ε} {f : Unit → ExceptT ε Option β}
    {b : β} : Returns (refuse p e >>= f) b ↔ ¬p ∧ Returns (f ()) b := by
  rw [returns_bind]
  constructor
  · rintro ⟨_, hp, hf⟩
    exact ⟨returns_refuse.1 hp, hf⟩
  · rintro ⟨hp, hf⟩
    exact ⟨(), returns_refuse.2 hp, hf⟩

/-- A call returns one value. -/
theorem Returns.unique {x : ExceptT ε Option α} {a b : α} (ha : Returns x a) (hb : Returns x b) :
    a = b := by
  unfold Returns at ha hb
  rw [ha] at hb
  simpa using hb

/-- The call has an outcome. -/
def Defined (x : ExceptT ε Option α) : Prop := x.run ≠ none

instance (x : ExceptT ε Option α) : Decidable (Defined x) :=
  decidable_of_iff (x.run.isSome = true) (by
    unfold Defined
    rw [Option.isSome_iff_ne_none])

@[simp] theorem defined_pure {a : α} : Defined (pure a : ExceptT ε Option α) := by
  rw [Defined, ExceptT.run_pure]
  simp

@[simp] theorem defined_throw {e : ε} : Defined (throw e : ExceptT ε Option α) := by
  rw [Defined, ExceptT.run_throw]
  simp

@[simp] theorem not_defined_none : ¬Defined (liftM (none : Option α) : ExceptT ε Option α) :=
  fun h => h rfl

@[simp] theorem defined_ofExcept {x : Except ε α} :
    Defined (ExceptT.mk (some x) : ExceptT ε Option α) := by
  rw [Defined, ExceptT.run_mk]
  simp

theorem defined_lift {x : Option α} :
    Defined (liftM x : ExceptT ε Option α) ↔ ∃ a, x = some a := by
  unfold Defined
  cases x <;> simp [liftM, monadLift, MonadLift.monadLift, ExceptT.lift, ExceptT.mk, ExceptT.run]

theorem defined_bind {x : ExceptT ε Option α} {f : α → ExceptT ε Option β} :
    Defined (x >>= f) ↔ Defined x ∧ ∀ a, Returns x a → Defined (f a) := by
  unfold Defined Returns
  rw [ExceptT.run_bind]
  rcases x.run with _ | _ | a <;> simp

@[simp] theorem defined_refuse {p : Prop} [Decidable p] {e : ε} : Defined (refuse p e) := by
  unfold refuse
  split_ifs
  · exact defined_throw
  · exact defined_pure

theorem defined_refuse_bind {p : Prop} [Decidable p] {e : ε} {f : Unit → ExceptT ε Option β} :
    Defined (refuse p e >>= f) ↔ (¬p → Defined (f ())) := by
  rw [defined_bind, and_iff_right defined_refuse]
  exact ⟨fun h hp => h () (returns_refuse.2 hp), fun h u hu => h (returns_refuse.1 hu)⟩

/-- The call throws. -/
def Throws (x : ExceptT ε Option α) : Prop := ∃ e, x.run = some (.error e)

theorem defined_iff {x : ExceptT ε Option α} : Defined x ↔ Throws x ∨ ∃ a, Returns x a := by
  unfold Defined Throws Returns
  rcases x.run with _ | _ | a <;> simp

/-- A call that returns has an outcome. -/
theorem Returns.defined {x : ExceptT ε Option α} {a : α} (h : Returns x a) : Defined x := by
  rw [Defined, h]
  simp

/-- A call on each element of a list has returned on every one of them. -/
theorem returns_of_mapM {f : α → ExceptT ε Option β} {l : List α} {bs : List β}
    (h : Returns (l.mapM f) bs) {a : α} (ha : a ∈ l) : ∃ b, Returns (f a) b := by
  induction l generalizing bs with
  | nil => cases ha
  | cons x l ih =>
    rw [List.mapM_cons] at h
    obtain ⟨b, hb, h⟩ := returns_bind.1 h
    obtain ⟨bs', hbs, -⟩ := returns_bind.1 h
    rcases List.mem_cons.1 ha with rfl | ha
    · exact ⟨b, hb⟩
    · exact ih hbs ha

/-- A call that returns on each element of a list returns on the list. -/
theorem returns_mapM {f : α → ExceptT ε Option β} {g : α → β} {l : List α}
    (h : ∀ a ∈ l, Returns (f a) (g a)) : Returns (l.mapM f) (l.map g) := by
  induction l with
  | nil => exact returns_pure.2 rfl
  | cons a l ih =>
    rw [List.mapM_cons]
    refine returns_bind.2 ⟨g a, h a List.mem_cons_self, ?_⟩
    exact returns_bind.2 ⟨l.map g, ih fun b hb => h b (List.mem_cons_of_mem a hb),
      returns_pure.2 rfl⟩

theorem defined_mapM {f : α → ExceptT ε Option β} {l : List α} (h : ∀ a ∈ l, Defined (f a)) :
    Defined (l.mapM f) := by
  induction l with
  | nil => exact defined_pure
  | cons a l ih =>
    rw [List.mapM_cons]
    refine defined_bind.2 ⟨h a List.mem_cons_self, fun b _ => ?_⟩
    refine defined_bind.2 ⟨ih fun c hc => h c (List.mem_cons_of_mem a hc), fun _ _ => defined_pure⟩

theorem mapM_congr {f g : α → ExceptT ε Option β} {l : List α} (h : ∀ a ∈ l, f a = g a) :
    l.mapM f = l.mapM g := by
  induction l with
  | nil => rfl
  | cons a l ih =>
    rw [List.mapM_cons, List.mapM_cons, h a List.mem_cons_self,
      ih fun b hb => h b (List.mem_cons_of_mem a hb)]

/-- Whether a call returns a value with a property is found out by running it. -/
instance {x : ExceptT ε Option α} {p : α → Prop} [DecidablePred p] :
    Decidable (∃ a, Returns x a ∧ p a) :=
  decidable_of_iff ((x.run.elim false fun r => match r with
      | .ok b => decide (p b)
      | .error _ => false) = true) (by
    unfold Returns
    rcases x.run with _ | _ | b <;> simp)

end Outcome
