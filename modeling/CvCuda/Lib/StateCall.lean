import Mathlib.Tactic

/-! # Calls with a state

A `StateCall ε σ α` reads and changes a state of type `σ`; it returns a value, throws with the
state as it is then, or has no outcome, where the language gives it no meaning.

* `Runs x s r s'`: from `s` the call ends in `s'` with the result `r`; one rule for each way an
  call is put together.
* `Does x s P a t`: from `s` the call returns `a` in `t` if `P`, and has no outcome if not;
  `Does.bind` puts calls together.
-/

/-- A call that reads and changes a state. -/
abbrev StateCall (ε σ α : Type) := ExceptT ε (StateT σ Option) α

namespace StateCall

variable {ε σ α β : Type} {s s' : σ}

/-- From `s` the call ends in `s'` with the result `r`. -/
def Runs (x : StateCall ε σ α) (s : σ) (r : Except ε α) (s' : σ) : Prop :=
  (ExceptT.run x).run s = some (r, s')

instance [DecidableEq ε] [DecidableEq α] [DecidableEq σ] (x : StateCall ε σ α) (r : Except ε α) :
    Decidable (Runs x s r s') :=
  inferInstanceAs (Decidable ((ExceptT.run x).run s = some (r, s')))

/-- `assert(p)`: an assertion that fails leaves the call without an outcome. -/
def assert (p : Prop) [Decidable p] : StateCall ε σ Unit :=
  fun s => if p then some (.ok (), s) else none

/-- A call without an outcome. -/
def stuck : StateCall ε σ α := fun _ => none

/-- A part of a program that works on a part of the state. -/
def onPart {τ : Type} (part : σ → τ) (put : τ → σ → σ) (f : τ → Except ε α × τ) : StateCall ε σ α :=
  fun s => some ((f (part s)).1, put (f (part s)).2 s)

@[simp] theorem runs_pure {a : α} {r : Except ε α} :
    Runs (pure a : StateCall ε σ α) s r s' ↔ r = .ok a ∧ s' = s := by
  show some (Except.ok a, s) = some (r, s') ↔ _
  simp [eq_comm]

@[simp] theorem runs_throw {e : ε} {r : Except ε α} :
    Runs (throw e : StateCall ε σ α) s r s' ↔ r = .error e ∧ s' = s := by
  show some (Except.error e, s) = some (r, s') ↔ _
  simp [eq_comm]

@[simp] theorem not_runs_stuck {r : Except ε α} : ¬Runs (stuck : StateCall ε σ α) s r s' := by
  show ¬none = some (r, s')
  simp

@[simp] theorem runs_get {r : Except ε σ} :
    Runs (get : StateCall ε σ σ) s r s' ↔ r = .ok s ∧ s' = s := by
  show some (Except.ok s, s) = some (r, s') ↔ _
  simp [eq_comm]

@[simp] theorem runs_modify {f : σ → σ} {r : Except ε Unit} :
    Runs (modify f : StateCall ε σ Unit) s r s' ↔ r = .ok () ∧ s' = f s := by
  show some (Except.ok (), f s) = some (r, s') ↔ _
  simp [eq_comm]

@[simp] theorem runs_onPart {τ : Type} {part : σ → τ} {put : τ → σ → σ} {f : τ → Except ε α × τ}
    {r : Except ε α} :
    Runs (onPart part put f) s r s' ↔ r = (f (part s)).1 ∧ s' = put (f (part s)).2 s := by
  show some ((f (part s)).1, put (f (part s)).2 s) = some (r, s') ↔ _
  simp [eq_comm]

@[simp] theorem runs_assert {p : Prop} [Decidable p] {r : Except ε Unit} :
    Runs (assert p : StateCall ε σ Unit) s r s' ↔ p ∧ r = .ok () ∧ s' = s := by
  show (if p then some (Except.ok (), s) else none) = some (r, s') ↔ _
  by_cases h : p <;> simp [h, eq_comm]

theorem runs_bind {x : StateCall ε σ α} {f : α → StateCall ε σ β} {r : Except ε β} :
    Runs (x >>= f) s r s' ↔ (∃ a s₁, Runs x s (.ok a) s₁ ∧ Runs (f a) s₁ r s') ∨
      ∃ e, Runs x s (.error e) s' ∧ r = .error e := by
  unfold Runs
  rw [ExceptT.run_bind, StateT.run_bind]
  rcases (ExceptT.run x).run s with _ | ⟨e | a, s₁⟩
  · show none = some (r, s') ↔ _
    simp
  · show some (Except.error e, s₁) = some (r, s') ↔ _
    simp [eq_comm, and_comm]
  · show (ExceptT.run (f a)).run s₁ = some (r, s') ↔ _
    simp

/-- From `s` the call returns `a` in `t` if `P`; if not, it has no outcome. -/
def Does (x : StateCall ε σ α) (s : σ) (P : Prop) (a : α) (t : σ) : Prop :=
  ∀ r s', Runs x s r s' ↔ P ∧ r = .ok a ∧ s' = t

section
variable {x : StateCall ε σ α} {f : α → StateCall ε σ β} {P Q : Prop} {a : α} {b : β} {t u : σ}

theorem Does.congr (h : Does x s P a t) (hPQ : P ↔ Q) : Does x s Q a t := by
  intro r s'
  rw [h, hPQ]

/-- One call after another. -/
theorem Does.bind (h : Does x s P a t) (hf : P → Does (f a) t Q b u) :
    Does (x >>= f) s (P ∧ Q) b u := by
  intro r s'
  rw [runs_bind]
  constructor
  · rintro (⟨a', s₁, hx, hr⟩ | ⟨e, hx, -⟩)
    · obtain ⟨hP, ha, rfl⟩ := (h _ _).1 hx
      rw [Except.ok.inj ha] at hr
      obtain ⟨hQ, hr⟩ := (hf hP _ _).1 hr
      exact ⟨⟨hP, hQ⟩, hr⟩
    · obtain ⟨-, he, -⟩ := (h _ _).1 hx
      cases he
  · rintro ⟨⟨hP, hQ⟩, hr⟩
    exact .inl ⟨a, t, (h _ _).2 ⟨hP, rfl, rfl⟩, (hf hP _ _).2 ⟨hQ, hr⟩⟩

/-- A call, then one that has an outcome. -/
theorem Does.then (h : Does x s P a t) (hf : P → Does (f a) t True b u) : Does (x >>= f) s P b u :=
  (h.bind hf).congr (and_iff_left trivial)

theorem Does.runs (h : Does x s P a t) (hP : P) : Runs x s (.ok a) t := (h _ _).2 ⟨hP, rfl, rfl⟩

theorem does_pure : Does (pure a : StateCall ε σ α) s True a s := by
  intro r s'
  rw [runs_pure, true_and]

theorem does_get : Does (get : StateCall ε σ σ) s True s s := by
  intro r s'
  rw [runs_get, true_and]

theorem does_modify {g : σ → σ} : Does (modify g : StateCall ε σ Unit) s True () (g s) := by
  intro r s'
  rw [runs_modify, true_and]

theorem does_assert {p : Prop} [Decidable p] : Does (assert p : StateCall ε σ Unit) s p () s :=
  fun _ _ => runs_assert

theorem does_assert_of {p : Prop} [Decidable p] (h : p) :
    Does (assert p : StateCall ε σ Unit) s True () s :=
  does_assert.congr (iff_true_intro h)

theorem does_stuck : Does (stuck : StateCall ε σ α) s False a t := by
  intro r s'
  exact iff_of_false not_runs_stuck fun h => h.1

/-- From `s` the call throws `e` in `t`. -/
def Fails (x : StateCall ε σ α) (s : σ) (e : ε) (t : σ) : Prop :=
  ∀ r s', Runs x s r s' ↔ r = .error e ∧ s' = t

theorem Fails.bind {e : ε} (h : Fails x s e t) : Fails (x >>= f) s e t := by
  intro r s'
  rw [runs_bind]
  constructor
  · rintro (⟨a, s₁, hx, -⟩ | ⟨e', hx, hr⟩)
    · cases ((h _ _).1 hx).1
    · obtain ⟨he, ht⟩ := (h _ _).1 hx
      cases he
      exact ⟨hr, ht⟩
  · rintro ⟨hr, ht⟩
    exact .inr ⟨e, (h _ _).2 ⟨rfl, ht⟩, hr⟩

theorem Does.fails {e : ε} (h : Does x s True a t) (hf : Fails (f a) t e u) :
    Fails (x >>= f) s e u := by
  intro r s'
  rw [runs_bind]
  constructor
  · rintro (⟨a', s₁, hx, hr⟩ | ⟨e', hx, -⟩)
    · obtain ⟨-, ha, rfl⟩ := (h _ _).1 hx
      rw [Except.ok.inj ha] at hr
      exact (hf _ _).1 hr
    · obtain ⟨-, he, -⟩ := (h _ _).1 hx
      cases he
  · intro hr
    exact .inl ⟨a, t, h.runs trivial, (hf _ _).2 hr⟩

theorem Fails.runs {e : ε} (h : Fails x s e t) : Runs x s (.error e) t := (h _ _).2 ⟨rfl, rfl⟩

theorem fails_throw {e : ε} : Fails (throw e : StateCall ε σ α) s e s := fun _ _ => runs_throw

theorem fails_onPart {τ : Type} {part : σ → τ} {put : τ → σ → σ} {g : τ → Except ε α × τ} {y : τ}
    {e : ε} (h : g (part s) = (.error e, y)) : Fails (onPart part put g) s e (put y s) := by
  intro r s'
  rw [runs_onPart, h]

theorem does_onPart {τ : Type} {part : σ → τ} {put : τ → σ → σ} {g : τ → Except ε α × τ} {y : τ}
    (h : g (part s) = (.ok a, y)) : Does (onPart part put g) s True a (put y s) := by
  intro r s'
  rw [runs_onPart, h, true_and]

end

end StateCall
