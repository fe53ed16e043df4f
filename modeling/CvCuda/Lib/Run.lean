import Mathlib.Tactic

/-! # Runs of a labelled step relation

`Run step s ls s'`: from `s` the steps labelled `ls`, in order, lead to `s'`. What one step
preserves a run preserves (`Run.inv`), and what one step simulates a run simulates (`Run.sim`).
A condition on the steps of a run is a conjunct of the step relation (`Run.mono` drops it;
`Run.reached_iff` says when it is what keeps a property of the states).
-/

/-- The labels `ls`, in order, lead from one state to another. -/
inductive Run {S L : Type*} (step : S → L → S → Prop) : S → List L → S → Prop where
  | nil (s : S) : Run step s [] s
  | cons {s s₁ s' : S} {l : L} {ls : List L} (h : step s l s₁) (t : Run step s₁ ls s') :
      Run step s (l :: ls) s'

namespace Run

variable {S L : Type*} {step : S → L → S → Prop} {s s' : S} {ls : List L}

theorem mono {step' : S → L → S → Prop} (h : ∀ s l s', step s l s' → step' s l s')
    (r : Run step s ls s') : Run step' s ls s' := by
  induction r with
  | nil s => exact .nil s
  | cons hs _ ih => exact .cons (h _ _ _ hs) ih

/-- A run goes on where another ends. -/
theorem append {l₁ l₂ : List L} {m : S} (r : Run step s l₁ m) (t : Run step m l₂ s') :
    Run step s (l₁ ++ l₂) s' := by
  induction r with
  | nil s => exact t
  | cons h _ ih => exact .cons h (ih t)

/-- **Invariants**: a property every step preserves holds after every run. -/
theorem inv {P : S → Prop} (h : ∀ s l s', P s → step s l s' → P s') (r : Run step s ls s')
    (hs : P s) : P s' := by
  induction r with
  | nil => exact hs
  | cons hl _ ih => exact ih (h _ _ _ hs hl)

/-- An invariant of the steps whose labels satisfy `Q`, over a run of such labels. -/
theorem inv_labels {P : S → Prop} {Q : L → Prop}
    (h : ∀ s l s', Q l → P s → step s l s' → P s') (r : Run step s ls s') (hQ : ∀ l ∈ ls, Q l)
    (hs : P s) : P s' := by
  induction r with
  | nil => exact hs
  | cons hl _ ih =>
    exact ih (fun l hl => hQ l (.tail _ hl)) (h _ _ _ (hQ _ (.head _)) hs hl)

/-- **Simulation**: when every step of `step` is matched by one of `spec` with the same label
between related states, so is every run. -/
theorem sim {X : Type*} {spec : X → L → X → Prop} {R : S → X → Prop}
    (h : ∀ s l s' x, R s x → step s l s' → ∃ x', spec x l x' ∧ R s' x')
    (r : Run step s ls s') {x : X} (hx : R s x) : ∃ x', Run spec x ls x' ∧ R s' x' := by
  induction r generalizing x with
  | nil => exact ⟨x, .nil x, hx⟩
  | cons hl _ ih =>
    obtain ⟨x₁, h₁, r₁⟩ := h _ _ _ _ hx hl
    obtain ⟨x', h', r'⟩ := ih r₁
    exact ⟨x', .cons h₁ h', r'⟩

/-- A run is one step after another: it splits where its labels split. -/
theorem split {l₁ l₂ : List L} (r : Run step s (l₁ ++ l₂) s') :
    ∃ m, Run step s l₁ m ∧ Run step m l₂ s' := by
  induction l₁ generalizing s with
  | nil => exact ⟨s, .nil s, r⟩
  | cons l l₁ ih =>
    cases r with
    | cons h t =>
      obtain ⟨m, h₁, h₂⟩ := ih t
      exact ⟨m, .cons h h₁, h₂⟩

/-- Steps taken one after another, while they are possible and satisfy `ok`. -/
def exec (step : S → L → Option S) (ok : S → L → Prop) [∀ s l, Decidable (ok s l)] :
    S → List L → Option S
  | s, [] => some s
  | s, l :: ls => if ok s l then (step s l).bind fun s₁ => exec step ok s₁ ls else none

theorem of_exec {step : S → L → Option S} {ok : S → L → Prop} [∀ s l, Decidable (ok s l)]
    (h : exec step ok s ls = some s') :
    Run (fun s l s' => step s l = some s' ∧ ok s l) s ls s' := by
  induction ls generalizing s with
  | nil => exact Option.some.inj h ▸ .nil s
  | cons l ls ih =>
    unfold exec at h
    split at h
    · obtain ⟨s₁, hs, ht⟩ := Option.bind_eq_some_iff.1 h
      exact .cons ⟨hs, ‹_›⟩ (ih ht)
    · cases h

/-- A run that can be computed, to a state that can be checked. -/
theorem exists_of_exec {step : S → L → Option S} {ok : S → L → Prop}
    [∀ s l, Decidable (ok s l)] {P : S → Prop} [DecidablePred P]
    (h : (exec step ok s ls).any (decide <| P ·) = true) :
    ∃ s', Run (fun s l s' => step s l = some s' ∧ ok s l) s ls s' ∧ P s' := by
  obtain ⟨s', hs, hP⟩ := (Option.any_eq_true _ _).1 h
  exact ⟨s', of_exec hs, of_decide_eq_true hP⟩

/-- **States reached**: a property that a step keeps exactly when it satisfies `ok` holds in every
state reached exactly when every step does. -/
theorem reached_iff {step : S → L → Option S} {P : S → Prop} {ok : S → L → Prop}
    (h : ∀ s l s', P s → step s l = some s' → (P s' ↔ ok s l))
    (r : Run (fun s l s' => step s l = some s') s ls s') (hs : P s) :
    (∀ pre m, pre <+: ls → Run (fun s l s' => step s l = some s') s pre m → P m) ↔
      Run (fun s l s' => step s l = some s' ∧ ok s l) s ls s' := by
  induction r with
  | nil s =>
    refine iff_of_true (fun pre m hpre hrun => ?_) (.nil s)
    rw [List.prefix_nil.1 hpre] at hrun
    cases hrun
    exact hs
  | @cons s s₁ s' l ls hl t ih =>
    have hok := h s l s₁ hs hl
    constructor
    · intro hall
      have hs₁ : P s₁ := hall [l] s₁ ⟨ls, rfl⟩ (.cons hl (.nil s₁))
      refine .cons ⟨hl, hok.1 hs₁⟩ ((ih hs₁).1 fun pre m hpre hrun => ?_)
      exact hall (l :: pre) m (List.cons_prefix_cons.2 ⟨rfl, hpre⟩) (.cons hl hrun)
    · intro hrun pre m hpre hr
      cases hrun with
      | cons hstep hrest =>
        obtain rfl : s₁ = _ := Option.some.inj (hl.symm.trans hstep.1)
        have hs₁ := hok.2 hstep.2
        cases hr with
        | nil => exact hs
        | cons hl' hr' =>
          obtain ⟨rfl, hpre'⟩ := List.cons_prefix_cons.1 hpre
          obtain rfl : s₁ = _ := Option.some.inj (hl.symm.trans hl')
          exact (ih hs₁).2 hrest _ m hpre' hr'

end Run
