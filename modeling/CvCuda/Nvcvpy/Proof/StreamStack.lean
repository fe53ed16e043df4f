import CvCuda.Nvcvpy.StreamStack

/-! # One stack for all threads

The threads share the stack, and `pop` removes its top whoever pushed it. While every with-block
that is left is the one entered last by any thread, the stack holds the streams of all open
with-blocks, and what a thread takes for its own stream is that of the last of them.

* `blocks_activate`, `blocks_deactivate`: with-blocks of a thread nest.
* `Stacked`: the invariant.
* `current_iff`: whole runs.
* `shared_stack`: two threads.
-/

namespace Nvcvpy.Stream

/-- A step of which the with-block that is left, if one is, was entered last. -/
def NestedStep (s : State) (op : Op) (s' : State) : Prop :=
  Step s op s' ∧ ∀ t, op = .exit t → (s.opened.map Prod.fst).head? = some t

namespace State

variable {s s' : State} {t u : Thread} {i : Id}

/-! ## The with-blocks of a thread -/

theorem blocks_activate :
    (s.activate t i).blocks u = if t = u then i :: s.blocks u else s.blocks u := by
  simp only [activate, push, blocks, List.filter_cons]
  split_ifs with h h' h'
  · rfl
  · exact absurd (of_decide_eq_true h) h'
  · exact absurd (decide_eq_true h') h
  · rfl

theorem filter_eraseP_self (bs : List (Thread × Id)) :
    (bs.eraseP (·.1 = t)).filter (·.1 = t) = (bs.filter (·.1 = t)).tail := by
  induction bs with
  | nil => rfl
  | cons b bs ih =>
    by_cases hb : b.1 = t
    · simp [hb]
    · simp [hb, ih]

theorem filter_eraseP_ne (bs : List (Thread × Id)) (h : t ≠ u) :
    (bs.eraseP (·.1 = t)).filter (·.1 = u) = bs.filter (·.1 = u) := by
  induction bs with
  | nil => rfl
  | cons b bs ih =>
    by_cases hb : b.1 = t
    · simp [hb, h]
    · simp [hb, List.filter_cons, ih]

theorem blocks_deactivate :
    (s.deactivate t).blocks u = if t = u then (s.blocks u).tail else s.blocks u := by
  simp only [deactivate, pop, blocks]
  split_ifs with h
  · subst h
    rw [filter_eraseP_self, List.map_tail]
  · rw [filter_eraseP_ne _ h]

/-! ## The stack -/

/-- The stack holds the streams of the open with-blocks, none of which is destroyed. -/
structure Stacked (s : State) : Prop where
  stack : s.stack = s.opened.map Prod.snd ++ [0]
  default : 0 ∉ s.destroyed
  opened : ∀ b ∈ s.opened, b.2 ∉ s.destroyed

theorem Stacked.exported : exported.Stacked where
  stack := rfl
  default := by decide
  opened := by
    intro b hb
    cases hb

/-- The top is the stream of the with-block entered last. -/
theorem Stacked.current (h : s.Stacked) : s.current = some s.last := by
  rw [State.current, top, h.stack, last]
  cases ho : s.opened with
  | nil => exact if_neg h.default
  | cons b bs =>
    exact if_neg (h.opened b (by rw [ho]; exact List.mem_cons_self))

theorem Stacked.step {op : Op} (h : s.Stacked) (hs : NestedStep s op s') : s'.Stacked := by
  obtain ⟨hs, hlast⟩ := hs
  cases hs with
  | create => exact ⟨h.stack, h.default, h.opened⟩
  | destroy h0 _ hi =>
    refine ⟨h.stack, ?_, fun b hb => ?_⟩
    · rw [List.mem_cons, not_or]
      exact ⟨h0.symm, h.default⟩
    · rw [List.mem_cons, not_or]
      exact ⟨hi b hb, h.opened b hb⟩
  | enter t hi hd =>
    refine ⟨congrArg (_ :: ·) h.stack, h.default, fun b hb => ?_⟩
    rcases List.mem_cons.1 hb with rfl | hb
    · exact hd
    · exact h.opened b hb
  | @exit t hne =>
    have hlast := hlast t rfl
    cases ho : s.opened with
    | nil =>
      rw [ho] at hlast
      cases hlast
    | cons b bs =>
      rw [ho] at hlast
      have hb : b.1 = t := Option.some.inj hlast
      have hrest : (s.deactivate t).opened = bs := by
        simp only [deactivate, pop, ho, List.eraseP_cons, hb, decide_true]
        rfl
      refine ⟨?_, h.default, fun b' hb' => ?_⟩
      · rw [hrest, deactivate, pop]
        show s.stack.tail = _
        rw [h.stack, ho]
        rfl
      · rw [hrest] at hb'
        exact h.opened b' (by rw [ho]; exact List.mem_cons_of_mem _ hb')
  | current => exact h

end State

/-- **The current stream.** Where every with-block was left before those entered before it, by
whatever thread, a thread finds its innermost stream exactly when that is the stream of the
with-block entered last by any thread. -/
theorem current_iff {ops : List Op} {s : State} (r : Run NestedStep exported ops s) (t : Thread) :
    s.current = some (s.innermost t) ↔ s.last = s.innermost t := by
  have h : s.Stacked := r.inv (fun _ _ _ h hs => h.step hs) .exported
  rw [h.current, Option.some.injEq]

/-- A with-block inside that of another thread, and left. -/
theorem current_iff_left :
    (((((exported.activate 0 0).activate 1 0).deactivate 1).current) = some 0 ↔
      (((exported.activate 0 0).activate 1 0).deactivate 1).last = 0) :=
  current_iff (.cons ⟨.enter 0 (by decide) (by decide), fun _ h => by cases h⟩
    (.cons ⟨.enter 1 (by decide) (by decide), fun _ h => by cases h⟩
      (.cons ⟨.exit (t := 1) (by decide), fun _ h => by cases h; rfl⟩ (.nil _)))) 0

/-- Two threads enter a stream each: what the first takes for its own is that of the second. -/
theorem shared_stack :
    ¬∀ ops s, Run Step exported ops s → ∀ t, s.current = some (s.innermost t) := by
  intro h
  have hr : Run Step exported [.create, .create, .enter 0 1, .enter 1 2] _ :=
    .cons (.create _) (.cons (.create _) (.cons (.enter 0 (by decide) (by decide))
      (.cons (.enter 1 (by decide) (by decide)) (.nil _))))
  have hc := h _ _ hr 0
  revert hc
  decide

end Nvcvpy.Stream
