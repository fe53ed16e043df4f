import CvCuda.Nvcvpy.HoldResources

/-! # Held resources outlive the work before them

* `own_run`: in every run each closure is in one place: with a thread, with a callback, in the
  bag, about to be destroyed, or destroyed once.
* `released_after_work`: `ClearGCBag` destroys a closure only when everything was done that its
  stream had been handed before `holdResources` was called.
* `drained`: when streams have done everything and no call is in progress, what was not destroyed is
  in the bag, which the next call destroys.
-/

namespace Nvcvpy.HoldResources

open StreamOrder
open Resource (Command)

variable {T S E W R : Type} {handle : T → S} {aux : S} {s s' : State T S E W R}

/-! ## What a step does -/

/-- The command that takes a call with its closure to the next stage. -/
inductive Hands (handle : T → S) (aux : S) (k : Nat) (t : T) :
    Stage → Cmd S (T ⊕ E) (Work W) → Pc T R → List Nat → Prop where
  | eventRecord : Hands handle aux k t .made (.record (.inl t) (handle t)) (.holding k t .recorded) []
  | waitEvent : Hands handle aux k t .recorded (.waitEvent aux (.inl t)) (.holding k t .waited) []
  | addCallback : Hands handle aux k t .waited (.enqueue aux (.callback k)) .idle [k]

/-- Everything a step can do. -/
inductive Moves (handle : T → S) (aux : S) (s : State T S E W R) : State T S E W R → Prop where
  | skip : Moves handle aux s s
  | command (c : Command S E W) :
      Moves handle aux s { s with history := s.history ++ [HoldResources.command c] }
  | complete {p : Nat} {c : Cmd S (T ⊕ E) (Work W)} (hc : s.history[p]? = some c)
      (hp : p ∉ s.done) (ready : ∀ q, Direct s.history q p → q ∈ s.done) :
      Moves handle aux s (callback { s with done := p :: s.done } c)
  | call {i : Nat} (t : T) (usedResources : List R) (hi : s.threads[i]? = some .idle) :
      Moves handle aux s { s with
        gcBag := []
        threads := s.threads.set i (.clearing t usedResources s.history.length s.gcBag) }
  | destroy {i since k : Nat} {t : T} {usedResources : List R} {ks : List Nat}
      (hi : s.threads[i]? = some (.clearing t usedResources since (k :: ks))) :
      Moves handle aux s { s with
        threads := s.threads.set i (.clearing t usedResources since ks)
        released := s.released ++ [k] }
  | make {i since : Nat} {t : T} {usedResources : List R}
      (hi : s.threads[i]? = some (.clearing t usedResources since [])) :
      Moves handle aux s { s with
        closures := s.closures ++ [⟨t, usedResources, since⟩]
        threads := s.threads.set i (.holding s.closures.length t .made) }
  | hand {i k : Nat} {t : T} {stage : Stage} {c : Cmd S (T ⊕ E) (Work W)} {next : Pc T R}
      {ks : List Nat} (hi : s.threads[i]? = some (.holding k t stage))
      (h : Hands handle aux k t stage c next ks) :
      Moves handle aux s { s with
        history := s.history ++ [c], threads := s.threads.set i next, pending := s.pending ++ ks }
  | throw {i k : Nat} {t : T} {stage : Stage} (hi : s.threads[i]? = some (.holding k t stage)) :
      Moves handle aux s { s with
        threads := s.threads.set i .idle, unwound := s.unwound ++ [k] }

theorem moves_of_step {op : Op T S E W R} (h : Step handle aux s op s') :
    Moves handle aux s s' := by
  obtain ⟨h, ready⟩ := h
  cases op with
  | command c =>
    obtain rfl := Option.some.inj h
    exact .command c
  | complete p =>
    obtain ⟨c, hc, h⟩ := Option.bind_eq_some_iff.1 h
    split_ifs at h with hp
    obtain rfl := Option.some.inj h
    exact .complete hc hp ready
  | call i t usedResources =>
    obtain ⟨pc, hi, h⟩ := Option.bind_eq_some_iff.1 h
    cases pc with
    | idle =>
      dsimp only at h
      split_ifs at h
      · obtain rfl := Option.some.inj h
        exact .skip
      · obtain rfl := Option.some.inj h
        exact .call t usedResources hi
    | clearing | holding => cases h
  | destroy i =>
    obtain ⟨pc, hi, h⟩ := Option.bind_eq_some_iff.1 h
    rcases pc with _ | ⟨t, rs, since, _ | ⟨k, ks⟩⟩ | _
    · cases h
    · cases h
    · obtain rfl := Option.some.inj h
      exact .destroy hi
    · cases h
  | make i =>
    obtain ⟨pc, hi, h⟩ := Option.bind_eq_some_iff.1 h
    rcases pc with _ | ⟨t, rs, since, _ | ⟨k, ks⟩⟩ | _
    · cases h
    · obtain rfl := Option.some.inj h
      exact .make hi
    · cases h
    · cases h
  | eventRecord i ok =>
    obtain ⟨pc, hi, h⟩ := Option.bind_eq_some_iff.1 h
    rcases pc with _ | _ | ⟨k, t, _ | _ | _⟩
    all_goals try cases h
    cases ok with
    | false => exact .throw hi
    | true => simpa [HoldResources.hand] using Moves.hand hi .eventRecord
  | waitEvent i ok =>
    obtain ⟨pc, hi, h⟩ := Option.bind_eq_some_iff.1 h
    rcases pc with _ | _ | ⟨k, t, _ | _ | _⟩
    all_goals try cases h
    cases ok with
    | false => exact .throw hi
    | true => simpa [HoldResources.hand] using Moves.hand hi .waitEvent
  | addCallback i ok =>
    obtain ⟨pc, hi, h⟩ := Option.bind_eq_some_iff.1 h
    rcases pc with _ | _ | ⟨k, t, _ | _ | _⟩
    all_goals try cases h
    cases ok with
    | false => exact .throw hi
    | true => exact .hand hi .addCallback

/-! ## Where closures are -/

/-- The closures a thread has, and those of them that came out of the bag. -/
def Pc.bag : Pc T R → List Nat
  | .clearing _ _ _ ks => ks
  | _ => []

def Pc.own : Pc T R → List Nat
  | .holding k _ _ => [k]
  | _ => []

namespace State

/-- Those whose callbacks were called and that were not destroyed yet. -/
def collected (s : State T S E W R) : List Nat := s.gcBag ++ s.threads.flatMap Pc.bag

/-- Those that threads hold. -/
def held (s : State T S E W R) : List Nat := s.threads.flatMap Pc.own

/-- Every place where a closure is. -/
def places (s : State T S E W R) : List Nat :=
  s.held ++ s.pending ++ s.collected ++ s.released ++ s.unwound

end State

theorem count_flatMap_set {α : Type} (f : α → List Nat) {l : List α} {i : Nat} {x : α}
    (h : l[i]? = some x) (y : α) (k : Nat) :
    ((l.set i y).flatMap f).count k + (f x).count k = (l.flatMap f).count k + (f y).count k := by
  induction l generalizing i with
  | nil => simp at h
  | cons z l ih =>
    cases i with
    | zero =>
      obtain rfl : z = x := by simpa using h
      simp only [List.set_cons_zero, List.flatMap_cons, List.count_append]
      omega
    | succ i =>
      have := ih (i := i) (by simpa using h)
      simp only [List.set_cons_succ, List.flatMap_cons, List.count_append]
      omega

/-- The command at `q` is the callback that owns the closure `k`. -/
def CallbackAt (h : List (Cmd S (T ⊕ E) (Work W))) (q k : Nat) : Prop :=
  ∃ a, h[q]? = some (.enqueue a (.callback k))

theorem CallbackAt.lt {h : List (Cmd S (T ⊕ E) (Work W))} {q k : Nat} (hq : CallbackAt h q k) :
    q < h.length := by
  obtain ⟨a, ha⟩ := hq
  exact (List.getElem?_eq_some_iff.1 ha).1

theorem callbackAt_concat {h : List (Cmd S (T ⊕ E) (Work W))} {c : Cmd S (T ⊕ E) (Work W)}
    {q k : Nat} : CallbackAt (h ++ [c]) q k ↔
      CallbackAt h q k ∨ q = h.length ∧ ∃ a, c = .enqueue a (.callback k) := by
  unfold CallbackAt
  simp only [getElem?_concat, exists_or, exists_and_left]

/-- Each closure made is in one place, and the callbacks that were not called own theirs. -/
structure Custodial (s : State T S E W R) : Prop where
  own : ∀ k, s.places.count k = if k < s.closures.length then 1 else 0
  handed : ∀ k ∈ s.pending, ∃ q, CallbackAt s.history q k
  pending : ∀ q k, CallbackAt s.history q k → q ∉ s.done → k ∈ s.pending
  called : ∀ q k, CallbackAt s.history q k → q ∈ s.done → k ∈ s.collected ∨ k ∈ s.released
  once : ∀ q q' k, CallbackAt s.history q k → CallbackAt s.history q' k → q = q'
  collected : ∀ k, k ∈ s.collected ∨ k ∈ s.released → ∃ q ∈ s.done, CallbackAt s.history q k

theorem count_places (s : State T S E W R) (k : Nat) : s.places.count k =
    s.held.count k + s.pending.count k + (s.gcBag.count k + (s.threads.flatMap Pc.bag).count k) +
      s.released.count k + s.unwound.count k := by
  simp only [State.places, State.collected, List.count_append]

theorem mem_collected {s : State T S E W R} {k : Nat} : k ∈ s.collected ∨ k ∈ s.released ↔
    0 < s.gcBag.count k + (s.threads.flatMap Pc.bag).count k + s.released.count k := by
  rw [State.collected, List.mem_append]
  simp only [← List.count_pos_iff]
  omega

namespace Custodial

/-- A command of another kind is handed to a stream. -/
theorem append (h : Custodial s) {c : Cmd S (T ⊕ E) (Work W)}
    (hc : ∀ a k, c ≠ .enqueue a (.callback k)) :
    Custodial { s with history := s.history ++ [c] } := by
  have hat : ∀ q k, CallbackAt (s.history ++ [c]) q k ↔ CallbackAt s.history q k := by
    intro q k
    rw [callbackAt_concat]
    exact or_iff_left fun ⟨_, a, ha⟩ => hc a k ha
  exact ⟨h.own, fun k hk => (h.handed k hk).imp fun q => (hat q k).2,
    fun q k hq => h.pending q k ((hat q k).1 hq),
    fun q k hq => h.called q k ((hat q k).1 hq),
    fun q q' k hq hq' => h.once q q' k ((hat q k).1 hq) ((hat q' k).1 hq'), fun k hk => by
      obtain ⟨q, hq, hqk⟩ := h.collected k hk
      exact ⟨q, hq, (hat q k).2 hqk⟩⟩

/-- Closures change hands, but not those of callbacks. -/
theorem regroup (h : Custodial s) (hhist : s'.history = s.history) (hdone : s'.done = s.done)
    (hpending : s'.pending = s.pending)
    (hown : ∀ k, s'.places.count k = if k < s'.closures.length then 1 else 0)
    (hcollected : ∀ k, (k ∈ s'.collected ∨ k ∈ s'.released) ↔ (k ∈ s.collected ∨ k ∈ s.released)) :
    Custodial s' := by
  refine ⟨hown, ?_, ?_, ?_, ?_, ?_⟩
  · rw [hhist, hpending]
    exact h.handed
  · rw [hhist, hdone, hpending]
    exact h.pending
  · intro q k
    rw [hhist, hdone, hcollected]
    exact h.called q k
  · rw [hhist]
    exact h.once
  · intro k
    rw [hcollected, hhist, hdone]
    exact h.collected k

/-- A callback is called. -/
theorem complete_callback (h : Custodial s) {p k : Nat} (hp : CallbackAt s.history p k)
    (hdone : p ∉ s.done) :
    Custodial { s with
      done := p :: s.done, pending := s.pending.erase k, gcBag := s.gcBag ++ [k] } := by
  have hmem := h.pending p k hp hdone
  have hother : ∀ q k', CallbackAt s.history q k' → q ≠ p → k' ≠ k := by
    rintro q k' hq hne rfl
    exact hne (h.once q p k' hq hp)
  have hcollected : ∀ k', (0 < (s.gcBag ++ [k]).count k' +
      (s.threads.flatMap Pc.bag).count k' + s.released.count k') ↔
      (k' = k ∨ (k' ∈ s.collected ∨ k' ∈ s.released)) := by
    intro k'
    rw [mem_collected, List.count_append, List.count_singleton]
    by_cases hk : k' = k
    · simp [hk]
    · rw [if_neg (by simpa using Ne.symm hk)]
      simp [hk]
  refine ⟨fun k' => ?_, fun k' hk' => h.handed k' (List.mem_of_mem_erase hk'),
    fun q k' hq hqd => ?_, fun q k' hq hqd => ?_, h.once, fun k' hk' => ?_⟩
  · have hown := h.own k'
    have hpos := List.count_pos_iff.2 hmem
    rw [count_places] at hown ⊢
    dsimp only [State.held] at hown ⊢
    rw [← hown, List.count_append, List.count_singleton]
    by_cases hk : k' = k
    · subst hk
      rw [List.count_erase_self]
      simp
      omega
    · rw [List.count_erase_of_ne hk, if_neg (by simpa using Ne.symm hk), Nat.add_zero]
  · dsimp only at hq hqd ⊢
    have hne : q ≠ p := by
      rintro rfl
      exact hqd (.head _)
    rw [List.mem_erase_of_ne (hother q k' hq hne)]
    exact h.pending q k' hq fun hd => hqd (.tail _ hd)
  · rw [mem_collected, hcollected]
    rcases List.mem_cons.1 hqd with rfl | hqd
    · obtain ⟨a, ha⟩ := hq
      obtain ⟨b, hb⟩ := hp
      have := ha.symm.trans hb
      simp at this
      exact .inl this.2
    · exact .inr (h.called q k' hq hqd)
  · rw [mem_collected, hcollected] at hk'
    rcases hk' with rfl | hk'
    · exact ⟨p, .head _, hp⟩
    · obtain ⟨q, hq, hqk⟩ := h.collected k' hk'
      exact ⟨q, .tail _ hq, hqk⟩

/-- The closure that a thread holds has no callback. -/
theorem not_callbackAt_of_held (h : Custodial s) {i k : Nat} {t : T} {stage : Stage}
    (hi : s.threads[i]? = some (.holding k t stage)) (q : Nat) : ¬CallbackAt s.history q k := by
  intro hq
  have hheld : 0 < s.held.count k := by
    refine List.count_pos_iff.2 (List.mem_flatMap.2 ⟨_, List.mem_of_getElem? hi, ?_⟩)
    exact List.mem_singleton.2 rfl
  have hown := h.own k
  rw [count_places] at hown
  by_cases hd : q ∈ s.done
  · have := mem_collected.1 (h.called q k hq hd)
    split_ifs at hown <;> omega
  · have := List.count_pos_iff.2 (h.pending q k hq hd)
    split_ifs at hown <;> omega

/-- A thread that holds a closure goes on. -/
theorem regroup_thread (h : Custodial s) {i k : Nat} {t : T} {stage stage' : Stage}
    (hi : s.threads[i]? = some (.holding k t stage)) :
    Custodial { s with threads := s.threads.set i (.holding k t stage') } := by
  have hbag := count_flatMap_set Pc.bag hi (.holding k t stage')
  have hheld := count_flatMap_set Pc.own hi (.holding k t stage')
  simp only [Pc.bag, Pc.own, List.count_nil] at hbag hheld
  refine h.regroup rfl rfl rfl (fun k' => ?_) fun k' => ?_
  · rw [← h.own k', count_places, count_places]
    have := hbag k'
    have := hheld k'
    simp only [State.held]
    omega
  · rw [mem_collected, mem_collected]
    have := hbag k'
    dsimp only
    omega

/-- A callback is handed to the auxiliary stream, and owns the closure. -/
theorem append_callback (h : Custodial s) (hdone : ∀ q ∈ s.done, q < s.history.length) {i k : Nat}
    {t : T} {stage : Stage} (hi : s.threads[i]? = some (.holding k t stage)) (a : S) :
    Custodial { s with
      history := s.history ++ [.enqueue a (.callback k)]
      threads := s.threads.set i .idle, pending := s.pending ++ [k] } := by
  have hat : ∀ q k', CallbackAt (s.history ++ [.enqueue a (.callback k)]) q k' ↔
      CallbackAt s.history q k' ∨ q = s.history.length ∧ k' = k := by
    intro q k'
    rw [callbackAt_concat]
    refine or_congr_right (and_congr_right fun _ => ?_)
    simp [eq_comm]
  have hnone := h.not_callbackAt_of_held hi
  have hbag := count_flatMap_set Pc.bag hi .idle
  have hcollected : ∀ k' : Nat, (0 < s.gcBag.count k' +
      ((s.threads.set i .idle).flatMap Pc.bag).count k' + s.released.count k') ↔
      (k' ∈ s.collected ∨ k' ∈ s.released) := by
    intro k'
    rw [mem_collected]
    have := hbag k'
    simp only [Pc.bag, List.count_nil] at this
    omega
  refine ⟨fun k' => ?_, fun k' hk' => ?_, fun q k' hq hqd => ?_, fun q k' hq hqd => ?_,
    fun q q' k' hq hq' => ?_, fun k' hk' => ?_⟩
  · have hown := h.own k'
    have hbag := hbag k'
    have hheld := count_flatMap_set Pc.own hi .idle k'
    rw [count_places] at hown ⊢
    dsimp only [State.held] at hown ⊢
    rw [← hown, List.count_append]
    simp only [Pc.bag, Pc.own, List.count_nil] at hbag hheld
    omega
  · rcases List.mem_append.1 hk' with hk' | hk'
    · obtain ⟨q, hq⟩ := h.handed k' hk'
      exact ⟨q, (hat q k').2 (.inl hq)⟩
    · exact ⟨s.history.length, (hat _ k').2 (.inr ⟨rfl, List.mem_singleton.1 hk'⟩)⟩
  · rcases (hat q k').1 hq with hq | ⟨-, rfl⟩
    · exact List.mem_append_left _ (h.pending q k' hq hqd)
    · exact List.mem_append_right _ (List.mem_singleton.2 rfl)
  · rw [mem_collected, hcollected]
    rcases (hat q k').1 hq with hq | ⟨rfl, -⟩
    · exact h.called q k' hq hqd
    · exact absurd (hdone _ hqd) (Nat.lt_irrefl _)
  · rcases (hat q k').1 hq with hold | ⟨rfl, rfl⟩
    · rcases (hat q' k').1 hq' with hold' | ⟨-, rfl⟩
      · exact h.once q q' k' hold hold'
      · exact absurd hold (hnone q)
    · rcases (hat q' k').1 hq' with hold' | ⟨rfl, -⟩
      · exact absurd hold' (hnone q')
      · rfl
  · rw [mem_collected, hcollected] at hk'
    obtain ⟨q, hq, hqk⟩ := h.collected k' hk'
    exact ⟨q, hq, (hat q k').2 (.inl hqk)⟩

theorem command_ne (c : Command S E W) (a : S) (k : Nat) :
    (command c : Cmd S (T ⊕ E) (Work W)) ≠ .enqueue a (.callback k) := by
  cases c <;> simp [command]

/-- **A step** keeps each closure in one place. -/
theorem moves (h : Custodial s) (hdone : ∀ q ∈ s.done, q < s.history.length)
    (hm : Moves handle aux s s') : Custodial s' := by
  cases hm with
  | skip => exact h
  | command c => exact h.append (command_ne c)
  | @complete p c hc hp ready =>
    by_cases hcb : ∃ a k, c = .enqueue a (.callback k)
    · obtain ⟨a, k, rfl⟩ := hcb
      exact h.complete_callback ⟨a, hc⟩ hp
    · have hskip : callback { s with done := p :: s.done } c = { s with done := p :: s.done } := by
        rcases c with ⟨a, w | k⟩ | _ | _ | _
        · rfl
        · exact absurd ⟨a, k, rfl⟩ hcb
        all_goals rfl
      have hne : ∀ q k, CallbackAt s.history q k → q ≠ p := by
        rintro q k ⟨a, ha⟩ rfl
        exact hcb ⟨a, k, Option.some.inj (hc.symm.trans ha)⟩
      rw [hskip]
      refine ⟨h.own, h.handed, fun q k hq hqd => ?_, fun q k hq hqd => ?_, h.once,
        fun k hk => ?_⟩
      · exact h.pending q k hq fun hd => hqd (.tail _ hd)
      · exact h.called q k hq ((List.mem_cons.1 hqd).resolve_left (hne q k hq))
      · obtain ⟨q, hq, hqk⟩ := h.collected k hk
        exact ⟨q, .tail _ hq, hqk⟩
  | @call i t usedResources hi =>
    have hbag := count_flatMap_set Pc.bag hi (.clearing t usedResources s.history.length s.gcBag)
    have hheld := count_flatMap_set Pc.own hi (.clearing t usedResources s.history.length s.gcBag)
    simp only [Pc.bag, Pc.own, List.count_nil] at hbag hheld
    refine h.regroup rfl rfl rfl (fun k => ?_) fun k => ?_
    · rw [← h.own k, count_places, count_places]
      have := hbag k
      have := hheld k
      simp only [State.held, List.count_nil]
      omega
    · rw [mem_collected, mem_collected]
      have := hbag k
      simp only [List.count_nil]
      omega
  | @destroy i since k t usedResources ks hi =>
    have hbag := count_flatMap_set Pc.bag hi (.clearing t usedResources since ks)
    have hheld := count_flatMap_set Pc.own hi (.clearing t usedResources since ks)
    simp only [Pc.bag, Pc.own, List.count_nil, List.count_cons] at hbag hheld
    refine h.regroup rfl rfl rfl (fun k' => ?_) fun k' => ?_
    · rw [← h.own k', count_places, count_places]
      have := hbag k'
      have := hheld k'
      simp only [State.held, List.count_append, List.count_singleton]
      omega
    · rw [mem_collected, mem_collected]
      have := hbag k'
      simp only [List.count_append, List.count_singleton]
      omega
  | @make i since t usedResources hi =>
    have hbag := count_flatMap_set Pc.bag hi (.holding s.closures.length t .made)
    have hheld := count_flatMap_set Pc.own hi (.holding s.closures.length t .made)
    simp only [Pc.bag, Pc.own, List.count_nil, List.count_singleton] at hbag hheld
    refine h.regroup rfl rfl rfl (fun k => ?_) fun k => ?_
    · have hown := h.own k
      rw [count_places] at hown ⊢
      have := hbag k
      have := hheld k
      simp only [State.held, List.length_append, List.length_singleton, beq_iff_eq] at *
      split_ifs at * <;> omega
    · rw [mem_collected, mem_collected]
      have := hbag k
      dsimp only
      omega
  | @hand i k t stage c next ks hi hhand =>
    cases hhand with
    | addCallback => exact h.append_callback hdone hi aux
    | eventRecord | waitEvent =>
      rw [List.append_nil]
      exact (h.append (by simp)).regroup_thread hi
  | @throw i k t stage hi =>
    have hbag := count_flatMap_set Pc.bag hi .idle
    have hheld := count_flatMap_set Pc.own hi .idle
    simp only [Pc.bag, Pc.own, List.count_nil, List.count_singleton] at hbag hheld
    refine h.regroup rfl rfl rfl (fun k' => ?_) fun k' => ?_
    · rw [← h.own k', count_places, count_places]
      have := hbag k'
      have := hheld k'
      simp only [State.held, List.count_append, List.count_singleton]
      omega
    · rw [mem_collected, mem_collected]
      have := hbag k'
      dsimp only
      omega

end Custodial

/-! ## What comes before a callback -/

/-- What the stream of a closure had been handed when `holdResources` was called. -/
def Mine (handle : T → S) (h : List (Cmd S (T ⊕ E) (Work W))) (c : Closure T R) : Set Nat :=
  {p | p < c.since ∧ ∃ d, h[p]? = some d ∧ d.stream? = some (handle c.stream)}

/-- How far it is ordered. -/
def Stage.Reached (aux : S) (h : List (Cmd S (T ⊕ E) (Work W))) (t : T) (p : Nat) :
    Stage → Prop
  | .made => True
  | .recorded => p ∈ AtEvent h (.inl t)
  | .waited => p ∈ OnStream h aux

/-- Where a call in progress has got to. -/
def Pc.Good (handle : T → S) (aux : S) (h : List (Cmd S (T ⊕ E) (Work W)))
    (closures : List (Closure T R)) : Pc T R → Prop
  | .idle => True
  | .clearing _ _ since _ => since ≤ h.length
  | .holding k t stage => ∃ c, closures[k]? = some c ∧ c.stream = t ∧
      ∀ p ∈ Mine handle h c, stage.Reached aux h t p

/-- Callbacks come after what the streams of their closures had been handed, and calls in progress
get there. -/
structure Ordered (handle : T → S) (aux : S) (h : List (Cmd S (T ⊕ E) (Work W)))
    (closures : List (Closure T R)) (threads : List (Pc T R)) : Prop where
  since : ∀ c ∈ closures, c.since ≤ h.length
  threads : ∀ pc ∈ threads, pc.Good handle aux h closures
  after : ∀ q k c, CallbackAt h q k → closures[k]? = some c →
    ∀ p ∈ Mine handle h c, Before h p q

section
variable {h : List (Cmd S (T ⊕ E) (Work W))} {d : Cmd S (T ⊕ E) (Work W)} {c : Closure T R}
  {p : Nat}

theorem onStream_of_mine (hp : p ∈ Mine handle h c) : p ∈ OnStream h (handle c.stream) := by
  obtain ⟨-, d, hd, hs⟩ := hp
  exact ⟨p, d, hd, hs, .refl⟩

theorem mine_concat (hc : c.since ≤ h.length) :
    p ∈ Mine handle (h ++ [d]) c ↔ p ∈ Mine handle h c := by
  refine and_congr_right fun hp => ?_
  rw [List.getElem?_append_left (Nat.lt_of_lt_of_le hp hc)]

/-- An event of a stream object is recorded on its stream. -/
def RecordsOwn (handle : T → S) (d : Cmd S (T ⊕ E) (Work W)) : Prop :=
  ∀ t a, d = .record (.inl t) a → a = handle t

/-- What is ordered stays ordered. -/
theorem reached_concat (hd : RecordsOwn handle d) (hp : p ∈ Mine handle h c) {stage : Stage}
    (hr : stage.Reached aux h c.stream p) : stage.Reached aux (h ++ [d]) c.stream p := by
  cases stage with
  | made => trivial
  | waited => exact onStream_append hr
  | recorded =>
    refine atEvent_concat.2 ?_
    by_cases hrec : ∃ a, d = .record (.inl c.stream) a
    · obtain ⟨a, rfl⟩ := hrec
      obtain rfl := hd _ _ rfl
      exact .inl ⟨⟨_, rfl⟩, .inr (mem_past_record.2 (.inl (onStream_of_mine hp)))⟩
    · exact .inr ⟨hrec, hr⟩

end

namespace Ordered
variable {h : List (Cmd S (T ⊕ E) (Work W))} {closures : List (Closure T R)}
  {threads : List (Pc T R)}

/-- One more command. Before a callback comes what its closure asks for. -/
theorem append (ho : Ordered handle aux h closures threads) {d : Cmd S (T ⊕ E) (Work W)}
    (hd : RecordsOwn handle d)
    (hcb : ∀ a k c, d = .enqueue a (.callback k) → closures[k]? = some c →
      ∀ p ∈ Mine handle h c, p ∈ Past h d) :
    Ordered handle aux (h ++ [d]) closures threads where
  since c hc := by
    rw [List.length_append]
    exact Nat.le_add_right_of_le (ho.since c hc)
  threads pc hpc := by
    have hgood := ho.threads pc hpc
    cases pc with
    | idle => trivial
    | clearing t usedResources since ks =>
      refine Nat.le_trans hgood ?_
      rw [List.length_append]
      exact Nat.le_add_right _ _
    | holding k t stage =>
      obtain ⟨c, hc, rfl, hreached⟩ := hgood
      have hsince := ho.since c (List.mem_of_getElem? hc)
      refine ⟨c, hc, rfl, fun p hp => ?_⟩
      rw [mine_concat hsince] at hp
      exact reached_concat hd hp (hreached p hp)
  after q k c hq hc p hp := by
    rw [mine_concat (ho.since c (List.mem_of_getElem? hc))] at hp
    rcases callbackAt_concat.1 hq with hq | ⟨rfl, a, rfl⟩
    · exact (before_append hq.lt).2 (ho.after q k c hq hc p hp)
    · exact before_concat.2 (hcb a k c rfl hc p hp)

/-- A thread goes on. -/
theorem set (ho : Ordered handle aux h closures threads) (i : Nat) {pc : Pc T R}
    (hpc : pc.Good handle aux h closures) :
    Ordered handle aux h closures (threads.set i pc) where
  since := ho.since
  threads pc' hpc' := by
    rcases List.mem_or_eq_of_mem_set hpc' with hmem | rfl
    · exact ho.threads pc' hmem
    · exact hpc
  after := ho.after

theorem getElem?_concat_of_some {α : Type} {l : List α} {x y : α} {k : Nat}
    (h : l[k]? = some x) : (l ++ [y])[k]? = some x := by
  rw [List.getElem?_append_left (List.getElem?_eq_some_iff.1 h).1, h]

/-- A closure is made, whose callback is not there yet. -/
theorem make (ho : Ordered handle aux h closures threads) {c : Closure T R}
    (hc : c.since ≤ h.length) (hcb : ∀ q k, CallbackAt h q k → k < closures.length) :
    Ordered handle aux h (closures ++ [c]) threads where
  since c' hc' := by
    rcases List.mem_append.1 hc' with hmem | hmem
    · exact ho.since c' hmem
    · rw [List.mem_singleton.1 hmem]
      exact hc
  threads pc hpc := by
    have hgood := ho.threads pc hpc
    cases pc with
    | idle => trivial
    | clearing => exact hgood
    | holding k t stage =>
      obtain ⟨c', hc', hrest⟩ := hgood
      exact ⟨c', getElem?_concat_of_some hc', hrest⟩
  after q k c' hq hc' := by
    rw [List.getElem?_append_left (hcb q k hq)] at hc'
    exact ho.after q k c' hq hc'

end Ordered

/-- What streams did is closed under what comes before. -/
structure Closed (s : State T S E W R) : Prop where
  lt : ∀ p ∈ s.done, p < s.history.length
  direct : ∀ q, ∀ p ∈ s.done, Direct s.history q p → q ∈ s.done

theorem Closed.before (h : Closed s) {q p : Nat} (hp : p ∈ s.done)
    (hb : Before s.history q p) : q ∈ s.done := by
  induction hb using Relation.TransGen.head_induction_on with
  | single hd => exact h.direct _ _ hp hd
  | head hd _ ih => exact h.direct _ _ ih hd

theorem callback_fields (s : State T S E W R) (c : Cmd S (T ⊕ E) (Work W)) :
    (callback s c).history = s.history ∧ (callback s c).done = s.done ∧
      (callback s c).threads = s.threads ∧ (callback s c).closures = s.closures := by
  rcases c with ⟨a, w | k⟩ | _ | _ | _
  all_goals exact ⟨rfl, rfl, rfl, rfl⟩

/-- Where things are, and in which order they were done. -/
structure Sound (handle : T → S) (aux : S) (s : State T S E W R) : Prop where
  custodial : Custodial s
  ordered : Ordered handle aux s.history s.closures s.threads
  closed : Closed s

namespace Sound

theorem closed_append (h : Closed s) (d : Cmd S (T ⊕ E) (Work W)) {s' : State T S E W R}
    (hhist : s'.history = s.history ++ [d]) (hdone : s'.done = s.done) : Closed s' where
  lt p hp := by
    rw [hdone] at hp
    rw [hhist, List.length_append]
    exact Nat.lt_add_right _ (h.lt p hp)
  direct q p hp hd := by
    rw [hdone] at hp ⊢
    rw [hhist, direct_append (h.lt p hp)] at hd
    exact h.direct q p hp hd

theorem callbackAt_lt (h : Custodial s) {q k : Nat} (hq : CallbackAt s.history q k) :
    k < s.closures.length := by
  have hown := h.own k
  rw [count_places] at hown
  by_contra hge
  rw [if_neg hge] at hown
  by_cases hd : q ∈ s.done
  · have := mem_collected.1 (h.called q k hq hd)
    omega
  · have := List.count_pos_iff.2 (h.pending q k hq hd)
    omega

theorem recordsOwn_command (c : Command S E W) :
    RecordsOwn handle (command c : Cmd S (T ⊕ E) (Work W)) := by
  intro t a h
  cases c <;> simp [command] at h

/-- What takes a call to its next stage. -/
theorem ordered_hand (h : Sound handle aux s) {i k : Nat} {t : T} {stage : Stage}
    {c : Cmd S (T ⊕ E) (Work W)} {next : Pc T R} {ks : List Nat}
    (hi : s.threads[i]? = some (.holding k t stage)) (hh : Hands handle aux k t stage c next ks) :
    Ordered handle aux (s.history ++ [c]) s.closures (s.threads.set i next) := by
  obtain ⟨d, hd, rfl, hreached⟩ := h.ordered.threads _ (List.mem_of_getElem? hi)
  have hsince := h.ordered.since d (List.mem_of_getElem? hd)
  cases hh with
  | eventRecord =>
    refine (h.ordered.append (d := .record (.inl d.stream) (handle d.stream)) ?_ ?_).set i ?_
    · intro t a heq
      cases heq
      rfl
    · intro a k c heq
      cases heq
    · refine ⟨d, hd, rfl, fun p hp => ?_⟩
      rw [mine_concat hsince] at hp
      exact atEvent_concat.2
        (.inl ⟨⟨_, rfl⟩, .inr (mem_past_record.2 (.inl (onStream_of_mine hp)))⟩)
  | waitEvent =>
    refine (h.ordered.append (d := .waitEvent aux (.inl d.stream)) ?_ ?_).set i ?_
    · intro t a heq
      cases heq
    · intro a k c heq
      cases heq
    · refine ⟨d, hd, rfl, fun p hp => ?_⟩
      rw [mine_concat hsince] at hp
      exact onStream_concat.2 (.inr ⟨rfl, .inr (mem_past_waitEvent.2 (.inr (.inr (hreached p hp))))⟩)
  | addCallback =>
    refine (h.ordered.append (d := .enqueue aux (.callback k)) ?_ ?_).set i trivial
    · intro t a heq
      cases heq
    · intro a k' c' heq hc' p hp
      cases heq
      obtain rfl := Option.some.inj (hd.symm.trans hc')
      exact mem_past_enqueue.2 (.inl (hreached p hp))

/-- **A step** keeps where things are and their order. -/
theorem moves (h : Sound handle aux s) (hm : Moves handle aux s s') : Sound handle aux s' := by
  have hcust := h.custodial.moves h.closed.lt hm
  cases hm with
  | skip => exact h
  | command c =>
    refine ⟨hcust, h.ordered.append (recordsOwn_command c) fun a k d heq => ?_,
      closed_append h.closed _ rfl rfl⟩
    exact absurd heq (Custodial.command_ne c a k)
  | @complete p c hc hp ready =>
    obtain ⟨hhist, hdone, hthreads, hclosures⟩ :=
      callback_fields { s with done := p :: s.done } c
    refine ⟨hcust, ?_, ⟨fun q hq => ?_, fun q r hr hd => ?_⟩⟩
    · rw [hhist, hclosures, hthreads]
      exact h.ordered
    · rw [hdone] at hq
      rw [hhist]
      rcases List.mem_cons.1 hq with rfl | hq
      · exact (List.getElem?_eq_some_iff.1 hc).1
      · exact h.closed.lt q hq
    · rw [hdone] at hr ⊢
      rw [hhist] at hd
      rcases List.mem_cons.1 hr with rfl | hr
      · exact .tail _ (ready q hd)
      · exact .tail _ (h.closed.direct q r hr hd)
  | @call i t usedResources hi =>
    exact ⟨hcust, h.ordered.set i (Nat.le_refl _), h.closed.lt, h.closed.direct⟩
  | @destroy i since k t usedResources ks hi =>
    have hgood := h.ordered.threads _ (List.mem_of_getElem? hi)
    exact ⟨hcust, h.ordered.set i hgood, h.closed.lt, h.closed.direct⟩
  | @make i since t usedResources hi =>
    have hsince := h.ordered.threads _ (List.mem_of_getElem? hi)
    have hmade := h.ordered.make (c := ⟨t, usedResources, since⟩) hsince
      fun q k hq => callbackAt_lt h.custodial hq
    refine ⟨hcust, hmade.set i ⟨⟨t, usedResources, since⟩, ?_, rfl, fun _ _ => trivial⟩,
      h.closed.lt, h.closed.direct⟩
    simp
  | @hand i k t stage c next ks hi hh =>
    exact ⟨hcust, h.ordered_hand hi hh, closed_append h.closed _ rfl rfl⟩
  | @throw i k t stage hi =>
    exact ⟨hcust, h.ordered.set i trivial, h.closed.lt, h.closed.direct⟩

theorem initial_sound (handle : T → S) (aux : S) (threads : Nat) :
    Sound handle aux (initial threads : State T S E W R) := by
  have hno : ∀ q k, ¬CallbackAt (initial threads : State T S E W R).history q k := by
    rintro q k ⟨a, ha⟩
    simp [initial] at ha
  have hidle : ∀ pc ∈ (initial threads : State T S E W R).threads, pc = .idle :=
    fun pc hpc => List.eq_of_mem_replicate hpc
  have hbag : (initial threads : State T S E W R).threads.flatMap Pc.bag = [] :=
    List.flatMap_eq_nil_iff.2 fun pc hpc => hidle pc hpc ▸ rfl
  have hheld : (initial threads : State T S E W R).threads.flatMap Pc.own = [] :=
    List.flatMap_eq_nil_iff.2 fun pc hpc => hidle pc hpc ▸ rfl
  refine ⟨?_, ?_, ?_⟩
  · refine ⟨fun k => ?_, fun k hk => ?_, fun q k hq => absurd hq (hno q k),
      fun q k hq => absurd hq (hno q k), fun q q' k hq => absurd hq (hno q k), fun k hk => ?_⟩
    · rw [count_places, State.held, hbag, hheld]
      simp [initial]
    · simp [initial] at hk
    · rw [mem_collected, hbag] at hk
      simp [initial] at hk
  · refine ⟨fun c hc => ?_, fun pc hpc => ?_, fun q k c hq => absurd hq (hno q k)⟩
    · simp [initial] at hc
    · rw [hidle pc hpc]
      trivial
  · refine ⟨fun p hp => ?_, fun q p hp => ?_⟩
    · simp [initial] at hp
    · simp [initial] at hp

theorem run {threads : Nat} {ops : List (Op T S E W R)}
    (hrun : Run (Step handle aux) (initial threads) ops s) : Sound handle aux s :=
  hrun.inv (fun _ _ _ h hstep => h.moves (moves_of_step hstep))
    (initial_sound handle aux threads)

end Sound

/-! ## Runs -/

/-- **Custody**: after any run each closure is in one place, where it is once: it is held by a thread,
owned by a callback that was not called, in the bag or out of it to be destroyed, destroyed by
`ClearGCBag`, or destroyed because a call threw. -/
theorem own_run {threads : Nat} {ops : List (Op T S E W R)}
    (hrun : Run (Step handle aux) (initial threads) ops s) :
    s.places.Perm (List.range s.closures.length) := by
  refine List.perm_iff_count.2 fun k => ?_
  rw [(Sound.run hrun).custodial.own k, List.count_range]

/-- **Order**: after any run, a closure whose callback was called, and one that `ClearGCBag` destroyed,
had everything done before that its stream had been handed when `holdResources` was called. -/
theorem done_of_collected {threads : Nat} {ops : List (Op T S E W R)}
    (hrun : Run (Step handle aux) (initial threads) ops s) {k : Nat} {c : Closure T R}
    (hc : s.closures[k]? = some c) (hk : k ∈ s.collected ∨ k ∈ s.released) {p : Nat}
    (hp : p ∈ Mine handle s.history c) : p ∈ s.done := by
  have hs := Sound.run hrun
  obtain ⟨q, hq, hqk⟩ := hs.custodial.collected k hk
  exact hs.closed.before hq (hs.ordered.after q k c hqk hc p hp)

/-- A step whose call to CUDA, if it is one, succeeds. -/
def Op.Succeeds : Op T S E W R → Prop
  | .eventRecord _ ok | .waitEvent _ ok | .addCallback _ ok => ok = true
  | _ => True

theorem unwound_step {op : Op T S E W R} (hop : op.Succeeds) (hnil : s.unwound = [])
    (h : Step handle aux s op s') : s'.unwound = [] := by
  obtain ⟨h, -⟩ := h
  cases op with
  | command c => exact Option.some.inj h ▸ hnil
  | complete p =>
    obtain ⟨c, -, h⟩ := Option.bind_eq_some_iff.1 h
    split_ifs at h
    obtain rfl := Option.some.inj h
    rcases c with ⟨a, w | k⟩ | _ | _ | _
    all_goals exact hnil
  | call i t usedResources =>
    obtain ⟨pc, -, h⟩ := Option.bind_eq_some_iff.1 h
    cases pc with
    | idle =>
      dsimp only at h
      split_ifs at h <;> exact Option.some.inj h ▸ hnil
    | clearing | holding => cases h
  | destroy i | make i =>
    obtain ⟨pc, -, h⟩ := Option.bind_eq_some_iff.1 h
    rcases pc with _ | ⟨t, rs, since, _ | ⟨k, ks⟩⟩ | _
    all_goals first
      | exact Option.some.inj h ▸ hnil
      | cases h
  | eventRecord i ok | waitEvent i ok | addCallback i ok =>
    obtain rfl : ok = true := hop
    obtain ⟨pc, -, h⟩ := Option.bind_eq_some_iff.1 h
    rcases pc with _ | _ | ⟨k, t, _ | _ | _⟩
    all_goals first
      | exact Option.some.inj h ▸ hnil
      | cases h

/-- **Held while the work runs**: after any run in which the calls to CUDA succeeded, a closure is
with the thread that made it or with its callback as long as something was not done that its stream had
been handed when `holdResources` was called. -/
theorem held_while_work_runs {threads : Nat} {ops : List (Op T S E W R)}
    (hrun : Run (Step handle aux) (initial threads) ops s) (hops : ∀ op ∈ ops, op.Succeeds)
    {k : Nat} {c : Closure T R} (hc : s.closures[k]? = some c) {p : Nat}
    (hp : p ∈ Mine handle s.history c) (hnot : p ∉ s.done) : k ∈ s.held ++ s.pending := by
  have hunwound : s.unwound = [] :=
    hrun.inv_labels (P := fun s => s.unwound = []) (Q := Op.Succeeds)
      (fun _ _ _ hop hnil hstep => unwound_step hop hnil hstep) hops rfl
  have hplace : k ∈ s.places :=
    (own_run hrun).mem_iff.2 (List.mem_range.2 (List.getElem?_eq_some_iff.1 hc).1)
  have hfree : ¬(k ∈ s.collected ∨ k ∈ s.released) :=
    fun hk => hnot (done_of_collected hrun hc hk hp)
  rw [State.places, hunwound, List.append_nil, List.mem_append, List.mem_append] at hplace
  tauto

/-- A call for stream 0 after a command there, of which streams have done nothing yet. -/
def heldOnce : List (Op Nat Nat Empty Unit Unit) :=
  [.command (.enqueue 0 ()), .call 0 0 [()], .make 0, .eventRecord 0 true, .waitEvent 0 true,
    .addCallback 0 true]

/-- Streams do a command when everything before it was done. -/
def InOrder (s : State Nat Nat Empty Unit Unit) : Op Nat Nat Empty Unit Unit → Prop
  | .complete p => ∀ q < p, q ∈ s.done
  | _ => True

instance (s : State Nat Nat Empty Unit Unit) (op : Op Nat Nat Empty Unit Unit) :
    Decidable (InOrder s op) := by
  cases op <;> unfold InOrder <;> infer_instance

theorem step_of_inOrder {s s' : State Nat Nat Empty Unit Unit} {op : Op Nat Nat Empty Unit Unit}
    (h : exec id 9 s op = some s' ∧ InOrder s op) : Step id 9 s op s' := by
  refine ⟨h.1, ?_⟩
  cases op with
  | complete p => exact fun q hq => h.2 q hq.lt
  | _ => trivial

/-- A run of one thread that can be computed. -/
theorem exists_run (ops : List (Op Nat Nat Empty Unit Unit))
    (P : State Nat Nat Empty Unit Unit → Prop) [DecidablePred P]
    (h : (Run.exec (exec id 9) InOrder (initial 1) ops).any (decide <| P ·) = true) :
    ∃ s, Run (Step id 9) (initial 1) ops s ∧ P s := by
  obtain ⟨s, hrun, hP⟩ := Run.exists_of_exec h
  exact ⟨s, hrun.mono fun _ _ _ => step_of_inOrder, hP⟩

theorem held_while_work_runs_once :
    ∃ s, Run (Step id 9) (initial 1) heldOnce s ∧ 0 ∉ s.done ∧ 0 ∈ s.held ++ s.pending := by
  obtain ⟨s, hrun, hc, hd, hnot⟩ := exists_run heldOnce
    (fun s => s.closures[0]? = some ⟨0, [()], 1⟩ ∧
      (s.history[0]?).bind Cmd.stream? = some 0 ∧ 0 ∉ s.done) (by decide)
  obtain ⟨d, hd, hs⟩ := Option.bind_eq_some_iff.1 hd
  refine ⟨s, hrun, hnot, held_while_work_runs hrun (fun op hop => ?_) hc
    ⟨Nat.one_pos, d, hd, hs⟩ hnot⟩
  fin_cases hop <;> trivial

theorem own_run_once : ∃ s, Run (Step id 9) (initial 1) heldOnce s ∧
    s.places.Perm (List.range s.closures.length) := by
  obtain ⟨s, hrun, -⟩ := exists_run heldOnce (fun _ => True) (by decide)
  exact ⟨s, hrun, own_run hrun⟩

/-- **Drained**: when streams have done everything and no call is in progress, what was not destroyed
is in the bag. -/
theorem drained {threads : Nat} {ops : List (Op T S E W R)}
    (hrun : Run (Step handle aux) (initial threads) ops s)
    (hdone : ∀ p < s.history.length, p ∈ s.done) (hidle : ∀ pc ∈ s.threads, pc = .idle) :
    (s.gcBag ++ s.released ++ s.unwound).Perm (List.range s.closures.length) := by
  have hs := (Sound.run hrun).custodial
  have hbag : s.threads.flatMap Pc.bag = [] :=
    List.flatMap_eq_nil_iff.2 fun pc hpc => hidle pc hpc ▸ rfl
  have hheld : s.threads.flatMap Pc.own = [] :=
    List.flatMap_eq_nil_iff.2 fun pc hpc => hidle pc hpc ▸ rfl
  have hpending : s.pending = [] := by
    refine List.eq_nil_iff_forall_not_mem.2 fun k hk => ?_
    obtain ⟨q, hq⟩ := hs.handed k hk
    have hpos := List.count_pos_iff.2 hk
    have hcalled := mem_collected.1 (hs.called q k hq (hdone q hq.lt))
    have hown := hs.own k
    rw [count_places] at hown
    split_ifs at hown <;> omega
  have hplaces : s.places = s.gcBag ++ s.released ++ s.unwound := by
    rw [State.places, State.held, State.collected, hbag, hheld, hpending]
    simp
  exact hplaces ▸ own_run hrun

theorem drained_once :
    ∃ s, Run (Step id 9) (initial 1)
        (heldOnce ++ [.complete 0, .complete 1, .complete 2, .complete 3]) s ∧
      (s.gcBag ++ s.released ++ s.unwound).Perm (List.range s.closures.length) := by
  obtain ⟨s, hrun, hdone, hidle⟩ :=
    exists_run (heldOnce ++ [.complete 0, .complete 1, .complete 2, .complete 3])
      (fun s => (∀ p < s.history.length, p ∈ s.done) ∧ ∀ pc ∈ s.threads, pc = .idle) (by decide)
  exact ⟨s, hrun, drained hrun hdone hidle⟩

end Nvcvpy.HoldResources
