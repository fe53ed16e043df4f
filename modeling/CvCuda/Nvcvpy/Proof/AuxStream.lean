import CvCuda.Nvcvpy.AuxStream

/-! # The auxiliary stream lives as long as there are streams

* `Balanced`: the counter is the number of live streams, and there is an auxiliary stream exactly
  while there are any.
* `Sound`: the calls that keep it so, by what is live and which calls to CUDA succeed.
* `balanced_init`, `balanced_create`, `balanced_wrap`, `balanced_destruct`: one call.
* `balanced_run_iff`: every state of a run is balanced exactly when every call is sound.
-/

namespace Nvcvpy.AuxStream

/-- Counter and auxiliary stream are as the live streams say. -/
structure Balanced (s : State) : Prop where
  count : s.instanceCount = s.live.length
  aux : s.auxStream ↔ 0 < s.live.length
  once : s.created = s.destroyed + if 0 < s.live.length then 1 else 0

instance (s : State) : Decidable (Balanced s) :=
  decidable_of_iff (s.instanceCount = s.live.length ∧ (s.auxStream ↔ 0 < s.live.length) ∧
    s.created = s.destroyed + if 0 < s.live.length then 1 else 0)
    ⟨fun ⟨h, h', h''⟩ => ⟨h, h', h''⟩, fun h => ⟨h.count, h.aux, h.once⟩⟩

/-- The first stream gets its auxiliary stream, and gives it back when its event fails. -/
def FirstSound (s : State) (cuda : Cuda) : Prop :=
  s.live = [] → cuda.auxCreate ∧ (¬cuda.eventCreate → cuda.auxSynchronize ∧ cuda.auxDestroy)

/-- Calls that keep the balance: no stream fails to be created while others live. -/
def Sound (s : State) : Op × Cuda → Prop
  | (.create, cuda) => if cuda.streamCreate then FirstSound s cuda else s.live = []
  | (.wrap, cuda) => cuda.streamGetFlags → FirstSound s cuda
  | (.destruct _, _) => True

theorem balanced_initial : Balanced initial := ⟨rfl, by decide, rfl⟩

variable {s s' : State} {cuda : Cuda}

/-! ## One call -/

/-- Without an auxiliary stream there is nothing to release. -/
theorem releaseAuxStream_none (h : s.auxStream = false) : s.releaseAuxStream cuda = (true, s) := by
  unfold State.releaseAuxStream
  rw [h]
  rfl

/-- One of several instances is released. -/
theorem releaseAuxStream_some (h : s.auxStream = true) (hc : s.instanceCount ≠ 1) :
    s.releaseAuxStream cuda = (true, { s with instanceCount := s.instanceCount - 1 }) := by
  unfold State.releaseAuxStream
  rw [if_pos h, if_neg (by simp only; omega)]

/-- The last instance is released, with the auxiliary stream unless CUDA fails. -/
theorem releaseAuxStream_last (h : s.auxStream = true) (hc : s.instanceCount = 1) :
    s.releaseAuxStream cuda =
      if cuda.auxSynchronize ∧ cuda.auxDestroy then (true, { s with
        instanceCount := 0, auxStream := false, destroyed := s.destroyed + 1 })
      else (false, { s with instanceCount := 0 }) := by
  unfold State.releaseAuxStream
  rw [if_pos h, if_pos (by simp only; omega)]
  by_cases hs : cuda.auxSynchronize ∧ cuda.auxDestroy
  · rw [if_neg (by tauto), if_pos hs]
    simp only [hc]
    rfl
  · rw [if_pos (by tauto), if_neg hs]
    simp only [hc]
    rfl

theorem destroy_snd (stream : Stream) : (s.destroy cuda stream).2 = (s.releaseAuxStream cuda).2 :=
  rfl

/-- Without live streams, nothing is counted and there is no auxiliary stream. -/
theorem Balanced.of_nil (h : Balanced s) (hl : s.live = []) :
    s.instanceCount = 0 ∧ s.auxStream = false ∧ s.created = s.destroyed := by
  obtain ⟨hcount, haux, honce⟩ := h
  rw [hl] at hcount haux honce
  exact ⟨hcount, by simpa using haux, honce⟩

/-- With live streams there is an auxiliary stream. -/
theorem Balanced.of_ne_nil (h : Balanced s) (hl : s.live ≠ []) :
    0 < s.instanceCount ∧ s.auxStream = true ∧ s.created = s.destroyed + 1 := by
  obtain ⟨hcount, haux, honce⟩ := h
  have hpos := List.length_pos_iff.2 hl
  rw [if_pos hpos] at honce
  exact ⟨by omega, haux.2 hpos, honce⟩

/-- The first stream. -/
theorem balanced_init_first (h : Balanced s) (hl : s.live = []) (stream : Stream) :
    Balanced (s.init cuda stream) ↔
      cuda.auxCreate ∧ (¬cuda.eventCreate → cuda.auxSynchronize ∧ cuda.auxDestroy) := by
  obtain ⟨hcount, haux, honce⟩ := h.of_nil hl
  by_cases hcreate : cuda.auxCreate
  · have hget : s.incrementInstanceCount.getAuxStream cuda = (true, { s with
        instanceCount := s.instanceCount + 1, auxStream := true, created := s.created + 1 }) := by
      simp [State.getAuxStream, State.incrementInstanceCount, haux, hcreate]
    unfold State.init
    rw [hget]
    simp only [true_and, hcreate, destroy_snd]
    by_cases hevent : cuda.eventCreate
    · rw [if_pos hevent]
      refine iff_of_true ⟨?_, ?_, ?_⟩ fun hn => absurd hevent hn
      · simp [hl, hcount]
      · simp
      · simp [honce]
    · rw [if_neg hevent, releaseAuxStream_last rfl (by simp only; omega), forall_prop_of_true hevent]
      by_cases hrelease : cuda.auxSynchronize ∧ cuda.auxDestroy
      · rw [if_pos hrelease]
        refine iff_of_true ⟨?_, ?_, ?_⟩ hrelease
        · simp [hl]
        · simp [hl]
        · simp [hl, honce]
      · rw [if_neg hrelease]
        refine iff_of_false (fun hb => ?_) hrelease
        have := hb.aux.1 rfl
        rw [hl] at this
        exact Nat.lt_irrefl 0 this
  · have hget : s.incrementInstanceCount.getAuxStream cuda =
        (false, s.incrementInstanceCount) := by
      simp [State.getAuxStream, State.incrementInstanceCount, haux, hcreate]
    unfold State.init
    rw [hget]
    simp only [Bool.false_eq_true, false_and, if_false, destroy_snd, hcreate, iff_false]
    rw [releaseAuxStream_none (s := s.incrementInstanceCount) haux]
    intro hb
    have := hb.count
    simp only [State.incrementInstanceCount, hcount, hl] at this
    cases this

/-- Another stream. -/
theorem balanced_init_next (h : Balanced s) (hl : s.live ≠ []) (stream : Stream) :
    Balanced (s.init cuda stream) := by
  obtain ⟨hpos, haux, honce⟩ := h.of_ne_nil hl
  have hget : s.incrementInstanceCount.getAuxStream cuda = (true, s.incrementInstanceCount) :=
    if_pos haux
  unfold State.init
  rw [hget]
  simp only [true_and, destroy_snd]
  by_cases hevent : cuda.eventCreate
  · rw [if_pos hevent]
    refine ⟨?_, ?_, ?_⟩
    · simp [State.incrementInstanceCount, h.count]
    · simp [State.incrementInstanceCount, haux]
    · simp [State.incrementInstanceCount, honce]
  · have hne : s.incrementInstanceCount.instanceCount ≠ 1 := by
      simp only [State.incrementInstanceCount]
      omega
    rw [if_neg hevent, releaseAuxStream_some (s := s.incrementInstanceCount) haux hne]
    exact ⟨by simp [State.incrementInstanceCount, h.count], h.aux, h.once⟩

/-- **The `try` of a constructor** keeps the balance exactly when it is sound. -/
theorem balanced_init (h : Balanced s) (stream : Stream) :
    Balanced (s.init cuda stream) ↔ FirstSound s cuda := by
  by_cases hl : s.live = []
  · rw [balanced_init_first h hl, FirstSound, forall_prop_of_true hl]
  · exact iff_of_true (balanced_init_next h hl stream) fun hn => absurd hn hl

/-- A constructor whose stream is not created releases an instance that it has not added. -/
theorem balanced_create (h : Balanced s) :
    Balanced (s.create cuda) ↔ Sound s (.create, cuda) := by
  change _ ↔ if cuda.streamCreate then FirstSound s cuda else s.live = []
  unfold State.create
  by_cases hcreate : cuda.streamCreate
  · rw [if_pos hcreate, if_pos hcreate]
    exact balanced_init h _
  rw [if_neg hcreate, if_neg hcreate, destroy_snd]
  by_cases hl : s.live = []
  · rw [releaseAuxStream_none (h.of_nil hl).2.1]
    exact iff_of_true h hl
  obtain ⟨hpos, haux, honce⟩ := h.of_ne_nil hl
  refine iff_of_false (fun hb => ?_) hl
  have hcount := h.count
  by_cases hone : s.instanceCount = 1
  · rw [releaseAuxStream_last haux hone] at hb
    have hb := hb.count
    split_ifs at hb
    · simp only at hb
      omega
    · simp only at hb
      omega
  · rw [releaseAuxStream_some haux hone] at hb
    have hb := hb.count
    simp only at hb
    omega

theorem balanced_wrap (h : Balanced s) : Balanced (s.wrap cuda) ↔ Sound s (.wrap, cuda) := by
  change _ ↔ (cuda.streamGetFlags → FirstSound s cuda)
  unfold State.wrap
  by_cases hflags : cuda.streamGetFlags
  · rw [if_pos hflags, balanced_init h, forall_prop_of_true hflags]
  · rw [if_neg hflags]
    exact iff_of_true h fun hf => absurd hf hflags

/-- **A destructor** that does not end the process keeps the balance. -/
theorem balanced_destruct (h : Balanced s) {k : Nat} (hd : s.destruct cuda k = some s') :
    Balanced s' := by
  unfold State.destruct at hd
  cases hk : s.live[k]? with
  | none =>
    rw [hk] at hd
    cases hd
  | some stream =>
    rw [hk] at hd
    obtain ⟨hlt, -⟩ := List.getElem?_eq_some_iff.1 hk
    have hlen : (s.live.eraseIdx k).length = s.live.length - 1 := List.length_eraseIdx_of_lt hlt
    obtain ⟨hpos, haux, honce⟩ := h.of_ne_nil (List.ne_nil_of_length_pos (by omega))
    have hcount := h.count
    by_cases hone : s.instanceCount = 1
    · have hnil : s.live.eraseIdx k = [] := List.length_eq_zero_iff.1 (by omega)
      simp only [State.destroy, hnil, releaseAuxStream_last (s := { s with live := [] }) haux hone]
        at hd
      by_cases hrelease : cuda.auxSynchronize ∧ cuda.auxDestroy
      · simp only [if_pos hrelease] at hd
        split_ifs at hd
        rw [← Option.some.inj hd]
        exact ⟨rfl, by simp, by simp [honce]⟩
      · simp [if_neg hrelease] at hd
    · simp only [State.destroy,
        releaseAuxStream_some (s := { s with live := s.live.eraseIdx k }) haux hone] at hd
      split_ifs at hd
      rw [← Option.some.inj hd]
      have hrest : 0 < (s.live.eraseIdx k).length := by omega
      refine ⟨by simp only [hlen]; omega, iff_of_true haux hrest, ?_⟩
      rw [if_pos hrest]
      exact honce

/-- **One call** keeps the balance exactly when it is sound. -/
theorem balanced_exec (h : Balanced s) {op : Op × Cuda} (he : exec s op = some s') :
    Balanced s' ↔ Sound s op := by
  obtain ⟨op, cuda⟩ := op
  cases op with
  | create =>
    rw [← Option.some.inj he]
    exact balanced_create h
  | wrap =>
    rw [← Option.some.inj he]
    exact balanced_wrap h
  | destruct k => exact iff_of_true (balanced_destruct h he) trivial

/-! ## Runs -/

/-- **Life time of the auxiliary stream**: every state that a run reaches is balanced exactly when
every call of the run is sound. -/
theorem balanced_run_iff {ops : List (Op × Cuda)}
    (r : Run (fun s op s' => exec s op = some s') initial ops s') :
    (∀ pre m, pre <+: ops → Run (fun s op s' => exec s op = some s') initial pre m → Balanced m) ↔
      Run (fun s op s' => exec s op = some s' ∧ Sound s op) initial ops s' :=
  r.reached_iff (fun _ _ _ h he => balanced_exec h he) balanced_initial

/-- Calls to CUDA that succeed. -/
def success : Cuda where
  streamCreate := true
  streamGetFlags := true
  auxCreate := true
  eventCreate := true
  auxSynchronize := true
  auxDestroy := true
  eventDestroy := true

/-- The default stream, two streams of which one has no event, and both that are there destroyed. -/
def calls : List (Op × Cuda) :=
  [(.wrap, success), (.create, { success with eventCreate := false }), (.create, success),
    (.destruct 1, success), (.destruct 0, success)]

theorem balanced_run_iff_calls : ∃ s, Run (fun s op s' => exec s op = some s') initial calls s ∧
    ∀ pre m, pre <+: calls → Run (fun s op s' => exec s op = some s') initial pre m →
      Balanced m := by
  have r : Run (fun s op s' => exec s op = some s') initial calls _ :=
    .cons rfl (.cons rfl (.cons rfl (.cons rfl (.cons rfl (.nil _)))))
  refine ⟨_, r, (balanced_run_iff r).2 ?_⟩
  refine .cons ⟨rfl, fun _ _ => ⟨rfl, fun h => absurd rfl h⟩⟩ ?_
  refine .cons ⟨rfl, fun h => absurd h (List.cons_ne_nil _ _)⟩ ?_
  refine .cons ⟨rfl, fun h => absurd h (List.cons_ne_nil _ _)⟩ ?_
  exact .cons ⟨rfl, trivial⟩ (.cons ⟨rfl, trivial⟩ (.nil _))

/-- A stream that is not created takes away the auxiliary stream of the one that lives, and a first
stream without an auxiliary stream stays counted. -/
theorem unbalanced_run :
    (∃ s, Run (fun s op s' => exec s op = some s') initial
      [(.wrap, success), (.create, { success with streamCreate := false })] s ∧
      s.live.length = 1 ∧ s.instanceCount = 0 ∧ s.auxStream = false) ∧
    ∃ s, Run (fun s op s' => exec s op = some s') initial
      [(.create, { success with auxCreate := false })] s ∧
      s.live.length = 0 ∧ s.instanceCount = 1 :=
  ⟨⟨_, .cons rfl (.cons rfl (.nil _)), rfl, rfl, rfl⟩, _, .cons rfl (.nil _), rfl, rfl⟩

end Nvcvpy.AuxStream
