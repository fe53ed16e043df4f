import CvCuda.Nvcvpy.Resource

/-! # A resource hands its work from stream to stream

* `submitSync_cases`: what a call does, whether it returns or not.
* `Held`: a command comes before whatever the last stream of the resource does next; every call
  and every command keep that (`held_exec`, `held_run`).
* `submitSync_ordered`: so what was enqueued on a stream before the next call comes before what is
  enqueued on the stream of any later call. `submitSync_unordered`: later work need not.
-/

namespace Nvcvpy.Resource

open StreamOrder

variable {T S E W : Type}

section
variable [DecidableEq S] {handle : T → S} {r : State T S E W}

theorem exec_submitSync (cuda : Cuda) (others : List (Command S E W)) (t : T) :
    Op.exec handle r (.submitSync cuda others t) = (submitSync handle cuda others t r).2 := rfl

/-- **What a call does**: the last stream has the handle, or the call throws, or the stream waits
for the last one. -/
theorem submitSync_cases (cuda : Cuda) (others : List (Command S E W)) (t : T) :
    (handle (r.lastStream.getD t) = handle t ∧
      submitSync handle cuda others t r = (true, { r with lastStream := r.lastStream.getD t })) ∨
    (∃ event tail, submitSync handle cuda others t r =
      (false, ⟨r.lastStream.getD t, event, r.history ++ tail⟩)) ∨
    submitSync handle cuda others t r = (true, ⟨t, true, r.history ++
      .record none (handle (r.lastStream.getD t)) :: others.map Command.cmd ++
        [.waitEvent (handle t) none]⟩) := by
  unfold submitSync
  by_cases h : handle (r.lastStream.getD t) = handle t
  · exact .inl ⟨h, if_pos h⟩
  right
  simp only [if_neg h]
  split_ifs with hcreate hrecord hwait
  · exact .inr rfl
  · exact .inl ⟨true, _, rfl⟩
  · exact .inl ⟨true, [], by rw [List.append_nil]⟩
  · exact .inl ⟨r.event, [], by rw [List.append_nil]⟩

end

/-! ## What the last stream waits for -/

variable {handle : T → S} {r : State T S E W} {p : Nat}

/-- The command at `p` comes before what the last stream does next. -/
def Held (handle : T → S) (r : State T S E W) (p : Nat) : Prop :=
  ∃ t, r.lastStream = some t ∧ p ∈ OnStream r.history (handle t)

theorem mem_onStream_self {h : List (Cmd S (Option E) W)} {s : S} {w : W}
    (hp : h[p]? = some (.enqueue s w)) : p ∈ OnStream h s := ⟨p, _, hp, rfl, .refl⟩

/-- Others do not record the event of the resource. -/
theorem atEvent_others {h : List (Cmd S (Option E) W)} (hp : p ∈ AtEvent h none)
    (others : List (Command S E W)) : p ∈ AtEvent (h ++ others.map Command.cmd) none := by
  induction others generalizing h with
  | nil => rwa [List.map_nil, List.append_nil]
  | cons c others ih =>
    rw [List.map_cons, ← List.singleton_append, ← List.append_assoc]
    refine ih (atEvent_concat.2 (.inr ⟨?_, hp⟩))
    rintro ⟨s, hs⟩
    cases c <;> cases hs

/-- A stream that waits for another comes after what that one waited for. -/
theorem onStream_wait {h : List (Cmd S (Option E) W)} {s : S} (hp : p ∈ OnStream h s)
    (others : List (Command S E W)) (s' : S) :
    p ∈ OnStream (h ++ .record none s :: others.map Command.cmd ++ [.waitEvent s' none]) s' := by
  have hrecord : p ∈ AtEvent (h ++ [.record none s]) none :=
    atEvent_concat.2 (.inl ⟨⟨s, rfl⟩, .inr (mem_past_record.2 (.inl hp))⟩)
  have hothers := atEvent_others hrecord others
  rw [List.append_assoc, List.singleton_append] at hothers
  exact onStream_concat.2 (.inr ⟨rfl, .inr (mem_past_waitEvent.2 (.inr (.inr hothers)))⟩)

variable [DecidableEq S]

/-- **A call and a command** keep what is held. -/
theorem held_exec (h : Held handle r p) (op : Op T S E W) : Held handle (op.exec handle r) p := by
  obtain ⟨t, ht, hp⟩ := h
  cases op with
  | command c => exact ⟨t, ht, onStream_append hp⟩
  | submitSync cuda others u =>
    have hlast : r.lastStream.getD u = t := by rw [ht, Option.getD_some]
    rw [exec_submitSync]
    rcases @submitSync_cases _ _ _ _ _ handle r cuda others u with
      ⟨-, heq⟩ | ⟨event, tail, heq⟩ | heq
    · rw [heq]
      exact ⟨_, rfl, by rwa [hlast]⟩
    · rw [heq]
      exact ⟨_, rfl, by rw [hlast]; exact onStream_append hp⟩
    · rw [heq]
      exact ⟨u, rfl, by rw [hlast]; exact onStream_wait hp others (handle u)⟩

theorem run_append (ops ops' : List (Op T S E W)) :
    run handle (ops ++ ops') = ops'.foldl (Op.exec handle) (run handle ops) := List.foldl_append

/-- **A run** keeps what is held. -/
theorem held_run {ops : List (Op T S E W)} (h : Held handle (run handle ops) p)
    (ops' : List (Op T S E W)) : Held handle (run handle (ops ++ ops')) p := by
  rw [run_append]
  generalize run handle ops = r at h
  induction ops' generalizing r with
  | nil => exact h
  | cons op ops' ih => exact ih _ (held_exec h op)

/-- After a call that returns, the last stream has the handle. -/
theorem lastStream_of_returns {ops : List (Op T S E W)} {cuda : Cuda}
    {others : List (Command S E W)} {t : T} (h : Returns handle ops cuda others t) :
    ∃ u, (run handle (ops ++ [.submitSync cuda others t])).lastStream = some u ∧
      handle u = handle t := by
  rw [run_append, List.foldl_cons, List.foldl_nil, exec_submitSync]
  unfold Returns at h
  rcases @submitSync_cases _ _ _ _ _ handle (run handle ops) cuda others t with
    ⟨hh, heq⟩ | ⟨event, tail, heq⟩ | heq
  · rw [heq]
    exact ⟨_, rfl, hh⟩
  · rw [heq] at h
    cases h
  · rw [heq]
    exact ⟨t, rfl, rfl⟩

/-- Commands of others leave the last stream as it is. -/
theorem lastStream_commands (ops : List (Op T S E W)) (cs : List (Command S E W)) :
    (run handle (ops ++ cs.map .command)).lastStream = (run handle ops).lastStream := by
  rw [run_append]
  generalize run handle ops = r
  induction cs generalizing r with
  | nil => rfl
  | cons c cs ih => exact ih _

/-- The history of a run goes on. -/
theorem onStream_run {ops : List (Op T S E W)} {s : S} (h : p ∈ OnStream (run handle ops).history s)
    (ops' : List (Op T S E W)) : p ∈ OnStream (run handle (ops ++ ops')).history s := by
  rw [run_append]
  generalize run handle ops = r at h
  induction ops' generalizing r with
  | nil => exact h
  | cons op ops' ih =>
    refine ih _ ?_
    cases op with
    | command c => exact onStream_append h
    | submitSync cuda others u =>
      rw [exec_submitSync]
      rcases @submitSync_cases _ _ _ _ _ handle r cuda others u with
        ⟨-, heq⟩ | ⟨event, tail, heq⟩ | heq
      · rwa [heq]
      · rw [heq]
        exact onStream_append h
      · rw [heq, List.append_assoc]
        exact onStream_append h

/-- **Cross-stream use is ordered**: what is on the stream of a call that returned, before the next
call, comes before what is enqueued on the stream of any later call that returned, after it. -/
theorem submitSync_ordered (before mid after : List (Op T S E W)) (work : List (Command S E W))
    {cuda cuda' : Cuda} {others others' : List (Command S E W)} {t u : T} {w w' : W}
    (ht : Returns handle before cuda others t)
    (hu : Returns handle (before ++ [.submitSync cuda others t] ++ work.map .command ++ mid)
      cuda' others' u)
    (hp : (run handle (before ++ [.submitSync cuda others t] ++ work.map .command)).history[p]? =
      some (.enqueue (handle t) w)) :
    Before ((run handle (before ++ [.submitSync cuda others t] ++ work.map .command ++ mid ++
        [.submitSync cuda' others' u] ++ after)).history ++ [.enqueue (handle u) w']) p
      (run handle (before ++ [.submitSync cuda others t] ++ work.map .command ++ mid ++
        [.submitSync cuda' others' u] ++ after)).history.length := by
  obtain ⟨t', hlast, htt⟩ := lastStream_of_returns ht
  have hheld : Held handle (run handle (before ++ [.submitSync cuda others t] ++
      work.map .command)) p :=
    ⟨t', by rw [lastStream_commands, hlast], htt ▸ mem_onStream_self hp⟩
  have hheld' := held_run (held_run hheld mid) [.submitSync cuda' others' u]
  obtain ⟨u', hlast', huu⟩ := lastStream_of_returns hu
  obtain ⟨v, hv, hmem⟩ := hheld'
  rw [Option.some.inj (hv.symm.trans hlast'), huu] at hmem
  exact before_concat.2 (mem_past_enqueue.2 (.inl (onStream_run hmem after)))

/-- Calls to CUDA that succeed. -/
def success : Cuda where
  eventCreate := true
  eventRecord := true
  streamWaitEvent := true

/-- A call for a stream that is its handle. -/
def sync (s : Nat) : Op Nat Nat Empty Unit := .submitSync success [] s

/-- Streams 0, 1 and 2 in turn: what is enqueued on the first comes before what is on the last. -/
theorem submitSync_ordered_three :
    Before ((run id [sync 0, .command (.enqueue 0 ()), sync 1, sync 2]).history ++
      [.enqueue 2 ()]) 0 5 :=
  submitSync_ordered [] [sync 1] [] [.enqueue 0 ()] (t := 0) (u := 2) (w := ()) rfl rfl rfl

/-- What is enqueued on stream 0 while stream 1 is the last is not what stream 1 waits for, in a
call that finds itself the last. -/
theorem submitSync_unordered :
    Returns id ([] : List (Op Nat Nat Empty Unit)) success [] 0 ∧ Returns id [sync 0] success [] 1 ∧
    Returns id [sync 0, sync 1, .command (.enqueue 0 ())] success [] 1 ∧
    (run id [sync 0, sync 1, .command (.enqueue 0 ())]).history[2]? = some (.enqueue 0 ()) ∧
    ¬Before ((run id [sync 0, sync 1, .command (.enqueue 0 ()), sync 1]).history ++
      [.enqueue 1 ()]) 2 3 := by
  refine ⟨rfl, rfl, rfl, rfl, fun h => ?_⟩
  rcases mem_past_enqueue.1 (before_concat.1 h) with ⟨j, c, hj, hc, hr⟩ | ⟨j, e, hj, hr⟩
  · have hle := hr.le
    have hlt : j < 3 := (List.getElem?_eq_some_iff.1 hj).1
    obtain rfl : j = 2 := by omega
    cases hj
    cases hc
  · have hle := hr.le
    have hlt : j < 3 := (List.getElem?_eq_some_iff.1 hj).1
    obtain rfl : j = 2 := by omega
    cases hj

end Nvcvpy.Resource
