import CvCuda.Cvcuda.BoxBlur

/-! # Calls of a box blur that disturb each other

Each kernel is to read the commands of the call that launched it. `Safe` says when a call leaves
those of the earlier calls alone.

* `infer_cases`: what a call does.
* `delivered_enqueue_iff`: what becomes of the earlier calls when one stages its commands.
* `boxes_delivered_iff`: whole runs.
* `second_call_overwrites`: two calls one after the other.
-/

namespace Cvcuda.BoxBlur

open WorkQueue

/-- The commands that a call stages. -/
def staged (r : Request) : List BoxBlurCommand :=
  if check r = none ∧ ¬r.inShape.C < 3 ∧ r.outShape = r.inShape then r.commands else []

/-- A call that stages commands either puts them where those already are on which a copy waits, or
needs a larger block and finds no kernel waiting, unless freeing the old one waits for these. -/
def Safe (rt : Runtime) (s : State) (r : Request) : Prop :=
  staged r ≠ [] →
    if s.gpuBlurCommands.capacity < (staged r).length then rt.freeWaits ∨ kernels s.queue = []
    else ∀ n ∈ waiting s.queue, ∀ k < n, ∀ c, (staged r)[k]? = some c →
      (s.mem.host s.gpuBlurCommands.host).map (· k) = some c

def Event.Safe (rt : Runtime) (s : State) : Event → Prop
  | .infer r => BoxBlur.Safe rt s r
  | .exec => True

/-- Every call of a run is safe where it is made. -/
def SafeRun (rt : Runtime) : State → List Event → Prop
  | _, [] => True
  | s, e :: es => e.Safe rt s ∧ ∀ s', step rt s e = some s' → SafeRun rt s' es

/-- Every kernel has read, of those that the stream ran, the commands of its call. -/
def Delivered (s : State) (m : WorkQueue.Memory BoxBlurCommand) : Prop :=
  Right (fun i => s.calls[i]?) m

instance (s : State) (m : WorkQueue.Memory BoxBlurCommand) : Decidable (Delivered s m) :=
  inferInstanceAs (Decidable (Right _ m))

namespace State

def len (s : State) (i : Nat) : Nat := (s.calls[i]?.getD []).length

/-- Between two calls whose runs were safe so far, and while one stages its commands. -/
structure Inv (s : State) : Prop where
  host : (s.mem.host s.gpuBlurCommands.host).isSome
  device : (s.mem.device s.gpuBlurCommands.device).isSome
  next : s.gpuBlurCommands.device < s.next
  kernels : ∀ id ∈ kernels s.queue, id < s.calls.length
  ran : ∀ r ∈ s.mem.ran, r.1 < s.calls.length
  led : Led s.gpuBlurCommands.host s.gpuBlurCommands.device s.len s.queue
  delivered : Delivered s s.finish

end State

/-! ## What a call does -/

/-- What is left of a call that has its block, with a kernel or without. -/
def State.submit (s : State) (launched : Bool) : State :=
  let t := s.stage.copyHostToDevice
  (if launched then t.renderBlur else t).done s.blurCommands

/-- A call that stages commands. -/
def enqueue (rt : Runtime) (s : State) (cs : List BoxBlurCommand) (launched : Bool) : State :=
  ({ s with blurCommands := cs }.allocOrResizeTo rt cs.length).submit launched

@[simp] theorem State.allocOrResizeTo_blurCommands (rt : Runtime) (s : State) (size : Nat) :
    (s.allocOrResizeTo rt size).blurCommands = s.blurCommands := by
  rw [State.allocOrResizeTo]
  split <;> rfl

/-- **A call** is rejected, or has no commands, or stages them. -/
theorem infer_cases {rt : Runtime} {r : Request} {s s' : State} {code : ErrorCode}
    (hb : s.blurCommands = []) (h : infer rt r s = some (s', code)) :
    (staged r = [] ∧ ∃ cs, s' = { s with calls := s.calls ++ [cs] }) ∨
      staged r ≠ [] ∧ ∃ launched, s' = enqueue rt s (staged r) launched := by
  unfold infer at h
  cases hc : check r with
  | some c =>
    simp only [hc, Option.some.injEq, Prod.mk.injEq] at h
    obtain ⟨rfl, -⟩ := h
    refine .inl ⟨if_neg (by rw [hc]; rintro ⟨h, -⟩; cases h), r.commands, ?_⟩
    rw [State.done, hb]
  | none =>
    simp only [hc] at h
    by_cases h3 : r.inShape.C < 3
    · rw [if_pos h3] at h
      cases h
    · rw [if_neg h3, hb, List.nil_append] at h
      generalize hcs : r.commands = cs at h
      generalize ha : applyBoxBlur rt _ r _ = a at h
      simp only [Option.some.injEq, Prod.mk.injEq] at h
      obtain ⟨rfl, -⟩ := h
      unfold applyBoxBlur at ha
      by_cases ho : r.outShape = r.inShape
      · have hst : staged r = cs := by rw [staged, if_pos ⟨hc, h3, ho⟩, hcs]
        rw [if_neg (by rw [ho]; simp)] at ha
        by_cases hn : cs = []
        · refine .inl ⟨hst.trans hn, [], ?_⟩
          subst hn
          split_ifs at ha <;> subst ha <;> simp only [hb] <;> rfl
        · refine .inr ⟨hst ▸ hn, decide (max r.srcMaxStride r.dstMaxStride ≤ 2 ^ 31 - 1), ?_⟩
          rw [hst]
          simp only [State.cuosdApply, ne_eq, hn, not_false_eq_true, if_true] at ha
          split_ifs at ha with hm
          · subst ha
            rw [enqueue, decide_eq_true hm, State.submit, State.allocOrResizeTo_blurCommands]
            rfl
          · subst ha
            rw [enqueue, decide_eq_false hm, State.submit, State.allocOrResizeTo_blurCommands]
            rfl
      · refine .inl ⟨if_neg fun h => ho h.2.2, cs, ?_⟩
        rw [if_pos (.inl ho)] at ha
        subst ha
        rw [State.done, hb]

/-! ## Staging -/

/-- Commands staged over a block leave its start as it was when they are what was there. -/
theorem overwrite_eq_iff {f : Nat → BoxBlurCommand} {cs : List BoxBlurCommand} {n : Nat} :
    (List.range n).map (fun k => cs.getD k (f k)) = (List.range n).map f ↔
      ∀ k < n, ∀ c, cs[k]? = some c → f k = c := by
  rw [List.map_inj_left]
  refine forall_congr' fun k => ?_
  rw [List.mem_range]
  refine imp_congr_right fun _ => ?_
  rw [List.getD_eq_getElem?_getD]
  cases cs[k]? with
  | none => simp
  | some c => simp [eq_comm]

theorem overwrite_eq_self {f : Nat → BoxBlurCommand} (cs : List BoxBlurCommand) :
    (List.range cs.length).map (fun k => cs.getD k (f k)) = cs := by
  apply List.ext_getElem?
  intro k
  rw [List.getElem?_map]
  by_cases hk : k < cs.length
  · rw [List.getElem?_range hk, Option.map_some, List.getD_eq_getElem?_getD,
      List.getElem?_eq_getElem hk]
    rfl
  · rw [List.getElem?_eq_none (by simpa using hk), List.getElem?_eq_none (by simpa using hk)]
    rfl

section
variable {s : State} {cs : List BoxBlurCommand}

/-- A call more leaves what was meant for those before. -/
theorem right_calls {m : WorkQueue.Memory BoxBlurCommand} (h : ∀ r ∈ m.ran, r.1 < s.calls.length) :
    Right (fun i => (s.calls ++ [cs])[i]?) m ↔ Delivered s m := by
  refine forall_congr' fun r => forall_congr' fun hr => ?_
  simp only [List.getElem?_append_left (h r hr)]

theorem len_append {s' : State} (hc : s'.calls = s.calls ++ [cs]) {i : Nat}
    (hi : i < s.calls.length) : s'.len i = s.len i := by
  rw [State.len, State.len, hc, List.getElem?_append_left hi]

theorem len_last {s' : State} (hc : s'.calls = s.calls ++ [cs]) :
    s'.len s.calls.length = cs.length := by
  rw [State.len, hc, List.getElem?_concat_length]
  rfl

end

/-! ## The invariant -/

theorem kernels_exec {w : Work} {ws : List Work} {id : Nat} (h : id ∈ kernels ws) :
    id ∈ kernels (w :: ws) := by
  cases w with
  | copy => exact h
  | kernel => exact List.mem_cons_of_mem _ h

theorem ran_exec {m : WorkQueue.Memory BoxBlurCommand} {w : Work} {ws : List Work} {n : Nat}
    (hk : ∀ id ∈ kernels (w :: ws), id < n) (hr : ∀ r ∈ m.ran, r.1 < n) :
    ∀ r ∈ (m.exec w).ran, r.1 < n := by
  intro r h
  cases w with
  | copy src dst n =>
    simp only [WorkQueue.Memory.exec] at h
    split at h <;> exact hr r h
  | kernel id src n =>
    simp only [WorkQueue.Memory.exec, List.mem_append, List.mem_singleton] at h
    rcases h with h | rfl
    · exact hr r h
    · exact hk id List.mem_cons_self

theorem ran_drain {m : WorkQueue.Memory BoxBlurCommand} {ws : List Work} {n : Nat}
    (hk : ∀ id ∈ kernels ws, id < n) (hr : ∀ r ∈ m.ran, r.1 < n) :
    ∀ r ∈ (m.drain ws).ran, r.1 < n := by
  induction ws generalizing m with
  | nil => exact hr
  | cons w ws ih => exact ih (fun id hid => hk id (kernels_exec hid)) (ran_exec hk hr)

namespace State.Inv

variable {rt : Runtime} {s s' : State}

theorem new (rt : Runtime) : (State.new rt).Inv where
  host := by simp [State.new, State.malloc]
  device := by simp [State.new, State.malloc]
  next := Nat.zero_lt_one
  kernels := by
    intro id h
    cases h
  ran := by
    intro r h
    cases h
  led := .inl .nil
  delivered := by
    intro r h
    cases h

/-- The stream doing a piece of its work changes nothing of what will be read. -/
theorem exec (h : s.Inv) (hs : step rt s .exec = some s') : s'.Inv := by
  unfold step at hs
  cases hq : s.queue with
  | nil =>
    simp only [hq, Option.some.injEq] at hs
    exact hs ▸ h
  | cons w ws =>
    simp only [hq, Option.some.injEq] at hs
    subst hs
    have hk := h.kernels
    rw [hq] at hk
    have hd := h.delivered
    rw [State.finish, hq, WorkQueue.Memory.drain_cons] at hd
    have hl := h.led
    rw [hq] at hl
    exact
      { host := by rw [WorkQueue.Memory.exec_host]; exact h.host
        device := WorkQueue.Memory.exec_device_isSome h.device w
        next := h.next
        kernels := fun id hid => hk id (kernels_exec hid)
        ran := ran_exec hk h.ran
        led := hl.tail
        delivered := hd }

theorem delivered_append (h : s.Inv) (cs : List BoxBlurCommand) :
    Right (fun i => (s.calls ++ [cs])[i]?) s.finish :=
  (right_calls (ran_drain h.kernels h.ran)).2 h.delivered

/-- A call that stages nothing. -/
theorem call (h : s.Inv) (cs : List BoxBlurCommand) :
    { s with calls := s.calls ++ [cs] }.Inv where
  host := h.host
  device := h.device
  next := h.next
  kernels := by
    intro id hid
    have hlt := h.kernels id hid
    simp only [List.length_append, List.length_singleton]
    omega
  ran := by
    intro r hr
    have hlt := h.ran r hr
    simp only [List.length_append, List.length_singleton]
    omega
  led := h.led.congr fun id hid => len_append rfl (h.kernels id hid)
  delivered := h.delivered_append cs

/-- A larger block, when no kernel waits or freeing the old one waits for those that do. -/
theorem realloc (h : s.Inv) (hf : rt.freeWaits ∨ WorkQueue.kernels s.queue = []) (size : Nat) :
    ((s.freeMemory rt).malloc rt size).Inv := by
  have hk : WorkQueue.kernels ((s.freeMemory rt).malloc rt size).queue = [] := by
    simp only [malloc, freeMemory]
    split
    · rfl
    · rename_i hw
      exact hf.resolve_left hw
  have hran : ∀ r ∈ ((s.freeMemory rt).malloc rt size).mem.ran, r ∈ s.finish.ran := by
    intro r hr
    simp only [malloc, freeMemory] at hr
    split at hr
    · exact hr
    · exact (WorkQueue.Memory.ran_prefix_drain _ _).subset hr
  have hsh : Shape s.next s.next ((s.freeMemory rt).malloc rt size).len
      ((s.freeMemory rt).malloc rt size).queue := by
    simp only [malloc, freeMemory]
    split
    · exact .nil
    · rename_i hw
      exact h.led.of_kernels (hf.resolve_left hw) _ _ _
  have hdev : ((s.freeMemory rt).malloc rt size).mem.device s.next = some (rt.fresh s.next) :=
    Function.update_self _ _ _
  have hhost : ((s.freeMemory rt).malloc rt size).mem.host s.next = some (rt.fresh s.next) :=
    Function.update_self _ _ _
  refine
    { host := Option.isSome_of_mem hhost
      device := Option.isSome_of_mem hdev
      next := Nat.lt_succ_self _
      kernels := ?_
      ran := fun r hr => ran_drain h.kernels h.ran r (hran r hr)
      led := .inl hsh
      delivered := ?_ }
  · rw [hk]
    intro id hid
    cases hid
  · refine (right_drain hsh hhost (Option.isSome_of_mem hdev)).2 ⟨fun r hr => h.delivered r (hran r hr), ?_⟩
    rw [hk]
    intro id hid
    cases hid

end State.Inv

/-! ## Calls that stage commands -/

namespace State

variable {s : State}

/-- What a call adds to the work of the stream. -/
def tail (s : State) (launched : Bool) : List Work :=
  .copy s.gpuBlurCommands.host s.gpuBlurCommands.device s.blurCommands.length ::
    if launched then [.kernel s.calls.length s.gpuBlurCommands.device s.blurCommands.length] else []

theorem submit_eq (hb : s.blurCommands ≠ [])
    (hs : s.gpuBlurCommands.size = s.blurCommands.length) (launched : Bool) :
    s.submit launched = { s with
      mem := s.stage.mem
      queue := s.queue ++ s.tail launched
      blurCommands := []
      calls := s.calls ++ [s.blurCommands] } := by
  cases launched with
  | false =>
    simp only [submit, copyHostToDevice, stage, Bool.false_eq_true, if_false, hs, tail]
    rfl
  | true =>
    have hpos : 0 < s.blurCommands.length := List.length_pos_iff.2 hb
    simp only [submit, renderBlur, copyHostToDevice, stage, if_true, if_pos hpos, hs, tail,
      List.append_assoc]
    rfl

theorem tail_shape {len : Nat → Nat} (hl : len s.calls.length = s.blurCommands.length)
    (launched : Bool) :
    Shape s.gpuBlurCommands.host s.gpuBlurCommands.device len (s.tail launched) := by
  rw [tail, ← hl]
  cases launched with
  | false => exact .copy _ _ _ .nil
  | true => exact .launch _ .nil

theorem kernels_tail {launched : Bool} {id : Nat} (h : id ∈ WorkQueue.kernels (s.tail launched)) :
    id = s.calls.length := by
  cases launched with
  | false => cases h
  | true => exact List.mem_singleton.1 h

theorem stage_host {f : Nat → BoxBlurCommand}
    (hf : s.mem.host s.gpuBlurCommands.host = some f) :
    s.stage.mem.host s.gpuBlurCommands.host = some fun k => s.blurCommands.getD k (f k) := by
  show Function.update _ _ _ _ = _
  rw [Function.update_self, hf]
  rfl

end State

/-- **A call that stages commands** leaves those of the earlier calls right when no copy waits on
what it overwrites with something else. -/
theorem delivered_submit_iff {s : State} (h : s.Inv) (hb : s.blurCommands ≠ [])
    (hs : s.gpuBlurCommands.size = s.blurCommands.length) (launched : Bool) :
    Delivered (s.submit launched) (s.submit launched).finish ↔
      ∀ n ∈ waiting s.queue, ∀ k < n, ∀ c, s.blurCommands[k]? = some c →
        (s.mem.host s.gpuBlurCommands.host).map (· k) = some c := by
  obtain ⟨f, hf⟩ := Option.isSome_iff_exists.1 h.host
  have hhost := State.stage_host hf
  have hdev : (s.stage.mem.device s.gpuBlurCommands.device).isSome := h.device
  have hlen : (s.submit launched).len s.calls.length = s.blurCommands.length :=
    len_last (by rw [State.submit_eq hb hs])
  -- the kernel of the call itself reads what was staged last
  have htail : Delivered (s.submit launched) (s.submit launched).finish ↔
      Right (fun i => (s.calls ++ [s.blurCommands])[i]?) (s.stage.mem.drain s.queue) := by
    have hsh := State.tail_shape hlen launched
    have hd := WorkQueue.Memory.drain_device_isSome hdev s.queue
    have hh := hhost
    rw [← WorkQueue.Memory.drain_host _ s.queue] at hh
    rw [Delivered, State.finish]
    rw [show (s.submit launched).mem.drain (s.submit launched).queue =
      (s.stage.mem.drain s.queue).drain (s.tail launched) by
        rw [State.submit_eq hb hs, ← WorkQueue.Memory.drain_append]]
    rw [right_drain hsh hh hd]
    rw [show (s.submit launched).calls = s.calls ++ [s.blurCommands] by
      rw [State.submit_eq hb hs]]
    refine and_iff_left ?_
    intro id hid
    rw [State.kernels_tail hid, hlen, overwrite_eq_self, List.getElem?_concat_length]
  have hmeant := h.delivered_append s.blurCommands
  rw [htail, right_overwrite h.led hf hhost h.device rfl rfl hmeant]
  refine forall_congr' fun n => forall_congr' fun _ => ?_
  rw [overwrite_eq_iff, hf]
  simp only [Option.map_some, Option.some.injEq]

theorem State.Inv.submit {s : State} (h : s.Inv) (hb : s.blurCommands ≠ [])
    (hs : s.gpuBlurCommands.size = s.blurCommands.length) {launched : Bool}
    (hd : Delivered (s.submit launched) (s.submit launched).finish) :
    (s.submit launched).Inv := by
  obtain ⟨f, hf⟩ := Option.isSome_iff_exists.1 h.host
  have hhost := State.stage_host hf
  have heq := State.submit_eq hb hs launched
  have hlen : (s.submit launched).len s.calls.length = s.blurCommands.length :=
    len_last (by rw [heq])
  have hcalls : (s.submit launched).calls.length = s.calls.length + 1 := by
    rw [heq, List.length_append, List.length_singleton]
  refine
    { host := by rw [heq]; exact Option.isSome_of_mem hhost
      device := by rw [heq]; exact h.device
      next := by rw [heq]; exact h.next
      kernels := ?_
      ran := ?_
      led := ?_
      delivered := hd }
  · intro id hid
    rw [hcalls]
    rw [heq, kernels_append, List.mem_append] at hid
    rcases hid with hid | hid
    · exact Nat.lt_succ_of_lt (h.kernels id hid)
    · rw [State.kernels_tail hid]
      exact Nat.lt_succ_self _
  · intro r hr
    rw [hcalls]
    rw [heq] at hr
    exact Nat.lt_succ_of_lt (h.ran r hr)
  · have hold : Led s.gpuBlurCommands.host s.gpuBlurCommands.device (s.submit launched).len
        s.queue := h.led.congr fun id hid => len_append (by rw [heq]) (h.kernels id hid)
    have hnew := hold.append (State.tail_shape hlen launched)
    rw [show (s.submit launched).gpuBlurCommands = s.gpuBlurCommands by rw [heq],
      show (s.submit launched).queue = s.queue ++ s.tail launched by rw [heq]]
    exact hnew

section
variable {rt : Runtime} {s s' : State} {cs : List BoxBlurCommand}

/-- A block that is large enough is used again. -/
theorem delivered_enqueue_fit (rt : Runtime) (launched : Bool) (h : s.Inv) (hne : cs ≠ [])
    (hc : ¬s.gpuBlurCommands.capacity < cs.length) :
    (Delivered (enqueue rt s cs launched) (enqueue rt s cs launched).finish ↔
      ∀ n ∈ waiting s.queue, ∀ k < n, ∀ c, cs[k]? = some c →
        (s.mem.host s.gpuBlurCommands.host).map (· k) = some c) ∧
    (Delivered (enqueue rt s cs launched) (enqueue rt s cs launched).finish →
      (enqueue rt s cs launched).Inv) := by
  have ht : ({ s with blurCommands := cs }.allocOrResizeTo rt cs.length).Inv := by
    rw [State.allocOrResizeTo, if_neg hc]
    exact ⟨h.host, h.device, h.next, h.kernels, h.ran, h.led, h.delivered⟩
  have heq : enqueue rt s cs launched = State.submit { s with
      gpuBlurCommands := { s.gpuBlurCommands with size := cs.length }
      blurCommands := cs } launched := by
    rw [enqueue, State.allocOrResizeTo, if_neg hc]
  rw [State.allocOrResizeTo, if_neg hc] at ht
  rw [heq]
  exact ⟨delivered_submit_iff ht hne rfl launched, fun hd => ht.submit hne rfl hd⟩

/-- With a larger block nothing waits on what is overwritten. -/
theorem delivered_enqueue_realloc (launched : Bool) (h : s.Inv) (hne : cs ≠ [])
    (hc : s.gpuBlurCommands.capacity < cs.length)
    (hf : rt.freeWaits ∨ kernels s.queue = []) :
    Delivered (enqueue rt s cs launched) (enqueue rt s cs launched).finish ∧
      (enqueue rt s cs launched).Inv := by
  have hs' : State.Inv { s with blurCommands := cs } :=
    ⟨h.host, h.device, h.next, h.kernels, h.ran, h.led, h.delivered⟩
  have ht := hs'.realloc hf cs.length
  have heq : enqueue rt s cs launched = State.submit
      ((State.freeMemory rt { s with blurCommands := cs }).malloc rt cs.length) launched := by
    rw [enqueue, State.allocOrResizeTo, if_pos hc]
  have hk : kernels ((State.freeMemory rt { s with blurCommands := cs }).malloc rt
      cs.length).queue = [] := by
    simp only [State.malloc, State.freeMemory]
    split
    · rfl
    · rename_i hw
      exact hf.resolve_left hw
  rw [heq]
  have hd := (delivered_submit_iff ht hne rfl launched).2 (by
    rw [ht.led.waiting_eq_nil hk]
    intro n hn
    cases hn)
  exact ⟨hd, ht.submit hne rfl hd⟩

/-- Freeing the block at once takes it from a kernel that waits. -/
theorem not_delivered_enqueue (launched : Bool) (h : s.Inv) (hne : cs ≠ [])
    (hc : s.gpuBlurCommands.capacity < cs.length) (hf : ¬rt.freeWaits)
    (hk : kernels s.queue ≠ []) :
    ¬Delivered (enqueue rt s cs launched) (enqueue rt s cs launched).finish := by
  obtain ⟨id, hid⟩ := List.exists_mem_of_ne_nil _ hk
  have hnext : s.gpuBlurCommands.device ≠ s.next := h.next.ne
  have heq : enqueue rt s cs launched = State.submit
      ((State.freeMemory rt { s with blurCommands := cs }).malloc rt cs.length) launched := by
    rw [enqueue, State.allocOrResizeTo, if_pos hc]
  have hfree : ((State.freeMemory rt { s with blurCommands := cs }).malloc rt
      cs.length).mem.device s.gpuBlurCommands.device = none := by
    simp only [State.malloc, State.freeMemory, Function.update_apply, if_neg hnext, if_true]
  have hqueue : ((State.freeMemory rt { s with blurCommands := cs }).malloc rt
      cs.length).queue = s.queue := by
    simp only [State.malloc, State.freeMemory, if_neg hf]
  rw [heq, State.submit_eq hne rfl]
  refine @not_right_of_freed _ _ _ _ id _ (s.len id) hfree ?_ ?_
  · rw [hqueue]
    exact List.mem_append_left _ (h.led.mem_kernel hid)
  · show (s.calls ++ [cs])[id]? ≠ none
    rw [List.getElem?_append_left (h.kernels id hid), List.getElem?_eq_getElem (h.kernels id hid)]
    exact Option.some_ne_none _

/-- **A call** leaves every kernel the commands it is to read exactly when it is safe. -/
theorem delivered_infer_iff {r : Request} {code : ErrorCode} (h : s.Inv)
    (hb : s.blurCommands = []) (hi : infer rt r s = some (s', code)) :
    (Delivered s' s'.finish ↔ Safe rt s r) ∧ (Delivered s' s'.finish → s'.Inv) := by
  rcases infer_cases hb hi with ⟨hst, cs, rfl⟩ | ⟨hst, launched, rfl⟩
  · have hs : Safe rt s r := fun hne => absurd hst hne
    have hc := h.call cs
    exact ⟨iff_of_true hc.delivered hs, fun _ => hc⟩
  · by_cases hc : s.gpuBlurCommands.capacity < (staged r).length
    · by_cases hf : rt.freeWaits ∨ kernels s.queue = []
      · obtain ⟨hd, hinv⟩ := delivered_enqueue_realloc launched h hst hc hf
        have hs : Safe rt s r := fun _ => by rw [if_pos hc]; exact hf
        exact ⟨iff_of_true hd hs, fun _ => hinv⟩
      · obtain ⟨hw, hk⟩ := not_or.1 hf
        have hd := not_delivered_enqueue launched h hst hc hw hk
        refine ⟨iff_of_false hd fun hs => hf ?_, fun hd' => absurd hd' hd⟩
        have hs := hs hst
        rwa [if_pos hc] at hs
    · obtain ⟨hiff, hinv⟩ := delivered_enqueue_fit rt launched h hst hc
      refine ⟨hiff.trans ?_, hinv⟩
      rw [Safe, imp_iff_right hst, if_neg hc]

/-- Where the outcome is undefined, no commands were staged. -/
theorem safe_of_step_none {e : Event} (hs : step rt s e = none) : e.Safe rt s := by
  cases e with
  | infer r =>
    intro hne
    refine absurd (if_neg ?_) hne
    rintro ⟨hc, h3, -⟩
    simp only [step, infer, hc, if_neg h3, Option.map_some] at hs
    cases hs
  | exec => trivial

theorem step_blurCommands {e : Event} (hb : s.blurCommands = []) (hs : step rt s e = some s') :
    s'.blurCommands = [] := by
  cases e with
  | infer r =>
    obtain ⟨⟨t, code⟩, hi, rfl⟩ := Option.map_eq_some_iff.1 hs
    rcases infer_cases hb hi with ⟨-, cs, rfl⟩ | ⟨-, launched, rfl⟩
    · exact hb
    · rfl
  | exec =>
    simp only [step] at hs
    split at hs <;> cases hs <;> exact hb

/-- One event, from a state whose run was safe so far. -/
theorem delivered_step_iff {e : Event} (h : s.Inv) (hb : s.blurCommands = [])
    (hs : step rt s e = some s') :
    (Delivered s' s'.finish ↔ e.Safe rt s) ∧ (Delivered s' s'.finish → s'.Inv) := by
  cases e with
  | infer r =>
    obtain ⟨⟨t, code⟩, hi, rfl⟩ := Option.map_eq_some_iff.1 hs
    exact delivered_infer_iff h hb hi
  | exec =>
    have hinv := h.exec hs
    exact ⟨iff_of_true hinv.delivered trivial, fun _ => hinv⟩

end

/-- The run lemma. -/
theorem delivered_run_iff {rt : Runtime} (es : List Event) {s : State} (h : s.Inv)
    (hb : s.blurCommands = []) :
    (∀ p, p <+: es → ∀ s', run rt s p = some s' → Delivered s' s'.finish) ↔ SafeRun rt s es := by
  induction es generalizing s with
  | nil =>
    refine iff_of_true ?_ trivial
    intro p hp s' hs'
    rw [List.prefix_nil.1 hp] at hs'
    cases hs'
    exact h.delivered
  | cons e es ih =>
    cases hs : step rt s e with
    | none =>
      -- the run is over
      refine iff_of_true ?_ ⟨safe_of_step_none hs, fun s' hs' => absurd (hs.symm.trans hs') nofun⟩
      intro p hp s' hs'
      cases p with
      | nil =>
        cases hs'
        exact h.delivered
      | cons e' p =>
        obtain ⟨rfl, -⟩ := List.cons_prefix_cons.1 hp
        rw [run, hs] at hs'
        cases hs'
    | some t =>
      obtain ⟨hiff, hinv⟩ := delivered_step_iff h hb hs
      have hb' := step_blurCommands hb hs
      have hrun : ∀ p, run rt s (e :: p) = run rt t p := fun p => by rw [run, hs, Option.bind_some]
      constructor
      · intro hall
        have hd : Delivered t t.finish :=
          hall [e] (List.cons_prefix_cons.2 ⟨rfl, List.nil_prefix⟩) t (by rw [hrun, run])
        refine ⟨hiff.1 hd, fun s' hs' => ?_⟩
        obtain rfl : t = s' := Option.some.inj (hs.symm.trans hs')
        refine (ih (hinv hd) hb').1 fun p hp s' hs' => ?_
        exact hall (e :: p) (List.cons_prefix_cons.2 ⟨rfl, hp⟩) s' (by rw [hrun, hs'])
      · rintro ⟨hsafe, hnext⟩ p hp s' hs'
        cases p with
        | nil =>
          cases hs'
          exact h.delivered
        | cons e' p =>
          obtain ⟨rfl, hp'⟩ := List.cons_prefix_cons.1 hp
          rw [hrun] at hs'
          exact (ih (hinv (hiff.2 hsafe)) hb').2 (hnext t hs) p hp' s' hs'

/-- **Box blur calls.** In a run from the constructor on, every kernel reads the commands of its
call, whenever the stream gets to its work, if and only if every call is safe. -/
theorem boxes_delivered_iff (rt : Runtime) (es : List Event) :
    (∀ p, p <+: es → ∀ s, run rt (State.new rt) p = some s → Delivered s s.finish) ↔
      SafeRun rt (State.new rt) es :=
  delivered_run_iff es (.new rt) rfl

/-- Blurring the box at `x`, `y` of an image of three channels. -/
def requestAt (x y : Int) : Request where
  inFormat := .nhwc
  outFormat := .nhwc
  sameType := true
  inShape := ⟨1, 3, 100, 100⟩
  outShape := ⟨1, 3, 100, 100⟩
  srcMaxStride := 30000
  dstMaxStride := 30000
  bboxes := [[⟨x, y, 10, 10, 3⟩]]

/-- Two calls before the stream does any work: the first kernel reads the box of the second. -/
theorem second_call_overwrites : ¬∀ rt es s, run rt (State.new rt) es = some s →
    Delivered s s.finish := by
  intro h
  have hd := h ⟨true, fun _ _ => ⟨0, 0, 0, 0, 0, 0⟩⟩ [.infer (requestAt 10 10),
    .infer (requestAt 50 50)] _ rfl
  revert hd
  decide

end Cvcuda.BoxBlur
