import Mathlib.Tactic

/-! # Copies and kernels that run later

The work of a stream: copies from a page-locked block to a block of the device, and kernels that
read a block of the device. A stream runs its work in order, at any time after it was enqueued: a
copy reads the page-locked block as it is then.

* `Memory.exec`, `Memory.drain`: one piece of work, and all of a queue.
* `Right`: every kernel read what was meant for it.
* `Shape`: a queue between two blocks, each kernel right after the copy that it needs.
* `right_drain`: such a queue is right when the page-locked block holds what each kernel is to read.
-/

namespace WorkQueue

variable {T : Type}

/-- A piece of work on blocks given by address; `n` is a number of elements. -/
inductive Work where
  | copy (src dst n : Nat)
  | kernel (id src n : Nat)
  deriving DecidableEq

/-- The blocks that are allocated, and what the kernels that were run have read: nothing, where
the block was freed. -/
structure Memory (T : Type) where
  host : Nat → Option (Nat → T)
  device : Nat → Option (Nat → T)
  ran : List (Nat × Option (List T))

namespace Memory

def exec (m : Memory T) : Work → Memory T
  | .copy src dst n =>
    match m.host src, m.device dst with
    | some f, some g =>
      { m with device := Function.update m.device dst (some fun k => if k < n then f k else g k) }
    | _, _ => m
  | .kernel id src n =>
    { m with ran := m.ran ++ [(id, (m.device src).map fun g => (List.range n).map g)] }

def drain (m : Memory T) (queue : List Work) : Memory T := queue.foldl exec m

@[simp] theorem drain_nil (m : Memory T) : m.drain [] = m := rfl

@[simp] theorem drain_cons (m : Memory T) (w : Work) (ws : List Work) :
    m.drain (w :: ws) = (m.exec w).drain ws := rfl

theorem drain_append (m : Memory T) (ws ws' : List Work) :
    m.drain (ws ++ ws') = (m.drain ws).drain ws' := List.foldl_append

@[simp] theorem exec_host (m : Memory T) (w : Work) : (m.exec w).host = m.host := by
  cases w with
  | copy src dst n =>
    simp only [exec]
    split <;> rfl
  | kernel id src n => rfl

@[simp] theorem drain_host (m : Memory T) (ws : List Work) : (m.drain ws).host = m.host := by
  induction ws generalizing m with
  | nil => rfl
  | cons w ws ih => rw [drain_cons, ih, exec_host]

/-- A block of the device stays allocated. -/
theorem exec_device_isSome {m : Memory T} {d : Nat} (h : (m.device d).isSome) (w : Work) :
    ((m.exec w).device d).isSome := by
  cases w with
  | copy src dst n =>
    simp only [exec]
    split
    · simp only [Function.update_apply]
      split
      · rfl
      · exact h
    · exact h
  | kernel id src n => exact h

theorem drain_device_isSome {m : Memory T} {d : Nat} (h : (m.device d).isSome) (ws : List Work) :
    ((m.drain ws).device d).isSome := by
  induction ws generalizing m with
  | nil => exact h
  | cons w ws ih => exact ih (exec_device_isSome h w)

/-- What was read stays read. -/
theorem ran_prefix_drain (m : Memory T) (ws : List Work) : m.ran <+: (m.drain ws).ran := by
  induction ws generalizing m with
  | nil => exact List.prefix_rfl
  | cons w ws ih =>
    refine List.IsPrefix.trans ?_ (ih (m.exec w))
    cases w with
    | copy src dst n =>
      simp only [exec]
      split <;> exact List.prefix_rfl
    | kernel id src n => exact List.prefix_append _ _

end Memory

/-- Every kernel that was run has read what was meant for it. -/
def Right (meant : Nat → Option (List T)) (m : Memory T) : Prop := ∀ r ∈ m.ran, r.2 = meant r.1

instance [DecidableEq T] (meant : Nat → Option (List T)) (m : Memory T) :
    Decidable (Right meant m) :=
  inferInstanceAs (Decidable (∀ r ∈ m.ran, r.2 = meant r.1))

/-- The kernels of a queue. -/
def kernels : List Work → List Nat
  | [] => []
  | .copy _ _ _ :: ws => kernels ws
  | .kernel id _ _ :: ws => id :: kernels ws

@[simp] theorem kernels_append (ws ws' : List Work) :
    kernels (ws ++ ws') = kernels ws ++ kernels ws' := by
  induction ws with
  | nil => rfl
  | cons w ws ih => cases w <;> simp [kernels, ih]

/-- A queue of copies, and of copies from one block to another that are followed at once by the
kernel that they are for. -/
inductive Shape (src dst : Nat) (len : Nat → Nat) : List Work → Prop where
  | nil : Shape src dst len []
  | copy (src' dst' n : Nat) {ws : List Work} (h : Shape src dst len ws) :
      Shape src dst len (.copy src' dst' n :: ws)
  | launch (id : Nat) {ws : List Work} (h : Shape src dst len ws) :
      Shape src dst len (.copy src dst (len id) :: .kernel id dst (len id) :: ws)

namespace Shape

variable {src dst : Nat} {len : Nat → Nat} {ws ws' : List Work}

theorem append (h : Shape src dst len ws) (h' : Shape src dst len ws') :
    Shape src dst len (ws ++ ws') := by
  induction h with
  | nil => exact h'
  | copy src' dst' n _ ih => exact .copy src' dst' n ih
  | launch id _ ih => exact .launch id ih

/-- Only the lengths of the kernels in the queue matter. -/
theorem congr {len' : Nat → Nat} (h : Shape src dst len ws)
    (hl : ∀ id ∈ kernels ws, len' id = len id) : Shape src dst len' ws := by
  induction h with
  | nil => exact .nil
  | copy src' dst' n _ ih => exact .copy src' dst' n (ih hl)
  | launch id _ ih =>
    rw [← hl id List.mem_cons_self]
    exact .launch id (ih fun i hi => hl i (List.mem_cons_of_mem _ hi))

end Shape

/-- The lengths of the copies that wait in a queue for the sake of a kernel. -/
def waiting : List Work → List Nat
  | [] => []
  | .copy _ _ n :: .kernel _ _ _ :: ws => n :: waiting ws
  | _ :: ws => waiting ws

namespace Shape

variable {src dst : Nat} {len : Nat → Nat} {ws : List Work}

theorem waiting_eq (h : Shape src dst len ws) : waiting ws = (kernels ws).map len := by
  induction h with
  | nil => rfl
  | copy src' dst' n h ih =>
    -- what follows a copy is no kernel
    cases h with
    | nil => rfl
    | copy => exact ih
    | launch => exact ih
  | launch id _ ih =>
    rw [waiting, ih]
    rfl

/-- Without kernels, a queue has the shape between any two blocks. -/
theorem of_kernels (h : Shape src dst len ws) (hk : kernels ws = []) (src' dst' : Nat)
    (len' : Nat → Nat) : Shape src' dst' len' ws := by
  induction h with
  | nil => exact .nil
  | copy a b n _ ih => exact .copy a b n (ih hk)
  | launch id _ _ => cases hk

theorem mem_kernel (h : Shape src dst len ws) {id : Nat} (hk : id ∈ kernels ws) :
    .kernel id dst (len id) ∈ ws := by
  induction h with
  | nil => cases hk
  | copy a b n _ ih => exact List.mem_cons_of_mem _ (ih hk)
  | launch i _ ih =>
    rcases List.mem_cons.1 hk with rfl | hk
    · exact List.mem_cons_of_mem _ List.mem_cons_self
    · exact List.mem_cons_of_mem _ (List.mem_cons_of_mem _ (ih hk))

end Shape

theorem Memory.exec_device_none {m : Memory T} {d : Nat} (h : m.device d = none) (w : Work) :
    (m.exec w).device d = none := by
  cases w with
  | copy src dst n =>
    simp only [Memory.exec]
    split
    · rename_i hdst
      have hne : d ≠ dst := by
        rintro rfl
        rw [h] at hdst
        cases hdst
      simp only [Function.update_of_ne hne, h]
    · exact h
  | kernel id src n => exact h

/-- A kernel that waits for a block that was freed will not be right. -/
theorem not_right_of_freed {meant : Nat → Option (List T)} {m : Memory T} {ws : List Work}
    {id src n : Nat} (hd : m.device src = none) (hw : .kernel id src n ∈ ws)
    (hid : meant id ≠ none) : ¬Right meant (m.drain ws) := by
  induction ws generalizing m with
  | nil => cases hw
  | cons w ws ih =>
    rcases List.mem_cons.1 hw with rfl | hw
    · intro h
      have hran : (id, none) ∈ (m.exec (.kernel id src n)).ran := by
        simp only [Memory.exec, hd, Option.map_none]
        exact List.mem_append_right _ List.mem_cons_self
      exact hid (h _ ((Memory.ran_prefix_drain _ ws).subset hran)).symm
    · exact ih (Memory.exec_device_none hd w) hw

theorem right_kernel {meant : Nat → Option (List T)} {m : Memory T} {id src n : Nat}
    {g : Nat → T} (hg : m.device src = some g) : Right meant (m.exec (.kernel id src n)) ↔
      Right meant m ∧ some ((List.range n).map g) = meant id := by
  simp only [Right, Memory.exec, hg, Option.map_some, List.mem_append, List.mem_singleton]
  constructor
  · intro h
    exact ⟨fun r hr => h r (.inl hr), h _ (.inr rfl)⟩
  · rintro ⟨h, hid⟩ r (hr | rfl)
    · exact h r hr
    · exact hid

/-- **A queue between two blocks is right** when the page-locked one holds, for each kernel, what
was meant for it: nothing that is run changes it. -/
theorem right_drain {meant : Nat → Option (List T)} {src dst : Nat} {len : Nat → Nat}
    {ws : List Work} (hs : Shape src dst len ws) {m : Memory T} {f : Nat → T}
    (hf : m.host src = some f) (hd : (m.device dst).isSome) : Right meant (m.drain ws) ↔
      Right meant m ∧ ∀ id ∈ kernels ws, some ((List.range (len id)).map f) = meant id := by
  induction hs generalizing m with
  | nil => simp [kernels]
  | copy src' dst' n _ ih =>
    have hr : Right meant (m.exec (.copy src' dst' n)) ↔ Right meant m := by
      simp only [Right, Memory.exec]
      split <;> rfl
    rw [Memory.drain_cons, ih (by rw [Memory.exec_host, hf]) (Memory.exec_device_isSome hd _), hr]
    rfl
  | launch id _ ih =>
    obtain ⟨g, hg⟩ := Option.isSome_iff_exists.1 hd
    have hcopy : m.exec (.copy src dst (len id)) = { m with
        device := Function.update m.device dst (some fun k => if k < len id then f k else g k) } := by
      simp only [Memory.exec, hf, hg]
    have hread : (List.range (len id)).map (fun k => if k < len id then f k else g k) =
        (List.range (len id)).map f := by
      apply List.map_congr_left
      intro k hk
      rw [if_pos (List.mem_range.1 hk)]
    have hd' := Memory.exec_device_isSome hd (.copy src dst (len id))
    rw [Memory.drain_cons, Memory.drain_cons, ih (by rw [Memory.exec_host, Memory.exec_host, hf])
      (Memory.exec_device_isSome hd' _), @right_kernel _ _ _ _ _ _ (fun k => if k < len id then f k else g k)
      (by rw [hcopy]; exact Function.update_self _ _ _), hread]
    simp only [Right, hcopy, kernels, List.forall_mem_cons, and_assoc]

/-! ## Queues that are being run -/

/-- A queue of such a shape, or what is left of one when the stream is between a copy and its
kernel. -/
def Led (src dst : Nat) (len : Nat → Nat) (ws : List Work) : Prop :=
  Shape src dst len ws ∨
    ∃ id ws', ws = .kernel id dst (len id) :: ws' ∧ Shape src dst len ws'

namespace Led

variable {src dst : Nat} {len : Nat → Nat} {ws ws' : List Work}

theorem tail {w : Work} (h : Led src dst len (w :: ws)) : Led src dst len ws := by
  rcases h with h | ⟨id, ws', heq, h⟩
  · cases h with
    | copy _ _ _ h => exact .inl h
    | launch id h => exact .inr ⟨id, _, rfl, h⟩
  · cases heq
    exact .inl h

theorem append (h : Led src dst len ws) (h' : Shape src dst len ws') :
    Led src dst len (ws ++ ws') := by
  rcases h with h | ⟨id, ws'', rfl, h⟩
  · exact .inl (h.append h')
  · exact .inr ⟨id, _, rfl, h.append h'⟩

theorem congr {len' : Nat → Nat} (h : Led src dst len ws)
    (hl : ∀ id ∈ kernels ws, len' id = len id) : Led src dst len' ws := by
  rcases h with h | ⟨id, ws', rfl, h⟩
  · exact .inl (h.congr hl)
  · refine .inr ⟨id, ws', ?_, h.congr fun i hi => hl i (List.mem_cons_of_mem _ hi)⟩
    rw [hl id List.mem_cons_self]

theorem mem_kernel (h : Led src dst len ws) {id : Nat} (hk : id ∈ kernels ws) :
    .kernel id dst (len id) ∈ ws := by
  rcases h with h | ⟨i, ws', rfl, h⟩
  · exact h.mem_kernel hk
  · rcases List.mem_cons.1 hk with rfl | hk
    · exact List.mem_cons_self
    · exact List.mem_cons_of_mem _ (h.mem_kernel hk)

theorem of_kernels (h : Led src dst len ws) (hk : kernels ws = []) (src' dst' : Nat)
    (len' : Nat → Nat) : Shape src' dst' len' ws := by
  rcases h with h | ⟨id, ws', rfl, h⟩
  · exact h.of_kernels hk src' dst' len'
  · cases hk

theorem waiting_eq_nil (h : Led src dst len ws) (hk : kernels ws = []) : waiting ws = [] := by
  rw [(h.of_kernels hk src dst len).waiting_eq, hk]
  rfl

end Led

theorem Shape.right_overwrite {meant : Nat → Option (List T)} {src dst : Nat} {len : Nat → Nat}
    {ws : List Work} (hs : Shape src dst len ws) {m m' : Memory T} {f f' : Nat → T}
    (hf : m.host src = some f) (hf' : m'.host src = some f') (hd : (m.device dst).isSome)
    (hd' : (m'.device dst).isSome) (hm : Right meant m' ↔ Right meant m)
    (h : Right meant (m.drain ws)) : Right meant (m'.drain ws) ↔
      ∀ n ∈ waiting ws, (List.range n).map f' = (List.range n).map f := by
  obtain ⟨hr, hk⟩ := (right_drain hs hf hd).1 h
  rw [right_drain hs hf' hd', hm, hs.waiting_eq, List.forall_mem_map]
  constructor
  · rintro ⟨-, hk'⟩ id hid
    exact Option.some.inj ((hk' id hid).trans (hk id hid).symm)
  · intro he
    exact ⟨hr, fun id hid => (congrArg some (he id hid)).trans (hk id hid)⟩

/-- **Overwriting the page-locked block** while a queue waits leaves that right, when it changes
nothing of what a waiting copy is to bring to its kernel, and only then. -/
theorem right_overwrite {meant : Nat → Option (List T)} {src dst : Nat} {len : Nat → Nat}
    {ws : List Work} (hs : Led src dst len ws) {m m' : Memory T} {f f' : Nat → T}
    (hf : m.host src = some f) (hf' : m'.host src = some f') (hd : (m.device dst).isSome)
    (hdev : m'.device = m.device) (hran : m'.ran = m.ran) (h : Right meant (m.drain ws)) :
    Right meant (m'.drain ws) ↔
      ∀ n ∈ waiting ws, (List.range n).map f' = (List.range n).map f := by
  have hd' : (m'.device dst).isSome := by rw [hdev]; exact hd
  rcases hs with hs | ⟨i, ws', rfl, hs⟩
  · have hm : Right meant m' ↔ Right meant m := by rw [Right, hran, Right]
    exact hs.right_overwrite hf hf' hd hd' hm h
  · -- the kernel reads the device, which is the same
    have hm : Right meant (m'.exec (.kernel i dst (len i))) ↔
        Right meant (m.exec (.kernel i dst (len i))) := by
      simp only [Right, Memory.exec, hran, hdev]
    exact @Shape.right_overwrite _ _ _ _ _ _ hs (m.exec (.kernel i dst (len i)))
      (m'.exec (.kernel i dst (len i))) f f' hf hf' hd hd' hm h

end WorkQueue
