import CvCuda.Lib.Placement
import CvCuda.Lib.Run
import CvCuda.Nvcv.LockFreeStack

/-! # The lock-free stack is a sequential stack

`lifo` is the stack the updates of the head must be: a list of nodes, pushed and popped at its
front. `Inv nodes s L` relates a state of the threads to the list `L`: the head leads through
`L` to null, every node is in one place (`Placed`), the head is locked exactly while one thread
is between its lock and its final exchange, and each thread's local variables are still true of
the memory (`LocalOk`).

* `step_inv`: a step keeps `Inv`, and its event is a step of `lifo`.
* `runs_linearizable`: every run of the threads from the empty stack replays, update by update,
  as a `lifo` run, with every node in one place at its end.
* `Inv.pushed_between`: between two pops of a node there is a push of it.
-/

namespace Nvcv.LockFreeStack

/-! ## Pointer tags -/

theorem getLsbD_unlocked (p : Ptr) (i : Nat) :
    (doGetUnlocked p).getLsbD i = (p.getLsbD i && !(1#64).getLsbD i) := by
  by_cases hi : i < 64
  · rw [doGetUnlocked, show (-2#64 : Ptr) = ~~~1#64 by rfl, BitVec.getLsbD_and,
      BitVec.getLsbD_not, decide_eq_true hi, Bool.true_and]
  · rw [BitVec.getLsbD_of_ge _ _ (by omega), BitVec.getLsbD_of_ge p _ (by omega), Bool.false_and]

@[simp] theorem unlocked_unlocked (p : Ptr) :
    doGetUnlocked (doGetUnlocked p) = doGetUnlocked p := by
  simp only [doGetUnlocked, BitVec.and_assoc, BitVec.and_self]

@[simp] theorem unlocked_locked (p : Ptr) : doGetUnlocked (doGetLocked p) = doGetUnlocked p := by
  apply BitVec.eq_of_getLsbD_eq
  intro i _
  rw [getLsbD_unlocked, getLsbD_unlocked, doGetLocked, BitVec.getLsbD_or]
  cases p.getLsbD i <;> cases (1#64).getLsbD i <;> rfl

/-- A locked pointer is not an unlocked one. -/
theorem locked_ne_unlocked (p q : Ptr) : doGetLocked p ≠ doGetUnlocked q := by
  intro h
  have h0 := congrArg (BitVec.getLsbD · 0) h
  simp only [getLsbD_unlocked, doGetLocked, BitVec.getLsbD_or] at h0
  rw [show (1#64 : Ptr).getLsbD 0 = true by rfl, Bool.or_true, Bool.not_true, Bool.and_false] at h0
  exact Bool.noConfusion h0

@[simp] theorem unlocked_null : doGetUnlocked 0#64 = 0#64 := rfl

/-! ## The sequential stack -/

/-- One update of the sequential stack; `none` where the stack does not allow the event. -/
def lifo (L : List Ptr) : Event → Option (List Ptr)
  | .silent => some L
  | .locked => some L
  | .pushed ns => some (ns ++ L)
  | .popped n =>
    match L with
    | [] => none
    | m :: L => if m = n then some L else none
  | .popNull => if L = [] then some L else none

/-- The sequential stack follows the events of a run of the threads. -/
def Lifo {Thread : Type} (L : List Ptr) (l : Thread × Action Thread × Event) (L' : List Ptr) :
    Prop :=
  lifo L l.2.2 = some L'

/-! ## The invariant -/

/-- The thread is between locking the head and replacing it. -/
def Local.holdsLock : Local → Bool
  | .popReload => true
  | .popNext _ => true
  | .popSwap _ _ => true
  | _ => false

section
variable {Thread : Type}

/-- A push in flight: the links lead from `newHead` to `last` through nodes of the thread. -/
structure Pushing (s : State Thread) (t : Thread) (newHead last : Ptr) (init : List Ptr) :
    Prop where
  path : LinkPath s.next newHead init last
  owned : ∀ n ∈ init ++ [last], n ∈ s.owned t
  nodup : (init ++ [last]).Nodup

/-- What a thread's local variables say about the memory, at each point of its call. -/
def LocalOk (s : State Thread) (t : Thread) : Local → Prop
  | .idle => True
  | .pushLoad newHead last init => Pushing s t newHead last init
  | .pushLink newHead last init oldHead =>
    Pushing s t newHead last init ∧ doGetUnlocked oldHead = oldHead
  | .pushSwap newHead last init oldHead =>
    Pushing s t newHead last init ∧ doGetUnlocked oldHead = oldHead ∧ s.next last = oldHead
  | .popLoad => True
  | .popLock head => IsNode head
  | .popReload => True
  | .popNext oldHead => oldHead = s.head
  | .popSwap oldHead newHead => oldHead = s.head ∧ newHead = s.next (doGetUnlocked oldHead)

/-- The head is unlocked and no thread holds the lock, or it is the locked address of a node and
exactly one thread does. -/
def LockOk (s : State Thread) (L : List Ptr) : Prop :=
  (doGetUnlocked s.head = s.head ∧ ∀ t, (s.loc t).holdsLock = false) ∨
    (doGetLocked (doGetUnlocked s.head) = s.head ∧ L ≠ [] ∧
      ∃ t, (s.loc t).holdsLock = true ∧ ∀ t', (s.loc t').holdsLock = true → t' = t)

/-- The state of the threads holds the stack `L`. -/
structure Inv (nodes : Set Ptr) (s : State Thread) (L : List Ptr) : Prop where
  stack : LinkPath s.next (doGetUnlocked s.head) L 0#64
  placed : Placed nodes L s.owned
  isNode : ∀ n ∈ nodes, IsNode n
  lock : LockOk s L
  locals : ∀ t, LocalOk s t (s.loc t)

/-! ## What the parts of a step keep -/

variable [DecidableEq Thread] {nodes : Set Ptr} {s : State Thread} {L : List Ptr} {t : Thread}

@[simp] theorem goto_head (l : Local) : (s.goto t l).head = s.head := rfl
@[simp] theorem goto_next (l : Local) : (s.goto t l).next = s.next := rfl
@[simp] theorem goto_owned (l : Local) : (s.goto t l).owned = s.owned := rfl
@[simp] theorem goto_loc_self (l : Local) : (s.goto t l).loc t = l := Function.update_self ..

theorem goto_loc_of_ne {t' : Thread} (l : Local) (h : t' ≠ t) : (s.goto t l).loc t' = s.loc t' :=
  Function.update_of_ne h ..

theorem goto_self {l : Local} (h : s.loc t = l) : s.goto t l = s := by
  subst h
  simp only [State.goto, Function.update_eq_self]

omit [DecidableEq Thread] in
/-- A thread's local variables stay true while its nodes and their links do, and the head if the
thread holds the lock. -/
theorem LocalOk.frame {s' : State Thread} {l : Local} (h : LocalOk s t l)
    (howned : ∀ n, n ∈ s.owned t → n ∈ s'.owned t)
    (hnext : ∀ n, n ∈ s.owned t → s'.next n = s.next n)
    (hlock : l.holdsLock = true → s'.head = s.head ∧
      s'.next (doGetUnlocked s.head) = s.next (doGetUnlocked s.head)) :
    LocalOk s' t l := by
  have hpush : ∀ {newHead last init}, Pushing s t newHead last init →
      Pushing s' t newHead last init := by
    intro newHead last init hp
    refine ⟨?_, fun n hn => howned n (hp.owned n hn), hp.nodup⟩
    refine hp.path.congr fun n hn => hnext n (hp.owned n (List.mem_append_left _ hn))
  cases l with
  | idle => trivial
  | pushLoad newHead last init => exact hpush h
  | pushLink newHead last init oldHead => exact ⟨hpush h.1, h.2⟩
  | pushSwap newHead last init oldHead =>
    exact ⟨hpush h.1, h.2.1,
      (hnext last (h.1.owned last (List.mem_append_right _ (.head _)))).trans h.2.2⟩
  | popLoad => trivial
  | popLock head => exact h
  | popReload => trivial
  | popNext oldHead => exact (show oldHead = s.head from h).trans (hlock rfl).1.symm
  | popSwap oldHead newHead =>
    obtain ⟨rfl, rfl⟩ := h
    exact ⟨(hlock rfl).1.symm, (hlock rfl).2.symm⟩

theorem LocalOk.goto {t' : Thread} {l l' : Local} (h : LocalOk s t' l') :
    LocalOk (s.goto t l) t' l' :=
  h.frame (fun _ hn => hn) (fun _ _ => rfl) fun _ => ⟨rfl, rfl⟩

/-- The lock stays right when a thread moves on without taking or releasing it. -/
theorem LockOk.goto (h : LockOk s L) {l : Local} (hl : l.holdsLock = (s.loc t).holdsLock) :
    LockOk (s.goto t l) L := by
  have hloc : ∀ t', ((s.goto t l).loc t').holdsLock = (s.loc t').holdsLock := by
    intro t'
    by_cases e : t' = t
    · subst e
      rw [goto_loc_self, hl]
    · rw [goto_loc_of_ne l e]
  simpa only [LockOk, goto_head, hloc] using h

/-- A thread moves on, with true local variables. -/
theorem Inv.goto (h : Inv nodes s L) {l : Local} (hok : LocalOk s t l)
    (hl : l.holdsLock = (s.loc t).holdsLock) : Inv nodes (s.goto t l) L := by
  refine ⟨h.stack, h.placed, h.isNode, h.lock.goto hl, fun t' => ?_⟩
  by_cases e : t' = t
  · subst e
    rw [goto_loc_self]
    exact hok.goto
  · rw [goto_loc_of_ne l e]
    exact (h.locals t').goto

/-- A thread writes the link of a node it owns, and moves on. -/
theorem Inv.store (h : Inv nodes s L) {n v : Ptr} (hn : n ∈ s.owned t) {l : Local}
    (hok : LocalOk { s with next := Function.update s.next n v } t l)
    (hl : l.holdsLock = false) (hl' : (s.loc t).holdsLock = false) :
    Inv nodes ({ s with next := Function.update s.next n v }.goto t l) L := by
  have hL : n ∉ L := fun hm => h.placed.not_both t n hm hn
  refine ⟨h.stack.update v hL, h.placed, h.isNode, ?_, fun t' => ?_⟩
  · exact LockOk.goto (s := { s with next := Function.update s.next n v }) h.lock (hl.trans hl'.symm)
  by_cases e : t' = t
  · subst e
    rw [goto_loc_self]
    exact hok.goto
  · rw [goto_loc_of_ne l e]
    have hne : ∀ m ∈ s.owned t', m ≠ n := fun m hm hmn =>
      e (h.placed.owner_unique t' t n (hmn ▸ hm) hn)
    refine (h.locals t').frame (fun _ hm => hm)
      (fun m hm => Function.update_of_ne (hne m hm) ..) fun hlock => ⟨rfl, ?_⟩
    -- the locked head is a node of the stack, so it is not the one written
    refine Function.update_of_ne (fun hh => hL ?_) ..
    rcases h.lock with ⟨-, hfree⟩ | ⟨-, hne, -⟩
    · rw [hfree t'] at hlock
      exact Bool.noConfusion hlock
    · cases L with
      | nil => exact absurd rfl hne
      | cons m L => exact hh ▸ h.stack.1 ▸ List.mem_cons_self

omit [DecidableEq Thread] in
/-- Nodes are unlocked addresses, and so is null. -/
theorem Inv.unlocked (h : Inv nodes s L) {ns : List Ptr} (hns : ∀ n ∈ ns, n ∈ nodes) {p : Ptr}
    (hp : p ∈ ns ++ [0#64]) : doGetUnlocked p = p := by
  rcases List.mem_append.1 hp with hp | hp
  · exact (h.isNode p (hns p hp)).2
  · rw [List.mem_singleton.1 hp, unlocked_null]

omit [DecidableEq Thread] in
/-- While the head is unlocked no thread holds the lock. -/
theorem Inv.free (h : Inv nodes s L) (hu : doGetUnlocked s.head = s.head) :
    ∀ t, (s.loc t).holdsLock = false := by
  rcases h.lock with ⟨-, hfree⟩ | ⟨hl, -, -⟩
  · exact hfree
  · exact absurd (hl.trans hu.symm) (locked_ne_unlocked _ _)

omit [DecidableEq Thread] in
/-- The stack is empty when its head is null. -/
theorem Inv.stack_eq_nil (h : Inv nodes s L) (h0 : doGetUnlocked s.head = 0#64) : L = [] := by
  cases L with
  | nil => rfl
  | cons n L =>
    have hn := h.isNode n (h.placed.mem_shared (.head _))
    exact absurd (h.stack.1.symm.trans h0) hn.1

/-- **The exchange of a push** succeeds: the chain goes on top of the stack. -/
theorem Inv.push (h : Inv nodes s L) {newHead last oldHead : Ptr} {init : List Ptr}
    (hl : s.loc t = .pushSwap newHead last init oldHead) (hh : s.head = oldHead) :
    Inv nodes (({ s with head := newHead }.disown t (init ++ [last])).goto t .idle)
      (init ++ [last] ++ L) := by
  obtain ⟨hp, hu, hlast⟩ : Pushing s t newHead last init ∧ doGetUnlocked oldHead = oldHead ∧
      s.next last = oldHead := by
    have := h.locals t
    rwa [hl] at this
  have hfree := h.free (by rw [hh, hu])
  have hpath : LinkPath s.next newHead (init ++ [last] ++ L) 0#64 := by
    rw [List.append_assoc]
    refine hp.path.append ⟨rfl, ?_⟩
    rw [hlast, ← hu, ← hh]
    exact h.stack
  have hplaced := h.placed.share hp.owned hp.nodup
  have hnew : doGetUnlocked newHead = newHead :=
    h.unlocked (fun n hn => hplaced.mem_shared hn) hpath.head_mem
  refine ⟨?_, hplaced, h.isNode, .inl ⟨hnew, fun t' => ?_⟩, fun t' => ?_⟩
  · show LinkPath s.next (doGetUnlocked newHead) _ _
    rw [hnew]
    exact hpath
  · by_cases e : t' = t
    · subst e
      rw [goto_loc_self]
      rfl
    · rw [goto_loc_of_ne _ e]
      exact hfree t'
  · by_cases e : t' = t
    · subst e
      rw [goto_loc_self]
      trivial
    · rw [goto_loc_of_ne _ e]
      refine (h.locals t').frame (fun n hn => ?_) (fun _ _ => rfl)
        fun hlock => ?_
      · exact Placed.mem_update_filter.2 ⟨hn, fun e' => absurd e' e⟩
      · rw [hfree t'] at hlock
        exact Bool.noConfusion hlock

/-- **The first exchange of a pop** succeeds: the thread holds the lock. -/
theorem Inv.takeLock (h : Inv nodes s L) {head : Ptr} (hl : s.loc t = .popLock head)
    (hh : s.head = head) :
    Inv nodes ({ s with head := doGetLocked head }.goto t .popReload) L := by
  obtain ⟨hnz, hu⟩ : IsNode head := by
    have := h.locals t
    rwa [hl] at this
  have hfree := h.free (by rw [hh, hu])
  have hne : L ≠ [] := by
    rintro rfl
    have h0 : doGetUnlocked s.head = 0#64 := h.stack
    rw [hh, hu] at h0
    exact hnz h0
  refine ⟨?_, h.placed, h.isNode, .inr ⟨?_, hne, t, ?_, fun t' ht' => ?_⟩, fun t' => ?_⟩
  · rw [goto_head, unlocked_locked, ← hh]
    exact h.stack
  · rw [goto_head, unlocked_locked, hu]
  · rw [goto_loc_self]
    rfl
  · by_contra e
    rw [goto_loc_of_ne _ e, show (State.loc _ t').holdsLock = false from hfree t'] at ht'
    exact Bool.noConfusion ht'
  · by_cases e : t' = t
    · subst e
      rw [goto_loc_self]
      trivial
    · rw [goto_loc_of_ne _ e]
      refine (h.locals t').frame (fun _ hn => hn)
        (fun _ _ => rfl) fun hlock => ?_
      rw [hfree t'] at hlock
      exact Bool.noConfusion hlock

/-- **The last exchange of a pop** succeeds: the front node of the stack is the thread's. -/
theorem Inv.pop (h : Inv nodes s L) {oldHead newHead : Ptr}
    (hl : s.loc t = .popSwap oldHead newHead) :
    ∃ L', L = doGetUnlocked oldHead :: L' ∧
      Inv nodes (({ s with head := newHead }.acquire t (doGetUnlocked oldHead)).goto t .idle)
        L' := by
  obtain ⟨rfl, rfl⟩ : oldHead = s.head ∧ newHead = s.next (doGetUnlocked oldHead) := by
    have := h.locals t
    rwa [hl] at this
  have hmine : (s.loc t).holdsLock = true := by
    rw [hl]
    rfl
  obtain ⟨-, hfree⟩ | ⟨-, hne, t₀, -, huniq⟩ := h.lock
  · rw [hfree t] at hmine
    exact Bool.noConfusion hmine
  obtain rfl := huniq t hmine
  cases L with
  | nil => exact absurd rfl hne
  | cons n L =>
    have hn : doGetUnlocked s.head = n := h.stack.1
    have hpath : LinkPath s.next (s.next n) L 0#64 := h.stack.2
    have hu : doGetUnlocked (s.next n) = s.next n :=
      h.unlocked (fun m hm => h.placed.mem_shared (.tail _ hm)) hpath.head_mem
    rw [hn]
    refine ⟨L, rfl, ?_, h.placed.take t, h.isNode, .inl ⟨hu, fun t' => ?_⟩, fun t' => ?_⟩
    · show LinkPath s.next (doGetUnlocked (s.next n)) _ _
      rw [hu]
      exact hpath
    · by_cases e : t' = t
      · subst e
        rw [goto_loc_self]
        rfl
      · rw [goto_loc_of_ne _ e]
        exact Bool.eq_false_iff.2 fun ht' => e (huniq t' ht')
    · by_cases e : t' = t
      · subst e
        rw [goto_loc_self]
        trivial
      · rw [goto_loc_of_ne _ e]
        refine (h.locals t').frame (fun m hm => ?_) (fun _ _ => rfl)
          fun hlock => absurd (huniq t' hlock) e
        show m ∈ Function.update s.owned t _ t'
        rwa [Function.update_of_ne e]

/-- A thread between two calls hands a node it owns to another. -/
theorem Inv.give (h : Inv nodes s L) {n : Ptr} (receiver : Thread) (hl : s.loc t = .idle)
    (hn : n ∈ s.owned t) : Inv nodes ((s.disown t [n]).acquire receiver n) L := by
  have hshared : Placed nodes ([n] ++ L) (s.disown t [n]).owned :=
    h.placed.share (fun m hm => List.mem_singleton.1 hm ▸ hn) (List.nodup_singleton n)
  refine ⟨h.stack, hshared.take receiver, h.isNode, h.lock, fun t' => ?_⟩
  by_cases e : t' = t
  · subst e
    show LocalOk _ t' (s.loc t')
    rw [hl]
    trivial
  · refine (h.locals t').frame (fun m hm => ?_) (fun _ _ => rfl) fun _ => ⟨rfl, rfl⟩
    have hm' : m ∈ (s.disown t [n]).owned t' :=
      Placed.mem_update_filter.2 ⟨hm, fun e' => absurd e' e⟩
    show m ∈ Function.update (s.disown t [n]).owned receiver (n :: _) t'
    by_cases e' : t' = receiver
    · subst e'
      rw [Function.update_self]
      exact .tail _ hm'
    · rwa [Function.update_of_ne e']

/-! ## Steps and runs -/

omit [DecidableEq Thread] in
theorem compareExchangeWeak_cases (s : State Thread) (fails : Bool) (expected desired : Ptr) :
    s.compareExchangeWeak fails expected desired = none ∨
      (s.head = expected ∧
        s.compareExchangeWeak fails expected desired = some { s with head := desired }) := by
  unfold State.compareExchangeWeak
  by_cases h : s.head = expected ∧ fails = false
  · exact .inr ⟨h.1, if_pos h⟩
  · exact .inl (if_neg h)

/-- The next access of a thread keeps the invariant, and its event is one of the stack. -/
theorem access_inv (h : Inv nodes s L) {fails : Bool} {s' : State Thread} {e : Event}
    (ha : access s t fails = some (s', e)) : ∃ L', lifo L e = some L' ∧ Inv nodes s' L' := by
  have hok := h.locals t
  unfold access at ha
  cases hl : s.loc t with
  | idle =>
    simp only [hl, reduceCtorEq] at ha
  | pushLoad newHead last init =>
    rw [hl] at ha hok
    obtain ⟨rfl, rfl⟩ := Prod.mk.inj (Option.some.inj ha)
    exact ⟨L, rfl, h.goto ⟨hok, unlocked_unlocked _⟩ (hl ▸ rfl)⟩
  | pushLink newHead last init oldHead =>
    rw [hl] at ha hok
    obtain ⟨rfl, rfl⟩ := Prod.mk.inj (Option.some.inj ha)
    obtain ⟨hp, hu⟩ := hok
    refine ⟨L, rfl, h.store (hp.owned last (List.mem_append_right _ (.head _))) ?_ rfl (hl ▸ rfl)⟩
    have hlast : last ∉ init := fun hm =>
      (List.nodup_append.1 hp.nodup).2.2 last hm last (.head _) rfl
    exact ⟨⟨hp.path.update _ hlast, hp.owned, hp.nodup⟩, hu, Function.update_self ..⟩
  | pushSwap newHead last init oldHead =>
    rw [hl] at ha hok
    simp only at ha
    rcases compareExchangeWeak_cases s fails oldHead newHead with hc | ⟨hh, hc⟩
    · rw [hc] at ha
      obtain ⟨rfl, rfl⟩ := Prod.mk.inj (Option.some.inj ha)
      exact ⟨L, rfl, h.goto hok.1 (hl ▸ rfl)⟩
    · rw [hc] at ha
      obtain ⟨rfl, rfl⟩ := Prod.mk.inj (Option.some.inj ha)
      exact ⟨_, rfl, h.push hl hh⟩
  | popLoad =>
    rw [hl] at ha
    simp only at ha
    by_cases h0 : doGetUnlocked s.head = 0#64
    · rw [if_pos h0] at ha
      obtain ⟨rfl, rfl⟩ := Prod.mk.inj (Option.some.inj ha)
      have hL : L = [] := h.stack_eq_nil h0
      exact ⟨L, if_pos hL, h.goto trivial (hl ▸ rfl)⟩
    · rw [if_neg h0] at ha
      obtain ⟨rfl, rfl⟩ := Prod.mk.inj (Option.some.inj ha)
      exact ⟨L, rfl, h.goto ⟨h0, unlocked_unlocked _⟩ (hl ▸ rfl)⟩
  | popLock head =>
    rw [hl] at ha
    simp only at ha
    rcases compareExchangeWeak_cases s fails head (doGetLocked head) with hc | ⟨hh, hc⟩
    · rw [hc] at ha
      obtain ⟨rfl, rfl⟩ := Prod.mk.inj (Option.some.inj ha)
      exact ⟨L, rfl, h.goto trivial (hl ▸ rfl)⟩
    · rw [hc] at ha
      obtain ⟨rfl, rfl⟩ := Prod.mk.inj (Option.some.inj ha)
      exact ⟨L, rfl, h.takeLock hl hh⟩
  | popReload =>
    rw [hl] at ha
    obtain ⟨rfl, rfl⟩ := Prod.mk.inj (Option.some.inj ha)
    exact ⟨L, rfl, h.goto rfl (hl ▸ rfl)⟩
  | popNext oldHead =>
    rw [hl] at ha hok
    obtain ⟨rfl, rfl⟩ := Prod.mk.inj (Option.some.inj ha)
    exact ⟨L, rfl, h.goto ⟨hok, rfl⟩ (hl ▸ rfl)⟩
  | popSwap oldHead newHead =>
    rw [hl] at ha
    simp only at ha
    rcases compareExchangeWeak_cases s fails oldHead newHead with hc | ⟨-, hc⟩
    · rw [hc] at ha
      obtain ⟨rfl, rfl⟩ := Prod.mk.inj (Option.some.inj ha)
      exact ⟨L, rfl, h.goto trivial (hl ▸ rfl)⟩
    · rw [hc] at ha
      obtain ⟨rfl, rfl⟩ := Prod.mk.inj (Option.some.inj ha)
      obtain ⟨L', rfl, hinv⟩ := h.pop hl
      exact ⟨L', if_pos rfl, hinv⟩

/-- **A step** keeps the invariant, and its event is one of the sequential stack. -/
theorem step_inv (h : Inv nodes s L) {l : Thread × Action Thread × Event} {s' : State Thread}
    (hs : Step s l s') : ∃ L', Lifo L l L' ∧ Inv nodes s' L' := by
  obtain ⟨t, a, e⟩ := l
  change step s t a = some (s', e) at hs
  unfold step at hs
  cases a with
  | access fails => exact access_inv h hs
  | push n =>
    obtain ⟨⟨hl, hn⟩, hs⟩ := Option.ite_none_right_eq_some.1 hs
    obtain ⟨rfl, rfl⟩ := Prod.mk.inj (Option.some.inj hs)
    refine ⟨L, rfl, h.goto (l := .pushLoad n n []) ⟨rfl, fun m hm => ?_, ?_⟩ (hl ▸ rfl)⟩
    · exact List.mem_singleton.1 hm ▸ hn
    · exact List.nodup_singleton n
  | pushStack newHead last init =>
    obtain ⟨⟨hl, hown, hnd, hpath⟩, hs⟩ := Option.ite_none_right_eq_some.1 hs
    obtain ⟨rfl, rfl⟩ := Prod.mk.inj (Option.some.inj hs)
    exact ⟨L, rfl, h.goto (l := .pushLoad newHead last init) ⟨hpath, hown, hnd⟩ (hl ▸ rfl)⟩
  | pop =>
    obtain ⟨hl, hs⟩ := Option.ite_none_right_eq_some.1 hs
    obtain ⟨rfl, rfl⟩ := Prod.mk.inj (Option.some.inj hs)
    exact ⟨L, rfl, h.goto trivial (hl ▸ rfl)⟩
  | setNext n v =>
    obtain ⟨⟨hl, hn⟩, hs⟩ := Option.ite_none_right_eq_some.1 hs
    obtain ⟨rfl, rfl⟩ := Prod.mk.inj (Option.some.inj hs)
    have hst := h.store (v := v) hn (l := .idle) trivial rfl (hl ▸ rfl)
    rw [goto_self (s := { s with next := Function.update s.next n v }) hl] at hst
    exact ⟨L, rfl, hst⟩
  | give n receiver =>
    obtain ⟨⟨hl, hn⟩, hs⟩ := Option.ite_none_right_eq_some.1 hs
    obtain ⟨rfl, rfl⟩ := Prod.mk.inj (Option.some.inj hs)
    exact ⟨L, rfl, h.give receiver hl hn⟩

omit [DecidableEq Thread] in
/-- The empty stack has the invariant, over the nodes the threads own. -/
theorem Initial.inv (h : Initial s) : Inv { n | ∃ t, n ∈ s.owned t } s [] where
  stack := by
    rw [h.head]
    exact unlocked_null
  placed := ⟨fun x => by simp, .nil, h.nodup, fun _ _ hx => (nomatch hx), h.unique⟩
  isNode := fun n ⟨t, hn⟩ => h.nodes t n hn
  lock := .inl ⟨by rw [h.head, unlocked_null], fun t => by rw [h.loc t]; rfl⟩
  locals t := by
    rw [h.loc t]
    trivial

/-- A list of labels that the threads can execute is a run. -/
theorem replay_run {l : List (Thread × Action Thread × Event)} (h : (replay s l).isSome) :
    ∃ s', Run Step s l s' := by
  induction l generalizing s with
  | nil => exact ⟨s, .nil s⟩
  | cons x l ih =>
    unfold replay at h
    cases hx : step s x.1 x.2.1 with
    | none => simp [hx] at h
    | some r =>
      rw [hx] at h
      by_cases he : r.2 = x.2.2
      · simp only [if_pos he] at h
        obtain ⟨s', hr⟩ := ih h
        exact ⟨s', .cons (hx.trans (he ▸ rfl)) hr⟩
      · simp [if_neg he] at h

/-- **A run** replays on the sequential stack. -/
theorem Inv.run (h : Inv nodes s L) {ls : List (Thread × Action Thread × Event)}
    {s' : State Thread} (hr : Run Step s ls s') :
    ∃ L', Run Lifo L ls L' ∧ Inv nodes s' L' := by
  have hstep : ∀ (s : State Thread) l s' L, Inv nodes s L → Step s l s' →
      ∃ L', Lifo L l L' ∧ Inv nodes s' L' := fun _ _ _ _ h hs => step_inv h hs
  exact hr.sim hstep h

omit [DecidableEq Thread] in
/-- A node not in the sequential stack stays out of it until it is pushed. -/
theorem Lifo.not_mem {l : Thread × Action Thread × Event} {L' : List Ptr} {n : Ptr}
    (h : Lifo L l L') (hn : n ∉ L) (hp : ∀ ns, l.2.2 = .pushed ns → n ∉ ns) : n ∉ L' := by
  obtain ⟨t, a, e⟩ := l
  change lifo L e = some L' at h
  cases e with
  | silent => exact Option.some.inj h ▸ hn
  | locked => exact Option.some.inj h ▸ hn
  | pushed ns =>
    obtain rfl := Option.some.inj h
    exact fun hm => (List.mem_append.1 hm).elim (hp ns rfl) hn
  | popped m =>
    cases L with
    | nil => simp [lifo] at h
    | cons m' L =>
      obtain ⟨-, h⟩ := Option.ite_none_right_eq_some.1 h
      exact Option.some.inj h ▸ fun hm => hn (.tail _ hm)
  | popNull =>
    obtain ⟨-, h⟩ := Option.ite_none_right_eq_some.1 h
    exact Option.some.inj h ▸ hn

omit [DecidableEq Thread] in
theorem Lifo.popped {l : Thread × Action Thread × Event} {L' : List Ptr} {n : Ptr}
    (h : Lifo L l L') (hl : l.2.2 = .popped n) : L = n :: L' := by
  unfold Lifo at h
  rw [hl] at h
  cases L with
  | nil => simp [lifo] at h
  | cons m L =>
    obtain ⟨rfl, h'⟩ := Option.ite_none_right_eq_some.1 h
    rw [Option.some.inj h']

/-- Between two pops of a node there is a push of it. -/
theorem Inv.pushed_between (h : Inv nodes s L) {x y : Thread × Action Thread × Event}
    {l₁ l₂ l₃ : List (Thread × Action Thread × Event)} {s' : State Thread} {n : Ptr}
    (hr : Run Step s (l₁ ++ x :: (l₂ ++ y :: l₃)) s') (hx : x.2.2 = .popped n)
    (hy : y.2.2 = .popped n) : ∃ z ∈ l₂, ∃ ns, z.2.2 = .pushed ns ∧ n ∈ ns := by
  by_contra hno
  obtain ⟨s₁, hr₁, hr⟩ := hr.split
  obtain ⟨L₁, -, h₁⟩ := h.run hr₁
  obtain _ | ⟨hxs, hr⟩ := hr
  obtain ⟨L₂, hL₂, h₂⟩ := step_inv h₁ hxs
  obtain rfl := hL₂.popped hx
  have hn : n ∉ L₂ := (List.nodup_cons.1 h₁.placed.shared_nodup).1
  obtain ⟨s₃, hr₃, hr⟩ := hr.split
  obtain ⟨L₃, hL₃, h₃⟩ := h₂.run hr₃
  obtain _ | ⟨hys, -⟩ := hr
  obtain ⟨L₄, hL₄, -⟩ := step_inv h₃ hys
  -- the node is off the stack from its first pop on
  have hn₃ : n ∉ L₃ := hL₃.inv_labels (P := fun L => n ∉ L)
    (Q := fun l => ∀ ns, l.2.2 = .pushed ns → n ∉ ns)
    (fun _ _ _ hp hn hl => Lifo.not_mem hl hn hp)
    (fun z hz ns hzs hm => hno ⟨z, hz, ns, hzs, hm⟩) hn
  rw [hL₄.popped hy] at hn₃
  exact hn₃ (.head _)

/-- **Linearizability.** In every run of any number of threads from the empty stack, the nodes
the head leads to are those of the sequential stack that follows the run's head updates in order
(`pop` returns null only where it is empty); each of the threads' nodes is in one place, once in
the stack and with no thread, or outside it and once with exactly one thread; and between two
pops of a node there is a push of it. -/
theorem runs_linearizable (hi : Initial s) {ls : List (Thread × Action Thread × Event)}
    {s' : State Thread} (hr : Run Step s ls s') :
    (∃ L, Run Lifo [] ls L ∧ LinkPath s'.next (doGetUnlocked s'.head) L 0#64 ∧
      ∀ n, (∃ t, n ∈ s.owned t) →
        (L.count n = 1 ∧ ∀ t, n ∉ s'.owned t) ∨
          (n ∉ L ∧ ∃ t, (s'.owned t).count n = 1 ∧ ∀ t', n ∈ s'.owned t' → t' = t)) ∧
      ∀ l₁ x l₂ y l₃ n, ls = l₁ ++ x :: (l₂ ++ y :: l₃) → x.2.2 = .popped n →
        y.2.2 = .popped n → ∃ z ∈ l₂, ∃ ns, z.2.2 = .pushed ns ∧ n ∈ ns := by
  constructor
  · obtain ⟨L, hL, hinv⟩ := hi.inv.run hr
    exact ⟨L, hL, hinv.stack, fun n hn => hinv.placed.one_place hn⟩
  · rintro l₁ x l₂ y l₃ n rfl hx hy
    exact hi.inv.pushed_between hr hx hy

end

/-- A node is popped and pushed back between another thread's load of the head and its lock. -/
def backAndForth : List (Bool × Action Bool × Event) :=
  [(false, .push 2#64, .silent), (false, .access false, .silent),
    (false, .access false, .silent), (false, .access false, .pushed [2#64]),
    (true, .pop, .silent), (true, .access false, .silent),
    (false, .pop, .silent), (false, .access false, .silent), (false, .access false, .locked),
    (false, .access false, .silent), (false, .access false, .silent),
    (false, .access false, .popped 2#64),
    (false, .push 2#64, .silent), (false, .access false, .silent),
    (false, .access false, .silent), (false, .access false, .pushed [2#64]),
    (true, .access false, .locked), (true, .access false, .silent),
    (true, .access false, .silent), (true, .access false, .popped 2#64)]

/-- Two threads and one node, which the first thread owns. -/
def oneNode : State Bool :=
  { head := 0#64, next := fun _ => 0#64, loc := fun _ => .idle,
    owned := fun t => if t then [] else [2#64] }

theorem oneNode_initial : Initial oneNode where
  head := rfl
  loc _ := rfl
  nodes t n hn := by
    cases t with
    | true => exact nomatch hn
    | false =>
      obtain rfl := List.mem_singleton.1 hn
      decide
  nodup t := by cases t <;> simp [oneNode]
  unique t t' n hn hn' := by
    cases t with
    | true => exact nomatch hn
    | false =>
      cases t' with
      | true => exact nomatch hn'
      | false => rfl

theorem runs_linearizable_backAndForth :
    ∃ s', Run Step oneNode backAndForth s' ∧
      (∃ L, Run Lifo [] backAndForth L ∧ LinkPath s'.next (doGetUnlocked s'.head) L 0#64 ∧
        ∀ n, (∃ t, n ∈ oneNode.owned t) →
          (L.count n = 1 ∧ ∀ t, n ∉ s'.owned t) ∨
            (n ∉ L ∧ ∃ t, (s'.owned t).count n = 1 ∧ ∀ t', n ∈ s'.owned t' → t' = t)) ∧
        ∀ l₁ x l₂ y l₃ n, backAndForth = l₁ ++ x :: (l₂ ++ y :: l₃) → x.2.2 = .popped n →
          y.2.2 = .popped n → ∃ z ∈ l₂, ∃ ns, z.2.2 = .pushed ns ∧ n ∈ ns := by
  obtain ⟨s', hr⟩ := replay_run (s := oneNode) (l := backAndForth) (by decide)
  exact ⟨s', hr, runs_linearizable oneNode_initial hr⟩

end Nvcv.LockFreeStack
