import CvCuda.Lib.LinkPath

/-! # The lock-free stack

`LockFreeStack` of `nvcv/priv_musa/LockFreeStack.hpp`, shared by any number of threads. A pointer
is a 64-bit word; bit 0 of the head word is the lock `pop` sets. `step` is one atomic access of
one thread (a load or a compare-exchange of the head, a load or a store of a `next` link), or
what a thread does between two calls; the threads run in any order. A weak compare-exchange may
fail although the head is the expected one.

`owned t` and the node lists inside `Local` are bookkeeping the code does not have: the nodes a
thread may pass to `push`, and the ones it is pushing.
-/

namespace Nvcv.LockFreeStack

/-- A `Node *`, possibly with the lock bit. -/
abbrev Ptr := BitVec 64

def doGetUnlocked (p : Ptr) : Ptr := p &&& -2#64

def doGetLocked (p : Ptr) : Ptr := p ||| 1#64

/-- A node's address: not null, and aligned to 2 at least. -/
def IsNode (p : Ptr) : Prop := p ≠ 0#64 ∧ doGetUnlocked p = p

instance (p : Ptr) : Decidable (IsNode p) := inferInstanceAs (Decidable (_ ∧ _))

/-- Where a thread is: the point before its next access, with its local variables. `push` is
`pushStack` with its node as both ends; `init` are the nodes before `last`. -/
inductive Local where
  | idle
  /-- `oldHead = doGetUnlocked(m_head.load())` is next. -/
  | pushLoad (newHead last : Ptr) (init : List Ptr)
  /-- `last->next = oldHead` is next. -/
  | pushLink (newHead last : Ptr) (init : List Ptr) (oldHead : Ptr)
  /-- `m_head.compare_exchange_weak(oldHead, newHead)` is next. -/
  | pushSwap (newHead last : Ptr) (init : List Ptr) (oldHead : Ptr)
  /-- `head = doGetUnlocked(m_head.load())` is next. -/
  | popLoad
  /-- `m_head.compare_exchange_weak(head, doGetLocked(head))` is next. -/
  | popLock (head : Ptr)
  /-- The head is locked; `oldHead = m_head.load()` is next. -/
  | popReload
  /-- `newHead = doGetUnlocked(oldHead)->next` is next. -/
  | popNext (oldHead : Ptr)
  /-- `m_head.compare_exchange_weak(oldHead, newHead)` is next. -/
  | popSwap (oldHead newHead : Ptr)
  deriving DecidableEq

/-- What a step shows: the successful updates of the head, and a `pop` that finds no node. -/
inductive Event where
  | silent
  | locked
  | pushed (nodes : List Ptr)
  | popped (node : Ptr)
  | popNull
  deriving DecidableEq

/-- What a thread does next: between two calls it starts a call, writes the link of a node it
owns or hands the node to another thread; in a call it makes the next access, the weak
compare-exchange failing without cause when `fails` says so. -/
inductive Action (Thread : Type) where
  | push (newNode : Ptr)
  | pushStack (newHead last : Ptr) (init : List Ptr)
  | pop
  | setNext (node value : Ptr)
  | give (node : Ptr) (receiver : Thread)
  | access (fails : Bool)

structure State (Thread : Type) where
  head : Ptr
  next : Ptr → Ptr
  loc : Thread → Local
  owned : Thread → List Ptr

section
variable {Thread : Type} [DecidableEq Thread]

def State.goto (s : State Thread) (t : Thread) (l : Local) : State Thread :=
  { s with loc := Function.update s.loc t l }

/-- The pushed nodes leave the thread that pushed them. -/
def State.disown (s : State Thread) (t : Thread) (ns : List Ptr) : State Thread :=
  { s with owned := Function.update s.owned t ((s.owned t).filter (· ∉ ns)) }

def State.acquire (s : State Thread) (t : Thread) (n : Ptr) : State Thread :=
  { s with owned := Function.update s.owned t (n :: s.owned t) }

/-- `m_head.compare_exchange_weak(expected, desired)`: the state with the new head, unless the
exchange fails. -/
def State.compareExchangeWeak (s : State Thread) (fails : Bool) (expected desired : Ptr) :
    Option (State Thread) :=
  if s.head = expected ∧ fails = false then some { s with head := desired } else none

/-- The next access of a thread inside a call. -/
def access (s : State Thread) (t : Thread) (fails : Bool) : Option (State Thread × Event) :=
  match s.loc t with
  | .idle => none
  | .pushLoad newHead last init =>
    some (s.goto t (.pushLink newHead last init (doGetUnlocked s.head)), .silent)
  | .pushLink newHead last init oldHead =>
    some ({ s with next := Function.update s.next last oldHead }.goto t
      (.pushSwap newHead last init oldHead), .silent)
  | .pushSwap newHead last init oldHead =>
    match s.compareExchangeWeak fails oldHead newHead with
    | some s => some ((s.disown t (init ++ [last])).goto t .idle, .pushed (init ++ [last]))
    | none => some (s.goto t (.pushLoad newHead last init), .silent)
  | .popLoad =>
    let head := doGetUnlocked s.head
    if head = 0#64 then some (s.goto t .idle, .popNull)
    else some (s.goto t (.popLock head), .silent)
  | .popLock head =>
    match s.compareExchangeWeak fails head (doGetLocked head) with
    | some s => some (s.goto t .popReload, .locked)
    | none => some (s.goto t .popLoad, .silent)
  | .popReload => some (s.goto t (.popNext s.head), .silent)
  | .popNext oldHead =>
    some (s.goto t (.popSwap oldHead (s.next (doGetUnlocked oldHead))), .silent)
  | .popSwap oldHead newHead =>
    match s.compareExchangeWeak fails oldHead newHead with
    | some s =>
      some ((s.acquire t (doGetUnlocked oldHead)).goto t .idle, .popped (doGetUnlocked oldHead))
    | none => some (s.goto t .popReload, .silent)

/-- One step of thread `t`. Between calls a thread only passes to `push` and `pushStack`, writes
and gives away nodes it owns; `pushStack` gets the two ends of a chain of such nodes. -/
def step (s : State Thread) (t : Thread) : Action Thread → Option (State Thread × Event)
  | .access fails => access s t fails
  | .push newNode =>
    if s.loc t = .idle ∧ newNode ∈ s.owned t then
      some (s.goto t (.pushLoad newNode newNode []), .silent)
    else none
  | .pushStack newHead last init =>
    if s.loc t = .idle ∧ (∀ n ∈ init ++ [last], n ∈ s.owned t) ∧ (init ++ [last]).Nodup ∧
        LinkPath s.next newHead init last then
      some (s.goto t (.pushLoad newHead last init), .silent)
    else none
  | .pop => if s.loc t = .idle then some (s.goto t .popLoad, .silent) else none
  | .setNext node value =>
    if s.loc t = .idle ∧ node ∈ s.owned t then
      some ({ s with next := Function.update s.next node value }, .silent)
    else none
  | .give node receiver =>
    if s.loc t = .idle ∧ node ∈ s.owned t then
      some ((s.disown t [node]).acquire receiver node, .silent)
    else none

/-- The step relation of the threads together; a label is the thread, its action and the event. -/
def Step (s : State Thread) (l : Thread × Action Thread × Event) (s' : State Thread) : Prop :=
  step s l.1 l.2.1 = some (s', l.2.2)

/-- Executes the steps of a list of labels, as long as each shows its event. -/
def replay (s : State Thread) : List (Thread × Action Thread × Event) → Option (State Thread)
  | [] => some s
  | l :: ls =>
    match step s l.1 l.2.1 with
    | some r => if r.2 = l.2.2 then replay r.1 ls else none
    | none => none

/-- The empty stack, with nodes that each belong to one thread. -/
structure Initial (s : State Thread) : Prop where
  head : s.head = 0#64
  loc : ∀ t, s.loc t = .idle
  nodes : ∀ t, ∀ n ∈ s.owned t, IsNode n
  nodup : ∀ t, (s.owned t).Nodup
  unique : ∀ t t', ∀ n ∈ s.owned t, n ∈ s.owned t' → t = t'

end

end Nvcv.LockFreeStack
