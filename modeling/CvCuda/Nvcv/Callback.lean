import CvCuda.Lib.Run
import CvCuda.Lib.Custody

/-! # Callbacks

`Callback` of `nvcv/detail/Callback.hpp` over callables that are stored on the heap, ordinary and
single-use, and programs over any number of `Callback` objects.

* A callable is its address; `new` gives addresses one after another.
* What a callable does when it is called or destroyed touches no `Callback` object.
* To dereference a null target is an error, `none`.
-/

namespace Nvcv

/-- The functions that `fromCallable` makes for a callable on the heap, by `SingleUse`. -/
inductive WrappedFunc where
  | reusable
  | once
  deriving DecidableEq

/-- The cleanup that `fromCallable` makes for a callable on the heap. -/
inductive CleanupFunc where
  | delete
  deriving DecidableEq

/-- The members of a `Callback`; also what `release` returns and `reset` takes. -/
structure Callback where
  call : Option WrappedFunc := none
  target : Option Nat := none
  cleanup : Option CleanupFunc := none
  deriving DecidableEq

/-- A wrapped function is called. -/
def WrappedFunc.run (f : WrappedFunc) (target : Option Nat) (log : List CustodyEvent) :
    Option (List CustodyEvent) :=
  match f, target with
  | _, none => none
  | .reusable, some c => some (log ++ [.used c])
  | .once, some c => some (log ++ [.used c] ++ [.disposed c])

/-- `delete static_cast<C *>(target)` -/
def CleanupFunc.run (target : Option Nat) (log : List CustodyEvent) : List CustodyEvent :=
  match target with
  | none => log
  | some c => log ++ [.disposed c]

namespace Callback

/-- `reset(function, target, cleanup)` -/
def reset (cb triple : Callback) (log : List CustodyEvent) :
    Callback × List CustodyEvent :=
  let log := if cb.cleanup = some .delete then CleanupFunc.run cb.target log else log
  (triple, log)

/-- `release()` -/
def release (cb : Callback) : Callback × Callback :=
  (⟨none, none, none⟩, ⟨cb.call, cb.target, cb.cleanup⟩)

/-- `operator=(Callback &&cb)` where `cb` is another object: the two afterwards. -/
def moveAssign (this cb : Callback) (log : List CustodyEvent) :
    (Callback × Callback) × List CustodyEvent :=
  let (this, cb) := (cb, this)
  let (cb, log) := cb.reset {} log
  ((this, cb), log)

/-- `fromCallable` of a callable that `new` has put at `ptr`. -/
def fromCallable (singleUse : Bool) (ptr : Nat) : Callback where
  call := some (if singleUse then .once else .reusable)
  cleanup := some .delete
  target := some ptr

/-- `operator()`; without a function it throws. -/
def invoke (singleUse : Bool) (cb : Callback) (log : List CustodyEvent) :
    Option (Callback × List CustodyEvent) :=
  match cb.call with
  | none => some (cb, log)
  | some call =>
    let target := cb.target
    let cb := if singleUse then ⟨none, none, none⟩ else cb
    (call.run target log).map fun log => (cb, log)

/-! ## Programs -/

/-- A `Callback` object of one of the two types. -/
structure Object where
  singleUse : Bool
  cb : Callback
  deriving DecidableEq

/-- The objects that exist, what `release` has handed out, and the heap. -/
structure State where
  objs : Nat → Option Object
  handedOut : List Object
  next : Nat
  log : List CustodyEvent

def State.init : State := ⟨fun _ => none, [], 0, []⟩

inductive Op where
  | construct (i : Nat) (singleUse : Bool)
  | constructFrom (i : Nat) (singleUse : Bool)
  | moveConstruct (i j : Nat)
  | moveAssign (i j : Nat)
  | assignFrom (i : Nat)
  | reset (i : Nat)
  | resetTo (i : Nat) (triple : Callback)
  | release (i : Nat)
  | invoke (i : Nat)
  | destruct (i : Nat)

/-- What a program may do: it uses objects that exist, moves between objects of one type, and
resets one to what an object of its type has handed out. -/
def State.Permits (s : State) : Op → Prop
  | .construct i _ | .constructFrom i _ => s.objs i = none
  | .moveConstruct i j => s.objs i = none ∧ s.objs j ≠ none
  | .moveAssign i j => ∃ o p, s.objs i = some o ∧ s.objs j = some p ∧ o.singleUse = p.singleUse
  | .assignFrom i | .reset i | .release i | .invoke i | .destruct i => s.objs i ≠ none
  | .resetTo i triple => ∃ o, s.objs i = some o ∧ ⟨o.singleUse, triple⟩ ∈ s.handedOut

/-- The members of an object change. -/
def State.set (s : State) (i : Nat) (o : Object) : State :=
  { s with objs := Function.update s.objs i (some o) }

def State.step (s : State) : Op → Option State
  | .construct i singleUse => some (s.set i ⟨singleUse, {}⟩)
  | .constructFrom i singleUse =>
    some { s.set i ⟨singleUse, fromCallable singleUse s.next⟩ with next := s.next + 1 }
  | .moveConstruct i j => do
    let p ← s.objs j
    let ((this, cb), log) := moveAssign {} p.cb s.log
    some { (s.set i ⟨p.singleUse, this⟩).set j ⟨p.singleUse, cb⟩ with log := log }
  | .moveAssign i j => do
    let o ← s.objs i
    let p ← s.objs j
    if i = j then some s
    else
      let ((this, cb), log) := o.cb.moveAssign p.cb s.log
      some { (s.set i ⟨o.singleUse, this⟩).set j ⟨p.singleUse, cb⟩ with log := log }
  | .assignFrom i => do
    let o ← s.objs i
    -- a temporary is moved from, and destroyed
    let ((this, cb), log) := o.cb.moveAssign (fromCallable o.singleUse s.next) s.log
    let (_, log) := cb.reset {} log
    some { s.set i ⟨o.singleUse, this⟩ with next := s.next + 1, log := log }
  | .reset i => do
    let o ← s.objs i
    let (cb, log) := o.cb.reset {} s.log
    some { s.set i ⟨o.singleUse, cb⟩ with log := log }
  | .resetTo i triple => do
    let o ← s.objs i
    let (cb, log) := o.cb.reset triple s.log
    some { s.set i ⟨o.singleUse, cb⟩ with
      handedOut := s.handedOut.erase ⟨o.singleUse, triple⟩
      log := log }
  | .release i => do
    let o ← s.objs i
    let (cb, triple) := o.cb.release
    some { s.set i ⟨o.singleUse, cb⟩ with handedOut := ⟨o.singleUse, triple⟩ :: s.handedOut }
  | .invoke i => do
    let o ← s.objs i
    let (cb, log) ← o.cb.invoke o.singleUse s.log
    some { s.set i ⟨o.singleUse, cb⟩ with log := log }
  | .destruct i => do
    let o ← s.objs i
    let (_, log) := o.cb.reset {} s.log
    some { s with objs := Function.update s.objs i none, log := log }

/-- The object that an operation moves from, releases or invokes once. -/
def State.Source (s : State) : Op → Nat → Prop
  | .moveConstruct _ j, k | .moveAssign _ j, k => k = j
  | .release i, k => k = i
  | .invoke i, k => k = i ∧ ∃ o, s.objs i = some o ∧ o.singleUse = true
  | _, _ => False

/-- An object holds no callable. -/
def State.HoldsNothing (s : State) (i : Nat) : Prop := ∃ o, s.objs i = some o ∧ o.cb = {}

/-- A program leads from one state to another. -/
abbrev Runs := Run fun (s : State) op s' => s.Permits op ∧ s.step op = some s'

end Nvcv.Callback
