import CvCuda.Lib.Run
import CvCuda.Nvcvpy.Resource

/-! # Resources held by streams, and the garbage bag

`Stream::holdResources`, `AddToGCBag` and `ClearGCBag` of `mod_cvcuda/nvcv/Stream.cpp`, by any number
of host threads, beside streams that do what they were handed and call back.

* Each step is one call to CUDA, what is done under the lock of the bag, or the destruction of one
  closure. Threads and streams take their steps in any order.
* A stream does a command when everything is done that is ordered before it. The event of a stream
  object is `inl`, those of others are `inr`. The auxiliary stream is there.
* A call to CUDA that fails throws, and has done nothing.
-/

namespace Nvcvpy.HoldResources

open StreamOrder (Cmd)
open Resource (Command)

variable {T S E W R : Type}

/-- What streams are handed: the work of others, and callbacks with their closures. -/
inductive Work (W : Type) where
  | kernel (w : W)
  | callback (closure : Nat)

/-- A command of others, who have no event of a stream object. -/
def command : Command S E W → Cmd S (T ⊕ E) (Work W)
  | .enqueue s w => .enqueue s (.kernel w)
  | .record e s => .record (.inr e) s
  | .waitEvent s e => .waitEvent s (.inr e)

/-- `HostFunctionClosure`, and how many commands streams had been handed when `holdResources` was
called. -/
structure Closure (T R : Type) where
  stream : T
  resources : List R
  since : Nat
  deriving DecidableEq

/-- How far a call has come with its closure. -/
inductive Stage where
  | made | recorded | waited
  deriving DecidableEq

/-- What a thread does. -/
inductive Pc (T R : Type) where
  | idle
  /-- In `ClearGCBag`, which has still to destroy these closures. -/
  | clearing (t : T) (resources : List R) (since : Nat) (objectsToBeDestroyed : List Nat)
  | holding (closure : Nat) (t : T) (stage : Stage)
  deriving DecidableEq

variable (T S E W R) in
/-- Closures are named by their positions among those made. -/
structure State where
  history : List (Cmd S (T ⊕ E) (Work W))
  /-- The positions of the commands that were done. -/
  done : List Nat
  threads : List (Pc T R)
  closures : List (Closure T R)
  /-- Those that callbacks own. -/
  pending : List Nat
  gcBag : List Nat
  /-- Those that `ClearGCBag` destroyed. -/
  released : List Nat
  /-- Those that were destroyed because `holdResources` threw. -/
  unwound : List Nat

/-- Before the first call. -/
def initial (threads : Nat) : State T S E W R where
  history := []
  done := []
  threads := .replicate threads .idle
  closures := []
  pending := []
  gcBag := []
  released := []
  unwound := []

/-- A command of others, one that a stream does, or a step of a thread. `ok`: the call to CUDA
succeeds. -/
inductive Op (T S E W R : Type) where
  | command (c : Command S E W)
  | complete (p : Nat)
  | call (i : Nat) (t : T) (usedResources : List R)
  | destroy (i : Nat)
  | make (i : Nat)
  | eventRecord (i : Nat) (ok : Bool)
  | waitEvent (i : Nat) (ok : Bool)
  | addCallback (i : Nat) (ok : Bool)

/-- What a command does on the host: a callback calls `AddToGCBag`. -/
def callback (s : State T S E W R) : Cmd S (T ⊕ E) (Work W) → State T S E W R
  | .enqueue _ (.callback k) =>
    { s with pending := s.pending.erase k, gcBag := s.gcBag ++ [k] }
  | _ => s

/-- A call to CUDA hands a command to a stream, and the thread goes on; or it fails, and the closure
is destroyed. -/
def hand (s : State T S E W R) (i closure : Nat) (ok : Bool) (c : Cmd S (T ⊕ E) (Work W))
    (next : Pc T R) : State T S E W R :=
  if ok then { s with history := s.history ++ [c], threads := s.threads.set i next }
  else { s with threads := s.threads.set i .idle, unwound := s.unwound ++ [closure] }

/-- One step. -/
def exec (handle : T → S) (aux : S) (s : State T S E W R) :
    Op T S E W R → Option (State T S E W R)
  | .command c => some { s with history := s.history ++ [command c] }
  | .complete p => do
    let c ← s.history[p]?
    if p ∈ s.done then none else some (callback { s with done := p :: s.done } c)
  | .call i t usedResources => do
    let .idle ← s.threads[i]? | none
    if usedResources.isEmpty then some s
    else
      some { s with
        gcBag := []
        threads := s.threads.set i (.clearing t usedResources s.history.length s.gcBag) }
  | .destroy i => do
    let .clearing t usedResources since (k :: ks) ← s.threads[i]? | none
    some { s with
      threads := s.threads.set i (.clearing t usedResources since ks)
      released := s.released ++ [k] }
  | .make i => do
    let .clearing t usedResources since [] ← s.threads[i]? | none
    some { s with
      closures := s.closures ++ [⟨t, usedResources, since⟩]
      threads := s.threads.set i (.holding s.closures.length t .made) }
  | .eventRecord i ok => do
    let .holding k t .made ← s.threads[i]? | none
    some (hand s i k ok (.record (.inl t) (handle t)) (.holding k t .recorded))
  | .waitEvent i ok => do
    let .holding k t .recorded ← s.threads[i]? | none
    some (hand s i k ok (.waitEvent aux (.inl t)) (.holding k t .waited))
  | .addCallback i ok => do
    let .holding k _ .waited ← s.threads[i]? | none
    let s' := hand s i k ok (.enqueue aux (.callback k)) .idle
    some { s' with pending := if ok then s.pending ++ [k] else s.pending }

/-- A stream does a command after what is ordered before it. -/
def Op.Ready (s : State T S E W R) : Op T S E W R → Prop
  | .complete p => ∀ q, StreamOrder.Direct s.history q p → q ∈ s.done
  | _ => True

def Step (handle : T → S) (aux : S) (s : State T S E W R) (op : Op T S E W R)
    (s' : State T S E W R) : Prop :=
  exec handle aux s op = some s' ∧ op.Ready s

end Nvcvpy.HoldResources
