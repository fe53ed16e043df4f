import CvCuda.Lib.Run
import CvCuda.Cvcuda.PerStreamCache

/-! # Calls of a cache per stream

A program puts payloads in a `PerStreamCache` and gets payloads from it, while events complete. A
call has the mutex of the cache, so that a step is one call. Beside a payload stands the stream it
was put with. A handle is of a stream, and of which one depends on the thread, its device and the
time; streams are the elements of any type.
-/

namespace Cvcuda

open Nvcv StreamCachePayload

variable {P E : Type} [StreamCachePayload P E]

/-- Whether the event of a payload, if it has one, is completed. -/
def completed (query : E → Bool) (p : P) : Bool := (ready p).all query

/-- The payloads in the list of an id. -/
def PerStreamCache.payloads (s : PerStreamCache P) (id : BitVec 64) : List P :=
  ((s.perStreamCache.lookup id).elim [] StreamOrderedCache.items).map StreamCacheItem.payload

/-- A payload as it was put, with a stream or without. -/
structure Deposit (P S : Type) where
  payload : P
  stream : Option S

instance (S : Type) : StreamCachePayload (Deposit P S) E where
  ready d := ready d.payload
  size d := size d.payload
  alignment d := alignment d.payload

/-- A thread that makes a call, and the streams that handles are of for it. -/
structure Thread (S : Type) where
  caller : Caller
  stream : MUstream → S

/-- A call of `get` and what it returned. -/
structure Answer (P S : Type) where
  stream : Option S
  minSize : Nat
  minAlignment : Nat
  /-- The payloads that were ready, or in the list of the stream, when the call began. -/
  offered : List (Deposit P S)
  result : Option (Deposit P S)
  /-- Whether the event of what is returned is completed then. -/
  completed : Bool

namespace Answer
variable {S : Type} (a : Answer P S)

/-- What is returned is what was asked for; without it there was none. -/
def Right : Prop :=
  (∀ d ∈ a.result, PerStreamCache.fits a.minSize a.minAlignment d) ∧
    (a.result = none → ∀ d ∈ a.offered, ¬PerStreamCache.fits a.minSize a.minAlignment d)

/-- What is returned is ready, or was put with the stream of the call. -/
def Safe : Prop := ∀ d ∈ a.result, a.completed ∨ a.stream ≠ none ∧ d.stream = a.stream

end Answer

inductive Call (P E S : Type) where
  | time (done' : E → Bool)
  /-- `new` is the address of a new item. -/
  | put (t : Thread S) (new : Nat) (p : P) (stream : Option MUstream)
  /-- `queries` are the answers of events during the call, and `done'` those at its end. -/
  | get (t : Thread S) (queries : Nat → E → Bool) (done' : E → Bool) (minSize minAlignment : Nat)
      (stream : Option MUstream)

structure Session (P E S : Type) where
  cache : PerStreamCache (Deposit P S) := {}
  /-- The events that are completed. -/
  done : E → Bool
  given : List (Deposit P S) := []
  answers : List (Answer P S) := []

namespace Session

variable {S : Type} (fn : CuStreamGetId) (s : Session P E S)

/-- The payloads that `get` returned. -/
def taken : List (Deposit P S) := s.answers.filterMap Answer.result

/-- The payloads in the list of a stream. -/
def own (t : Thread S) : Option MUstream → List (Deposit P S)
  | none => []
  | some stream =>
    match getCudaStreamIdHint fn t.caller stream with
    | .error _ => []
    | .ok id => s.cache.payloads id

def next : Call P E S → Session P E S
  | .time done' => { s with done := done' }
  | .put t new p stream =>
    match s.cache.put fn t.caller s.done new ⟨p, stream.map t.stream⟩ stream with
    | .error _ => s
    | .ok cache => { s with cache, given := ⟨p, stream.map t.stream⟩ :: s.given }
  | .get t queries done' minSize minAlignment stream =>
    match s.cache.get fn t.caller queries minSize minAlignment stream with
    | .error _ => { s with done := done' }
    | .ok (result, cache) => { s with
        cache
        done := done'
        answers := {
          stream := stream.map t.stream
          minSize, minAlignment
          offered := s.own fn t stream ++ s.cache.contents.filter (completed s.done)
          result
          completed := result.all (completed done') } :: s.answers }

/-- An event that is completed stays so while its payload is in the cache. -/
def Later (done done' : E → Bool) : Prop :=
  ∀ d ∈ s.cache.contents, completed done d → completed done' d

instance (done done' : E → Bool) : Decidable (s.Later done done') :=
  inferInstanceAs (Decidable (∀ d ∈ _, _))

/-- Time goes on, and a new item is where no other one is. -/
def Allowed : Call P E S → Prop
  | .time done' => s.Later s.done done'
  | .put _ new _ _ => new ∉ s.cache.free ++ s.cache.items.map StreamCacheItem.addr
  | .get _ queries done' _ _ _ => ∀ k, s.Later s.done (queries k) ∧ s.Later (queries k) done'

def Step (s : Session P E S) (c : Call P E S) (s' : Session P E S) : Prop :=
  s.Allowed c ∧ s' = s.next fn c

/-- Events of payloads that were put with one stream complete in the order they were put. -/
def InOrder (done : E → Bool) : Prop :=
  ∀ kc ∈ s.cache.perStreamCache, kc.2.items.Pairwise fun i j =>
    i.payload.stream ≠ none → i.payload.stream = j.payload.stream →
      completed done j.payload → completed done i.payload

instance [DecidableEq S] (done : E → Bool) : Decidable (s.InOrder done) :=
  inferInstanceAs (Decidable (∀ kc ∈ _, List.Pairwise _ _))

/-- In a step, the events of a stream complete in order. -/
def Streams : Call P E S → Prop
  | .time done' => s.InOrder done'
  | .put _ _ _ _ => True
  | .get _ queries done' _ _ _ => s.InOrder done' ∧ ∀ k, s.InOrder (queries k)

/-- A step of streams whose events complete in order. -/
def StreamStep (s : Session P E S) (c : Call P E S) (s' : Session P E S) : Prop :=
  Step fn s c s' ∧ s.Streams c

end Session

/-- `DummyPayload` of the tests; an event is a number. -/
structure DummyPayload where
  size : Nat
  alignment : Nat
  ready : Option Nat

instance : StreamCachePayload DummyPayload Nat where
  ready := DummyPayload.ready
  size := DummyPayload.size
  alignment := DummyPayload.alignment

end Cvcuda
