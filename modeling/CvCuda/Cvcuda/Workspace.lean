import CvCuda.Nvcv.Detail
import CvCuda.Nvcv.Exception

/-! # Operator workspaces: the estimator and the allocator

`WorkspaceMemEstimator` and `WorkspaceMemAllocator` of `cvcuda/priv_musa`, on 64-bit words. A
request is the template argument's size with the call's count and alignment; the runtime calls
that wait for and record the ready event are a parameter (`MusaRuntime`).

`Cvcuda/Proof/Workspace.lean` shows that what the estimator counts covers the allocations.
-/

namespace Cvcuda

open Nvcv

/-- A call `add<T>(count, alignment)` or `get<T>(count, alignment)`. -/
structure Request where
  count : SizeT
  sizeofT : SizeT
  alignment : SizeT
  deriving DecidableEq, Repr

structure WorkspaceMemRequirements where
  size : SizeT
  alignment : SizeT
  deriving DecidableEq, Repr

/-! ## The estimator -/

structure WorkspaceMemEstimator where
  req : WorkspaceMemRequirements
  deriving DecidableEq, Repr

namespace WorkspaceMemEstimator

/-- The constructor; `alignof(std::max_align_t)` is 16. -/
def new (initialSize : SizeT := 0) (baseAlignment : SizeT := 16) : WorkspaceMemEstimator :=
  { req := { size := initialSize, alignment := baseAlignment } }

def add (e : WorkspaceMemEstimator) (r : Request) : WorkspaceMemEstimator :=
  let alignment := if r.alignment > e.req.alignment then r.alignment else e.req.alignment
  let size := alignUp e.req.size r.alignment
  let size := size + alignUp (r.count * r.sizeofT) r.alignment
  { req := { size, alignment } }

end WorkspaceMemEstimator

/-! ## The allocator -/

/-- The runtime calls on the ready event; `true` is `musaSuccess`. -/
structure MusaRuntime (Stream Event : Type) where
  streamWaitEvent : Stream → Event → Bool
  eventSynchronize : Event → Bool
  eventRecord : Event → Stream → Bool

structure WorkspaceMem (Event : Type) where
  req : WorkspaceMemRequirements
  data : SizeT
  ready : Option Event
  deriving DecidableEq, Repr

structure WorkspaceMemAllocator (Stream Event : Type) where
  mem : WorkspaceMem Event
  offset : SizeT := 0
  acquired : Bool := false
  released : Bool := false
  acquireStream : Option Stream
  releaseStream : Option Stream
  deriving DecidableEq, Repr

namespace WorkspaceMemAllocator

section
variable {Stream Event : Type} (rt : MusaRuntime Stream Event)

def new (mem : WorkspaceMem Event) (acquireStream releaseStream : Option Stream) :
    WorkspaceMemAllocator Stream Event :=
  { mem, acquireStream, releaseStream }

/-- The wait of `acquire`, on the stream or on the host; no ready event, no wait. -/
def waitReady (ready : Option Event) (stream : Option Stream) : Except Exception Unit :=
  match ready, stream with
  | none, _ => .ok ()
  | some ev, some s =>
    if rt.streamWaitEvent s ev then .ok ()
    else .error (.nvcv .internal "musaStreamWairEvent failed")
  | some ev, none =>
    if rt.eventSynchronize ev then .ok ()
    else .error (.nvcv .internal "musaEventSynchronize failed")

def acquire (stream : Option Stream) (a : WorkspaceMemAllocator Stream Event) :
    Except Exception (WorkspaceMemAllocator Stream Event) :=
  if a.acquired then .error (.logicError "Acquire called multiple times")
  else if a.released then .error (.logicError "This workspace memory has been released.")
  else do
    waitReady rt a.mem.ready stream
    return { a with acquired := true }

def release (stream : Option Stream) (a : WorkspaceMemAllocator Stream Event) :
    Except Exception (WorkspaceMemAllocator Stream Event) :=
  if a.released then .error (.logicError "Release called multiple times")
  else
    match a.mem.ready, stream with
    | some ev, some s =>
      if a.offset ≠ 0 ∧ rt.eventRecord ev s = false then
        .error (.nvcv .internal "musaEventRecord failed")
      else .ok { a with released := true }
    | _, _ => .ok { a with released := true }

/-- The part of `get` after `acquire`: the pointer is taken at the offset rounded up, and the
offset moves past the rounded size. -/
def take (r : Request) (a : WorkspaceMemAllocator Stream Event) :
    Except Exception SizeT × WorkspaceMemAllocator Stream Event :=
  if a.mem.data &&& (r.alignment - 1#64) ≠ 0#64 then
    (.error (.nvcv .invalidArgument
      ("The workspace base pointer is not aligned to match the required alignment of a " ++
        "workspace entry.")), a)
  else
    let offset := alignUp a.offset r.alignment
    let ret := a.mem.data + offset
    let realSize := alignUp (r.count * r.sizeofT) r.alignment
    let offset := offset + realSize
    if offset > a.mem.req.size then
      (.error (.nvcv .outOfMemory "Operator workspace too small."), a)
    else (.ok ret, { a with offset })

/-- `get<T>(count, alignment)`: what it returns or throws, and the allocator afterwards (an
acquired allocator stays acquired when a later check throws). -/
def get (r : Request) (a : WorkspaceMemAllocator Stream Event) :
    Except Exception SizeT × WorkspaceMemAllocator Stream Event :=
  if a.released then (.error (.logicError "This workspace memory has been released."), a)
  else if !a.acquired && 0 < r.count then
    match acquire rt a.acquireStream a with
    | .error e => (.error e, a)
    | .ok a => take r a
  else take r a

/-- A sequence of `get` calls, up to the first one that throws. -/
def getAll : List Request → WorkspaceMemAllocator Stream Event →
    Except Exception (List SizeT) × WorkspaceMemAllocator Stream Event
  | [], a => (.ok [], a)
  | r :: rs, a =>
    match get rt r a with
    | (.error e, a) => (.error e, a)
    | (.ok p, a) =>
      match getAll rs a with
      | (.error e, a) => (.error e, a)
      | (.ok ps, a) => (.ok (p :: ps), a)

end

end WorkspaceMemAllocator

end Cvcuda
