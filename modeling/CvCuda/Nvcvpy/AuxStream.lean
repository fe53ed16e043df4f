import CvCuda.Lib.Run

/-! # The auxiliary stream of the Python module

`Stream::Stream`, `Stream::destroy` and `Stream::GetAuxStream` of `mod_cvcuda/nvcv/Stream.cpp`, one
call after another. Calls to CUDA fail as they are told to. Those that free the stream's own handle
are left out, since their errors are only logged.
-/

namespace Nvcvpy.AuxStream

/-- Which calls to CUDA succeed in one constructor or destructor. -/
structure Cuda where
  /-- `cudaStreamCreateWithFlags` of the handle. -/
  streamCreate : Bool
  streamGetFlags : Bool
  /-- `cudaStreamCreateWithFlags` of the auxiliary stream. -/
  auxCreate : Bool
  eventCreate : Bool
  /-- `cudaStreamSynchronize` of the auxiliary stream. -/
  auxSynchronize : Bool
  auxDestroy : Bool
  eventDestroy : Bool

/-- A `Stream`, less its handle. -/
structure Stream where
  owns : Bool
  /-- `m_event` is not null. -/
  event : Bool

structure State where
  instanceCount : Int
  /-- `m_auxStream` is not null. -/
  auxStream : Bool
  /-- The auxiliary streams created and destroyed so far. -/
  created : Nat
  destroyed : Nat
  live : List Stream

def initial : State where
  instanceCount := 0
  auxStream := false
  created := 0
  destroyed := 0
  live := []

namespace State
variable (cuda : Cuda) (s : State)

def incrementInstanceCount : State := { s with instanceCount := s.instanceCount + 1 }

/-- `GetAuxStream`: whether it returns, and what it leaves. -/
def getAuxStream : Bool × State :=
  if s.auxStream then (true, s)
  else if ¬cuda.auxCreate then (false, s)
  else (true, { s with auxStream := true, created := s.created + 1 })

/-- The part of `destroy` under the lock of the auxiliary stream. -/
def releaseAuxStream : Bool × State :=
  if s.auxStream then
    let s := { s with instanceCount := s.instanceCount - 1 }
    if s.instanceCount = 0 then
      if ¬cuda.auxSynchronize ∨ ¬cuda.auxDestroy then (false, s)
      else (true, { s with auxStream := false, destroyed := s.destroyed + 1 })
    else (true, s)
  else (true, s)

/-- `Stream::destroy`. -/
def destroy (stream : Stream) : Bool × State :=
  let (returns, s) := s.releaseAuxStream cuda
  (returns && (!stream.event || cuda.eventDestroy), s)

/-- What both constructors do in their `try`, once there is a handle. -/
def init (stream : Stream) : State :=
  let (returns, s) := s.incrementInstanceCount.getAuxStream cuda
  if returns ∧ cuda.eventCreate then { s with live := { stream with event := true } :: s.live }
  else (s.destroy cuda stream).2

/-- `Stream()`. -/
def create : State :=
  let stream : Stream := { owns := true, event := false }
  if cuda.streamCreate then s.init cuda stream else (s.destroy cuda stream).2

/-- `Stream(IExternalStream &)`. -/
def wrap : State :=
  if cuda.streamGetFlags then s.init cuda { owns := false, event := false } else s

/-- `~Stream`; when it throws, the process ends. -/
def destruct (k : Nat) : Option State :=
  match s.live[k]? with
  | none => none
  | some stream =>
    let (returns, s) := destroy cuda { s with live := s.live.eraseIdx k } stream
    if returns then some s else none

end State

/-- A constructor, or the destructor of the `k`-th stream that is live. -/
inductive Op where
  | create
  | wrap
  | destruct (k : Nat)

/-- A call, and what CUDA does. -/
def exec (s : State) : Op × Cuda → Option State
  | (.create, cuda) => some (s.create cuda)
  | (.wrap, cuda) => some (s.wrap cuda)
  | (.destruct k, cuda) => s.destruct cuda k

end Nvcvpy.AuxStream
