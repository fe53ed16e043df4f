import CvCuda.Lib.StreamOrder

/-! # Resources of the Python module on streams

`Resource::submitSync` of `mod_cvcuda/nvcv/Resource.cpp`. The mutex makes calls for one resource
follow one another; other threads go on handing commands to streams, also in the middle of a call.

* Streams are objects with a handle, commands are on handles. `none` is the event of the resource,
  which it hands to nobody; the other events are `some`.
* The waits of the host threads, each of which holds up only itself, are left out.
* A call to CUDA that fails throws, and has done nothing.
-/

namespace Nvcvpy.Resource

open StreamOrder (Cmd)

variable {T S E W : Type} [DecidableEq S]

/-- A command of others, who have no event of the resource. -/
inductive Command (S E W : Type) where
  | enqueue (s : S) (w : W)
  | record (e : E) (s : S)
  | waitEvent (s : S) (e : E)

def Command.cmd : Command S E W → Cmd S (Option E) W
  | .enqueue s w => .enqueue s w
  | .record e s => .record (some e) s
  | .waitEvent s e => .waitEvent s (some e)

/-- Which calls to CUDA succeed. -/
structure Cuda where
  eventCreate : Bool
  eventRecord : Bool
  streamWaitEvent : Bool

variable (T S E W) in
/-- The resource, and the commands handed to streams so far. -/
structure State where
  lastStream : Option T
  /-- `m_event` is there. -/
  event : Bool
  history : List (Cmd S (Option E) W)

/-- A resource that was not used. -/
def initial : State T S E W where
  lastStream := none
  event := false
  history := []

/-- `Resource::submitSync`: whether it returns, and what it leaves. `others` are the commands of
other threads between its two. -/
def submitSync (handle : T → S) (cuda : Cuda) (others : List (Command S E W)) (stream : T)
    (r : State T S E W) : Bool × State T S E W :=
  let last := r.lastStream.getD stream
  let r := { r with lastStream := some last }
  if handle last = handle stream then (true, r)
  else if ¬(r.event ∨ cuda.eventCreate) then (false, r)
  else
    let r := { r with event := true }
    if ¬cuda.eventRecord then (false, r)
    else
      let r := { r with
        history := r.history ++ .record none (handle last) :: others.map Command.cmd }
      if ¬cuda.streamWaitEvent then (false, r)
      else (true, { r with
        lastStream := some stream
        history := r.history ++ [.waitEvent (handle stream) none] })

/-- A command of others, or a call for the resource. -/
inductive Op (T S E W : Type) where
  | command (c : Command S E W)
  | submitSync (cuda : Cuda) (others : List (Command S E W)) (stream : T)

def Op.exec (handle : T → S) (r : State T S E W) : Op T S E W → State T S E W
  | .command c => { r with history := r.history ++ [c.cmd] }
  | .submitSync cuda others stream => (Resource.submitSync handle cuda others stream r).2

/-- After the calls and commands. -/
def run (handle : T → S) (ops : List (Op T S E W)) : State T S E W :=
  ops.foldl (Op.exec handle) initial

/-- The call for the stream returns, after the others. -/
def Returns (handle : T → S) (ops : List (Op T S E W)) (cuda : Cuda) (others : List (Command S E W))
    (stream : T) : Prop :=
  (submitSync handle cuda others stream (run handle ops)).1

end Nvcvpy.Resource
