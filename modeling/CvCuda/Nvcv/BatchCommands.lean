import CvCuda.Lib.Run
import CvCuda.Lib.StreamOrder
import CvCuda.Nvcv.ImageBatchVarShape
import CvCuda.Nvcv.TensorBatch

/-! # What batches ask of the runtime

The commands that the calls on `ImageBatchVarShape` and `TensorBatch` enqueue on streams, and their
waits for `m_evPostFence`, in the order of the source. A call that the runtime refuses enqueues
nothing. Streams are what the handles stand for; that the default stream also waits for others is
not modelled.

* `commands`: the commands of one call on a batch.
* `Streamed`: a batch with the commands of all calls so far.
* `lastExport`: what the commands tell about the last export that copied.
-/

namespace Nvcv

/-- The device buffers of the two batches. -/
inductive BatchBuffer where
  | images
  | formats
  | tensors
  deriving DecidableEq

/-- What a batch or its user enqueues: a copy of the elements from `first` on and below `last` to
a buffer, or anything else. -/
inductive Work where
  | copy (buffer : BatchBuffer) (first last : Nat)
  | other
  deriving DecidableEq

instance : Nonempty Work := ⟨.other⟩

/-- A work writes an element of a buffer. -/
def Work.Writes : Work → BatchBuffer × Nat → Prop
  | .copy buffer first last, x => buffer = x.1 ∧ first ≤ x.2 ∧ x.2 < last
  | .other, _ => False

/-- The one event of a batch. -/
inductive BatchEvent where
  | evPostFence
  deriving DecidableEq

/-- The commands of a batch, on streams `S`. -/
abbrev Command (S : Type) := StreamOrder.Cmd S BatchEvent Work

variable {S : Type}

/-- A call of the runtime, and what follows it if it is not refused. -/
def issue (answer : Except Exception Unit) (c : Command S) (next : List (Command S)) :
    List (Command S) :=
  match answer with
  | .error _ => []
  | .ok () => c :: next

namespace ImageBatchVarShape

def exportCommands (stream : S) (calls : ExportCalls) (b : ImageBatchVarShape) :
    List (Command S) :=
  let first := b.dirtyStartingFromIndex
  let last := b.images.length
  if first < last then
    issue calls.streamWaitEvent (.waitEvent stream .evPostFence) <|
    issue calls.memcpyImages (.enqueue stream (.copy .images first last)) <|
    issue calls.memcpyFormats (.enqueue stream (.copy .formats first last)) <|
    issue calls.eventRecord (.record .evPostFence stream) []
  else []

/-- The commands of a call, on the stream that an export is given. -/
def commands (stream : S) (b : ImageBatchVarShape) : Op → List (Command S)
  | .pushImages eventSynchronize (some _) numImages =>
    if numImages + b.numImages > b.capacity then []
    else issue eventSynchronize (.synchronize .evPostFence) []
  | .pushImagesCallback eventSynchronize (some _) =>
    issue eventSynchronize (.synchronize .evPostFence) []
  | .exportData calls => b.exportCommands stream calls
  | _ => []

/-- A batch among its objects, and the commands of its calls so far. -/
structure Streamed (S : Type) where
  sys : Sys
  history : List (Command S)

/-- An event, with the stream that an export is given. -/
def Streamed.Step (print : ImageFormat → String) (s : Streamed S) (e : Event × S)
    (s' : Streamed S) : Prop :=
  s.sys.Step print e.1 s'.sys ∧
    match e.1 with
    | .call op _ => s'.history = s.history ++ s.sys.batch.commands e.2 op
    | .others _ => s'.history = s.history

structure Streamed.New (s : Streamed S) : Prop where
  sys : s.sys.New
  history : s.history = []

/-- The runtime refuses nothing between the first copy of an export and its event record. -/
def ExportCalls.Whole (calls : ExportCalls) : Prop :=
  calls.streamWaitEvent = .ok () → calls.memcpyImages = .ok () →
    calls.memcpyFormats = .ok () ∧ calls.eventRecord = .ok ()

/-- A step whose export, if it is one, is whole. -/
def Streamed.WholeStep (print : ImageFormat → String) (s : Streamed S) (e : Event × S)
    (s' : Streamed S) : Prop :=
  s.Step print e s' ∧ ∀ calls r, e.1 = .call (.exportData calls) r → calls.Whole

end ImageBatchVarShape

namespace TensorBatch

def exportCommands (stream : S) (calls : ExportCalls) (b : TensorBatch)
    (o : Objects TensorData) : List (Command S) :=
  let first := b.dirtyBegin.toInt.toNat
  let last := b.dirtyEnd.toInt.toNat
  if b.dirtyBegin < b.dirtyEnd then
    issue calls.eventSynchronize (.synchronize .evPostFence) <|
    match (fillLoop o first ((b.tensors.drop first).take (last - first))
      b.pinnedTensorsBuffer).1 with
    | .error _ => []
    | .ok () =>
      issue calls.memcpyAsync (.enqueue stream (.copy .tensors first last)) <|
      issue calls.eventRecord (.record .evPostFence stream) []
  else []

/-- The commands of a call, on the stream that an export is given. -/
def commands (stream : S) (b : TensorBatch) (o : Objects TensorData) : Op → List (Command S)
  | .exportData calls => b.exportCommands stream calls o
  | _ => []

/-- A batch among the other owners of its tensors, and the commands of its calls so far. -/
structure Streamed (S : Type) where
  sys : Sys
  history : List (Command S)

/-- An event, with the stream that an export is given. -/
def Streamed.Step (s : Streamed S) (e : Event × S) (s' : Streamed S) : Prop :=
  s.sys.Step e.1 s'.sys ∧
    match e.1 with
    | .call op _ => s'.history = s.history ++ s.sys.batch.commands e.2 s.sys.objs op
    | _ => s'.history = s.history

structure Streamed.New (s : Streamed S) : Prop where
  sys : s.sys.New
  history : s.history = []

/-- The runtime refuses nothing between the copy of an export and its event record. -/
def ExportCalls.Whole (calls : ExportCalls) : Prop :=
  calls.eventSynchronize = .ok () → calls.memcpyAsync = .ok () → calls.eventRecord = .ok ()

/-- A step whose export, if it is one, is whole. -/
def Streamed.WholeStep (s : Streamed S) (e : Event × S) (s' : Streamed S) : Prop :=
  s.Step e s' ∧ ∀ calls r, e.1 = .call (.exportData calls) r → calls.Whole

end TensorBatch

/-! ## What an export delivers -/

/-- What is enqueued on the stream from here on comes after the last write of each of the first
`n` elements of the buffers. -/
def Delivered (h : List (Command S)) (stream : S) (buffers : List BatchBuffer) (n : Nat) : Prop :=
  ∀ buffer ∈ buffers, ∀ i < n, StreamOrder.Settled Work.Writes h stream (buffer, i)

/-- The last export that copied: its stream, the first element it copied, and whether the host has
waited for the event since. -/
structure LastExport (S : Type) where
  stream : S
  first : Nat
  synchronized : Bool
  deriving DecidableEq

/-- What a command changes of it. -/
def LastExport.note (l : Option (LastExport S)) : Command S → Option (LastExport S)
  | .enqueue stream (.copy _ first _) => some { stream, first, synchronized := false }
  | .synchronize _ => l.map fun l => { l with synchronized := true }
  | .enqueue _ .other | .record _ _ | .waitEvent _ _ => l

def lastExport (h : List (Command S)) : Option (LastExport S) := h.foldl LastExport.note none

/-- A stream may read what the exports so far copied to the first `n` elements: it is the one of
the last export that copied, the host has waited for that export, or all it copied is gone. -/
def Reaches (h : List (Command S)) (stream : S) (n : Nat) : Prop :=
  ∀ l, lastExport h = some l → l.stream = stream ∨ l.synchronized = true ∨ n ≤ l.first

end Nvcv
