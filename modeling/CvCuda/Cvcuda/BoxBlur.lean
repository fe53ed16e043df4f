import CvCuda.Lib.WorkQueue

/-! # Box blur

`BoxBlur` of `priv_musa/legacy/box_blur.mu` with the `Memory` of `textbackend/memory.hpp`, in which
it stages its commands.

* Allocations succeed, at addresses that were not used before. What a block holds at first, and
  whether freeing one waits for the work enqueued before, is up to the `Runtime`.
* Of the kernels, only those that read commands are modelled, and of these what they read.
* Sums of box coordinates are taken not to overflow.
-/

namespace Cvcuda.BoxBlur

open WorkQueue (Work)

/-! ## Commands -/

/-- `NVCVBlurBoxI`. -/
structure BlurBox where
  x : Int
  y : Int
  width : Int
  height : Int
  kernelSize : Int

/-- `BoxBlurCommand`, less its colors, which nothing sets. -/
structure BoxBlurCommand where
  boundingLeft : Int
  boundingTop : Int
  boundingRight : Int
  boundingBottom : Int
  batchIndex : Nat
  kernelSize : Int
  deriving DecidableEq

/-- The command of a box of image `n`; a small box has none. -/
def command (width height : Int) (n : Nat) (box : BlurBox) : Option BoxBlurCommand :=
  let left := max (min box.x (width - 1)) 0
  let top := max (min box.y (height - 1)) 0
  let right := max (min (left + box.width - 1) (width - 1)) 0
  let bottom := max (min (top + box.height - 1) (height - 1)) 0
  if left = right ∨ top = bottom then none
  else if box.width < 3 ∨ box.height < 3 ∨ box.kernelSize < 1 then none
  else some {
    boundingLeft := left, boundingTop := top, boundingRight := right, boundingBottom := bottom
    batchIndex := n, kernelSize := box.kernelSize }

/-- The commands that `cuosd_draw_boxblur` adds, from image `n` on. -/
def drawBoxblur (width height : Int) : (n : Nat) → List (List BlurBox) → List BoxBlurCommand
  | _, [] => []
  | n, boxes :: bboxes =>
    boxes.filterMap (command width height n) ++ drawBoxblur width height (n + 1) bboxes

/-! ## The operator -/

/-- What is left open of the runtime. -/
structure Runtime where
  /-- Whether freeing a block waits for the work of the stream. -/
  freeWaits : Bool
  /-- What a block holds at first, by its address. -/
  fresh : Nat → Nat → BoxBlurCommand

/-- `Memory<BoxBlurCommand>`. -/
structure Memory where
  host : Nat
  device : Nat
  size : Nat
  capacity : Nat

/-- The operator with its stream. -/
structure State where
  mem : WorkQueue.Memory BoxBlurCommand
  queue : List Work
  /-- The next address. -/
  next : Nat
  gpuBlurCommands : Memory
  blurCommands : List BoxBlurCommand
  /-- The commands that the calls so far asked for. -/
  calls : List (List BoxBlurCommand)

namespace State

/-- All work of the stream done. -/
def finish (s : State) : WorkQueue.Memory BoxBlurCommand := s.mem.drain s.queue

/-- `free_memory`. -/
def freeMemory (rt : Runtime) (s : State) : State :=
  let mem := if rt.freeWaits then s.finish else s.mem
  { s with
    mem := { mem with
      host := Function.update mem.host s.gpuBlurCommands.host none
      device := Function.update mem.device s.gpuBlurCommands.device none }
    queue := if rt.freeWaits then [] else s.queue }

/-- `musaMallocHost` and `musaMalloc`. -/
def malloc (rt : Runtime) (s : State) (size : Nat) : State :=
  { s with
    mem := { s.mem with
      host := Function.update s.mem.host s.next (some (rt.fresh s.next))
      device := Function.update s.mem.device s.next (some (rt.fresh s.next)) }
    next := s.next + 1
    gpuBlurCommands := { host := s.next, device := s.next, size, capacity := size } }

/-- `alloc_or_resize_to`. -/
def allocOrResizeTo (rt : Runtime) (s : State) (size : Nat) : State :=
  if s.gpuBlurCommands.capacity < size then (s.freeMemory rt).malloc rt size
  else { s with gpuBlurCommands := { s.gpuBlurCommands with size } }

/-- The `memcpy` of the commands to the start of the staging block. -/
def stage (s : State) : State :=
  let host := s.gpuBlurCommands.host
  { s with mem := { s.mem with
      host := Function.update s.mem.host host
        ((s.mem.host host).map fun f k => s.blurCommands.getD k (f k)) } }

/-- `copy_host_to_device`. -/
def copyHostToDevice (s : State) : State :=
  { s with queue := s.queue ++
      [.copy s.gpuBlurCommands.host s.gpuBlurCommands.device s.gpuBlurCommands.size] }

/-- `cuosd_apply`. -/
def cuosdApply (rt : Runtime) (s : State) : State :=
  if s.blurCommands ≠ [] then
    ((s.allocOrResizeTo rt s.blurCommands.length).stage).copyHostToDevice
  else s

/-- `RenderBlur_RGB` and `RenderBlur_RGBA`. -/
def renderBlur (s : State) : State :=
  if 0 < s.blurCommands.length then
    { s with queue := s.queue ++
        [.kernel s.calls.length s.gpuBlurCommands.device s.blurCommands.length] }
  else s

/-- The constructor. The capacity is 100 times the size of a command. -/
def new (rt : Runtime) : State :=
  malloc rt { mem := ⟨fun _ => none, fun _ => none, []⟩, queue := [], next := 0
              gpuBlurCommands := ⟨0, 0, 0, 0⟩, blurCommands := [], calls := [] } (100 * 28)

/-- A call for some commands is over. -/
def done (s : State) (commands : List BoxBlurCommand) : State :=
  { s with blurCommands := [], calls := s.calls ++ [commands] }

end State

/-! ## Calls -/

/-- `ErrorCode`. -/
inductive ErrorCode where
  | success | invalidDataType | invalidDataShape | invalidDataFormat | invalidParameter
  deriving DecidableEq

/-- `DataFormat`. -/
inductive DataFormat where
  | nchw | nhwc | chw | hwc
  deriving DecidableEq

/-- `DataShape`. -/
structure DataShape where
  N : Nat
  C : Nat
  H : Nat
  W : Nat
  deriving DecidableEq

/-- The arguments of `infer`, as far as it reads them. -/
structure Request where
  inFormat : DataFormat
  outFormat : DataFormat
  /-- The data types are the same. -/
  sameType : Bool
  inShape : DataShape
  outShape : DataShape
  /-- `sampleStride * numSamples`. -/
  srcMaxStride : Nat
  dstMaxStride : Nat
  bboxes : List (List BlurBox)

/-- The commands that a call asks for. -/
def Request.commands (r : Request) : List BoxBlurCommand :=
  drawBoxblur r.inShape.W r.inShape.H 0 r.bboxes

/-- `ApplyBoxBlur_RGB` for three channels and `ApplyBoxBlur_RGBA` for others. -/
def applyBoxBlur (rt : Runtime) (rgb : Bool) (r : Request) (s : State) : State × ErrorCode :=
  if r.outShape ≠ r.inShape ∨ rgb ∧ r.outShape.C ≠ 3 then (s, .invalidDataShape)
  else
    let s := s.cuosdApply rt
    if max r.srcMaxStride r.dstMaxStride ≤ 2 ^ 31 - 1 then (s.renderBlur, .success)
    else (s, .invalidParameter)

/-- The checks of `infer`. -/
def check (r : Request) : Option ErrorCode :=
  if r.inFormat ∉ [.nhwc, .hwc] ∨ r.outFormat ∉ [.nhwc, .hwc] then some .invalidDataFormat
  else if !r.sameType then some .invalidDataFormat
  else if 4 < r.inShape.C ∨ r.inShape.C < 1 then some .invalidDataShape
  else if r.bboxes.length ≠ r.inShape.N then some .invalidDataShape
  else none

/-- `infer`. With one or two channels it calls what is before its table. -/
def infer (rt : Runtime) (r : Request) (s : State) : Option (State × ErrorCode) :=
  match check r with
  | some code => some (s.done r.commands, code)
  | none =>
    if r.inShape.C < 3 then none
    else
      let s := { s with blurCommands := s.blurCommands ++ r.commands }
      let (s, code) := applyBoxBlur rt (r.inShape.C = 3) r s
      some (s.done r.commands, code)

/-! ## Runs -/

/-- A call, or the stream doing a piece of its work. -/
inductive Event where
  | infer (r : Request)
  | exec

def step (rt : Runtime) (s : State) : Event → Option State
  | .infer r => (infer rt r s).map Prod.fst
  | .exec =>
    match s.queue with
    | [] => some s
    | w :: ws => some { s with mem := s.mem.exec w, queue := ws }

def run (rt : Runtime) : State → List Event → Option State
  | s, [] => some s
  | s, e :: es => (step rt s e).bind fun s => run rt s es

end Cvcuda.BoxBlur
