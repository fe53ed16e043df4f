import CvCuda.Cvcuda.HistogramEq
import CvCuda.Cvcuda.PillowResize

/-! # Pillow resize of images of different sizes

`pillow_resize_var_shape` of `priv_musa/legacy/pillow_resize_var_shape.mu`, its coefficient kernel,
and what the kernels of the two passes read of the tables.

* The tables of the images stand one after another, those of the two directions apart.
* Scales are exact, and `int` arithmetic is taken not to overflow.
-/

namespace Cvcuda.PillowResize

open Kernel

namespace Pass

variable (p : Pass) (weights : ℚ → ℚ) (normalizeCoeff : Bool)

/-! ## The coefficient kernel -/

/-- What comes in any order: a thread, or a block whose threads wait for each other. -/
inductive Job where
  | thread (t : Nat × Nat)
  | block (b : Nat)
  deriving DecidableEq

def jobs (useShareMem : Bool) (grid : Nat) : List Job :=
  if useShareMem then (List.range grid).map .block else (threads grid).map .thread

def Does (tables : Tables) : Job → Tables → Prop
  | .thread t, tables' => tables' = p.threadDirect weights normalizeCoeff t tables
  | .block b, tables' => p.Block weights normalizeCoeff tables b tables'

end Pass

namespace VarShape

/-! ## The arrays of the host -/

/-- An image and what it is resized to. -/
structure Item where
  cols : Nat
  rows : Nat
  outCols : Nat
  outRows : Nat
  outCols_pos : 0 < outCols
  outRows_pos : 0 < outRows

/-- An image's entries in the arrays of a direction. -/
structure Slot where
  pass : Pass
  kkOffset : Nat
  boundsOffset : Nat

structure Entry where
  item : Item
  h : Slot
  v : Slot

/-- What the loop over the images adds up. -/
structure Totals where
  hKkTotal : Nat := 0
  vKkTotal : Nat := 0
  hBoundsTotal : Nat := 0
  vBoundsTotal : Nat := 0
  maxHKSize : Nat := 0
  maxVKSize : Nat := 0

structure Call where
  filter : Filter
  items : List Item
  channels : Nat

namespace Call

variable (call : Call)

def hPass (item : Item) : Pass := pass call.filter item.cols item.outCols

def vPass (item : Item) : Pass := pass call.filter item.rows item.outRows

/-- A turn of the loop. -/
def next (totals : Totals) (item : Item) : Totals :=
  let h := call.hPass item
  let v := call.vPass item
  { hKkTotal := totals.hKkTotal + item.outCols * h.kSize
    vKkTotal := totals.vKkTotal + item.outRows * v.kSize
    hBoundsTotal := totals.hBoundsTotal + item.outCols * 2
    vBoundsTotal := totals.vBoundsTotal + item.outRows * 2
    maxHKSize := if totals.maxHKSize < h.kSize then h.kSize else totals.maxHKSize
    maxVKSize := if totals.maxVKSize < v.kSize then v.kSize else totals.maxVKSize }

def totals : Totals := call.items.foldl call.next {}

def entriesFrom (totals : Totals) : List Item → List Entry
  | [] => []
  | item :: items =>
    { item
      h := ⟨call.hPass item, totals.hKkTotal, totals.hBoundsTotal⟩
      v := ⟨call.vPass item, totals.vKkTotal, totals.vBoundsTotal⟩ } ::
      entriesFrom (call.next totals item) items

def entries : List Entry := call.entriesFrom {} call.items

/-- `maxSize()` of the outputs. -/
def maxWidth : Nat := call.items.foldl (fun m item => max m item.outCols) 0

def maxHeight : Nat := call.items.foldl (fun m item => max m item.outRows) 0

/-- `maxSize()` of the inputs. -/
def maxInputHeight : Nat := call.items.foldl (fun m item => max m item.rows) 0

def shareMemLimit : Nat := 4096

def hUseShareMem : Bool := Pass.coefBlock * (call.totals.maxHKSize * 4) ≤ shareMemLimit

def vUseShareMem : Bool := Pass.coefBlock * (call.totals.maxVKSize * 4) ≤ shareMemLimit

def hvUseShareMem : Bool :=
  call.totals.maxHKSize * 4 * 32 ≤ shareMemLimit ∧ call.totals.maxVKSize * 4 * 8 ≤ shareMemLimit

end Call

/-! ## The coefficient kernel -/

namespace Slot

variable (s : Slot)

/-- The tables from an image's entries on. -/
def view (tables : Tables) : Tables where
  bounds := fun c => tables.bounds (s.boundsOffset + c)
  kk := fun k => tables.kk (s.kkOffset + k)

def putBack (tables own : Tables) : Tables where
  bounds := fun c => if s.boundsOffset ≤ c then own.bounds (c - s.boundsOffset) else tables.bounds c
  kk := fun k => if s.kkOffset ≤ k then own.kk (k - s.kkOffset) else tables.kk k

end Slot

def Step (weights : ℚ → ℚ) (normalizeCoeff : Bool) (tables : Tables) (job : Slot × Pass.Job)
    (tables' : Tables) : Prop :=
  ∃ own, job.1.pass.Does weights normalizeCoeff (job.1.view tables) job.2 own ∧
    tables' = job.1.putBack tables own

/-- `_precomputeCoeffsVarShape` over the images. -/
def Coeffs (weights : ℚ → ℚ) (normalizeCoeff : Bool) (slots : List Slot) (useShareMem : Bool)
    (grid : Nat) (tables tables' : Tables) : Prop :=
  ∃ order : List (Slot × Pass.Job),
    order.Perm (slots.flatMap fun s => (Pass.jobs useShareMem grid).map (s, ·)) ∧
    Run (Step weights normalizeCoeff) tables order tables'

/-! ## What the passes read -/

/-- A thread reads an entry of the bounds, of the coefficients, or of shared memory that its block
did not load. -/
inductive Read where
  | bound (cell : Nat)
  | coeff (cell : Nat)
  | stale (i : Nat)
  deriving DecidableEq

/-- A block along the direction of a pass, `blockSize` threads from `offset` on, and the extent that
its threads compare with. -/
structure Strip where
  slot : Slot
  useShareMem : Bool
  blockSize : Nat
  offset : Nat
  extent : Nat

namespace Strip

variable (b : Strip)

/-- The coefficients that a block loads. -/
def Loads (i : Nat) : Prop :=
  i < b.blockSize * b.slot.pass.kSize ∧ i < (b.extent - b.offset) * b.slot.pass.kSize

instance (i : Nat) : Decidable (b.Loads i) := instDecidableAnd

/-- An entry of `h_kk` or `v_kk` from the block's first row on. -/
def cell (i : Nat) : Nat := b.slot.kkOffset + (b.offset * b.slot.pass.kSize + i)

/-- The loop that loads them, of a thread of a block of 256. -/
def loads (localTid : Nat) : List Read :=
  if b.useShareMem then
    (((List.range b.slot.pass.kSize).map fun j => localTid + j * 256).filter fun i =>
      b.Loads i).map fun i => .coeff (b.cell i)
  else []

/-- An entry of `h_k_tmp` or `v_k_tmp`. -/
def fetch (i : Nat) : Read :=
  if b.useShareMem then if b.Loads i then .coeff (b.cell i) else .stale i else .coeff (b.cell i)

/-- What is read for an output index and each channel. -/
def taps (bounds : Nat → ℤ) (channels localId : Nat) (skips : ℤ → Bool) : List Read :=
  let dst := b.offset + localId
  let n := bounds (b.slot.boundsOffset + (dst * 2 + 1))
  [.bound (b.slot.boundsOffset + dst * 2), .bound (b.slot.boundsOffset + (dst * 2 + 1))] ++
    (List.range channels).flatMap fun _ =>
      ((List.range n.toNat).filter fun x : Nat =>
        !skips (bounds (b.slot.boundsOffset + dst * 2) + (x : ℤ))).map fun x =>
          b.fetch (localId * b.slot.pass.kSize + x)

end Strip

namespace Call

variable (call : Call)

def hGrid : Nat := divUp call.maxWidth Pass.coefBlock

def vGrid : Nat := divUp call.maxHeight Pass.coefBlock

/-- `horizontal_pass_var_shape` -/
def horizontalReads (e : Entry) (bounds : Nat → ℤ) (t : Thread) : List Read :=
  let dstX := t.blockIdx.1 * 32 + t.threadIdx.1
  let dstY := t.blockIdx.2.1 * 8 + t.threadIdx.2
  let b : Strip := ⟨e.h, call.hvUseShareMem, 32, t.blockIdx.1 * 32, call.maxWidth⟩
  b.loads (t.threadIdx.1 + 32 * t.threadIdx.2) ++
    if dstX < call.maxWidth ∧ dstY < call.maxInputHeight then
      b.taps bounds call.channels t.threadIdx.1 fun x =>
        let srcY := dstY + x.tdiv e.item.cols
        let srcX := x.tmod e.item.cols
        srcY < 0 ∨ e.item.rows ≤ srcY ∨ srcX < 0 ∨ e.item.cols ≤ srcX
    else []

/-- `vertical_pass_var_shape` -/
def verticalReads (e : Entry) (bounds : Nat → ℤ) (t : Thread) : List Read :=
  let dstX := t.blockIdx.1 * 32 + t.threadIdx.1
  let dstY := t.blockIdx.2.1 * 8 + t.threadIdx.2
  let b : Strip := ⟨e.v, call.hvUseShareMem, 8, t.blockIdx.2.1 * 8, e.item.outRows⟩
  b.loads (t.threadIdx.1 + 32 * t.threadIdx.2) ++
    if dstX < e.item.outCols ∧ dstY < e.item.outRows then
      b.taps bounds call.channels t.threadIdx.2 fun y =>
        let srcY := y + (dstX / call.maxWidth : Nat)
        let srcX := dstX % call.maxWidth
        srcY < 0 ∨ call.maxInputHeight ≤ srcY ∨ call.maxWidth ≤ srcX
    else []

/-- The threads of the passes. -/
def hThreads : List Thread :=
  launch (divUp call.maxWidth 32) (divUp call.maxInputHeight 8) call.items.length 32 8

def vThreads : List Thread :=
  launch (divUp call.maxWidth 32) (divUp call.maxHeight 8) call.items.length 32 8

/-- The coefficient kernels, over the tables of the two directions. -/
def Coefficients (weights : ℚ → ℚ) (normalizeCoeff : Bool) (h₀ v₀ h v : Tables) : Prop :=
  Coeffs weights normalizeCoeff (call.entries.map Entry.h) call.hUseShareMem call.hGrid h₀ h ∧
    Coeffs weights normalizeCoeff (call.entries.map Entry.v) call.vUseShareMem call.vGrid v₀ v

end Call

end VarShape

end Cvcuda.PillowResize
