import CvCuda.Lib.Run

/-! # Minimum-area rectangles

`resetRotatedPointsBuf`, `calculateRotateArea` and `findMinAreaAndAngle` of
`priv_musa/legacy/min_area_rect.mu`, for one contour.

* The threads of `calculateRotateArea` take their steps in any order: each of its reads and writes
  of device memory is a step.
* `findMinAreaAndAngle` has a thread for each rotation. Between its barriers the threads work on
  entries of their own or write the same values; after the last barrier they take their steps in
  any order again.
* What `float` products make of a rotated point is up to `rotate`. Areas wrap as `int`.
-/

namespace Cvcuda.MinAreaRect

def intMax : ℤ := 2 ^ 31 - 1

def intMin : ℤ := -2 ^ 31

/-- An `int`. -/
def wrap (z : ℤ) : ℤ := z.bmod (2 ^ 32)

/-- The entries of `rotatedPointsTensor` for a rotation. -/
structure Cell where
  xmin : ℤ
  ymin : ℤ
  xmax : ℤ
  ymax : ℤ
  area : ℤ
  angle : ℤ
  deriving DecidableEq

/-- `resetRotatedPointsBuf`. -/
def Cell.reset : Cell where
  xmin := intMax
  ymin := intMax
  xmax := intMin
  ymax := intMin
  area := -1
  angle := -1

/-! ## `calculateRotateArea` -/

/-- What a thread does next, with what it has read. -/
inductive Pc where
  | atomicMinX | atomicMinY | atomicMaxX | atomicMaxY
  | loadXmax
  | loadXmin (xmax : ℤ)
  | loadYmax (rectWidth : ℤ)
  | loadYmin (rectWidth ymax : ℤ)
  | storeArea (rectWidth rectHeight : ℤ)
  | storeAngle
  | done
  deriving DecidableEq

/-- A thread reads the bounds. -/
def Pc.loads : Pc → Bool
  | .loadXmax | .loadXmin _ | .loadYmax _ | .loadYmin _ _ => true
  | _ => false

/-- A step of a thread for a rotated point. -/
def advance (angleIdx : Nat) (px py : ℤ) (c : Cell) : Pc → Option (Cell × Pc)
  | .atomicMinX => some ({ c with xmin := min c.xmin px }, .atomicMinY)
  | .atomicMinY => some ({ c with ymin := min c.ymin py }, .atomicMaxX)
  | .atomicMaxX => some ({ c with xmax := max c.xmax px }, .atomicMaxY)
  | .atomicMaxY => some ({ c with ymax := max c.ymax py }, .loadXmax)
  | .loadXmax => some (c, .loadXmin c.xmax)
  | .loadXmin xmax => some (c, .loadYmax (wrap (xmax - c.xmin)))
  | .loadYmax rectWidth => some (c, .loadYmin rectWidth c.ymax)
  | .loadYmin rectWidth ymax => some (c, .storeArea rectWidth (wrap (ymax - c.ymin)))
  | .storeArea rectWidth rectHeight =>
    some ({ c with area := wrap (rectWidth * rectHeight) }, .storeAngle)
  | .storeAngle => some ({ c with angle := angleIdx }, .done)
  | .done => none

section
variable {Point : Type} (rotate : Nat → Point → Int32 × Int32) (points : List Point)
  (numOfDegrees : Nat)

/-- The cells of the rotations, and a thread for each rotation and point. -/
structure State where
  cells : Nat → Cell
  pcs : Nat → Nat → Pc

def State.start : State where
  cells := fun _ => .reset
  pcs := fun _ _ => .atomicMinX

/-- The thread for a rotation and a point takes a step. -/
def step (s : State) (t : Nat × Nat) : Option State := do
  let p ← points[t.2]?
  if t.1 < numOfDegrees then
    let (px, py) := rotate t.1 p
    let (c, pc) ← advance t.1 px.toInt py.toInt (s.cells t.1) (s.pcs t.1 t.2)
    some {
      cells := Function.update s.cells t.1 c
      pcs := Function.update s.pcs t.1 (Function.update (s.pcs t.1) t.2 pc) }
  else none

/-- All threads are done. -/
def State.Finished (s : State) : Prop :=
  ∀ a < numOfDegrees, ∀ i < points.length, s.pcs a i = .done

instance (s : State) : Decidable (s.Finished points numOfDegrees) :=
  inferInstanceAs (Decidable (∀ a < numOfDegrees, ∀ i < points.length, _))

/-! ## `findMinAreaAndAngle` -/

/-- `areaAngleBuf_sm`: areas with their rotations. -/
abbrev Buf := Nat → ℤ × ℤ

/-- What is read from the cells. -/
def State.buf (s : State) : Buf := fun a => ((s.cells a).area, (s.cells a).angle)

/-- Each thread below the stride compares its entry with the one a stride further. -/
def halve (stride : Nat) (buf : Buf) : Buf := fun i =>
  if i < stride ∧ (buf (i + stride)).1 < (buf i).1 then buf (i + stride) else buf i

/-- The first entry is compared with the last one below an odd stride. -/
def absorbOdd (stride : Nat) (buf : Buf) : Buf :=
  if stride % 2 = 1 ∧ (buf (stride - 1)).1 < (buf 0).1 then
    Function.update buf 0 (buf (stride - 1))
  else buf

/-- The loop over strides. -/
def minLoop (stride : Nat) (buf : Buf) : Buf :=
  if stride = 0 then buf else minLoop (stride / 2) (absorbOdd stride (halve stride buf))
termination_by stride
decreasing_by omega

/-- What a thread does after the last barrier. Only the first goes on to read the rotation. -/
inductive LastPc where
  | compare | writeArea | writeAngle | readAngle | done
  deriving DecidableEq

/-- The first entry of the buffer, and what the first thread has read of it. -/
structure Last where
  entry : ℤ × ℤ
  pcs : Nat → LastPc
  minRotateAngle : Option ℤ

def Last.start (buf : Buf) : Last where
  entry := minLoop (numOfDegrees / 2) buf 0
  pcs := fun _ => .compare
  minRotateAngle := none

/-- A thread takes a step after the last barrier; the last entry does not change any more. -/
def lastStep (last : ℤ × ℤ) (f : Last) (t : Nat) : Option Last :=
  if numOfDegrees < t then none
  else
    let after := if t = 0 then LastPc.readAngle else .done
    match f.pcs t with
    | .compare =>
      let pc := if numOfDegrees % 2 = 1 ∧ last.1 < f.entry.1 then .writeArea else after
      some { f with pcs := Function.update f.pcs t pc }
    | .writeArea =>
      some { f with entry := (last.1, f.entry.2), pcs := Function.update f.pcs t .writeAngle }
    | .writeAngle =>
      some { f with entry := (f.entry.1, last.2), pcs := Function.update f.pcs t after }
    | .readAngle =>
      some { f with
        pcs := Function.update f.pcs t .done
        minRotateAngle := some f.entry.2 }
    | .done => none

end

end Cvcuda.MinAreaRect
