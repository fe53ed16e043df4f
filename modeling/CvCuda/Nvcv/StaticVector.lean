import CvCuda.Lib.Run
import CvCuda.Lib.Custody

/-! # Vectors of bounded size

`StaticVector<T, N>` of `util_musa/StaticVector.hpp`, for an element type that is not trivial and
that can be copied, and programs over any number of vectors.

* An element object has a number of its own from its construction on; the buffers of the vectors
  are places for such objects. What happens to objects outside of the buffers is left out.
* To read, assign or destroy where no object is, or to construct after the end of the buffer, is an
  error, `none`. The algorithms of the standard library take the elements in order.
* The operations of the element type throw nothing.
-/

namespace Nvcv.StaticVector

variable {V : Type}

/-- What is left open of the element type: the value of `T()`, if there is one, and what a move
leaves in the object that it takes from. -/
structure ElemType (V : Type) where
  default : Option V
  moved : V → V

/-! ## Elements -/

/-- A vector, and an index of its buffer. -/
abbrev Slot := Nat × Nat

/-- An object of the element type. -/
structure Elem (V : Type) where
  id : Nat
  value : V

/-- The buffers of the vectors, how many objects were constructed there, and which destroyed. -/
structure Mem (V : Type) where
  slot : Slot → Option (Elem V)
  next : Nat
  log : List CustodyEvent

namespace Mem

/-- `new (p) T(v)` -/
def construct (N : Nat) (m : Mem V) (k : Slot) (v : V) : Option (Mem V) :=
  if k.2 < N then
    some { m with slot := Function.update m.slot k (some ⟨m.next, v⟩), next := m.next + 1 }
  else none

/-- `std::destroy_at` -/
def destroyAt (m : Mem V) (k : Slot) : Option (Mem V) :=
  (m.slot k).map fun e =>
    { m with slot := Function.update m.slot k none, log := m.log ++ [.disposed e.id] }

def read (m : Mem V) (k : Slot) : Option V := (m.slot k).map Elem.value

def assign (m : Mem V) (k : Slot) (v : V) : Option (Mem V) :=
  (m.slot k).map fun e => { m with slot := Function.update m.slot k (some { e with value := v }) }

/-- The value that a move takes. -/
def moveFrom (T : ElemType V) (m : Mem V) (k : Slot) : Option (V × Mem V) := do
  let v ← m.read k
  let m ← m.assign k (T.moved v)
  some (v, m)

/-! ## Ranges -/

def forRange (first last : Nat) (f : Mem V → Nat → Option (Mem V)) (m : Mem V) : Option (Mem V) :=
  (List.range' first (last - first)).foldlM f m

/-- `std::destroy` -/
def destroy (m : Mem V) (v first last : Nat) : Option (Mem V) :=
  m.forRange first last fun m i => m.destroyAt (v, i)

/-- `std::uninitialized_fill`, also `std::uninitialized_default_construct`. -/
def uninitializedFill (N : Nat) (m : Mem V) (v first last : Nat) (x : V) : Option (Mem V) :=
  m.forRange first last fun m i => m.construct N (v, i) x

/-- `std::uninitialized_copy` of an `std::initializer_list` to the begin. -/
def uninitializedCopyList (N : Nat) (m : Mem V) (list : List V) (v : Nat) : Option (Mem V) :=
  m.forRange 0 list.length fun m i => do
    let x ← list[i]?
    m.construct N (v, i) x

/-- `std::uninitialized_copy` from `w` to the same indices of `v`. -/
def uninitializedCopy (N : Nat) (m : Mem V) (w first last v : Nat) : Option (Mem V) :=
  m.forRange first last fun m i => do
    let x ← m.read (w, i)
    m.construct N (v, i) x

/-- `std::uninitialized_move` from `w` to the same indices of `v`. -/
def uninitializedMove (T : ElemType V) (N : Nat) (m : Mem V) (w first last v : Nat) :
    Option (Mem V) :=
  m.forRange first last fun m i => do
    let (x, m) ← m.moveFrom T (w, i)
    m.construct N (v, i) x

/-- `std::copy` from `w` to the same indices of `v`. -/
def copy (m : Mem V) (w first last v : Nat) : Option (Mem V) :=
  m.forRange first last fun m i => do
    let x ← m.read (w, i)
    m.assign (v, i) x

/-- `std::move` from `w` to the same indices of `v`. -/
def move (T : ElemType V) (m : Mem V) (w first last v : Nat) : Option (Mem V) :=
  m.forRange first last fun m i => do
    let (x, m) ← m.moveFrom T (w, i)
    m.assign (v, i) x

/-- `std::swap_ranges` -/
def swapRanges (m : Mem V) (v first last w start : Nat) : Option (Mem V) :=
  m.forRange first last fun m i => do
    let x ← m.read (v, i)
    let y ← m.read (w, start + (i - first))
    let m ← m.assign (v, i) y
    m.assign (w, start + (i - first)) x

end Mem

/-! ## Vectors -/

/-- `m_size` of the vectors that exist, and their buffers. -/
structure State (V : Type) where
  size : Nat → Option Nat
  mem : Mem V

def State.init : State V := ⟨fun _ => none, ⟨fun _ => none, 0, []⟩⟩

/-- Whether a call throws, and what it leaves. -/
abbrev Result (V : Type) := Bool × State V

namespace State

variable (T : ElemType V) (N : Nat)

/-- A call throws and leaves all as it was. -/
def throws (s : State V) : Result V := (true, s)

/-- A call returns with a size and the buffers. -/
def returns (s : State V) (v n : Nat) (m : Mem V) : Result V :=
  (false, ⟨Function.update s.size v (some n), m⟩)

/-- `StaticVector()` -/
def construct (s : State V) (v : Nat) : Option (Result V) := some (s.returns v 0 s.mem)

/-- `StaticVector(count, value)`, also `StaticVector(count)`. -/
def constructFill (s : State V) (v count : Nat) (x : V) : Option (Result V) :=
  if N < count then some s.throws
  else do
    let m ← s.mem.uninitializedFill N v 0 count x
    some (s.returns v count m)

/-- `StaticVector(list)` -/
def constructList (s : State V) (v : Nat) (list : List V) : Option (Result V) :=
  if N < list.length then some s.throws
  else do
    let m ← s.mem.uninitializedCopyList N list v
    some (s.returns v list.length m)

/-- `StaticVector(const StaticVector &that)` -/
def copyConstruct (s : State V) (v w : Nat) : Option (Result V) := do
  let that ← s.size w
  let m ← s.mem.uninitializedCopy N w 0 that v
  some (s.returns v that m)

/-- `StaticVector(StaticVector &&that)` -/
def moveConstruct (s : State V) (v w : Nat) : Option (Result V) := do
  let that ← s.size w
  let m ← s.mem.uninitializedMove T N w 0 that v
  some (s.returns v that m)

/-- `operator=(const StaticVector &that)` -/
def copyAssign (s : State V) (v w : Nat) : Option (Result V) := do
  let size ← s.size v
  let that ← s.size w
  if v = w then some (false, s)
  else do
    let commonSize := min size that
    let m ← s.mem.copy w 0 commonSize v
    let m ← if size < that then m.uninitializedCopy N w commonSize that v
      else if that < size then m.destroy v commonSize size
      else some m
    some (s.returns v that m)

/-- `operator=(StaticVector &&that)` -/
def moveAssign (s : State V) (v w : Nat) : Option (Result V) := do
  let size ← s.size v
  let that ← s.size w
  if v = w then some (false, s)
  else if size ≤ that then do
    let m ← s.mem.move T w 0 size v
    let m ← m.uninitializedMove T N w size that v
    some (s.returns v that m)
  else do
    let m ← s.mem.move T w 0 that v
    let m ← m.destroy v that size
    some (s.returns v that m)

/-- `push_back(item)`, also `emplace_back(args...)` of an element of this value. -/
def pushBack (s : State V) (v : Nat) (item : V) : Option (Result V) := do
  let size ← s.size v
  if N ≤ size then some s.throws
  else do
    let m ← s.mem.construct N (v, size) item
    some (s.returns v (size + 1) m)

/-- `pop_back()` -/
def popBack (s : State V) (v : Nat) : Option (Result V) := do
  let size ← s.size v
  let m ← s.mem.destroyAt (v, size - 1)
  some (s.returns v (size - 1) m)

/-- `resize(newSize)` -/
def resize (s : State V) (v newSize : Nat) : Option (Result V) := do
  let size ← s.size v
  if N < newSize then some s.throws
  else if newSize < size then do
    let m ← s.mem.destroy v newSize size
    some (s.returns v newSize m)
  else if size < newSize then
    match T.default with
    | none => some s.throws
    | some x => do
      let m ← s.mem.uninitializedFill N v size newSize x
      some (s.returns v newSize m)
  else some (s.returns v newSize s.mem)

/-- `erase(beg, end)`, the iterators as indices. -/
def erase (s : State V) (v first last : Nat) : Option (Result V) := do
  let size ← s.size v
  let m ← s.mem.swapRanges v last size v first
  resize T N { s with mem := m } v (size - (last - first))

/-- `clear()` -/
def clear (s : State V) (v : Nat) : Option (Result V) := do
  let size ← s.size v
  let m ← s.mem.destroy v 0 size
  some (s.returns v 0 m)

/-- `swap(a, b)` -/
def swap (s : State V) (a b : Nat) : Option (Result V) := do
  let sizeA ← s.size a
  let sizeB ← s.size b
  let commonSize := min sizeA sizeB
  let m ← s.mem.swapRanges a 0 commonSize b 0
  let m ← if sizeA < sizeB then m.uninitializedMove T N b commonSize sizeB a
    else if sizeB < sizeA then m.uninitializedMove T N a commonSize sizeA b
    else some m
  some (false, ⟨Function.update (Function.update s.size a (some sizeB)) b (some sizeA), m⟩)

/-- `~StaticVector()`; the buffer is gone, too. -/
def destruct (s : State V) (v : Nat) : Option (Result V) := do
  let size ← s.size v
  let m ← s.mem.destroy v 0 size
  some (false, ⟨Function.update s.size v none,
    { m with slot := fun k => if k.1 = v then none else m.slot k }⟩)

end State

/-! ## Programs -/

inductive Op (V : Type) where
  | construct (v : Nat)
  | constructFill (v count : Nat) (x : V)
  | constructList (v : Nat) (list : List V)
  | copyConstruct (v w : Nat)
  | moveConstruct (v w : Nat)
  | copyAssign (v w : Nat)
  | moveAssign (v w : Nat)
  | pushBack (v : Nat) (item : V)
  | popBack (v : Nat)
  | resize (v newSize : Nat)
  | erase (v first last : Nat)
  | clear (v : Nat)
  | swap (a b : Nat)
  | destruct (v : Nat)

/-- What a program may do: it uses vectors that exist, takes elements from one that has some and
erases what is in the vector. -/
def State.Permits (s : State V) : Op V → Prop
  | .construct v | .constructFill v _ _ | .constructList v _ => s.size v = none
  | .copyConstruct v w | .moveConstruct v w => s.size v = none ∧ s.size w ≠ none
  | .copyAssign v w | .moveAssign v w | .swap v w => s.size v ≠ none ∧ s.size w ≠ none
  | .pushBack v _ | .resize v _ | .clear v | .destruct v => s.size v ≠ none
  | .popBack v => ∃ n, s.size v = some n ∧ 0 < n
  | .erase v first last => ∃ n, s.size v = some n ∧ first ≤ last ∧ last ≤ n

/-- A swap is one of vectors of the same size. -/
def State.SwapsEven (s : State V) : Op V → Prop
  | .swap a b => s.size a = s.size b
  | _ => True

def State.step (T : ElemType V) (N : Nat) (s : State V) : Op V → Option (Result V)
  | .construct v => s.construct v
  | .constructFill v count x => s.constructFill N v count x
  | .constructList v list => s.constructList N v list
  | .copyConstruct v w => s.copyConstruct N v w
  | .moveConstruct v w => s.moveConstruct T N v w
  | .copyAssign v w => s.copyAssign N v w
  | .moveAssign v w => s.moveAssign T N v w
  | .pushBack v item => s.pushBack N v item
  | .popBack v => s.popBack v
  | .resize v newSize => s.resize T N v newSize
  | .erase v first last => s.erase T N v first last
  | .clear v => s.clear v
  | .swap a b => s.swap T N a b
  | .destruct v => s.destruct v

/-- A program, which catches what its operations throw. -/
abbrev Runs (T : ElemType V) (N : Nat) : State V → List (Op V) → State V → Prop :=
  Run fun s op s' => s.Permits op ∧ ∃ thrown, s.step T N op = some (thrown, s')

/-- A program whose swaps are of vectors of the same size. -/
abbrev EvenRuns (T : ElemType V) (N : Nat) : State V → List (Op V) → State V → Prop :=
  Run fun s op s' => (s.Permits op ∧ ∃ thrown, s.step T N op = some (thrown, s')) ∧ s.SwapsEven op

/-- When no vector is left, each object was destroyed once. -/
def State.AllDestroyed (s : State V) : Prop :=
  (∀ v, s.size v = none) → ∀ a < s.mem.next, s.mem.log.count (.disposed a) = 1

end Nvcv.StaticVector
