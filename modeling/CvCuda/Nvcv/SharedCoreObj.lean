import CvCuda.Lib.StateCall
import CvCuda.Lib.Run
import CvCuda.Nvcv.CoreObject

/-! # Shared core objects

`SharedCoreObj` of `nvcv/priv_musa/SharedCoreObj.hpp`: the constructors, assignments and methods,
on variables of related types whose objects have handles of one type. The use of an object that
was destroyed has no outcome, nor has an assertion that fails.
-/

namespace Nvcv.SharedCoreObj

/-- A `CoreObj *`: null, to the object of a handle, or to an object that was given no handle. -/
inductive Pointer where
  | null
  | managed (handle : { handle : Addr // handle ≠ 0 })
  | unmanaged (object : Nat)
  deriving DecidableEq, Repr

/-- The handle the object of a pointer has. -/
def Pointer.handle? : Pointer → Option Addr
  | managed handle => some handle
  | _ => none

/-- The objects, the variables there are, and what `m_obj` of each is. -/
structure State (V Obj : Type) where
  objs : Objects Obj
  vars : Finset V
  obj : V → Pointer

abbrev Act (V Obj α : Type) := StateCall Exception (State V Obj) α

variable {V Obj : Type} [DecidableEq V]

def setObj (v : V) (obj : Pointer) : Act V Obj Unit :=
  modify fun s => { s with obj := Function.update s.obj v obj }

/-- The constructor of `v` is done. -/
def constructed (v : V) : Act V Obj Unit := modify fun s => { s with vars := insert v s.vars }

def onObjects {α : Type} (f : Objects Obj → Except Exception α × Objects Obj) : Act V Obj α :=
  StateCall.onPart State.objs (fun objs s => { s with objs }) f

/-- `obj->handle()`. -/
def handle (obj : Pointer) : Act V Obj Addr := do
  match obj with
  | .null => StateCall.stuck
  | .managed h =>
    let s ← get
    StateCall.assert ((s.objs.obj h).isSome = true)
    return h
  | .unmanaged _ => return 0

/-- `ToStaticPtr`. -/
def toStaticPtr (h : Addr) : Act V Obj Pointer := do
  let s ← get
  if h0 : h ≠ 0 then
    return if (s.objs.obj h).isSome then .managed ⟨h, h0⟩ else .null
  else
    return .null

/-- `if (obj && obj->handle()) CoreObjectIncRef(obj->handle());` -/
def incRef (obj : Pointer) : Act V Obj Unit := do
  if obj ≠ .null then
    let h ← handle obj
    if h ≠ 0 then
      let _ ← onObjects (coreObjectIncRef h)

/-- `if (obj) if (auto h = obj->handle()) ret = CoreObjectDecRef(h);` -/
def decRef (obj : Pointer) : Act V Obj Nat := do
  if obj ≠ .null then
    let h ← handle obj
    if h ≠ 0 then onObjects (coreObjectDecRef h) else return 0
  else
    return 0

/-! ## Methods -/

def get (v : V) : Act V Obj Pointer := do
  let s ← MonadState.get
  return s.obj v

def reset (v : V) (obj : Pointer) : Act V Obj Nat := do
  let ret ← decRef (← get v)
  setObj v obj
  return ret

def release (v : V) : Act V Obj Pointer := do
  let ret ← get v
  setObj v .null
  return ret

/-- `operator=(const SharedCoreObj &obj)`. -/
def copyAssign (v obj : V) : Act V Obj Unit := do
  let p ← get obj
  incRef p
  let _ ← reset v p

/-- `operator=(SharedCoreObj &&obj)`. -/
def moveAssign (v obj : V) : Act V Obj Unit := do
  let _ ← reset v (← release obj)

/-- `operator=(const SharedCoreObj<T> &obj)`: the text of `copyAssign`. -/
def copyAssignRelated (v obj : V) : Act V Obj Unit := copyAssign v obj

/-- `operator=(SharedCoreObj<T> &&obj)`: the text of `moveAssign`. -/
def moveAssignRelated (v obj : V) : Act V Obj Unit := moveAssign v obj

/-! ## Constructors -/

/-- `SharedCoreObj()` and `SharedCoreObj(std::nullptr_t)`. -/
def construct (v : V) : Act V Obj Unit := do
  setObj v .null
  constructed v

/-- `explicit SharedCoreObj(CoreObj *&&obj)`. -/
def constructPtr (v : V) (obj : Pointer) : Act V Obj Unit := do
  setObj v obj
  constructed v

/-- `SharedCoreObj(CoreObj &obj)`; a reference is to an object. -/
def constructRef (v : V) (obj : Pointer) : Act V Obj Unit := do
  StateCall.assert (obj ≠ .null)
  setObj v obj
  incRef obj
  constructed v

/-- `SharedCoreObj(const SharedCoreObj &obj)`. -/
def copyConstruct (v obj : V) : Act V Obj Unit := do
  setObj v .null
  copyAssign v obj
  constructed v

/-- `SharedCoreObj(const SharedCoreObj<U> &obj)`. -/
def copyConstructRelated (v obj : V) : Act V Obj Unit := do
  setObj v .null
  copyAssignRelated v obj
  constructed v

/-- `SharedCoreObj(SharedCoreObj &&obj)`. -/
def moveConstruct (v obj : V) : Act V Obj Unit := do
  setObj v .null
  moveAssign v obj
  constructed v

/-- `~SharedCoreObj()`. -/
def destruct (v : V) : Act V Obj Unit := do
  let _ ← reset v .null
  modify fun s => { s with vars := s.vars.erase v }

def fromHandle (v : V) (handle : Addr) (incRef : Bool) : Act V Obj Unit := do
  if handle ≠ 0 then
    if incRef = true then
      let _ ← onObjects (coreObjectIncRef handle)
    let obj ← toStaticPtr handle
    StateCall.assert (obj ≠ .null)
    StateCall.assert ((← SharedCoreObj.handle obj) = handle)
    constructPtr v obj
  else
    construct v

def fromPointer (v : V) (obj : Pointer) (incRef : Bool) : Act V Obj Unit := do
  if obj ≠ .null ∧ incRef = true then
    let h ← handle obj
    if h ≠ 0 then
      let _ ← onObjects (coreObjectIncRef h)
    else
      throw (.logicError "Cannot use incRef on an object without a handle")
  constructPtr v obj

def toSharedObj (v : V) (h : Addr) : Act V Obj Unit := do
  fromPointer v (← toStaticPtr h) true

/-! ## Programs -/

/-- What a program does; `v` is the variable it does it to, or creates. -/
inductive Op (V : Type) where
  | construct (v : V)
  | constructPtr (v : V) (obj : Pointer)
  | constructRef (v : V) (obj : Pointer)
  | copyConstruct (v obj : V)
  | copyConstructRelated (v obj : V)
  | moveConstruct (v obj : V)
  | destruct (v : V)
  | copyAssign (v obj : V)
  | moveAssign (v obj : V)
  | copyAssignRelated (v obj : V)
  | moveAssignRelated (v obj : V)
  | fromHandle (v : V) (handle : Addr) (incRef : Bool)
  | fromPointer (v : V) (obj : Pointer) (incRef : Bool)
  | toSharedObj (v : V) (handle : Addr)
  | reset (v : V) (obj : Pointer)
  | release (v : V)

/-- What an operation returns. -/
inductive Ret where
  | done
  | count (n : Nat)
  | pointer (obj : Pointer)
  deriving DecidableEq, Repr

namespace Op

def exec : Op V → Act V Obj Ret
  | construct v => do SharedCoreObj.construct v; return .done
  | constructPtr v obj => do SharedCoreObj.constructPtr v obj; return .done
  | constructRef v obj => do SharedCoreObj.constructRef v obj; return .done
  | copyConstruct v obj => do SharedCoreObj.copyConstruct v obj; return .done
  | copyConstructRelated v obj => do SharedCoreObj.copyConstructRelated v obj; return .done
  | moveConstruct v obj => do SharedCoreObj.moveConstruct v obj; return .done
  | destruct v => do SharedCoreObj.destruct v; return .done
  | copyAssign v obj => do SharedCoreObj.copyAssign v obj; return .done
  | moveAssign v obj => do SharedCoreObj.moveAssign v obj; return .done
  | copyAssignRelated v obj => do SharedCoreObj.copyAssignRelated v obj; return .done
  | moveAssignRelated v obj => do SharedCoreObj.moveAssignRelated v obj; return .done
  | fromHandle v h incRef => do SharedCoreObj.fromHandle v h incRef; return .done
  | fromPointer v obj incRef => do SharedCoreObj.fromPointer v obj incRef; return .done
  | toSharedObj v h => do SharedCoreObj.toSharedObj v h; return .done
  | reset v obj => do return .count (← SharedCoreObj.reset v obj)
  | release v => do return .pointer (← SharedCoreObj.release v)

/-- The variables an operation uses are there, and the one it creates is not. -/
def WellScoped (vars : Finset V) : Op V → Prop
  | construct v => v ∉ vars
  | constructPtr v _ => v ∉ vars
  | constructRef v _ => v ∉ vars
  | copyConstruct v obj => v ∉ vars ∧ obj ∈ vars
  | copyConstructRelated v obj => v ∉ vars ∧ obj ∈ vars
  | moveConstruct v obj => v ∉ vars ∧ obj ∈ vars
  | destruct v => v ∈ vars
  | copyAssign v obj => v ∈ vars ∧ obj ∈ vars
  | moveAssign v obj => v ∈ vars ∧ obj ∈ vars
  | copyAssignRelated v obj => v ∈ vars ∧ obj ∈ vars
  | moveAssignRelated v obj => v ∈ vars ∧ obj ∈ vars
  | fromHandle v _ _ => v ∉ vars
  | fromPointer v _ _ => v ∉ vars
  | toSharedObj v _ => v ∉ vars
  | reset v _ => v ∈ vars
  | release v => v ∈ vars

/-- The objects an operation uses, other than by a variable, are there. -/
def Usable (o : Objects Obj) : Op V → Prop
  | constructRef _ obj => obj ≠ .null ∧ ∀ h, obj.handle? = some h → 0 < o.refs h
  | fromHandle _ h incRef => h = 0 ∨ incRef = true ∨ 0 < o.refs h
  | fromPointer _ obj incRef => incRef = false ∨ ∀ h, obj.handle? = some h → 0 < o.refs h
  | _ => True

end Op

/-- A program that has no variable yet. -/
def State.initial (objs : Objects Obj) : State V Obj := { objs, vars := ∅, obj := fun _ => .null }

/-- An operation and its result. -/
abbrev Event (V : Type) := Op V × Except Exception Ret

def Step (s : State V Obj) (e : Event V) (s' : State V Obj) : Prop :=
  e.1.WellScoped s.vars ∧ StateCall.Runs e.1.exec s e.2 s'

/-! ## References -/

/-- The number of variables that own the object of a handle. -/
def State.owners (s : State V Obj) (handle : Addr) : Nat :=
  (s.vars.filter fun v => (s.obj v).handle? = some handle).card

/-- The reference an event gives out. -/
def Event.given : Event V → Option Addr
  | (.release _, .ok (.pointer obj)) => obj.handle?
  | _ => none

/-- The reference an event takes over from the program. -/
def Event.returned : Event V → Option Addr
  | (.constructPtr _ obj, .ok _) => obj.handle?
  | (.reset _ obj, .ok _) => obj.handle?
  | (.fromPointer _ obj false, .ok _) => obj.handle?
  | (.fromHandle _ handle false, .ok _) => if handle = 0 then none else some handle
  | _ => none

/-- The references to the object of a handle that a program was given and has not returned. -/
def outstanding (es : List (Event V)) (handle : Addr) : Int :=
  (es.filterMap Event.given).count handle - (es.filterMap Event.returned).count handle

end Nvcv.SharedCoreObj
