import CvCuda.Nvcv.Detail
import CvCuda.Nvcv.Exception

/-! # The handle manager

`HandleManager` of `nvcv/priv_musa/HandleManager.hpp` and `HandleManagerImpl.hpp`, called by one
thread at a time: pools of resources, the stack of free ones, and handles made of a resource's
address and the generation of its object in the low four bits. `std::atomic_int` is `Int32`,
which wraps. The memory of the pools is a function of the address; where the system allocator
puts a pool (or that it fails) is an argument of the calls that allocate.

`Ledger` is what a user of the manager can count: the handles of the live objects with their
references, and the handles of the destroyed ones. `Nvcv/Proof/HandleManager.lean` relates the two.
-/

namespace Nvcv

/-- The address of a resource, and a handle. -/
abbrev Addr := SizeT

/-- `ResourceBase`, less its link to the next free resource. -/
structure Resource (Obj : Type) where
  generation : BitVec 4 := 0#4
  ptrObj : Option Obj := none
  refCount : Int32 := 0
  deriving DecidableEq

/-- `ResourcePool`: the address of its first resource, and the number of resources. -/
structure ResourcePool where
  data : Addr
  size : Nat
  deriving DecidableEq

/-- `sizeof(Resource)`, a multiple of the resources' alignment `kResourceAlignment`. -/
structure ResourceSize where
  bytes : Nat
  pos : 0 < bytes
  aligned : 16 ∣ bytes

structure HandleManager (Obj : Type) where
  name : String
  sizeofResource : ResourceSize
  resourceStack : List ResourcePool := []
  freeResources : List Addr := []
  res : Addr → Resource Obj
  hasFixedSize : Bool := false
  totalCapacity : Int32 := 0
  usedCount : Int32 := 0

namespace HandleManager

/-- `kResourceAlignment`. -/
abbrev kResourceAlignment : SizeT := 16#64

/-- `kMinHandles`. -/
abbrev kMinHandles : Nat := 1024

/-- The addresses of the resources of a pool. -/
def slots (size : ResourceSize) (p : ResourcePool) : List Addr :=
  (List.range p.size).map fun i => p.data + BitVec.ofNat 64 (i * size.bytes)

section
variable {Obj : Type}

def modify (m : HandleManager Obj) (r : Addr) (f : Resource Obj → Resource Obj) :
    HandleManager Obj :=
  { m with res := Function.update m.res r (f (m.res r)) }

/-! ## Handles -/

/-- `doGetHandleGeneration`, as the generation field it is compared with. -/
def doGetHandleGeneration (handle : Addr) : BitVec 4 :=
  (handle &&& (kResourceAlignment - 1#64)).truncate 4

/-- `doGetHandleFromResource` for the resource at `r` with an object of this generation. -/
def doGetHandleFromResource (r : Addr) (generation : BitVec 4) : Addr :=
  r ||| generation.zeroExtend 64

def doGetResourceFromHandle (handle : Addr) : Addr := handle &&& -kResourceAlignment

/-- `isManagedResource`: the address lies in the range of a pool. -/
def isManagedResource (m : HandleManager Obj) (r : Addr) : Bool :=
  m.resourceStack.any fun p =>
    p.data.toNat ≤ r.toNat && r.toNat < p.data.toNat + p.size * m.sizeofResource.bytes

def getValidResource (m : HandleManager Obj) (handle : Addr) : Option Addr :=
  if handle = 0 then none
  else
    let r := doGetResourceFromHandle handle
    if r ≠ 0 ∧ m.isManagedResource r = true ∧ (m.res r).ptrObj.isSome = true ∧
        (m.res r).generation = doGetHandleGeneration handle then
      some r
    else none

/-! ## The pools -/

/-- `doAllocate`: `new ResourcePool{count}` at `answer`, or `std::bad_alloc`; the resources of the
pool go on top of the free ones. -/
def doAllocate (answer : Option Addr) (count : Nat) (m : HandleManager Obj) :
    Except Exception Unit × HandleManager Obj :=
  match answer with
  | none => (.error .badAlloc, m)
  | some data =>
    let pool : ResourcePool := { data, size := count }
    let new := slots m.sizeofResource pool
    (.ok (), { m with
      resourceStack := pool :: m.resourceStack
      freeResources := new ++ m.freeResources
      res := fun r => if r ∈ new then {} else m.res r })

def doGrow (answer : Option Addr) (m : HandleManager Obj) :
    Except Exception Unit × HandleManager Obj :=
  if m.hasFixedSize then
    (.error (.nvcv .outOfMemory
      s!"{m.name} handle manager pool exhausted under fixed size policy"), m)
  else
    doAllocate answer
      (if m.totalCapacity ≠ 0 then m.totalCapacity.toInt.toNat else kMinHandles) m

/-- `doFetchFreeResource`: its loop, with the answers the system allocator gives while it runs;
`none` while it waits for another one. -/
def doFetchFreeResource :
    List (Option Addr) → HandleManager Obj → Option (Except Exception Addr × HandleManager Obj)
  | answers, m =>
    match m.freeResources with
    | r :: free =>
      some (.ok r, { m with freeResources := free, usedCount := m.usedCount + 1 }.modify r
        fun res => { res with refCount := res.refCount + 1 })
    | [] =>
      match answers with
      | [] => none
      | answer :: answers =>
        match m.doGrow answer with
        | (.ok (), m) => doFetchFreeResource answers m
        | (.error e, m) => some (.error e, m)

def doReturnResource (r : Addr) (m : HandleManager Obj) : HandleManager Obj :=
  { m with freeResources := r :: m.freeResources, usedCount := m.usedCount - 1 }

/-! ## The calls -/

/-- `create`: the new handle. `ctor` is what the object's constructor does. -/
def create (ctor : Except Exception Obj) (answers : List (Option Addr)) (m : HandleManager Obj) :
    Option (Except Exception Addr × HandleManager Obj) :=
  match m.doFetchFreeResource answers with
  | none => none
  | some (.error e, m) => some (.error e, m)
  | some (.ok r, m) =>
    match ctor with
    | .ok obj =>
      let m := m.modify r fun res =>
        { res with ptrObj := some obj, generation := res.generation + 1 }
      some (.ok (doGetHandleFromResource r (m.res r).generation), m)
    | .error e =>
      some (.error e, doReturnResource r
        (m.modify r fun res => { res with refCount := res.refCount - 1 }))

def invalidHandle : Exception := .nvcv .invalidArgument "The handle is invalid."

def decRef (handle : Addr) (m : HandleManager Obj) : Except Exception Int32 × HandleManager Obj :=
  if handle = 0 then (.ok 0, m)
  else
    match m.getValidResource handle with
    | none => (.error invalidHandle, m)
    | some r =>
      let ref := (m.res r).refCount - 1
      let m := m.modify r fun res => { res with refCount := ref }
      if ref = 0 then
        (.ok ref, doReturnResource r (m.modify r fun res => { res with ptrObj := none }))
      else (.ok ref, m)

def incRef (handle : Addr) (m : HandleManager Obj) : Except Exception Int32 × HandleManager Obj :=
  match m.getValidResource handle with
  | none => (.error invalidHandle, m)
  | some r =>
    let ref := (m.res r).refCount + 1
    (.ok ref, m.modify r fun res => { res with refCount := ref })

def refCount (handle : Addr) (m : HandleManager Obj) : Except Exception Int32 :=
  match m.getValidResource handle with
  | none => .error invalidHandle
  | some r => .ok (m.res r).refCount

def validate (handle : Addr) (m : HandleManager Obj) : Option Obj :=
  match m.getValidResource handle with
  | none => none
  | some r => (m.res r).ptrObj

/-- `clear`, less its report of leaked handles. -/
def clear (m : HandleManager Obj) : HandleManager Obj :=
  { m with freeResources := [], resourceStack := [] }

def setFixedSize (maxSize : Int32) (answer : Option Addr) (m : HandleManager Obj) :
    Except Exception Unit × HandleManager Obj :=
  if m.usedCount > 0 then
    (.error (.nvcv .invalidOperation
      ("Cannot change the size policy while there are still " ++
        s!"{m.usedCount.toInt} live {m.name} handles")), m)
  else if m.totalCapacity ≥ maxSize then (.ok (), m)
  else
    doAllocate answer (maxSize - m.totalCapacity).toInt.toNat { m.clear with hasFixedSize := true }

def setDynamicSize (minSize : Int32) (answer : Option Addr) (m : HandleManager Obj) :
    Except Exception Unit × HandleManager Obj :=
  let m := { m with hasFixedSize := false }
  if m.totalCapacity < minSize then doAllocate answer minSize.toInt.toNat m else (.ok (), m)

/-! ## Sequences of calls -/

/-- What the system allocator guarantees of a new pool: aligned memory inside the address space,
apart from the pools there are. -/
structure FreshPool (m : HandleManager Obj) (data : Addr) (count : Nat) : Prop where
  nonnull : data ≠ 0
  aligned : 16 ∣ data.toNat
  in_space : data.toNat + count * m.sizeofResource.bytes < 2 ^ 64
  apart : ∀ p ∈ m.resourceStack,
    data.toNat + count * m.sizeofResource.bytes ≤ p.data.toNat ∨
      p.data.toNat + p.size * m.sizeofResource.bytes ≤ data.toNat

/-- A manager before its first `create` under the current size policy: a new one, after any
changes of the policy. -/
inductive Configured : HandleManager Obj → Prop where
  | new (name : String) (size : ResourceSize) (res : Addr → Resource Obj) :
      Configured { name, sizeofResource := size, res }
  | setFixedSize {m : HandleManager Obj} (h : Configured m) (maxSize : Int32)
      (answer : Option Addr)
      (fresh : ∀ data, answer = some data → FreshPool m.clear data (maxSize - m.totalCapacity).toInt.toNat) :
      Configured (m.setFixedSize maxSize answer).2
  | setDynamicSize {m : HandleManager Obj} (h : Configured m) (minSize : Int32)
      (answer : Option Addr)
      (fresh : ∀ data, answer = some data → FreshPool m data minSize.toInt.toNat) :
      Configured (m.setDynamicSize minSize answer).2

/-- A call on the manager. -/
inductive Call (Obj : Type) where
  | create (ctor : Except Exception Obj) (answers : List (Option Addr))
  | incRef (handle : Addr)
  | decRef (handle : Addr)
  | refCount (handle : Addr)
  | validate (handle : Addr)

/-- What a call returns or throws. -/
inductive Result (Obj : Type) where
  | threw (e : Exception)
  | created (handle : Addr)
  | count (refs : Int32)
  | object (obj : Option Obj)

def Result.ofCount : Except Exception Int32 → Result Obj
  | .ok n => .count n
  | .error e => .threw e

def Result.ofCreate : Except Exception Addr → Result Obj
  | .ok h => .created h
  | .error e => .threw e

/-- A call: its result, and the manager afterwards. -/
def exec (m : HandleManager Obj) : Call Obj → Option (Result Obj × HandleManager Obj)
  | .create ctor answers => (m.create ctor answers).map fun r => (.ofCreate r.1, r.2)
  | .incRef h => some (.ofCount (m.incRef h).1, (m.incRef h).2)
  | .decRef h => some (.ofCount (m.decRef h).1, (m.decRef h).2)
  | .refCount h => some (.ofCount (m.refCount h), m)
  | .validate h => some (.object (m.validate h), m)

/-! ## The ledger -/

/-- The handles of the live objects, each with its references, and the handles of the destroyed
objects, each with the number of objects created in its slot since. -/
structure Ledger where
  live : List (Addr × Nat) := []
  dead : List (Addr × Nat) := []

namespace Ledger

/-- A new object with one reference. -/
def create (L : Ledger) (h : Addr) : Ledger where
  live := (h, 1) :: L.live
  dead := L.dead.map fun d =>
    if doGetResourceFromHandle d.1 = doGetResourceFromHandle h then (d.1, d.2 + 1) else d

def incRef (L : Ledger) (h : Addr) : Ledger :=
  { L with live := L.live.map fun e => if e.1 = h then (e.1, e.2 + 1) else e }

/-- One reference less; the object is destroyed when it was the last. -/
def decRef (L : Ledger) (h : Addr) : Ledger :=
  if (h, 1) ∈ L.live then
    { live := L.live.filter fun e => e.1 ≠ h, dead := (h, 0) :: L.dead }
  else { L with live := L.live.map fun e => if e.1 = h then (e.1, e.2 - 1) else e }

/-- The ledger after a call and its result: calls that throw and queries change nothing. -/
def next (L : Ledger) : Call Obj → Result Obj → Ledger
  | .create _ _, .created h => L.create h
  | .incRef h, .count _ => L.incRef h
  | .decRef h, .count _ => if h = 0 then L else L.decRef h
  | _, _ => L

/-- The handle was returned by an earlier `create`. -/
def Issued (L : Ledger) (h : Addr) : Prop :=
  (∃ n, (h, n) ∈ L.live) ∨ ∃ k, (h, k) ∈ L.dead

/-- Every count of the ledger fits in an `int`. -/
structure Small (L : Ledger) : Prop where
  objects : L.live.length < 2 ^ 31
  refs : ∀ e ∈ L.live, e.2 < 2 ^ 31

end Ledger

/-- The handles a call may be given: issued ones, null, and ones that point to no pool (a handle
into the middle of a resource is not one). -/
def Passable (m : HandleManager Obj) (L : Ledger) : Call Obj → Prop
  | .create _ answers => ∀ data, some data ∈ answers → FreshPool m data kMinHandles
  | .incRef h | .decRef h | .refCount h | .validate h =>
    L.Issued h ∨ h = 0 ∨ m.isManagedResource (doGetResourceFromHandle h) = false

/-- One call, on the manager and on the ledger. -/
def Step (s : HandleManager Obj × Ledger) (l : Call Obj × Result Obj)
    (s' : HandleManager Obj × Ledger) : Prop :=
  Passable s.1 s.2 l.1 ∧ exec s.1 l.1 = some (l.2, s'.1) ∧ s'.2 = s.2.next l.1 l.2

/-! ## The size policy -/

/-- A handle that does not point into the middle of a resource. -/
def PointsToStart (m : HandleManager Obj) (handle : Addr) : Prop :=
  (∃ p ∈ m.resourceStack, doGetResourceFromHandle handle ∈ slots m.sizeofResource p) ∨
    handle = 0 ∨ m.isManagedResource (doGetResourceFromHandle handle) = false

/-- The handles a call may be given under changes of the policy, those of earlier pools included. -/
def Callable (m : HandleManager Obj) : Call Obj → Prop
  | .create _ answers => ∀ data, some data ∈ answers → FreshPool m data kMinHandles
  | .incRef h | .decRef h | .refCount h | .validate h => PointsToStart m h

/-- A manager, the ledger of its calls, and the number of handles its policy allows; `none` is the
dynamic policy. -/
structure Sized (Obj : Type) where
  manager : HandleManager Obj
  ledger : Ledger := {}
  limit : Option Nat := none

/-- A call, or a change of the policy, with its result. -/
inductive Sized.Event (Obj : Type) where
  | call (c : Call Obj) (r : Result Obj)
  | setFixedSize (maxSize : Int32) (answer : Option Addr) (r : Except Exception Unit)
  | setDynamicSize (minSize : Int32) (answer : Option Addr) (r : Except Exception Unit)

/-- The policy after `setFixedSize`: without memory for its pool there are no handles. -/
def limitAfter (limit : Option Nat) (maxSize : Int32) : Except Exception Unit → Option Nat
  | .ok () => some maxSize.toInt.toNat
  | .error .badAlloc => some 0
  | .error _ => limit

/-- The ledger after `setFixedSize`, which may drop the pools of the destroyed objects. -/
def Ledger.afterPools (L : Ledger) : Except Exception Unit → Ledger
  | .ok () | .error .badAlloc => { live := L.live }
  | .error _ => L

def Sized.Step (s : Sized Obj) : Sized.Event Obj → Sized Obj → Prop
  | .call c r, s' =>
    Callable s.manager c ∧ exec s.manager c = some (r, s'.manager) ∧
      s'.ledger = s.ledger.next c r ∧ s'.limit = s.limit
  | .setFixedSize maxSize answer r, s' =>
    (∀ data, answer = some data →
        FreshPool s.manager.clear data (maxSize - s.manager.totalCapacity).toInt.toNat) ∧
      s.manager.setFixedSize maxSize answer = (r, s'.manager) ∧
      s'.ledger = s.ledger.afterPools r ∧ s'.limit = limitAfter s.limit maxSize r
  | .setDynamicSize minSize answer r, s' =>
    (∀ data, answer = some data → FreshPool s.manager data minSize.toInt.toNat) ∧
      s.manager.setDynamicSize minSize answer = (r, s'.manager) ∧
      s'.ledger = s.ledger ∧ s'.limit = none

/-- A new manager. -/
def Sized.New (s : Sized Obj) : Prop :=
  ∃ name size res, s = { manager := { name, sizeofResource := size, res } }

end

end HandleManager

end Nvcv
