import CvCuda.Lib.Run
import CvCuda.Lib.Tally

/-! # The cache of the Python module

`Cache` of `mod_cvcuda/nvcv/Cache.cpp`: every thread has an instance with its items; the limit and
the size are shared by all of them. `int64_t` is Lean's `Int64`, which wraps. The order of the
items of a hash map is left to the list that models it.
-/

namespace Nvcvpy

open Tally

inductive Exception where
  | invalidArgument (msg : String)
  | runtimeError (msg : String)
  deriving DecidableEq

/-- `CacheItem`: its `key()` and its `GetSizeInBytes()`, which is computed when it is constructed. -/
structure CacheItem (K : Type) where
  key : K
  sizeInBytes : Int64
  nonneg : 0 ≤ sizeInBytes
  deriving DecidableEq

/-- All instances of `Cache`, with the `items` of their `Impl`, and its static members. -/
structure Cache (C K : Type) where
  instances : Finset C
  items : C → List (CacheItem K)
  cacheLimitInbytes : Int64
  currentSizeInbytes : Int64

namespace Cache
variable {C K : Type} [DecidableEq C] [DecidableEq K] (s : Cache C K)

/-- Before the first instance is constructed. -/
def static : Cache C K where
  instances := ∅
  items := fun _ => []
  cacheLimitInbytes := 0
  currentSizeInbytes := 0

def construct (c : C) : Cache C K :=
  { s with instances := insert c s.instances, items := Function.update s.items c [] }

/-- `~Cache`: the items are destroyed after the size is decreased. -/
def destroy (c : C) : Cache C K :=
  { s with
    instances := s.instances.erase c
    currentSizeInbytes :=
      (s.items c).foldl (fun size node => size - node.sizeInBytes) s.currentSizeInbytes
    items := Function.update s.items c [] }

def add (c : C) (item : CacheItem K) : Cache C K :=
  if item.sizeInBytes > s.cacheLimitInbytes then s
  else
    let s :=
      if item.sizeInBytes + s.currentSizeInbytes > s.cacheLimitInbytes then
        -- only the items of this instance are moved away
        { s with items := Function.update s.items c [], currentSizeInbytes := 0 }
      else s
    { s with
      items := Function.update s.items c (item :: s.items c)
      currentSizeInbytes := s.currentSizeInbytes + item.sizeInBytes }

/-- The loop of `removeAllNotInUseMatching`; `inUse i` is what `isInUse()` answers for the `i`th
item of the key. -/
def removeLoop (key : K) (inUse : Nat → Bool) :
    Nat → List (CacheItem K) → Int64 → List (CacheItem K) × Int64
  | _, [], size => ([], size)
  | i, item :: items, size =>
    if item.key ≠ key then
      let (items, size) := removeLoop key inUse i items size
      (item :: items, size)
    else if inUse i then
      let (items, size) := removeLoop key inUse (i + 1) items size
      (item :: items, size)
    else removeLoop key inUse (i + 1) items (size - item.sizeInBytes)

def removeAllNotInUseMatching (c : C) (key : K) (inUse : Nat → Bool) : Cache C K :=
  let (items, size) := removeLoop key inUse 0 (s.items c) s.currentSizeInbytes
  { s with items := Function.update s.items c items, currentSizeInbytes := size }

/-- `clear`, which touches neither the mutex nor the size. -/
def clear (c : C) : Cache C K := { s with items := Function.update s.items c [] }

/-- `setCacheLimit`; `memGetInfo` is what `cudaMemGetInfo` answers, of which only a warning
depends. -/
def setCacheLimit (c : C) (newCacheLimitInbytes : Int64) (memGetInfo : Except Exception Unit) :
    Except Exception Unit × Cache C K :=
  if newCacheLimitInbytes < 0 then
    (.error (.invalidArgument "Cache limit must be non-negative."), s)
  else
    match memGetInfo with
    | .error e => (.error e, s)
    | .ok _ =>
      let s :=
        if s.currentSizeInbytes > newCacheLimitInbytes then
          { s with items := Function.update s.items c [], currentSizeInbytes := 0 }
        else s
      (.ok (), { s with cacheLimitInbytes := newCacheLimitInbytes })

/-- `ClearAll`. -/
def clearAll : Cache C K :=
  { s with
    items := fun c => if c ∈ s.instances then [] else s.items c
    currentSizeInbytes := 0 }

/-! ## Runs -/

inductive Op (C K : Type) where
  | construct (c : C)
  | destroy (c : C)
  | add (c : C) (item : CacheItem K)
  | removeAllNotInUseMatching (c : C) (key : K) (inUse : Nat → Bool)
  | clear (c : C)
  | clearAll
  | setCacheLimit (c : C) (newCacheLimitInbytes : Int64) (memGetInfo : Except Exception Unit)

/-- The instance the operation is called on, if any. -/
def Op.caller : Op C K → Option C
  | .destroy c | .add c _ | .removeAllNotInUseMatching c _ _ | .clear c
  | .setCacheLimit c _ _ => some c
  | .construct _ | .clearAll => none

/-- What the operation throws, and what it leaves. -/
def exec : Op C K → Except Exception Unit × Cache C K
  | .construct c => (.ok (), s.construct c)
  | .destroy c => (.ok (), s.destroy c)
  | .add c item => (.ok (), s.add c item)
  | .removeAllNotInUseMatching c key inUse => (.ok (), s.removeAllNotInUseMatching c key inUse)
  | .clear c => (.ok (), s.clear c)
  | .clearAll => (.ok (), s.clearAll)
  | .setCacheLimit c limit memGetInfo => s.setCacheLimit c limit memGetInfo

/-- A thread takes one of the operations: on a live instance, or to construct one. -/
structure Step (op : Op C K) (s' : Cache C K) : Prop where
  live : ∀ c, op.caller = some c → c ∈ s.instances
  new : ∀ c, op = .construct c → c ∉ s.instances
  eq : s' = (s.exec op).2

/-! ## Accounts -/

def bytes (items : List (CacheItem K)) : Int := listWeight (fun item => item.sizeInBytes.toInt) items

/-- The bytes of the items that all live instances hold. -/
def total : Int := Tally.total (fun item => item.sizeInBytes.toInt) s.instances s.items

/-- The bytes of the items that the instances other than `c` hold. -/
def others (c : C) : Int :=
  Tally.total (fun item => item.sizeInBytes.toInt) (s.instances.erase c) s.items

/-- The size is that of the items held, and within the limit. -/
structure Accounted : Prop where
  sum : s.currentSizeInbytes.toInt = s.total
  nonneg : 0 ≤ s.currentSizeInbytes
  le_limit : s.currentSizeInbytes ≤ s.cacheLimitInbytes

end Cache

end Nvcvpy
