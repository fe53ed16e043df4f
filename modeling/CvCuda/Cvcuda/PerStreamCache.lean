import CvCuda.Cvcuda.StreamId
import CvCuda.Lib.SectionSearch

/-! # Caches per stream

`PerStreamCache` of `cvcuda/util_musa/PerStreamCache.hpp` and `PerStreamCacheImpl.hpp`. A linked
list is the list of its items; an item has the address that its node has, and what its event is
asked for is a function that answers whether it is completed. Of `wasReady` only one call sees
something, for items it removes. A call leaves the order of its hash map to the list that models it.
-/

namespace Cvcuda

open Nvcv

/-- The functions `StreamCachePayloadReady`, `StreamCachePayloadSize` and
`StreamCachePayloadAlignment` of a type of payloads. -/
class StreamCachePayload (P : Type) (E : outParam Type) where
  ready : P → Option E
  size : P → Nat
  alignment : P → Nat

open StreamCachePayload

/-- `StreamCacheItem`. -/
structure StreamCacheItem (P : Type) where
  addr : Nat
  payload : P

/-- The order of `std::pair`. -/
def less (x y : Nat × Nat) : Prop := x.1 < y.1 ∨ x.1 = y.1 ∧ x.2 < y.2

instance (x y : Nat × Nat) : Decidable (less x y) := inferInstanceAs (Decidable (_ ∨ _))

/-- `insert` of `std::set`. -/
def insertPair (x : Nat × Nat) : List (Nat × Nat) → List (Nat × Nat)
  | [] => [x]
  | y :: l =>
    if less x y then x :: y :: l
    else if x = y then y :: l
    else y :: insertPair x l

/-- `items` are those from `m_head` to `m_tail`. -/
structure StreamOrderedCache (P : Type) where
  items : List (StreamCacheItem P) := []
  bySize : List (Nat × Nat) := []

/-- Whether the id of a stream identifies it: `IsCudaStreamIdHintUnambiguous`. -/
def CuStreamGetId.isUnambiguous : CuStreamGetId → Bool
  | .withPseudoDefault => true
  | .fallback => false

variable {P E : Type} [StreamCachePayload P E]

def StreamCacheItem.payloadSize (i : StreamCacheItem P) : Nat := size i.payload

def StreamCacheItem.isReady (query : E → Bool) (i : StreamCacheItem P) : Bool :=
  (ready i.payload).all query

namespace StreamOrderedCache
variable (c : StreamOrderedCache P)

def insert (i : StreamCacheItem P) : StreamOrderedCache P where
  items := c.items ++ [i]
  bySize := insertPair (i.payloadSize, i.addr) c.bySize

def remove (i : StreamCacheItem P) : StreamOrderedCache P where
  items := c.items.filter (·.addr ≠ i.addr)
  bySize := c.bySize.filter (· ≠ (i.payloadSize, i.addr))

/-- `getIf`: from the lower bound of the size on. -/
def getIf (minSize : Nat) (pred : P → Bool) : Option (StreamCacheItem P × StreamOrderedCache P) :=
  ((c.bySize.dropWhile fun x => less x (minSize, 0)).findSome? fun x =>
    (c.items.find? (·.addr = x.2)).filter fun i => pred i.payload).map fun i => (i, c.remove i)

/-- `findNewestReady`: the item found and all older ones, from the newest to the oldest. -/
def findNewestReady (query : E → Bool) : Option (List (StreamCacheItem P)) :=
  SectionSearch.find 256 (StreamCacheItem.isReady query) c.items.length c.items.reverse

/-- `removeAllReady`: the items for the callback, in order. -/
def removeAllReady (unambiguous : Bool) (query : E → Bool) :
    List (StreamCacheItem P) × StreamOrderedCache P :=
  let ready :=
    if unambiguous then (c.findNewestReady query).getD []
    else c.items.reverse.filter (StreamCacheItem.isReady query)
  (ready, ready.foldl remove c)

end StreamOrderedCache

/-- The free list is that of `m_cacheItemAlloc`. -/
structure PerStreamCache (P : Type) where
  free : List Nat := []
  perStreamCache : List (BitVec 64 × StreamOrderedCache P) := []
  globalCache : List P := []

namespace PerStreamCache

/-- The list of an id after `f`, created where there was none. -/
def upsert (id : BitVec 64) (f : StreamOrderedCache P → StreamOrderedCache P) :
    List (BitVec 64 × StreamOrderedCache P) → List (BitVec 64 × StreamOrderedCache P)
  | [] => [(id, f {})]
  | (k, c) :: l => if k = id then (k, f c) :: l else (k, c) :: upsert id f l

/-- `emplace` of `std::multimap`: behind the payloads of the same size. -/
def emplace (p : P) (g : List P) : List P :=
  (g.takeWhile fun q => size q ≤ size p) ++ p :: g.dropWhile fun q => size q ≤ size p

/-- The first element with a property, and the others. -/
def extract (pred : P → Bool) : List P → Option (P × List P)
  | [] => none
  | p :: g => if pred p then some (p, g) else (extract pred g).map fun r => (r.1, p :: r.2)

section
variable (s : PerStreamCache P)

/-- `put`; `new` is the address of a new item. -/
def put (fn : CuStreamGetId) (caller : Caller) (query : E → Bool) (new : Nat) (payload : P)
    (stream : Option MUstream) : Except Exception (PerStreamCache P) :=
  if (ready payload).any fun ev => !query ev then
    match cacheKey fn caller stream with
    | .error e => .error e
    | .ok id =>
      let addr := s.free.headD new
      .ok { s with
        free := s.free.tail
        perStreamCache := upsert id (fun c => c.insert ⟨addr, payload⟩) s.perStreamCache }
  else .ok { s with globalCache := emplace payload s.globalCache }

def tryGetPerStream (minSize : Nat) (pred : P → Bool) (id : BitVec 64) :
    Option (P × PerStreamCache P) :=
  match s.perStreamCache.lookup id with
  | none => none
  | some c =>
    (c.getIf minSize pred).map fun r => (r.1.payload, { s with
      free := r.1.addr :: s.free
      perStreamCache := upsert id (fun _ => r.2) s.perStreamCache })

def tryGetGlobal (minSize : Nat) (pred : P → Bool) : Option (P × PerStreamCache P) :=
  (extract pred (s.globalCache.dropWhile fun p => size p < minSize)).map fun r => (r.1, { s with
    globalCache := (s.globalCache.takeWhile fun p => size p < minSize) ++ r.2 })

/-- `moveReadyToGlobal`: how many were moved. -/
def moveReadyToGlobal (unambiguous : Bool) (query : E → Bool) : Nat × PerStreamCache P :=
  let removed := s.perStreamCache.map fun kc => (kc.1, kc.2.removeAllReady unambiguous query)
  let moved := removed.flatMap fun r => r.2.1
  (moved.length, {
    free := (moved.map StreamCacheItem.addr).reverse ++ s.free
    perStreamCache :=
      (removed.map fun r => (r.1, r.2.2)).filter fun kc => !kc.2.bySize.isEmpty
    globalCache := moved.foldl (fun g i => emplace i.payload g) s.globalCache })

/-- The items in the caches of streams. -/
def items : List (StreamCacheItem P) := s.perStreamCache.flatMap fun kc => kc.2.items

/-- The loop of `getIf`, from its `k`th turn on. Each turn but the last moves an item. -/
def getLoop (unambiguous : Bool) (queries : Nat → E → Bool) (minSize : Nat) (pred : P → Bool) :
    (fuel k : Nat) → PerStreamCache P → Option P × PerStreamCache P
  | fuel, k, s =>
    match s.tryGetGlobal minSize pred with
    | some (p, s) => (some p, s)
    | none =>
      match fuel with
      | 0 => (none, s)
      | fuel + 1 =>
        let (moved, s) := s.moveReadyToGlobal unambiguous (queries k)
        if moved = 0 then (none, s) else getLoop unambiguous queries minSize pred fuel (k + 1) s

/-- `getIf`; `queries k` is what events are asked in the `k`th turn. -/
def getIf (fn : CuStreamGetId) (caller : Caller) (queries : Nat → E → Bool) (minSize : Nat)
    (pred : P → Bool) (stream : Option MUstream) :
    Except Exception (Option P × PerStreamCache P) :=
  let loop := s.getLoop fn.isUnambiguous queries minSize pred (s.items.length + 1) 0
  match stream with
  | none => .ok loop
  | some stream =>
    match getCudaStreamIdHint fn caller stream with
    | .error e => .error e
    | .ok id =>
      match s.tryGetPerStream minSize pred id with
      | some (p, s) => .ok (some p, s)
      | none => .ok loop

/-- Whether a payload is what `get` is asked for. -/
def fits (minSize minAlignment : Nat) (p : P) : Bool :=
  minSize ≤ size p && minAlignment ≤ alignment p

def get (fn : CuStreamGetId) (caller : Caller) (queries : Nat → E → Bool)
    (minSize minAlignment : Nat) (stream : Option MUstream) :
    Except Exception (Option P × PerStreamCache P) :=
  s.getIf fn caller queries minSize (fits minSize minAlignment) stream

/-- `purge`, which destroys all payloads. -/
def purge : PerStreamCache P where
  free := (s.items.map StreamCacheItem.addr).reverse ++ s.free
  perStreamCache := s.perStreamCache.map fun kc => (kc.1, {})
  globalCache := []

/-- All payloads. -/
def contents : List P := s.globalCache ++ s.items.map StreamCacheItem.payload

end

end PerStreamCache

end Cvcuda
