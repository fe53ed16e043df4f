import CvCuda.Cvcuda.PerStreamCache
import CvCuda.Lib.LinkPath
import CvCuda.Lib.Outcome

/-! # The nodes of a list of items

`StreamOrderedCache` of `cvcuda/util_musa/PerStreamCacheImpl.hpp` on the nodes of its list: `insert`
at the tail, `isReady` with its flag, and `findNewestReady` with its array. An address is a number,
null is 0. An access outside the filled part of the array and a failed assertion have no outcome.
-/

namespace Cvcuda

open Nvcv StreamCachePayload

/-- `StreamCacheItem` as it is in memory. -/
structure StreamCacheNode (P : Type) where
  next : Nat := 0
  prev : Nat := 0
  wasReady : Bool := false
  payload : P

/-- The nodes in memory. -/
abbrev StreamCacheNodes (P : Type) := Nat → StreamCacheNode P

namespace StreamCacheNodes

variable {P E : Type} [StreamCachePayload P E] (query : E → Except Exception Bool)

def setReady (mem : StreamCacheNodes P) (item : Nat) : StreamCacheNodes P :=
  Function.update mem item { mem item with wasReady := true }

/-- `isReady`; `query` is `musaEventQuery`, whose errors are thrown. -/
def isReady (item : Nat) (mem : StreamCacheNodes P) : Call (Bool × StreamCacheNodes P) :=
  if (mem item).wasReady then pure (true, mem)
  else
    match ready (mem item).payload with
    | none => pure (true, mem.setReady item)
    | some ev => do
      let completed ← ExceptT.mk (some (query ev))
      if completed then pure (true, mem.setReady item) else pure (false, mem)

/-- `insert`, without the set: the new head, the new tail and the nodes. -/
def insert (item head tail : Nat) (mem : StreamCacheNodes P) : Nat × Nat × StreamCacheNodes P :=
  if tail = 0 then (item, item, mem)
  else
    let mem := Function.update mem item { mem item with prev := tail }
    (head, item, Function.update mem tail { mem tail with next := item })

/-- The loop that fills an array, which has room for `room` more items: what it stores and where it
stops. -/
def fill (mem : StreamCacheNodes P) : (room it : Nat) → List Nat × Nat
  | 0, it => ([], it)
  | room + 1, it =>
    if it = 0 then ([], it)
    else
      let r := fill mem room (mem it).prev
      (it :: r.1, r.2)

/-- The loop of the binary search. -/
def bisect (tmp : List Nat) :
    (fuel lo hi m : Nat) → StreamCacheNodes P → Call (Nat × StreamCacheNodes P)
  | fuel, lo, hi, m, mem =>
    if lo < hi then
      match fuel with
      | 0 => liftM (none : Option (Nat × StreamCacheNodes P))
      | fuel + 1 => do
        let item ← liftM tmp[m]?
        let r ← isReady query item mem
        if r.1 then bisect tmp fuel lo m ((lo + m) / 2) r.2
        else bisect tmp fuel (m + 1) hi ((m + 1 + hi) / 2) r.2
    else pure (m, mem)

/-- `findNewestReady`, from a section's start on. -/
def findNewestReady :
    (fuel sectionStart : Nat) → StreamCacheNodes P → Call (Nat × StreamCacheNodes P)
  | fuel, sectionStart, mem =>
    if sectionStart = 0 then pure (0, mem)
    else
      match fuel with
      | 0 => liftM (none : Option (Nat × StreamCacheNodes P))
      | fuel + 1 => do
        let r ← isReady query sectionStart mem
        if r.1 then pure (sectionStart, r.2)
        else
          let filled := fill r.2 256 (r.2 sectionStart).prev
          let tmp := filled.1
          let hi := tmp.length
          if hi = 0 then pure (0, r.2)
          else do
            let last ← liftM tmp[hi - 1]?
            let r ← isReady query last r.2
            if r.1 then do
              let s ← bisect query tmp hi 0 hi ((0 + hi) / 2) r.2
              let found ← liftM tmp[s.1]?
              if (s.2 found).wasReady then pure (found, s.2)
              else liftM (none : Option (Nat × StreamCacheNodes P))
            else findNewestReady fuel filled.2 r.2

end StreamCacheNodes

end Cvcuda
