import CvCuda.Lib.Run
import CvCuda.Cvcuda.PerStreamCache
import CvCuda.Cvcuda.Workspace

/-! # The workspace cache of the Python module

`WorkspaceCache` of `mod_cvcuda/WorkspaceCache.hpp` and `.cpp`, with `NDEBUG`. A cache per kind of
memory is with what the allocator of the kind has given out: an allocator that frees what it did not
give out, or with another size or alignment, notes a fault. What events, allocators and the runtime
answer during a call is an input of it.
-/

namespace Cvcudapy

open Nvcv Cvcuda

inductive MemoryKind where
  | host
  | pinned
  | cuda
  deriving DecidableEq

/-- A block as it was allocated. -/
structure Block where
  data : SizeT
  size : SizeT
  alignment : SizeT
  deriving DecidableEq

/-- What an allocator has given out. -/
structure Heap where
  live : List Block := []
  faults : List Block := []

/-- A null pointer is no block. -/
def Heap.alloc (h : Heap) (b : Block) : Heap :=
  if b.data = 0 then h else { h with live := b :: h.live }

def Heap.free (h : Heap) (b : Block) : Heap :=
  if b.data = 0 then h
  else if b ∈ h.live then { h with live := h.live.erase b }
  else { h with faults := b :: h.faults }

variable {E : Type}

/-- `CachedWorkspaceMem`; `destructor` tells whether `m_destructor` is set. -/
structure CachedWorkspaceMem (E : Type) where
  mem : WorkspaceMem E := ⟨⟨0, 0⟩, 0, none⟩
  destructor : Bool := false

instance : StreamCachePayload (CachedWorkspaceMem E) E where
  ready m := m.mem.ready
  size m := m.mem.req.size.toNat
  alignment m := m.mem.req.alignment.toNat

namespace CachedWorkspaceMem
variable (m : CachedWorkspaceMem E)

/-- `operator bool`. -/
def nonEmpty : Bool := m.mem.data ≠ 0

/-- What `freeMem` is called with. -/
def block : Block := ⟨m.mem.data, m.mem.req.size, m.mem.req.alignment⟩

/-- `reset`, also by `~CachedWorkspaceMem`: what it leaves of the memory and of the heap. -/
def reset (h : Heap) : CachedWorkspaceMem E × Heap :=
  ({}, if m.destructor then h.free m.block else h)

/-- `operator=` of an rvalue, which swaps both and resets the other: both, and the heap. -/
def assign (mem : CachedWorkspaceMem E) (h : Heap) :
    CachedWorkspaceMem E × CachedWorkspaceMem E × Heap :=
  (mem, m.reset h)

end CachedWorkspaceMem

/-- What is answered in a call of `WorkspaceMemCache::get`: by `CudaEvent::Create` and by the
allocator, if they are called, and by events. -/
structure GetAnswers (E : Type) where
  caller : Caller
  queries : Nat → E → Bool
  event : Except Exception E
  data : Except Exception SizeT

/-- What is answered in a call of `WorkspaceMemCache::put`; `new` is the address of a new item. -/
structure PutAnswers (E : Type) where
  caller : Caller
  query : E → Bool
  new : Nat

/-- `WorkspaceMemCache`, with the heap of `m_alloc`. -/
structure WorkspaceMemCache (E : Type) where
  memCache : PerStreamCache (CachedWorkspaceMem E) := {}
  outstandingAllocs : Int32 := 0
  heap : Heap := {}

namespace WorkspaceMemCache
variable (c : WorkspaceMemCache E)

def create (a : GetAnswers E) (req : WorkspaceMemRequirements) :
    Except Exception (CachedWorkspaceMem E × Heap) :=
  match a.event with
  | .error e => .error e
  | .ok evt =>
    match a.data with
    | .error e => .error e
    | .ok data =>
      let mem : CachedWorkspaceMem E := ⟨⟨req, data, some evt⟩, true⟩
      .ok (mem, c.heap.alloc mem.block)

def get (fn : CuStreamGetId) (a : GetAnswers E) (req : WorkspaceMemRequirements)
    (stream : Option MUstream) :
    Except Exception (CachedWorkspaceMem E) × WorkspaceMemCache E :=
  if req.size = 0 then (.ok {}, c)
  else
    let counted := c.outstandingAllocs + 1
    match c.memCache.get fn a.caller a.queries req.size.toNat req.alignment.toNat stream with
    | .error e => (.error e, { c with outstandingAllocs := counted })
    | .ok (some mem, memCache) => (.ok mem, { c with outstandingAllocs := counted, memCache })
    | .ok (none, memCache) =>
      match c.create a req with
      | .error e => (.error e, { c with outstandingAllocs := counted, memCache })
      | .ok (mem, heap) => (.ok mem, { outstandingAllocs := counted, memCache, heap })

def put (fn : CuStreamGetId) (a : PutAnswers E) (mem : CachedWorkspaceMem E)
    (stream : Option MUstream) : Except Exception (WorkspaceMemCache E) :=
  match c.memCache.put fn a.caller a.query a.new mem stream with
  | .error e => .error e
  | .ok memCache =>
    .ok { c with memCache, outstandingAllocs := c.outstandingAllocs - 1 }

/-- The end of the lifetime of a memory of the kind. -/
def destroy (mem : CachedWorkspaceMem E) : WorkspaceMemCache E :=
  { c with heap := (mem.reset c.heap).2 }

/-- `clear`, whose assertion is compiled out. -/
def clear : WorkspaceMemCache E :=
  c.memCache.contents.foldl destroy { c with memCache := c.memCache.purge }

end WorkspaceMemCache

/-- `WorkspaceLease`: `m_host`, `m_pinned` and `m_cuda`, and the streams they are released to. -/
structure WorkspaceLease (E : Type) where
  mem : MemoryKind → CachedWorkspaceMem E
  releaseStream : MemoryKind → Option MUstream

abbrev Caches (E : Type) := MemoryKind → WorkspaceMemCache E

/-- The calls of `get` that are the arguments of the constructor of a lease, in the order they are
evaluated. The memories that there are when one throws are destroyed, the last one first. -/
def acquire (fn : CuStreamGetId) (a : MemoryKind → GetAnswers E)
    (req : MemoryKind → WorkspaceMemRequirements) (stream : MemoryKind → Option MUstream) :
    List MemoryKind → (MemoryKind → CachedWorkspaceMem E) → Caches E →
      Except Exception (MemoryKind → CachedWorkspaceMem E) × Caches E
  | [], got, c => (.ok got, c)
  | k :: kinds, got, c =>
    match (c k).get fn (a k) (req k) (stream k) with
    | (.error e, ck) => (.error e, Function.update c k ck)
    | (.ok mem, ck) =>
      match acquire fn a req stream kinds (Function.update got k mem) (Function.update c k ck) with
      | (.error e, c) => (.error e, Function.update c k ((c k).destroy mem))
      | (.ok got, c) => (.ok got, c)

/-- `~WorkspaceLease` for a memory: it is put, which leaves an empty one, unless it is empty. -/
def WorkspaceLease.release (l : WorkspaceLease E) (fn : CuStreamGetId) (a : PutAnswers E)
    (k : MemoryKind) (c : WorkspaceMemCache E) :
    Except Exception (CachedWorkspaceMem E × WorkspaceMemCache E) :=
  if (l.mem k).nonEmpty then
    match c.put fn a (l.mem k) (l.releaseStream k) with
    | .error e => .error e
    | .ok c => .ok ({}, c)
  else .ok (l.mem k, c)

structure WorkspaceCache (E : Type) where
  cache : Caches E := fun _ => {}
  /-- The leases that live. -/
  leases : List (WorkspaceLease E) := []

/-- The kinds of the arguments of the constructor. -/
def kinds : List MemoryKind := [.host, .pinned, .cuda]

inductive Op (E : Type) where
  | get (order : List MemoryKind) (a : MemoryKind → GetAnswers E)
      (req : MemoryKind → WorkspaceMemRequirements)
      (acquireStream releaseStream : MemoryKind → Option MUstream)
  | destroy (a : MemoryKind → PutAnswers E)
  | clear

/-- A lease takes the memories over from the arguments of its constructor. An exception in the
destructor of a lease ends the program. New blocks and new items are where no others are. -/
inductive Step (fn : CuStreamGetId) : WorkspaceCache E → Op E → WorkspaceCache E → Prop where
  | get {s : WorkspaceCache E} {order : List MemoryKind} {a : MemoryKind → GetAnswers E}
      {req : MemoryKind → WorkspaceMemRequirements}
      {acquireStream releaseStream : MemoryKind → Option MUstream}
      {got : MemoryKind → CachedWorkspaceMem E} {c : Caches E} (horder : order.Perm kinds)
      (hnew : ∀ k, ∀ data, (a k).data = .ok data → data ∉ (s.cache k).heap.live.map Block.data)
      (h : acquire fn a req acquireStream order (fun _ => {}) s.cache = (.ok got, c)) :
      Step fn s (.get order a req acquireStream releaseStream) {
        cache k := { c k with heap := (({} : CachedWorkspaceMem E).assign (got k) (c k).heap).2.2 }
        leases := {
          mem k := (({} : CachedWorkspaceMem E).assign (got k) (c k).heap).1
          releaseStream } :: s.leases }
  | getThrows {s : WorkspaceCache E} {order : List MemoryKind} {a : MemoryKind → GetAnswers E}
      {req : MemoryKind → WorkspaceMemRequirements}
      {acquireStream releaseStream : MemoryKind → Option MUstream} {e : Exception} {c : Caches E}
      (horder : order.Perm kinds)
      (hnew : ∀ k, ∀ data, (a k).data = .ok data → data ∉ (s.cache k).heap.live.map Block.data)
      (h : acquire fn a req acquireStream order (fun _ => {}) s.cache = (.error e, c)) :
      Step fn s (.get order a req acquireStream releaseStream) { s with cache := c }
  | destroy {s : WorkspaceCache E} {a : MemoryKind → PutAnswers E} {l : WorkspaceLease E}
      {before after : List (WorkspaceLease E)} {c : MemoryKind → CachedWorkspaceMem E ×
        WorkspaceMemCache E} (hl : s.leases = before ++ l :: after)
      (hnew : ∀ k, (a k).new ∉ (s.cache k).memCache.free ++
        (s.cache k).memCache.items.map StreamCacheItem.addr)
      (h : ∀ k, l.release fn (a k) k (s.cache k) = .ok (c k)) :
      Step fn s (.destroy a) {
        cache k := (c k).2.destroy (c k).1
        leases := before ++ after }
  | clear (s : WorkspaceCache E) : Step fn s .clear { s with cache := fun k => (s.cache k).clear }

namespace WorkspaceCache
variable (s : WorkspaceCache E)

/-- The memories of a kind that the leases hold. -/
def held (k : MemoryKind) : List (CachedWorkspaceMem E) := s.leases.map fun l => l.mem k

/-- How many memories of a kind the leases hold. -/
def heldCount (k : MemoryKind) : Nat := (s.held k).countP CachedWorkspaceMem.nonEmpty

end WorkspaceCache

end Cvcudapy
