import CvCuda.Nvcv.Detail
import CvCuda.Nvcv.Exception
import Mathlib.Tactic

/-! # Stream identifiers

`MakeLegacyStreamId` and `GetCudaStreamIdHint` of `cvcuda/util_musa/StreamId.cpp`, and the key
`PerStreamCache` stores a payload under. What the runtime and the system answer the calling thread
is `Caller`; `int` is `Int32`, and its conversion to `uint64_t` extends the sign.
-/

namespace Cvcuda

open Nvcv

/-- `MUstream`: the pseudo-handles, and the handles of created streams. -/
inductive MUstream where
  | null
  | legacy
  | perThread
  | created (handle : SizeT)
  deriving DecidableEq

inductive MUresult where
  | deinitialized
  | invalidValue
  | other (name msg : String) (code : Int32)
  deriving DecidableEq

/-- What `musaGetDevice` and `SYS_gettid` answer a thread, and the driver's `muStreamGetId`. -/
structure Caller where
  device : Option Int32
  tid : Int32
  muStreamGetId : MUstream → Except MUresult (BitVec 64)

/-- A conversion of `int` to `uint64_t`. -/
def toUInt64 (x : Int32) : BitVec 64 := x.toBitVec.signExtend 64

def makeLegacyStreamId (dev tid : Int32) : BitVec 64 := toUInt64 dev <<< 32 ||| toUInt64 tid

def tryGetPseudoStreamId (c : Caller) (stream : MUstream) : Option (BitVec 64) :=
  if stream = .null ∨ stream = .legacy ∨ stream = .perThread then
    c.device.map fun dev => makeLegacyStreamId dev (if stream = .perThread then c.tid else -1)
  else none

/-- The functions that treat pseudo-handles themselves: `cuStreamGetIdWithPseudoDefault`, and
`cuStreamGetIdFallback` where the driver has no `cuStreamGetId`. -/
inductive CuStreamGetId where
  | withPseudoDefault
  | fallback

def MUstream.toUInt64 : MUstream → BitVec 64
  | .null => 0
  | .legacy => 1
  | .perThread => 2
  | .created handle => handle

def CuStreamGetId.call (fn : CuStreamGetId) (c : Caller) (stream : MUstream) :
    Except MUresult (BitVec 64) :=
  match tryGetPseudoStreamId c stream with
  | some id => .ok id
  | none =>
    match fn with
    | .withPseudoDefault => c.muStreamGetId stream
    | .fallback => .ok stream.toUInt64

def getCudaStreamIdHint (fn : CuStreamGetId) (c : Caller) (stream : MUstream) :
    Except Exception (BitVec 64) :=
  match fn.call c stream with
  | .ok id => .ok id
  | .error .deinitialized => .ok (-1)
  | .error .invalidValue => .error (.nvcv .invalidArgument "Invalid stream handle")
  | .error (.other name msg code) =>
    .error (.nvcv .internal s!"MUSA error {name} {code.toInt} {msg}")

/-- The key of `PerStreamCache::put`; without a stream it is `(uint64_t)-1ll`. -/
def cacheKey (fn : CuStreamGetId) (c : Caller) : Option MUstream → Except Exception (BitVec 64)
  | some stream => getCudaStreamIdHint fn c stream
  | none => .ok (-1)

end Cvcuda
