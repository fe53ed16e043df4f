import CvCuda.Nvcv.Tensor

/-! # Resource requirements

`Add`, `AddBuffer` and `CalcTotalSizeBytes` of `nvcv/priv_musa/Requirements.cpp` on requirements
that are held in variables. `AddBuffer` itself is in `Tensor.lean`.
-/

namespace Nvcv

/-- The memories of a requirement. -/
inductive Mem where
  | cuda | host | hostPinned
deriving DecidableEq, Repr

/-- `NVCVRequirements`: the blocks of each memory. -/
abbrev Requirements := Mem → MemRequirements

/-- `Init`. -/
def Requirements.init : Requirements := fun _ => .replicate _ 0

/-- No count of blocks overflows when the requirements are added. -/
def AddFits (reqSum req : Requirements) : Prop :=
  ∀ mem ∈ [Mem.cuda, .host, .hostPinned], ∀ i : Fin maxLog2BlockSize,
    -2 ^ 63 ≤ (reqSum mem)[i].toInt + (req mem)[i].toInt ∧
      (reqSum mem)[i].toInt + (req mem)[i].toInt < 2 ^ 63

instance (reqSum req : Requirements) : Decidable (AddFits reqSum req) :=
  inferInstanceAs (Decidable (∀ mem ∈ _, _))

/-- `Add`. -/
def add (reqSum req : Requirements) : Option Requirements :=
  if AddFits reqSum req then
    some fun mem => .ofFn fun i => (reqSum mem)[i] + (req mem)[i]
  else none

/-- "Memory size overflow". -/
def memorySizeOverflow : Exception := .nvcv .invalidArgument "Memory size overflow"

/-- The loop of `CalcTotalSizeBytes`, over the sizes of the buckets. -/
def addSizes (total : UInt64) : List UInt64 → Except Exception UInt64
  | [] => .ok total
  | cur :: curs => if total + cur < total then .error memorySizeOverflow
    else addSizes (total + cur) curs

/-- The bytes of a bucket, as they are computed. -/
def bucketSize (memReq : MemRequirements) (i : Fin maxLog2BlockSize) : UInt64 :=
  memReq[i].toUInt64 * .ofNat (2 ^ i.1)

/-- `CalcTotalSizeBytes`. -/
def calcTotalSizeBytes (memReq : MemRequirements) : Except Exception Int64 := do
  let total ← addSizes 0 ((List.finRange maxLog2BlockSize).map (bucketSize memReq))
  if total > .ofNat (2 ^ 63 - 1) then throw memorySizeOverflow
  return total.toInt64

/-! ## Sequences of calls -/

/-- The variables a program holds requirements in. -/
abbrev ReqVars := Nat → Requirements

inductive ReqOp where
  | addBuffer (v : Nat) (mem : Mem) (bufSize bufAlignment : Int64)
  | add (v w : Nat)

/-- A call, with what it returns or throws. -/
def ReqOp.exec (s : ReqVars) : ReqOp → Option (Except Exception Unit × ReqVars)
  | addBuffer v mem bufSize bufAlignment =>
    (Nvcv.addBuffer (s v mem) bufSize bufAlignment).run.map fun
      | .error e => (.error e, s)
      | .ok memReq => (.ok (), Function.update s v (Function.update (s v) mem memReq))
  | add v w => (Nvcv.add (s v) (s w)).map fun req => (.ok (), Function.update s v req)

def ReqOp.step (s : ReqVars) (op : ReqOp) : Option ReqVars := (op.exec s).map Prod.snd

end Nvcv
