import CvCuda.Lib.Run

/-! # The union-find of the labelling kernels

`FindRoot` and `Reduction` of `cvcuda/priv_musa/OpLabel.mu`. A label is unsigned. A call of
`Reduction` is where it stands, with its local variables, and a step of it makes at most one access
to the labels, which is atomic; calls run at the same time take their steps in any order.
-/

namespace Cvcuda

/-- `FindRoot`. -/
def findRoot (labels : List Nat) : (fuel label : Nat) → Option Nat
  | 0, _ => none
  | fuel + 1, label => do
    let next ← labels[label]?
    if label ≠ next then findRoot labels fuel next else some label

/-- Where a call of `Reduction` stands. -/
inductive Reduction where
  /-- `next1` is read. -/
  | first (label1 label2 : Nat)
  /-- `next2` is read. -/
  | second (label1 label2 next1 : Nat)
  /-- The loop that moves `label1`. -/
  | loop1 (label1 label2 next1 next2 : Nat)
  /-- The loop that moves `label2`. -/
  | loop2 (label1 label2 next2 : Nat)
  /-- The loop that links. -/
  | link (label1 label2 : Nat)
  | returned (label : Nat)
  deriving DecidableEq

namespace Reduction

/-- `atomicMin` at an index: what was there, and the labels after it. -/
def atomicMin (labels : List Nat) (i v : Nat) : Option (Nat × List Nat) :=
  labels[i]?.map fun old => (old, labels.set i (min old v))

/-- One step. -/
def step (labels : List Nat) : Reduction → Option (List Nat × Reduction)
  | first label1 label2 =>
    if label1 ≠ label2 then
      labels[label1]?.map fun next1 => (labels, second label1 label2 next1)
    else some (labels, second label1 label2 0)
  | second label1 label2 next1 =>
    if label1 ≠ label2 then
      labels[label2]?.map fun next2 => (labels, loop1 label1 label2 next1 next2)
    else some (labels, loop1 label1 label2 next1 0)
  | loop1 label1 label2 next1 next2 =>
    if label1 ≠ label2 ∧ label1 ≠ next1 then
      labels[next1]?.map fun next => (labels, loop1 next1 label2 next next2)
    else some (labels, loop2 label1 label2 next2)
  | loop2 label1 label2 next2 =>
    if label1 ≠ label2 ∧ label2 ≠ next2 then
      labels[next2]?.map fun next => (labels, loop2 label1 next2 next)
    else some (labels, link label1 label2)
  | link label1 label2 =>
    if label1 ≠ label2 then
      let (label1, label2) := if label1 < label2 then (label2, label1) else (label1, label2)
      (atomicMin labels label1 label2).map fun (label3, labels) =>
        (labels, link (if label1 = label3 then label2 else label3) label2)
    else some (labels, returned label1)
  | returned _ => none

/-- Steps until the call returns. -/
def exec : (fuel : Nat) → List Nat → Reduction → Option (List Nat × Nat)
  | _, labels, returned label => some (labels, label)
  | 0, _, _ => none
  | fuel + 1, labels, c => (c.step labels).bind fun r => exec fuel r.1 r.2

end Reduction

/-- `Reduction`, alone. -/
def reduction (fuel : Nat) (labels : List Nat) (label1 label2 : Nat) : Option (List Nat × Nat) :=
  (Reduction.first label1 label2).exec fuel labels

/-- Calls of `Reduction` on the same labels. -/
structure Reductions where
  labels : List Nat
  calls : List Reduction

namespace Reductions

/-- The calls for the pairs of labels, none of which has taken a step. -/
def start (labels : List Nat) (pairs : List (Nat × Nat)) : Reductions where
  labels := labels
  calls := pairs.map fun p => .first p.1 p.2

/-- The call `i` takes a step. -/
def step (s : Reductions) (i : Nat) : Option Reductions :=
  s.calls[i]?.bind fun c => (c.step s.labels).map fun r => ⟨r.1, s.calls.set i r.2⟩

/-- The calls take steps, in any order. -/
abbrev Runs (s : Reductions) (order : List Nat) (s' : Reductions) : Prop :=
  Run (fun s i s' => s.step i = some s') s order s'

end Reductions

end Cvcuda
