import CvCuda.Cvcuda.LabelReduction

/-! # Threads of the labelling kernels

What the threads of the kernels of `cvcuda/priv_musa/OpLabel.mu` do to labels they share: threads
that unite the labels of two places by `Reduction`, after they read one or both of them
(`UnionThread`), and threads that store what `FindRoot` returns at a place (`RootThread`). A step of
a thread makes at most one access to the labels; the threads take their steps in any order.
-/

namespace Cvcuda

/-- A thread on its way to `Reduction(labels, label1, label2)`. -/
inductive UnionThread where
  /-- `label1` is read at `p`, then `label2` at `q`. -/
  | start (p q : Nat)
  /-- `label2` is read at `q`. -/
  | half (label1 q : Nat)
  | call (c : Reduction)
  deriving DecidableEq

/-- A thread that stores at `p` what `FindRoot` returns. -/
inductive RootThread where
  /-- The label to begin with is read at `p`. -/
  | load (p : Nat)
  /-- `next = labels[label]`. -/
  | read (p label : Nat)
  | store (p label : Nat)
  | stored (p : Nat)
  deriving DecidableEq

/-- One step of a thread. -/
def UnionThread.step (labels : List Nat) : UnionThread → Option (List Nat × UnionThread)
  | start p q => labels[p]?.map fun label1 => (labels, half label1 q)
  | half label1 q => labels[q]?.map fun label2 => (labels, call (.first label1 label2))
  | call c => (c.step labels).map fun r => (r.1, call r.2)

/-- One step of a thread. -/
def RootThread.step (labels : List Nat) : RootThread → Option (List Nat × RootThread)
  | load p => labels[p]?.map fun label => (labels, read p label)
  | read p label =>
    labels[label]?.map fun next => (labels, if label ≠ next then read p next else store p label)
  | store p label => if p < labels.length then some (labels.set p label, stored p) else none
  | stored _ => none

/-- Threads that share labels. -/
structure Threads (τ : Type) where
  labels : List Nat
  threads : List τ
  deriving DecidableEq

namespace Threads
variable {τ : Type}

/-- The thread `i` takes a step. -/
def step (stepOf : List Nat → τ → Option (List Nat × τ)) (s : Threads τ) (i : Nat) :
    Option (Threads τ) :=
  s.threads[i]?.bind fun t => (stepOf s.labels t).map fun r => ⟨r.1, s.threads.set i r.2⟩

/-- The threads take steps, in any order. -/
abbrev Runs (stepOf : List Nat → τ → Option (List Nat × τ)) (s : Threads τ) (order : List Nat)
    (s' : Threads τ) : Prop :=
  Run (fun s i s' => s.step stepOf i = some s') s order s'

end Threads

/-- Threads that unite labels run to their end, in some order. -/
def Unites (labels : List Nat) (threads : List UnionThread) (labels' : List Nat)
    (returned : List Nat) : Prop :=
  ∃ order, Threads.Runs UnionThread.step ⟨labels, threads⟩ order
    ⟨labels', returned.map fun label => .call (.returned label)⟩

/-- Threads that store roots run to their end, in some order. -/
def StoresRoots (labels : List Nat) (threads : List RootThread) (labels' : List Nat) : Prop :=
  ∃ (order places : List Nat), Threads.Runs RootThread.step ⟨labels, threads⟩ order
    ⟨labels', places.map RootThread.stored⟩

end Cvcuda
