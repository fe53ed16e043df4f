import CvCuda.Lib.Run

/-! # The current stream of the Python module

`StreamStack` of `mod_cvcuda/nvcv/StreamStack.cpp`, of which there is one instance for all threads,
and what `Stream` does with it. Every member function locks the mutex of the stack, so that a step
is one call of one thread. A stream is the number it was created with; the default stream is `0`.
-/

namespace Nvcvpy.Stream

/-- Threads and streams. -/
abbrev Thread := Nat
abbrev Id := Nat

structure State where
  /-- `m_stack`, the top first: weak pointers to streams. -/
  stack : List Id
  /-- The streams created so far are the ids below. -/
  created : Nat
  /-- Streams without owner, which no weak pointer locks. -/
  destroyed : List Id
  /-- The with-blocks that are open, the one entered last first: the thread that is in each and
  its stream. -/
  opened : List (Thread × Id)

namespace State
variable (s : State)

/-- `StreamStack::push`. -/
def push (i : Id) : State := { s with stack := i :: s.stack }

/-- `StreamStack::pop`. -/
def pop : State := { s with stack := s.stack.tail }

/-- `StreamStack::top`. -/
def top : Option Id :=
  match s.stack with
  | [] => none
  | i :: _ => if i ∈ s.destroyed then none else some i

/-- `Stream::Current`; without a stream its assertion fails. -/
def current : Option Id := s.top

/-- `Stream::activate`, at the start of a with-block of thread `t`. -/
def activate (t : Thread) (i : Id) : State :=
  let s := s.push i
  { s with opened := (t, i) :: s.opened }

/-- `Stream::deactivate`, at the end of the innermost with-block of thread `t`. -/
def deactivate (t : Thread) : State :=
  let s := s.pop
  { s with opened := s.opened.eraseP (·.1 = t) }

/-- The with-blocks that thread `t` is in, the innermost first. -/
def blocks (t : Thread) : List Id := (s.opened.filter (·.1 = t)).map Prod.snd

/-- The stream that thread `t` has entered last and not yet left, or the default stream. -/
def innermost (t : Thread) : Id := (s.blocks t).headD 0

/-- The stream of the with-block entered last by any thread, or the default stream. -/
def last : Id := (s.opened.map Prod.snd).headD 0

end State

/-- `Stream::Export` pushes the default stream. -/
def exported : State := State.push ⟨[], 1, [], []⟩ 0

/-- What a thread does. -/
inductive Op where
  | create
  | destroy (i : Id)
  | enter (t : Thread) (i : Id)
  | exit (t : Thread)
  | current (t : Thread)

/-- The module holds the default stream, and a with-block its own. -/
inductive Step : State → Op → State → Prop where
  | create (s : State) : Step s .create { s with created := s.created + 1 }
  | destroy {s : State} {i : Id} (h0 : i ≠ 0) (hi : i < s.created)
      (h : ∀ b ∈ s.opened, b.2 ≠ i) :
      Step s (.destroy i) { s with destroyed := i :: s.destroyed }
  | enter {s : State} (t : Thread) {i : Id} (hi : i < s.created) (hd : i ∉ s.destroyed) :
      Step s (.enter t i) (s.activate t i)
  | exit {s : State} {t : Thread} (h : s.blocks t ≠ []) : Step s (.exit t) (s.deactivate t)
  | current (s : State) (t : Thread) : Step s (.current t) s

end Nvcvpy.Stream
