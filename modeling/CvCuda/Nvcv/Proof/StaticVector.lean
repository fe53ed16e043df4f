import CvCuda.Lib.ForLoop
import CvCuda.Nvcv.StaticVector

/-! # Vectors of bounded size are lists

* `Mem.construct_does` and so on: what one element operation does to the values in the buffers and to
  the objects' custody; `Mem.uninitializedFill_does` and so on: what the algorithms do.
* `Op.spec`: the operations on lists, where a moved-from element is unspecified.
* `step_spec`: each operation on vectors does what it does on the lists, if a swap is one of vectors
  of one size.
* `runs_sound`: the account over a whole program.
-/

namespace Nvcv.StaticVector

variable {V : Type} {T : ElemType V} {N : Nat}

namespace Mem

variable {m m' : Mem V}

/-! ## Elements -/

/-- Where the objects are. -/
def custody (m : Mem V) : Custody Slot where
  cell := fun k => (m.slot k).map Elem.id
  out := []
  next := m.next
  log := m.log

/-- The values afterwards, by steps that lose no object. -/
structure Does (m m' : Mem V) (val : Slot → Option V) : Prop where
  steps : CustodySteps m.custody m'.custody
  read : ∀ k, m'.read k = val k

theorem Does.trans {m'' : Mem V} {val val' : Slot → Option V} (h : m.Does m' val)
    (h' : m'.Does m'' val') : m.Does m'' val' := ⟨h.steps.trans h'.steps, h'.read⟩

theorem cell_update (slot : Slot → Option (Elem V)) (k : Slot) (e : Option (Elem V)) :
    (fun k' => (Function.update slot k e k').map Elem.id) =
      Function.update (fun k' => (slot k').map Elem.id) k (e.map Elem.id) :=
  funext fun k' => Function.apply_update (fun _ (e : Option (Elem V)) => e.map Elem.id) slot k e k'

theorem read_update (slot : Slot → Option (Elem V)) (k k' : Slot) (e : Option (Elem V)) :
    (Function.update slot k e k').map Elem.value =
      if k' = k then e.map Elem.value else (slot k').map Elem.value := by
  by_cases h : k' = k
  · rw [if_pos h, h, Function.update_self]
  · rw [if_neg h, Function.update_of_ne h]

theorem construct_does {k : Slot} (hk : k.2 < N) (hfree : m.read k = none) (v : V) :
    ∃ m', m.construct N k v = some m' ∧ m.Does m' fun k' => if k' = k then some v else m.read k' := by
  have hslot : m.slot k = none := Option.map_eq_none_iff.1 hfree
  refine ⟨_, if_pos hk, .single ?_, fun k' => read_update m.slot k k' (some ⟨m.next, v⟩)⟩
  unfold custody
  dsimp only
  rw [cell_update]
  exact .make (s := m.custody) (congrArg (Option.map Elem.id) hslot)

theorem destroyAt_does {k : Slot} {x : V} (hk : m.read k = some x) :
    ∃ m', m.destroyAt k = some m' ∧ m.Does m' fun k' => if k' = k then none else m.read k' := by
  obtain ⟨e, hslot, -⟩ := Option.map_eq_some_iff.1 hk
  refine ⟨{ m with slot := Function.update m.slot k none, log := m.log ++ [.disposed e.id] },
    by rw [destroyAt, hslot, Option.map_some], .single ?_, fun k' => read_update m.slot k k' none⟩
  unfold custody
  dsimp only
  rw [cell_update]
  exact .dispose (s := m.custody) (congrArg (Option.map Elem.id) hslot)

theorem assign_does {k : Slot} {x : V} (hk : m.read k = some x) (v : V) :
    ∃ m', m.assign k v = some m' ∧ m.Does m' fun k' => if k' = k then some v else m.read k' := by
  obtain ⟨e, hslot, -⟩ := Option.map_eq_some_iff.1 hk
  refine ⟨{ m with slot := Function.update m.slot k (some { e with value := v }) },
    by rw [assign, hslot, Option.map_some], ?_,
    fun k' => read_update m.slot k k' (some { e with value := v })⟩
  -- it is the same object
  have hid : some e.id = (fun k => (m.slot k).map Elem.id) k := (congrArg (Option.map Elem.id) hslot).symm
  unfold custody
  dsimp only
  rw [cell_update, Option.map_some, hid, Function.update_eq_self]

theorem moveFrom_does {k : Slot} {x : V} (hk : m.read k = some x) :
    ∃ m', m.moveFrom T k = some (x, m') ∧
      m.Does m' fun k' => if k' = k then some (T.moved x) else m.read k' := by
  obtain ⟨m', hassign, hdoes⟩ := assign_does hk (T.moved x)
  refine ⟨m', ?_, hdoes⟩
  rw [moveFrom, hk, Option.bind_eq_bind, Option.bind_some, hassign]
  rfl

/-! ## Ranges -/

/-- What the turns of a loop come to one after another. -/
theorem forRange_does {f : Mem V → Nat → Option (Mem V)} {first last : Nat} (hle : first ≤ last)
    (val : Nat → Slot → Option V) (h0 : ∀ k, m.read k = val first k)
    (hturn : ∀ i m', first ≤ i → i < last → (∀ k, m'.read k = val i k) →
      ∃ m'', f m' i = some m'' ∧ m'.Does m'' (val (i + 1))) :
    ∃ m', m.forRange first last f = some m' ∧ m.Does m' (val last) := by
  have h := ForLoop.foldlM_range' (s := first) (n := last - first) (f := f) (b := m)
    (P := fun i m' => m.Does m' (val i)) ⟨.refl, h0⟩ (by
    intro i m' hi hilast hdoes
    obtain ⟨m'', hf, hdoes'⟩ := hturn i m' hi (by omega) hdoes.read
    exact ⟨m'', hf, hdoes.trans hdoes'⟩)
  rwa [Nat.add_sub_cancel' hle] at h

theorem destroy_does {v first last : Nat} (hle : first ≤ last)
    (hfull : ∀ i, first ≤ i → i < last → m.read (v, i) ≠ none) :
    ∃ m', m.destroy v first last = some m' ∧ m.Does m' fun k =>
      if k.1 = v ∧ first ≤ k.2 ∧ k.2 < last then none else m.read k := by
  refine forRange_does hle (fun j k =>
    if k.1 = v ∧ first ≤ k.2 ∧ k.2 < j then none else m.read k) (fun k => ?_) ?_
  · rw [if_neg (by omega)]
  · intro i m' hi hlast hread
    obtain ⟨x, hx⟩ := Option.ne_none_iff_exists'.1 (hfull i hi hlast)
    obtain ⟨m'', hm'', hdoes⟩ := destroyAt_does (m := m') (k := (v, i)) (x := x) (by
      rw [hread, if_neg (by dsimp only; omega), hx])
    refine ⟨m'', hm'', hdoes.steps, fun k => ?_⟩
    rw [hdoes.read, hread]
    grind

theorem uninitializedFill_does {v first last : Nat} (hle : first ≤ last) (hN : last ≤ N)
    (hfree : ∀ i, first ≤ i → i < last → m.read (v, i) = none) (x : V) :
    ∃ m', m.uninitializedFill N v first last x = some m' ∧ m.Does m' fun k =>
      if k.1 = v ∧ first ≤ k.2 ∧ k.2 < last then some x else m.read k := by
  refine forRange_does hle (fun j k =>
    if k.1 = v ∧ first ≤ k.2 ∧ k.2 < j then some x else m.read k) (fun k => ?_) ?_
  · rw [if_neg (by omega)]
  · intro i m' hi hlast hread
    obtain ⟨m'', hm'', hdoes⟩ := construct_does (m := m') (k := (v, i)) (hlast.trans_le hN) (by
      rw [hread, if_neg (by dsimp only; omega), hfree i hi hlast]) x
    refine ⟨m'', hm'', hdoes.steps, fun k => ?_⟩
    rw [hdoes.read, hread]
    grind

theorem uninitializedCopyList_does {v : Nat} {list : List V} (hN : list.length ≤ N)
    (hfree : ∀ i < list.length, m.read (v, i) = none) :
    ∃ m', m.uninitializedCopyList N list v = some m' ∧ m.Does m' fun k =>
      if k.1 = v ∧ k.2 < list.length then list[k.2]? else m.read k := by
  refine forRange_does (Nat.zero_le _) (fun j k =>
    if k.1 = v ∧ k.2 < j then list[k.2]? else m.read k) (fun k => ?_) ?_
  · rw [if_neg (by omega)]
  · intro i m' _ hlast hread
    obtain ⟨m'', hm'', hdoes⟩ := construct_does (m := m') (k := (v, i)) (hlast.trans_le hN) (by
      rw [hread, if_neg (by dsimp only; omega), hfree i hlast]) (list.get ⟨i, hlast⟩)
    have hget : list[i]? = some (list.get ⟨i, hlast⟩) := List.getElem?_eq_getElem hlast
    refine ⟨m'', by rw [hget, Option.bind_eq_bind, Option.bind_some, hm''], hdoes.steps, fun k => ?_⟩
    rw [hdoes.read, hread]
    grind

theorem uninitializedCopy_does {v w first last : Nat} (hle : first ≤ last) (hN : last ≤ N)
    (hfree : ∀ i, first ≤ i → i < last → m.read (v, i) = none)
    (hfull : ∀ i, first ≤ i → i < last → m.read (w, i) ≠ none) :
    ∃ m', m.uninitializedCopy N w first last v = some m' ∧ m.Does m' fun k =>
      if k.1 = v ∧ first ≤ k.2 ∧ k.2 < last then m.read (w, k.2) else m.read k := by
  refine forRange_does hle (fun j k =>
    if k.1 = v ∧ first ≤ k.2 ∧ k.2 < j then m.read (w, k.2) else m.read k) (fun k => ?_) ?_
  · rw [if_neg (by omega)]
  · intro i m' hi hlast hread
    obtain ⟨x, hx⟩ := Option.ne_none_iff_exists'.1 (hfull i hi hlast)
    have hx' : m'.read (w, i) = some x := by rw [hread, if_neg (by grind), hx]
    obtain ⟨m'', hm'', hdoes⟩ := construct_does (m := m') (k := (v, i)) (hlast.trans_le hN) (by
      rw [hread, if_neg (by dsimp only; omega), hfree i hi hlast]) x
    refine ⟨m'', by rw [hx', Option.bind_eq_bind, Option.bind_some, hm''], hdoes.steps, fun k => ?_⟩
    rw [hdoes.read, hread]
    grind

theorem copy_does {v w first last : Nat} (hle : first ≤ last)
    (hfull : ∀ i, first ≤ i → i < last → m.read (v, i) ≠ none ∧ m.read (w, i) ≠ none) :
    ∃ m', m.copy w first last v = some m' ∧ m.Does m' fun k =>
      if k.1 = v ∧ first ≤ k.2 ∧ k.2 < last then m.read (w, k.2) else m.read k := by
  refine forRange_does hle (fun j k =>
    if k.1 = v ∧ first ≤ k.2 ∧ k.2 < j then m.read (w, k.2) else m.read k) (fun k => ?_) ?_
  · rw [if_neg (by omega)]
  · intro i m' hi hlast hread
    obtain ⟨y, hy⟩ := Option.ne_none_iff_exists'.1 (hfull i hi hlast).1
    obtain ⟨x, hx⟩ := Option.ne_none_iff_exists'.1 (hfull i hi hlast).2
    have hx' : m'.read (w, i) = some x := by rw [hread, if_neg (by grind), hx]
    obtain ⟨m'', hm'', hdoes⟩ := assign_does (m := m') (k := (v, i)) (x := y) (by
      rw [hread, if_neg (by dsimp only; omega), hy]) x
    refine ⟨m'', by rw [hx', Option.bind_eq_bind, Option.bind_some, hm''], hdoes.steps, fun k => ?_⟩
    rw [hdoes.read, hread]
    grind

theorem uninitializedMove_does {v w first last : Nat} (hle : first ≤ last) (hN : last ≤ N)
    (hvw : v ≠ w) (hfree : ∀ i, first ≤ i → i < last → m.read (v, i) = none)
    (hfull : ∀ i, first ≤ i → i < last → m.read (w, i) ≠ none) :
    ∃ m', m.uninitializedMove T N w first last v = some m' ∧ m.Does m' fun k =>
      if k.1 = v ∧ first ≤ k.2 ∧ k.2 < last then m.read (w, k.2)
      else if k.1 = w ∧ first ≤ k.2 ∧ k.2 < last then (m.read k).map T.moved
      else m.read k := by
  refine forRange_does hle (fun j k =>
    if k.1 = v ∧ first ≤ k.2 ∧ k.2 < j then m.read (w, k.2)
    else if k.1 = w ∧ first ≤ k.2 ∧ k.2 < j then (m.read k).map T.moved
    else m.read k) (fun k => ?_) ?_
  · rw [if_neg (by omega), if_neg (by omega)]
  · intro i m' hi hlast hread
    obtain ⟨x, hx⟩ := Option.ne_none_iff_exists'.1 (hfull i hi hlast)
    obtain ⟨m₁, hm₁, hdoes₁⟩ := moveFrom_does (T := T) (m := m') (k := (w, i)) (x := x) (by
      rw [hread, if_neg (by grind), if_neg (by dsimp only; omega), hx])
    obtain ⟨m'', hm'', hdoes⟩ := construct_does (m := m₁) (k := (v, i)) (hlast.trans_le hN) (by
      rw [hdoes₁.read, if_neg (by grind), hread, if_neg (by dsimp only; omega), if_neg (by grind),
        hfree i hi hlast]) x
    refine ⟨m'', ?_, hdoes₁.steps.trans hdoes.steps, fun k => ?_⟩
    · rw [hm₁]
      exact hm''
    · rw [hdoes.read, hdoes₁.read, hread]
      grind

theorem move_does {v w first last : Nat} (hle : first ≤ last) (hvw : v ≠ w)
    (hfull : ∀ i, first ≤ i → i < last → m.read (v, i) ≠ none ∧ m.read (w, i) ≠ none) :
    ∃ m', m.move T w first last v = some m' ∧ m.Does m' fun k =>
      if k.1 = v ∧ first ≤ k.2 ∧ k.2 < last then m.read (w, k.2)
      else if k.1 = w ∧ first ≤ k.2 ∧ k.2 < last then (m.read k).map T.moved
      else m.read k := by
  refine forRange_does hle (fun j k =>
    if k.1 = v ∧ first ≤ k.2 ∧ k.2 < j then m.read (w, k.2)
    else if k.1 = w ∧ first ≤ k.2 ∧ k.2 < j then (m.read k).map T.moved
    else m.read k) (fun k => ?_) ?_
  · rw [if_neg (by omega), if_neg (by omega)]
  · intro i m' hi hlast hread
    obtain ⟨y, hy⟩ := Option.ne_none_iff_exists'.1 (hfull i hi hlast).1
    obtain ⟨x, hx⟩ := Option.ne_none_iff_exists'.1 (hfull i hi hlast).2
    obtain ⟨m₁, hm₁, hdoes₁⟩ := moveFrom_does (T := T) (m := m') (k := (w, i)) (x := x) (by
      rw [hread, if_neg (by grind), if_neg (by dsimp only; omega), hx])
    obtain ⟨m'', hm'', hdoes⟩ := assign_does (m := m₁) (k := (v, i)) (x := y) (by
      rw [hdoes₁.read, if_neg (by grind), hread, if_neg (by dsimp only; omega), if_neg (by grind),
        hy]) x
    refine ⟨m'', ?_, hdoes₁.steps.trans hdoes.steps, fun k => ?_⟩
    · rw [hm₁]
      exact hm''
    · rw [hdoes.read, hdoes₁.read, hread]
      grind

/-- Two ranges of the same indices are exchanged; they may be one. -/
theorem swapRanges_does {v w : Nat} (last : Nat)
    (hfull : ∀ i < last, m.read (v, i) ≠ none ∧ m.read (w, i) ≠ none) :
    ∃ m', m.swapRanges v 0 last w 0 = some m' ∧ m.Does m' fun k =>
      if k.1 = v ∧ k.2 < last then m.read (w, k.2)
      else if k.1 = w ∧ k.2 < last then m.read (v, k.2)
      else m.read k := by
  refine forRange_does (Nat.zero_le _) (fun j k =>
    if k.1 = v ∧ k.2 < j then m.read (w, k.2)
    else if k.1 = w ∧ k.2 < j then m.read (v, k.2)
    else m.read k) (fun k => ?_) ?_
  · rw [if_neg (by omega), if_neg (by omega)]
  · intro i m' _ hlast hread
    obtain ⟨x, hx⟩ := Option.ne_none_iff_exists'.1 (hfull i hlast).1
    obtain ⟨y, hy⟩ := Option.ne_none_iff_exists'.1 (hfull i hlast).2
    have hx' : m'.read (v, i) = some x := by rw [hread, if_neg (by grind), if_neg (by grind), hx]
    have hy' : m'.read (w, i) = some y := by rw [hread, if_neg (by grind), if_neg (by grind), hy]
    obtain ⟨m₁, hm₁, hdoes₁⟩ := assign_does hx' y
    obtain ⟨z, hz⟩ : ∃ z, m₁.read (w, i) = some z := by
      rw [hdoes₁.read]
      split
      · exact ⟨y, rfl⟩
      · exact ⟨y, hy'⟩
    obtain ⟨m'', hm'', hdoes⟩ := assign_does hz x
    refine ⟨m'', ?_, hdoes₁.steps.trans hdoes.steps, fun k => ?_⟩
    · rw [Nat.sub_zero, Nat.zero_add, hx', hy', Option.bind_eq_bind, Option.bind_some,
        Option.bind_eq_bind, Option.bind_some, hm₁]
      exact hm''
    · rw [hdoes.read, hdoes₁.read, hread]
      grind

/-- The turns of `erase` before the index `j`: what was from `last` on is from `first` on. -/
structure Shifted (m m' : Mem V) (v first last j : Nat) : Prop where
  steps : CustodySteps m.custody m'.custody
  none_iff : ∀ k, m'.read k = none ↔ m.read k = none
  other : ∀ k, k.1 ≠ v → m'.read k = m.read k
  before : ∀ i < first, m'.read (v, i) = m.read (v, i)
  shifted : ∀ i, last + i < j → m'.read (v, first + i) = m.read (v, last + i)
  ahead : ∀ i, j ≤ i → m'.read (v, i) = m.read (v, i)

theorem swapRanges_shifted {v first last size : Nat} (hle : first ≤ last) (hsize : last ≤ size)
    (hfull : ∀ i < size, m.read (v, i) ≠ none) :
    ∃ m', m.swapRanges v last size v first = some m' ∧ Shifted m m' v first last size := by
  have h := ForLoop.foldlM_range' (s := last) (n := size - last) (b := m)
    (P := fun j m' => Shifted m m' v first last j)
    (f := fun m i => do
      let x ← m.read (v, i)
      let y ← m.read (v, first + (i - last))
      let m ← m.assign (v, i) y
      m.assign (v, first + (i - last)) x)
    ⟨.refl, fun k => Iff.rfl, fun k _ => rfl, fun i _ => rfl, fun i hi => by omega,
      fun i _ => rfl⟩ (by
    intro j m' hj hjlast hs
    obtain ⟨i, rfl⟩ := Nat.exists_eq_add_of_le hj
    obtain ⟨x, hx⟩ := Option.ne_none_iff_exists'.1 (hfull (last + i) (by omega))
    have hx' : m'.read (v, last + i) = some x := (hs.ahead _ le_rfl).trans hx
    obtain ⟨y, hy⟩ := Option.ne_none_iff_exists'.1
      ((hs.none_iff (v, first + i)).not.2 (hfull (first + i) (by omega)))
    obtain ⟨m₁, hm₁, hdoes₁⟩ := assign_does hx' y
    obtain ⟨z, hz⟩ : ∃ z, m₁.read (v, first + i) = some z := by
      rw [hdoes₁.read]
      split
      · exact ⟨y, rfl⟩
      · exact ⟨y, hy⟩
    obtain ⟨m'', hm'', hdoes⟩ := assign_does hz x
    have hread : ∀ k, m''.read k = if k = (v, first + i) then some x
        else if k = (v, last + i) then some y else m'.read k := fun k => by
      rw [hdoes.read, hdoes₁.read]
    obtain ⟨hsteps, hnone, hother, hbefore, hshifted, hahead⟩ := hs
    refine ⟨m'', ?_, hsteps.trans (hdoes₁.steps.trans hdoes.steps), ?_, ?_, ?_, ?_, ?_⟩
    · rw [Nat.add_sub_cancel_left, hx', hy, Option.bind_eq_bind, Option.bind_some,
        Option.bind_eq_bind, Option.bind_some, hm₁]
      exact hm''
    · intro k
      rw [hread, ← hnone]
      split_ifs with h1 h2
      · rw [h1, hy]
        simp
      · rw [h2, hx']
        simp
      · rfl
    · intro k hk
      rw [hread, if_neg (by grind), if_neg (by grind), hother k hk]
    · intro p hp
      rw [hread, if_neg (by grind), if_neg (by grind), hbefore p hp]
    · intro p hp
      rw [hread]
      by_cases hpi : p = i
      · rw [hpi, if_pos rfl, hx]
      · rw [if_neg (by grind), if_neg (by grind), hshifted p (by omega)]
    · intro p hp
      rw [hread, if_neg (by grind), if_neg (by grind), hahead p (by omega)])
  rwa [Nat.add_sub_cancel' hsize] at h

end Mem

/-! ## Lists -/

/-- The elements of a vector; one that was moved from is unspecified. -/
abbrev Contents (V : Type) := List (Option V)

/-- The contents of the vectors that exist. -/
abbrev Lists (V : Type) := Nat → Option (Contents V)

/-- What is left of a list that was moved from. -/
def Contents.moved (l : Contents V) : Contents V := l.map fun _ => none

/-- The operations on lists: whether one throws, and the lists afterwards. -/
def Op.spec (T : ElemType V) (N : Nat) (σ : Lists V) : Op V → Bool × Lists V
  | .construct v => (false, Function.update σ v (some []))
  | .constructFill v count x =>
    if N < count then (true, σ)
    else (false, Function.update σ v (some (List.replicate count (some x))))
  | .constructList v list =>
    if N < list.length then (true, σ) else (false, Function.update σ v (some (list.map some)))
  | .copyConstruct v w | .copyAssign v w => (false, Function.update σ v (σ w))
  | .moveConstruct v w =>
    (false, Function.update (Function.update σ v (σ w)) w ((σ w).map Contents.moved))
  | .moveAssign v w =>
    if v = w then (false, σ)
    else (false, Function.update (Function.update σ v (σ w)) w ((σ w).map Contents.moved))
  | .pushBack v item =>
    let l := (σ v).getD []
    if N ≤ l.length then (true, σ) else (false, Function.update σ v (some (l ++ [some item])))
  | .popBack v => (false, Function.update σ v ((σ v).map List.dropLast))
  | .resize v newSize =>
    let l := (σ v).getD []
    if N < newSize then (true, σ)
    else if newSize ≤ l.length then (false, Function.update σ v (some (l.take newSize)))
    else
      match T.default with
      | none => (true, σ)
      | some x => (false, Function.update σ v
          (some (l ++ List.replicate (newSize - l.length) (some x))))
  | .erase v first last =>
    (false, Function.update σ v ((σ v).map fun l => l.take first ++ l.drop last))
  | .clear v => (false, Function.update σ v (some []))
  | .swap a b => (false, Function.update (Function.update σ a (σ b)) b (σ a))
  | .destruct v => (false, Function.update σ v none)

/-- An object is there where the list has an element, and has its value if that is specified. -/
def Agrees (o : Option (Option V)) (r : Option V) : Prop :=
  (o = none ↔ r = none) ∧ ∀ x, o = some (some x) → r = some x

/-- A vector with what is in its buffer against a list. -/
structure Holds (N : Nat) (size : Option Nat) (buffer : Nat → Option V) (l : Option (Contents V)) :
    Prop where
  size : size = l.map List.length
  le : (l.getD []).length ≤ N
  agrees : ∀ i, Agrees (l.getD [])[i]? (buffer i)

/-- The vectors hold the lists. -/
def Represents (N : Nat) (s : State V) (σ : Lists V) : Prop :=
  ∀ v, Holds N (s.size v) (fun i => s.mem.read (v, i)) (σ v)

section Represents

variable {s : State V} {σ : Lists V} {v w : Nat} {l l' : Contents V} {m : Mem V}

theorem agrees_none_iff {o : Option (Option V)} {r : Option V} (h : Agrees o r) :
    r ≠ none ↔ o ≠ none := h.1.not.symm

theorem agrees_none : Agrees (none : Option (Option V)) none :=
  ⟨iff_of_true rfl rfl, fun _ h => by cases h⟩

theorem agrees_some (x : V) : Agrees (some (some x)) (some x) :=
  ⟨iff_of_false (Option.some_ne_none _) (Option.some_ne_none _),
    fun _ h => congrArg some (Option.some.inj (Option.some.inj h))⟩

theorem agrees_unspecified {r : Option V} (h : r ≠ none) : Agrees (some none) r :=
  ⟨iff_of_false (Option.some_ne_none _) h, fun _ h => by cases Option.some.inj h⟩

theorem Represents.size_of (h : Represents N s σ) (hv : σ v = some l) :
    s.size v = some l.length := by
  rw [(h v).size, hv, Option.map_some]

theorem Represents.le_of (h : Represents N s σ) (hv : σ v = some l) : l.length ≤ N := by
  have hle := (h v).le
  rwa [hv] at hle

theorem Represents.agrees_of (h : Represents N s σ) (hv : σ v = some l) (i : Nat) :
    Agrees l[i]? (s.mem.read (v, i)) := by
  have hi := (h v).agrees i
  rwa [hv] at hi

theorem Represents.full (h : Represents N s σ) (hv : σ v = some l) {i : Nat} (hi : i < l.length) :
    s.mem.read (v, i) ≠ none := by
  refine (agrees_none_iff (h.agrees_of hv i)).2 ?_
  rw [List.getElem?_eq_getElem hi]
  exact Option.some_ne_none _

theorem Represents.free (h : Represents N s σ) (hv : σ v = some l) {i : Nat} (hi : l.length ≤ i) :
    s.mem.read (v, i) = none :=
  (h.agrees_of hv i).1.1 (List.getElem?_eq_none hi)

theorem Represents.none_of (h : Represents N s σ) (hv : s.size v = none) : σ v = none := by
  have hsize := (h v).size
  rw [hv] at hsize
  exact Option.map_eq_none_iff.1 hsize.symm

theorem Represents.free_of_none (h : Represents N s σ) (hv : s.size v = none) (i : Nat) :
    s.mem.read (v, i) = none := by
  have hi := (h v).agrees i
  rw [h.none_of hv] at hi
  exact hi.1.1 rfl

theorem Represents.some_of (h : Represents N s σ) (hv : s.size v ≠ none) : ∃ l, σ v = some l := by
  refine Option.ne_none_iff_exists'.1 fun hnone => hv ?_
  rw [(h v).size, hnone, Option.map_none]

/-- One vector changes. -/
theorem Represents.update (h : Represents N s σ) (hle : l.length ≤ N)
    (hother : ∀ k, k.1 ≠ v → m.read k = s.mem.read k) (hv : ∀ i, Agrees l[i]? (m.read (v, i))) :
    Represents N ⟨Function.update s.size v (some l.length), m⟩
      (Function.update σ v (some l)) := by
  intro u
  by_cases hu : u = v
  · subst hu
    refine ⟨?_, ?_, ?_⟩
    · dsimp only
      rw [Function.update_self, Function.update_self, Option.map_some]
    · rwa [Function.update_self]
    · rwa [Function.update_self]
  · obtain ⟨hsize, hlen, hagrees⟩ := h u
    refine ⟨?_, ?_, fun i => ?_⟩
    · dsimp only
      rw [Function.update_of_ne hu, Function.update_of_ne hu, hsize]
    · rwa [Function.update_of_ne hu]
    · rw [Function.update_of_ne hu]
      dsimp only
      rw [hother _ hu]
      exact hagrees i

/-- One vector changes, and the elements of another are moved from. -/
theorem Represents.update_moved (h : Represents N s σ) (hvw : v ≠ w) (hw : σ w = some l)
    (hother : ∀ k, k.1 ≠ v → k.1 ≠ w → m.read k = s.mem.read k)
    (hv : ∀ i, Agrees l[i]? (m.read (v, i)))
    (hmoved : ∀ i, m.read (w, i) = none ↔ s.mem.read (w, i) = none) :
    Represents N ⟨Function.update s.size v (some l.length), m⟩
      (Function.update (Function.update σ v (some l)) w (some l.moved)) := by
  intro u
  by_cases huw : u = w
  · subst huw
    refine ⟨?_, ?_, fun i => ?_⟩
    · dsimp only
      rw [Function.update_of_ne hvw.symm, Function.update_self, h.size_of hw, Option.map_some,
        Contents.moved, List.length_map]
    · rw [Function.update_self, Option.getD_some, Contents.moved, List.length_map]
      exact h.le_of hw
    · rw [Function.update_self, Option.getD_some, Contents.moved, List.getElem?_map]
      have hagrees := h.agrees_of hw i
      cases hl : l[i]? with
      | none =>
        rw [hl] at hagrees
        exact ⟨iff_of_true rfl ((hmoved i).2 (hagrees.1.1 rfl)), fun _ h => by cases h⟩
      | some o =>
        rw [hl] at hagrees
        exact agrees_unspecified ((hmoved i).not.2 ((agrees_none_iff hagrees).2 (by simp)))
  · rw [Function.update_of_ne huw]
    by_cases huv : u = v
    · subst huv
      refine ⟨?_, ?_, ?_⟩
      · dsimp only
        rw [Function.update_self, Function.update_self, Option.map_some]
      · rw [Function.update_self]
        exact h.le_of hw
      · rwa [Function.update_self]
    · obtain ⟨hsize, hlen, hagrees⟩ := h u
      refine ⟨?_, ?_, fun i => ?_⟩
      · dsimp only
        rw [Function.update_of_ne huv, Function.update_of_ne huv, hsize]
      · rwa [Function.update_of_ne huv]
      · rw [Function.update_of_ne huv]
        dsimp only
        rw [hother _ huv huw]
        exact hagrees i

end Represents

/-! ## Operations -/

/-- A call does to the vectors what its operation does to the lists. -/
structure Follows (T : ElemType V) (N : Nat) (s : State V) (σ : Lists V) (op : Op V)
    (r : Result V) : Prop where
  throws : r.1 = (op.spec T N σ).1
  represents : Represents N r.2 (op.spec T N σ).2
  steps : CustodySteps s.mem.custody r.2.mem.custody
  unchanged : r.1 = true → r.2 = s

section Ops

variable {s : State V} {σ : Lists V} {v w : Nat} {l : Contents V}

theorem follows_throws {op : Op V} (h : Represents N s σ) (hspec : op.spec T N σ = (true, σ)) :
    Follows T N s σ op s.throws :=
  ⟨congrArg Prod.fst hspec.symm, by rw [hspec]; exact h, .refl, fun _ => rfl⟩

/-- A call leaves one vector with a list. -/
theorem follows_returns (op : Op V) {m : Mem V} {val : Slot → Option V} (h : Represents N s σ)
    (hspec : op.spec T N σ = (false, Function.update σ v (some l))) (hle : l.length ≤ N)
    (hdoes : s.mem.Does m val) (hother : ∀ k, k.1 ≠ v → val k = s.mem.read k)
    (hagrees : ∀ i, Agrees l[i]? (val (v, i))) :
    Follows T N s σ op (s.returns v l.length m) := by
  refine ⟨by rw [hspec]; rfl, ?_, hdoes.steps, fun h => by cases h⟩
  rw [hspec]
  refine h.update hle (fun k hk => ?_) fun i => ?_
  · rw [hdoes.read, hother k hk]
  · rw [hdoes.read]
    exact hagrees i

/-- A call leaves one vector with the list of another, which it moves from. -/
theorem follows_moves (op : Op V) {m : Mem V} {val : Slot → Option V} (h : Represents N s σ)
    (hspec : op.spec T N σ = (false,
      Function.update (Function.update σ v (some l)) w (some l.moved)))
    (hvw : v ≠ w) (hw : σ w = some l) (hdoes : s.mem.Does m val)
    (hother : ∀ k, k.1 ≠ v → k.1 ≠ w → val k = s.mem.read k)
    (hagrees : ∀ i, Agrees l[i]? (val (v, i)))
    (hmoved : ∀ i, val (w, i) = none ↔ s.mem.read (w, i) = none) :
    Follows T N s σ op (s.returns v l.length m) := by
  refine ⟨by rw [hspec]; rfl, ?_, hdoes.steps, fun h => by cases h⟩
  rw [hspec]
  refine h.update_moved hvw hw (fun k hv hw => ?_) (fun i => ?_) fun i => ?_
  · rw [hdoes.read, hother k hv hw]
  · rw [hdoes.read]
    exact hagrees i
  · rw [hdoes.read]
    exact hmoved i

theorem construct_follows (h : Represents N s σ) (hv : s.size v = none) :
    ∃ r, s.construct v = some r ∧ Follows T N s σ (.construct v) r := by
  refine ⟨_, rfl, follows_returns (l := []) _ h rfl (Nat.zero_le N) ⟨.refl, fun _ => rfl⟩
    (fun _ _ => rfl) fun i => ?_⟩
  rw [h.free_of_none hv]
  exact agrees_none

theorem constructFill_follows (h : Represents N s σ) (hv : s.size v = none) (count : Nat) (x : V) :
    ∃ r, s.constructFill N v count x = some r ∧ Follows T N s σ (.constructFill v count x) r := by
  unfold State.constructFill
  by_cases hN : N < count
  · exact ⟨_, if_pos hN, follows_throws h (if_pos hN)⟩
  obtain ⟨m, hm, hdoes⟩ := Mem.uninitializedFill_does (v := v) (Nat.zero_le count) (not_lt.1 hN)
    (fun i _ _ => h.free_of_none hv i) x
  have hlen : (List.replicate count (some x)).length = count := List.length_replicate
  refine ⟨s.returns v count m, by rw [if_neg hN, hm]; rfl, ?_⟩
  have hreturns := follows_returns (T := T) (.constructFill v count x)
    (l := List.replicate count (some x)) h (if_neg hN) (hlen.symm ▸ not_lt.1 hN) hdoes
    (fun k hk => if_neg (by omega)) fun i => ?_
  · rwa [hlen] at hreturns
  · rw [List.getElem?_replicate]
    by_cases hi : i < count
    · rw [if_pos hi, if_pos ⟨rfl, Nat.zero_le i, hi⟩]
      exact agrees_some x
    · rw [if_neg hi, if_neg (by omega), h.free_of_none hv]
      exact agrees_none

theorem constructList_follows (h : Represents N s σ) (hv : s.size v = none) (list : List V) :
    ∃ r, s.constructList N v list = some r ∧ Follows T N s σ (.constructList v list) r := by
  unfold State.constructList
  by_cases hN : N < list.length
  · exact ⟨_, if_pos hN, follows_throws h (if_pos hN)⟩
  obtain ⟨m, hm, hdoes⟩ := Mem.uninitializedCopyList_does (v := v) (not_lt.1 hN)
    (fun i _ => h.free_of_none hv i)
  have hlen : (list.map some).length = list.length := List.length_map some
  refine ⟨s.returns v list.length m, by rw [if_neg hN, hm]; rfl, ?_⟩
  have hreturns := follows_returns (T := T) (.constructList v list) (l := list.map some) h
    (if_neg hN) (hlen.symm ▸ not_lt.1 hN) hdoes (fun k hk => if_neg (by omega)) fun i => ?_
  · rwa [hlen] at hreturns
  · rw [List.getElem?_map]
    by_cases hi : i < list.length
    · rw [if_pos ⟨rfl, hi⟩, List.getElem?_eq_getElem hi]
      exact agrees_some _
    · rw [if_neg (by omega), h.free_of_none hv, List.getElem?_eq_none (not_lt.1 hi)]
      exact agrees_none

theorem copyConstruct_follows (h : Represents N s σ) (hv : s.size v = none) (hw : σ w = some l) :
    ∃ r, s.copyConstruct N v w = some r ∧ Follows T N s σ (.copyConstruct v w) r := by
  obtain ⟨m, hm, hdoes⟩ := Mem.uninitializedCopy_does (v := v) (w := w) (Nat.zero_le _)
    (h.le_of hw) (fun i _ _ => h.free_of_none hv i) (fun i _ hi => h.full hw hi)
  refine ⟨s.returns v l.length m, ?_, follows_returns _ h (by rw [Op.spec, hw]) (h.le_of hw) hdoes
    (fun k hk => if_neg (by omega)) fun i => ?_⟩
  · rw [State.copyConstruct, h.size_of hw, Option.bind_eq_bind, Option.bind_some, hm]
    rfl
  · by_cases hi : i < l.length
    · rw [if_pos ⟨rfl, Nat.zero_le i, hi⟩]
      exact h.agrees_of hw i
    · rw [if_neg (by omega), h.free_of_none hv, List.getElem?_eq_none (not_lt.1 hi)]
      exact agrees_none

theorem moveConstruct_follows (h : Represents N s σ) (hv : s.size v = none) (hw : σ w = some l) :
    ∃ r, s.moveConstruct T N v w = some r ∧ Follows T N s σ (.moveConstruct v w) r := by
  have hvw : v ≠ w := by
    rintro rfl
    rw [h.none_of hv] at hw
    cases hw
  obtain ⟨m, hm, hdoes⟩ := Mem.uninitializedMove_does (T := T) (Nat.zero_le _) (h.le_of hw) hvw
    (fun i _ _ => h.free_of_none hv i) (fun i _ hi => h.full hw hi)
  refine ⟨s.returns v l.length m, ?_, follows_moves _ h (by rw [Op.spec, hw, Option.map_some]) hvw hw
    hdoes (fun k hk hk' => by rw [if_neg (by omega), if_neg (by omega)]) (fun i => ?_) fun i => ?_⟩
  · rw [State.moveConstruct, h.size_of hw, Option.bind_eq_bind, Option.bind_some, hm]
    rfl
  · by_cases hi : i < l.length
    · rw [if_pos ⟨rfl, Nat.zero_le i, hi⟩]
      exact h.agrees_of hw i
    · rw [if_neg (by omega), if_neg (by omega), h.free_of_none hv,
        List.getElem?_eq_none (not_lt.1 hi)]
      exact agrees_none
  · rw [if_neg (by omega)]
    split_ifs
    · exact Option.map_eq_none_iff
    · exact Iff.rfl

theorem copyAssign_follows (h : Represents N s σ) {l' : Contents V} (hv : σ v = some l)
    (hw : σ w = some l') :
    ∃ r, s.copyAssign N v w = some r ∧ Follows T N s σ (.copyAssign v w) r := by
  have hspec : Op.spec T N σ (.copyAssign v w) = (false, Function.update σ v (some l')) := by
    rw [Op.spec, hw]
  unfold State.copyAssign
  rw [h.size_of hv, h.size_of hw, Option.bind_eq_bind, Option.bind_some, Option.bind_eq_bind,
    Option.bind_some]
  by_cases hvw : v = w
  · subst hvw
    refine ⟨(false, s), if_pos rfl, by rw [hspec], ?_, .refl, fun h => by cases h⟩
    rw [hspec, ← hw, Function.update_eq_self]
    exact h
  rw [if_neg hvw]
  obtain ⟨m₁, hm₁, hdoes₁⟩ := Mem.copy_does (m := s.mem) (v := v) (w := w)
    (Nat.zero_le (min l.length l'.length)) (fun i _ hi => ⟨h.full hv (by omega), h.full hw (by omega)⟩)
  have hread_v : ∀ i, m₁.read (v, i) = if i < min l.length l'.length then s.mem.read (w, i)
      else s.mem.read (v, i) := by
    intro i
    rw [hdoes₁.read]
    simp
  have hread_of_ne : ∀ k, k.1 ≠ v → m₁.read k = s.mem.read k := by
    intro k hk
    rw [hdoes₁.read, if_neg (by omega)]
  -- the elements after the common ones
  obtain ⟨m, hm, val, hdoes, hother, hval⟩ : ∃ m, (if l.length < l'.length then
      m₁.uninitializedCopy N w (min l.length l'.length) l'.length v
      else if l'.length < l.length then m₁.destroy v (min l.length l'.length) l.length
      else some m₁) = some m ∧ ∃ val, m₁.Does m val ∧ (∀ k, k.1 ≠ v → val k = m₁.read k) ∧
        ∀ i, val (v, i) = if i < l'.length then s.mem.read (w, i) else none := by
    split_ifs with h1 h2
    · obtain ⟨m, hm, hdoes⟩ := Mem.uninitializedCopy_does (m := m₁) (v := v) (w := w)
        (min_le_right l.length l'.length) (h.le_of hw)
        (fun i hi _ => by rw [hread_v, if_neg (by omega), h.free hv (by omega)])
        (fun i _ hi => by rw [hread_of_ne _ (Ne.symm hvw)]; exact h.full hw hi)
      refine ⟨m, hm, _, hdoes, fun k hk => if_neg (by omega), fun i => ?_⟩
      dsimp only
      rw [hread_v, hread_of_ne _ (Ne.symm hvw)]
      have hfree := fun hi : l'.length ≤ i => h.free hv (i := i) (by omega)
      grind
    · obtain ⟨m, hm, hdoes⟩ := Mem.destroy_does (m := m₁) (v := v)
        (min_le_left l.length l'.length) (fun i hi hi' => by
          rw [hread_v, if_neg (by omega)]
          exact h.full hv hi')
      refine ⟨m, hm, _, hdoes, fun k hk => if_neg (by omega), fun i => ?_⟩
      dsimp only
      rw [hread_v]
      have hfree := fun hi : l.length ≤ i => h.free hv hi
      grind
    · refine ⟨m₁, rfl, _, ⟨.refl, fun _ => rfl⟩, fun k _ => rfl, fun i => ?_⟩
      rw [hread_v]
      have hfree := fun hi : l.length ≤ i => h.free hv hi
      grind
  refine ⟨s.returns v l'.length m, ?_, follows_returns _ h hspec (h.le_of hw) (hdoes₁.trans hdoes)
    (fun k hk => by rw [hother k hk, hread_of_ne k hk]) fun i => ?_⟩
  · dsimp only
    rw [hm₁, Option.bind_some]
    split_ifs at hm ⊢ with h1 h2
    all_goals rw [hm]; rfl
  · rw [hval]
    by_cases hi : i < l'.length
    · rw [if_pos hi]
      exact h.agrees_of hw i
    · rw [if_neg hi, List.getElem?_eq_none (not_lt.1 hi)]
      exact agrees_none

theorem moveAssign_follows (h : Represents N s σ) {l' : Contents V} (hv : σ v = some l)
    (hw : σ w = some l') :
    ∃ r, s.moveAssign T N v w = some r ∧ Follows T N s σ (.moveAssign v w) r := by
  unfold State.moveAssign
  rw [h.size_of hv, h.size_of hw, Option.bind_eq_bind, Option.bind_some, Option.bind_eq_bind,
    Option.bind_some]
  by_cases hvw : v = w
  · subst hvw
    have hspec : Op.spec T N σ (.moveAssign v v) = (false, σ) := if_pos rfl
    exact ⟨(false, s), if_pos rfl, by rw [hspec], by rwa [hspec], .refl, fun h => by cases h⟩
  have hspec : Op.spec T N σ (.moveAssign v w) = (false,
      Function.update (Function.update σ v (some l')) w (some l'.moved)) := by
    rw [Op.spec, if_neg hvw, hw, Option.map_some]
  -- what is left of the two, whichever is longer
  have hfollows : ∀ m val, s.mem.Does m val →
      (∀ k, k.1 ≠ v → k.1 ≠ w → val k = s.mem.read k) →
      (∀ i, val (v, i) = if i < l'.length then s.mem.read (w, i) else none) →
      (∀ i, val (w, i) = none ↔ s.mem.read (w, i) = none) →
      Follows T N s σ (.moveAssign v w) (s.returns v l'.length m) := by
    intro m val hdoes hother hval hmoved
    refine follows_moves _ h hspec hvw hw hdoes hother (fun i => ?_) hmoved
    rw [hval]
    by_cases hi : i < l'.length
    · rw [if_pos hi]
      exact h.agrees_of hw i
    · rw [if_neg hi, List.getElem?_eq_none (not_lt.1 hi)]
      exact agrees_none
  rw [if_neg hvw]
  by_cases hle : l.length ≤ l'.length
  · obtain ⟨m₁, hm₁, hdoes₁⟩ := Mem.move_does (T := T) (m := s.mem) (Nat.zero_le l.length) hvw
      (fun i _ hi => ⟨h.full hv hi, h.full hw (by omega)⟩)
    obtain ⟨m, hm, hdoes⟩ := Mem.uninitializedMove_does (T := T) (m := m₁) hle (h.le_of hw) hvw
      (fun i hi _ => by
        rw [hdoes₁.read, if_neg (by dsimp only; omega), if_neg (by grind)]
        exact h.free hv hi)
      (fun i hi hi' => by
        rw [hdoes₁.read, if_neg (by grind), if_neg (by dsimp only; omega)]
        exact h.full hw hi')
    refine ⟨s.returns v l'.length m, ?_, hfollows m _ (hdoes₁.trans hdoes) (fun k hk hk' => ?_)
      (fun i => ?_) fun i => ?_⟩
    · rw [if_pos hle, hm₁]
      rw [Option.bind_some, hm]
      rfl
    · rw [if_neg (by omega), if_neg (by omega), hdoes₁.read, if_neg (by omega),
        if_neg (by omega)]
    · have hfree := fun hi : l.length ≤ i => h.free hv hi
      rw [hdoes₁.read, hdoes₁.read]
      grind
    · have hmoved : m₁.read (w, i) = none ↔ s.mem.read (w, i) = none := by
        rw [hdoes₁.read, if_neg (by grind)]
        split_ifs
        · exact Option.map_eq_none_iff
        · exact Iff.rfl
      rw [if_neg (by grind)]
      split_ifs
      · exact Option.map_eq_none_iff.trans hmoved
      · exact hmoved
  · obtain ⟨m₁, hm₁, hdoes₁⟩ := Mem.move_does (T := T) (m := s.mem) (Nat.zero_le l'.length) hvw
      (fun i _ hi => ⟨h.full hv (by omega), h.full hw hi⟩)
    obtain ⟨m, hm, hdoes⟩ := Mem.destroy_does (m := m₁) (v := v) (not_le.1 hle).le
      (fun i hi hi' => by
        rw [hdoes₁.read, if_neg (by dsimp only; omega), if_neg (by grind)]
        exact h.full hv hi')
    refine ⟨s.returns v l'.length m, ?_, hfollows m _ (hdoes₁.trans hdoes) (fun k hk hk' => ?_)
      (fun i => ?_) fun i => ?_⟩
    · rw [if_neg hle, hm₁]
      rw [Option.bind_some, hm]
      rfl
    · rw [if_neg (by omega), hdoes₁.read, if_neg (by omega), if_neg (by omega)]
    · have hfree := fun hi : l.length ≤ i => h.free hv hi
      rw [hdoes₁.read]
      grind
    · rw [if_neg (by grind), hdoes₁.read, if_neg (by grind)]
      split_ifs
      · exact Option.map_eq_none_iff
      · exact Iff.rfl

theorem pushBack_follows (h : Represents N s σ) (hv : σ v = some l) (item : V) :
    ∃ r, s.pushBack N v item = some r ∧ Follows T N s σ (.pushBack v item) r := by
  unfold State.pushBack
  rw [h.size_of hv, Option.bind_eq_bind, Option.bind_some]
  by_cases hN : N ≤ l.length
  · refine ⟨_, if_pos hN, follows_throws h ?_⟩
    rw [Op.spec, hv, Option.getD_some]
    exact if_pos hN
  obtain ⟨m, hm, hdoes⟩ := Mem.construct_does (k := (v, l.length)) (not_le.1 hN)
    (h.free hv le_rfl) item
  have hlen : (l ++ [some item]).length = l.length + 1 := List.length_append
  refine ⟨s.returns v (l.length + 1) m, by rw [if_neg hN, hm]; rfl, ?_⟩
  have hreturns := follows_returns (T := T) (.pushBack v item) (l := l ++ [some item]) h
    (by rw [Op.spec, hv, Option.getD_some]; exact if_neg hN) (hlen.symm ▸ not_le.1 hN) hdoes
    (fun k hk => if_neg (by grind)) fun i => ?_
  · rwa [hlen] at hreturns
  · rcases lt_trichotomy i l.length with hi | hi | hi
    · rw [List.getElem?_append_left hi, if_neg (by grind)]
      exact h.agrees_of hv i
    · rw [hi, List.getElem?_concat_length, if_pos rfl]
      exact agrees_some item
    · rw [List.getElem?_eq_none (by omega), if_neg (by grind), h.free hv hi.le]
      exact agrees_none

/-- A vector is cut off. -/
theorem cut_follows (op : Op V) {n : Nat} (h : Represents N s σ) (hv : σ v = some l)
    (hn : n ≤ l.length) (hspec : op.spec T N σ = (false, Function.update σ v (some (l.take n)))) :
    ∃ m, s.mem.destroy v n l.length = some m ∧ Follows T N s σ op (s.returns v n m) := by
  obtain ⟨m, hm, hdoes⟩ := Mem.destroy_does (m := s.mem) (v := v) hn fun i _ hi => h.full hv hi
  have hlen : (l.take n).length = n := by rw [List.length_take, min_eq_left hn]
  refine ⟨m, hm, ?_⟩
  have hreturns := follows_returns (T := T) _ h hspec (hlen.symm ▸ hn.trans (h.le_of hv)) hdoes
    (fun k hk => if_neg (by omega)) fun i => ?_
  · rwa [hlen] at hreturns
  · rw [List.getElem?_take]
    by_cases hi : i < n
    · rw [if_pos hi, if_neg (by omega)]
      exact h.agrees_of hv i
    · rw [if_neg hi]
      by_cases hil : i < l.length
      · rw [if_pos ⟨rfl, not_lt.1 hi, hil⟩]
        exact agrees_none
      · rw [if_neg (by omega), h.free hv (not_lt.1 hil)]
        exact agrees_none

theorem popBack_follows (h : Represents N s σ) (hv : σ v = some l) (hpos : 0 < l.length) :
    ∃ r, s.popBack v = some r ∧ Follows T N s σ (.popBack v) r := by
  obtain ⟨m, hm, hfollows⟩ := cut_follows (T := T) (.popBack v) h hv (Nat.sub_le l.length 1)
    (by rw [Op.spec, hv, Option.map_some, List.dropLast_eq_take])
  refine ⟨s.returns v (l.length - 1) m, ?_, hfollows⟩
  rw [State.popBack, h.size_of hv, Option.bind_eq_bind, Option.bind_some]
  have hone : l.length - (l.length - 1) = 1 := by omega
  unfold Mem.destroy Mem.forRange at hm
  rw [hone, List.range'_one, List.foldlM_cons] at hm
  obtain ⟨m', hm', hnil⟩ := Option.bind_eq_some_iff.1 hm
  obtain rfl : m' = m := Option.some.inj hnil
  rw [hm']
  rfl

theorem clear_follows (h : Represents N s σ) (hv : σ v = some l) :
    ∃ r, s.clear v = some r ∧ Follows T N s σ (.clear v) r := by
  obtain ⟨m, hm, hfollows⟩ := cut_follows (T := T) (.clear v) h hv (Nat.zero_le l.length) rfl
  refine ⟨s.returns v 0 m, ?_, hfollows⟩
  rw [State.clear, h.size_of hv, Option.bind_eq_bind, Option.bind_some, hm]
  rfl

theorem resize_follows (h : Represents N s σ) (hv : σ v = some l) (newSize : Nat) :
    ∃ r, s.resize T N v newSize = some r ∧ Follows T N s σ (.resize v newSize) r := by
  have hspec : Op.spec T N σ (.resize v newSize) =
      if N < newSize then (true, σ)
      else if newSize ≤ l.length then (false, Function.update σ v (some (l.take newSize)))
      else match T.default with
        | none => (true, σ)
        | some x => (false, Function.update σ v
            (some (l ++ List.replicate (newSize - l.length) (some x)))) := by
    rw [Op.spec, hv, Option.getD_some]
  unfold State.resize
  rw [h.size_of hv, Option.bind_eq_bind, Option.bind_some]
  by_cases hN : N < newSize
  · exact ⟨_, if_pos hN, follows_throws h (by rw [hspec, if_pos hN])⟩
  rw [if_neg hN] at hspec ⊢
  by_cases hlt : newSize < l.length
  · obtain ⟨m, hm, hfollows⟩ := cut_follows (T := T) (.resize v newSize) h hv hlt.le
      (by rw [hspec, if_pos hlt.le])
    exact ⟨_, by rw [if_pos hlt, hm]; rfl, hfollows⟩
  rw [if_neg hlt]
  by_cases hgt : l.length < newSize
  · rw [if_pos hgt]
    rw [if_neg (not_le.2 hgt)] at hspec
    cases hdefault : T.default with
    | none =>
      rw [hdefault] at hspec
      exact ⟨_, rfl, follows_throws h hspec⟩
    | some x =>
      rw [hdefault] at hspec
      obtain ⟨m, hm, hdoes⟩ := Mem.uninitializedFill_does (m := s.mem) (v := v) hgt.le
        (not_lt.1 hN) (fun i hi _ => h.free hv hi) x
      have hlen : (l ++ List.replicate (newSize - l.length) (some x)).length = newSize := by
        rw [List.length_append, List.length_replicate]
        omega
      refine ⟨s.returns v newSize m, by dsimp only; rw [hm]; rfl, ?_⟩
      have hreturns := follows_returns (T := T) _ h hspec (hlen.symm ▸ not_lt.1 hN) hdoes
        (fun k hk => if_neg (by omega)) fun i => ?_
      · rwa [hlen] at hreturns
      · rcases lt_or_ge i l.length with hi | hi
        · rw [List.getElem?_append_left hi, if_neg (by omega)]
          exact h.agrees_of hv i
        · rw [List.getElem?_append_right hi, List.getElem?_replicate]
          by_cases hi' : i < newSize
          · rw [if_pos (by omega), if_pos ⟨rfl, hi, hi'⟩]
            exact agrees_some x
          · rw [if_neg (by omega), if_neg (by omega), h.free hv hi]
            exact agrees_none
  · obtain rfl : newSize = l.length := by omega
    rw [if_neg hgt]
    refine ⟨_, rfl, follows_returns _ h ?_ (h.le_of hv) ⟨.refl, fun _ => rfl⟩ (fun _ _ => rfl)
      fun i => h.agrees_of hv i⟩
    rw [hspec, if_pos le_rfl, List.take_length]

/-- What was shifted and is cut off. -/
theorem erase_follows (h : Represents N s σ) (hv : σ v = some l) {first last : Nat}
    (hle : first ≤ last) (hlast : last ≤ l.length) :
    ∃ r, s.erase T N v first last = some r ∧ Follows T N s σ (.erase v first last) r := by
  obtain ⟨m, hm, hshifted⟩ := Mem.swapRanges_shifted (m := s.mem) hle hlast fun i hi => h.full hv hi
  let shifted : Contents V :=
    l.take first ++ l.drop last ++ List.replicate (last - first) none
  have hlen : shifted.length = l.length := by
    simp only [shifted, List.length_append, List.length_take, List.length_drop,
      List.length_replicate]
    omega
  have hrep : Represents N ⟨s.size, m⟩ (Function.update σ v (some shifted)) := by
    have hupdate := h.update (v := v) (l := shifted) (m := m) (hlen.symm ▸ h.le_of hv)
      hshifted.other fun i => ?_
    · rwa [hlen, ← h.size_of hv, Function.update_eq_self] at hupdate
    · dsimp only [shifted]
      rw [List.getElem?_append, List.getElem?_append, List.length_append, List.length_take,
        List.length_drop]
      rcases lt_or_ge i first with hi | hi
      · rw [if_pos (by omega), if_pos (by omega), List.getElem?_take, if_pos hi,
          hshifted.before i hi]
        exact h.agrees_of hv i
      obtain ⟨p, rfl⟩ := Nat.exists_eq_add_of_le hi
      rcases lt_or_ge (last + p) l.length with hp | hp
      · rw [if_pos (by omega), if_neg (by omega), List.getElem?_drop, hshifted.shifted p hp]
        have hpos : last + (first + p - min first l.length) = last + p := by omega
        rw [hpos]
        exact h.agrees_of hv _
      · rw [if_neg (by omega), List.getElem?_replicate]
        split_ifs with hi'
        · refine agrees_unspecified ((hshifted.none_iff _).not.2 (h.full hv ?_))
          omega
        · rw [(hshifted.none_iff _).2 (h.free hv (by omega))]
          exact agrees_none
  obtain ⟨r, hr, hthrows, hrepresents, hsteps, -⟩ :=
    resize_follows (T := T) hrep (Function.update_self v _ σ) (l.length - (last - first))
  have htake : shifted.take (l.length - (last - first)) = l.take first ++ l.drop last := by
    refine List.take_left' ?_
    rw [List.length_append, List.length_take, List.length_drop]
    omega
  have hspec : Op.spec T N (Function.update σ v (some shifted))
      (.resize v (l.length - (last - first))) = Op.spec T N σ (.erase v first last) := by
    have hN := h.le_of hv
    rw [Op.spec, Function.update_self, Option.getD_some, if_neg (by omega), if_pos (by omega),
      htake, Function.update_idem, Op.spec, hv, Option.map_some]
  rw [hspec] at hthrows hrepresents
  refine ⟨r, ?_, hthrows, hrepresents, hshifted.steps.trans hsteps, fun hthrow => ?_⟩
  · rw [State.erase, h.size_of hv, Option.bind_eq_bind, Option.bind_some, hm]
    exact hr
  · rw [hthrow] at hthrows
    cases hthrows

theorem swap_follows (h : Represents N s σ) {l' : Contents V} (hv : σ v = some l)
    (hw : σ w = some l') (hlen : l.length = l'.length) :
    ∃ r, s.swap T N v w = some r ∧ Follows T N s σ (.swap v w) r := by
  obtain ⟨m, hm, hdoes⟩ := Mem.swapRanges_does (m := s.mem) (v := v) (w := w) l.length
    fun i hi => ⟨h.full hv hi, h.full hw (hlen ▸ hi)⟩
  have hread : ∀ u i, u ≠ v → u ≠ w → m.read (u, i) = s.mem.read (u, i) := fun u i hu hu' => by
    rw [hdoes.read, if_neg (by omega), if_neg (by omega)]
  have hread_v : ∀ i, Agrees l'[i]? (m.read (v, i)) := fun i => by
    have hi := h.agrees_of hw i
    have hfree := fun hi : l.length ≤ i => (h.free hv hi).trans (h.free hw (hlen ▸ hi)).symm
    rw [hdoes.read]
    grind
  have hread_w : ∀ i, Agrees l[i]? (m.read (w, i)) := fun i => by
    have hi := h.agrees_of hv i
    have hfree := fun hi : l.length ≤ i => (h.free hv hi).trans (h.free hw (hlen ▸ hi)).symm
    rw [hdoes.read]
    grind
  refine ⟨(false, ⟨Function.update (Function.update s.size v (some l'.length)) w (some l.length),
    m⟩), ?_, rfl, fun u => ?_, hdoes.steps, fun h => by cases h⟩
  · rw [State.swap, h.size_of hv, h.size_of hw, Option.bind_eq_bind, Option.bind_some,
      Option.bind_eq_bind, Option.bind_some, ← hlen, min_self]
    dsimp only
    rw [hm, Option.bind_some, if_neg (lt_irrefl _), if_neg (lt_irrefl _)]
    rfl
  · rw [Op.spec, hv, hw]
    dsimp only
    rcases eq_or_ne u w with rfl | huw
    · rw [Function.update_self, Function.update_self]
      exact ⟨rfl, h.le_of hv, hread_w⟩
    · rw [Function.update_of_ne huw, Function.update_of_ne huw]
      rcases eq_or_ne u v with rfl | huv
      · rw [Function.update_self, Function.update_self]
        exact ⟨rfl, h.le_of hw, hread_v⟩
      · rw [Function.update_of_ne huv, Function.update_of_ne huv]
        simp only [hread u _ huv huw]
        exact h u

theorem destruct_follows (h : Represents N s σ) (hv : σ v = some l) :
    ∃ r, s.destruct v = some r ∧ Follows T N s σ (.destruct v) r := by
  obtain ⟨m, hm, hdoes⟩ := Mem.destroy_does (m := s.mem) (v := v) (Nat.zero_le l.length)
    fun i _ hi => h.full hv hi
  have hnone : ∀ k, k.1 = v → m.slot k = none := by
    rintro ⟨_, i⟩ rfl
    refine Option.map_eq_none_iff.1 ((hdoes.read _).trans ?_)
    split_ifs with hi
    · rfl
    · exact h.free hv (by omega)
  -- nothing is left in the buffer that is gone
  have hslot : (fun k => if k.1 = v then none else m.slot k) = m.slot := funext fun k => by
    split_ifs with hk
    · exact (hnone k hk).symm
    · rfl
  refine ⟨(false, ⟨Function.update s.size v none, m⟩), ?_, rfl, fun u => ?_, hdoes.steps,
    fun h => by cases h⟩
  · rw [State.destruct, h.size_of hv, Option.bind_eq_bind, Option.bind_some, hm,
      Option.bind_eq_bind, Option.bind_some, hslot]
  · rw [Op.spec]
    dsimp only
    rcases eq_or_ne u v with rfl | huv
    · rw [Function.update_self, Function.update_self]
      refine ⟨rfl, Nat.zero_le N, fun i => ?_⟩
      rw [Mem.read, hnone _ rfl]
      exact agrees_none
    · rw [Function.update_of_ne huv, Function.update_of_ne huv]
      simp only [hdoes.read, huv, false_and, if_false]
      exact h u

/-- An operation that a program may do does to the vectors what it does to the lists. -/
theorem step_spec (h : Represents N s σ) {op : Op V} (hop : s.Permits op)
    (heven : s.SwapsEven op) : ∃ r, s.step T N op = some r ∧ Follows T N s σ op r := by
  cases op with
  | construct v => exact construct_follows h hop
  | constructFill v count x => exact constructFill_follows h hop count x
  | constructList v list => exact constructList_follows h hop list
  | copyConstruct v w =>
    obtain ⟨l, hl⟩ := h.some_of hop.2
    exact copyConstruct_follows h hop.1 hl
  | moveConstruct v w =>
    obtain ⟨l, hl⟩ := h.some_of hop.2
    exact moveConstruct_follows h hop.1 hl
  | copyAssign v w =>
    obtain ⟨l, hl⟩ := h.some_of hop.1
    obtain ⟨l', hl'⟩ := h.some_of hop.2
    exact copyAssign_follows h hl hl'
  | moveAssign v w =>
    obtain ⟨l, hl⟩ := h.some_of hop.1
    obtain ⟨l', hl'⟩ := h.some_of hop.2
    exact moveAssign_follows h hl hl'
  | pushBack v item =>
    obtain ⟨l, hl⟩ := h.some_of hop
    exact pushBack_follows h hl item
  | popBack v =>
    obtain ⟨n, hn, hpos⟩ := hop
    obtain ⟨l, hl⟩ := h.some_of (v := v) (hn ▸ Option.some_ne_none n)
    obtain rfl := Option.some.inj ((h.size_of hl).symm.trans hn)
    exact popBack_follows h hl hpos
  | resize v newSize =>
    obtain ⟨l, hl⟩ := h.some_of hop
    exact resize_follows h hl newSize
  | erase v first last =>
    obtain ⟨n, hn, hle, hlast⟩ := hop
    obtain ⟨l, hl⟩ := h.some_of (v := v) (hn ▸ Option.some_ne_none n)
    obtain rfl := Option.some.inj ((h.size_of hl).symm.trans hn)
    exact erase_follows h hl hle hlast
  | clear v =>
    obtain ⟨l, hl⟩ := h.some_of hop
    exact clear_follows h hl
  | swap a b =>
    obtain ⟨l, hl⟩ := h.some_of hop.1
    obtain ⟨l', hl'⟩ := h.some_of hop.2
    refine swap_follows h hl hl' (Option.some.inj ?_)
    rw [← h.size_of hl, ← h.size_of hl']
    exact heven
  | destruct v =>
    obtain ⟨l, hl⟩ := h.some_of hop
    exact destruct_follows h hl

end Ops

/-! ## Programs -/

/-- What the operations of a program come to on lists. -/
def lists (T : ElemType V) (N : Nat) (program : List (Op V)) : Lists V :=
  program.foldl (fun σ op => (op.spec T N σ).2) fun _ => none

theorem init_represents : Represents N (State.init (V := V)) fun _ => none :=
  fun _ => ⟨rfl, Nat.zero_le N, fun _ => agrees_none⟩

theorem init_custody : (State.init (V := V)).mem.custody.Ok := by
  refine ⟨fun _ => .unmade, fun _ _ => ?_, fun _ => ?_, List.nodup_nil, fun _ => ?_,
    fun _ => iff_of_true rfl (Nat.zero_le _), List.Pairwise.nil⟩
  · exact iff_of_false (fun h => by cases h) fun h => by cases h
  · exact iff_of_false List.not_mem_nil fun h => by cases h
  · exact iff_of_false List.not_mem_nil fun h => by cases h

/-- What holds after a program whose swaps are even. -/
theorem runs_inv {program : List (Op V)} {s : State V} (h : EvenRuns T N .init program s) :
    Represents N s (lists T N program) ∧ s.mem.custody.Ok := by
  suffices ∀ {s₀ : State V} {program : List (Op V)} {s : State V} {σ : Lists V},
      EvenRuns T N s₀ program s → Represents N s₀ σ → s₀.mem.custody.Ok →
      Represents N s (program.foldl (fun σ op => (op.spec T N σ).2) σ) ∧ s.mem.custody.Ok from
    this h init_represents init_custody
  intro s₀ program s σ h hrep hok
  induction h generalizing σ with
  | nil => exact ⟨hrep, hok⟩
  | @cons s₀ s₁ s op program hop _ ih =>
    obtain ⟨⟨hpermits, thrown, hstep⟩, heven⟩ := hop
    obtain ⟨r, hr, hfollows⟩ := step_spec (T := T) hrep hpermits heven
    obtain rfl : r = (thrown, s₁) := Option.some.inj (hr.symm.trans hstep)
    exact ih hfollows.represents (hok.steps hfollows.steps)

/-- After a program whose swaps are of vectors of the same size the vectors hold what the program
comes to on lists. Every object that was constructed is in a buffer, or was destroyed once; when no
vector is left, all were. What the program may do next comes to no error; it throws where it does on
the lists, and then it changes nothing. -/
theorem run_follows {program : List (Op V)} {s : State V} (h : EvenRuns T N .init program s) :
    Represents N s (lists T N program) ∧ s.mem.custody.Sound ∧ s.AllDestroyed ∧
      ∀ op, s.Permits op → s.SwapsEven op → ∃ thrown s', s.step T N op = some (thrown, s') ∧
        thrown = (op.spec T N (lists T N program)).1 ∧ (thrown = true → s' = s) := by
  obtain ⟨hrep, hok⟩ := runs_inv h
  refine ⟨hrep, hok.sound, fun hnone a ha => ?_, fun op hop heven => ?_⟩
  · refine hok.sound.gone a ha (fun k hk => ?_) List.not_mem_nil
    have hread : s.mem.read (k.1, k.2) = none := hrep.free_of_none (hnone k.1) k.2
    obtain ⟨e, he, -⟩ := Option.map_eq_some_iff.1 hk
    rw [Option.map_eq_none_iff.1 hread] at he
    cases he
  · obtain ⟨r, hr, hfollows⟩ := step_spec (T := T) hrep hop heven
    exact ⟨r.1, r.2, hr, hfollows.throws, hfollows.unchanged⟩

/-- A vector is filled, moved, and swapped with what it was moved to. -/
def movedProgram : List (Op Nat) :=
  [.constructList 0 [1, 2], .moveConstruct 1 0, .pushBack 1 3, .swap 0 1, .destruct 0, .destruct 1]

theorem run_follows_moved : ∃ s, EvenRuns ⟨some 0, fun _ => 0⟩ 2 .init movedProgram s ∧
    s.AllDestroyed ∧ s.mem.log.length = 4 := by
  obtain ⟨s, hrun, hlog⟩ : ∃ s, EvenRuns ⟨some 0, fun _ => 0⟩ 2 .init movedProgram s ∧
      s.mem.log.length = 4 := by
    refine ⟨_, .cons ⟨⟨rfl, _, rfl⟩, trivial⟩ (.cons ⟨⟨⟨rfl, ?_⟩, _, rfl⟩, trivial⟩
      (.cons ⟨⟨?_, _, rfl⟩, trivial⟩ (.cons ⟨⟨⟨?_, ?_⟩, _, rfl⟩, rfl⟩
        (.cons ⟨⟨?_, _, rfl⟩, trivial⟩ (.cons ⟨⟨?_, _, rfl⟩, trivial⟩ (.nil _)))))), rfl⟩
    all_goals exact Option.some_ne_none _
  exact ⟨s, hrun, (run_follows hrun).2.2.1, hlog⟩

/-- A swap of vectors of different sizes moves from elements that it never destroys. -/
theorem swap_uneven_leaks : ¬∀ (program : List (Op Nat)) s,
    Runs ⟨some 0, fun _ => 0⟩ 1 .init program s → s.AllDestroyed := by
  intro h
  have hrun : Runs ⟨some 0, fun _ => 0⟩ 1 .init
      [.constructFill 0 1 5, .construct 1, .swap 0 1, .destruct 0, .destruct 1] _ :=
    .cons ⟨rfl, _, rfl⟩ (.cons ⟨rfl, _, rfl⟩
      (.cons ⟨⟨Option.some_ne_none _, Option.some_ne_none _⟩, _, rfl⟩
        (.cons ⟨Option.some_ne_none _, _, rfl⟩ (.cons ⟨Option.some_ne_none _, _, rfl⟩ (.nil _)))))
  have hcount := h _ _ hrun (fun v => ?_) 0 (Nat.zero_lt_succ 1)
  · exact absurd hcount Nat.zero_ne_one
  · dsimp only [State.returns, State.init]
    grind [Function.update_apply]

end Nvcv.StaticVector
