import Mathlib

/-! # Maps in the order of their keys

`OrderedMap κ ν`: entries whose keys go up, so that no key is there twice.

* `alter`: the value of a key becomes what a function makes of it, or of there being none;
  `insertNew` leaves the value of a key that is there. `find?_alter` and `find?_insertNew` say what
  is found then.
* `traverse`: the values are replaced one after another, in the order of their keys, with a state
  that goes along.
-/

/-- Entries in the order of their keys. -/
structure OrderedMap (κ ν : Type*) [LinearOrder κ] where
  entries : List (κ × ν)
  sorted : entries.Pairwise (·.1 < ·.1)

namespace OrderedMap

variable {κ ν σ : Type*} [LinearOrder κ]

/-- The map without entries. -/
def empty : OrderedMap κ ν := ⟨[], .nil⟩

/-- The value of a key. -/
def find? (m : OrderedMap κ ν) (k : κ) : Option ν := m.entries.lookup k

/-- Entries with another value of the key `k`. -/
def alterEntries (k : κ) (f : Option ν → ν) : List (κ × ν) → List (κ × ν)
  | [] => [(k, f none)]
  | (k', v) :: l =>
    if k < k' then (k, f none) :: (k', v) :: l
    else if k = k' then (k, f (some v)) :: l
    else (k', v) :: alterEntries k f l

theorem mem_alterEntries {k : κ} {f : Option ν → ν} {l : List (κ × ν)} {e : κ × ν}
    (h : e ∈ alterEntries k f l) : e.1 = k ∨ e ∈ l := by
  induction l with
  | nil => simp_all [alterEntries]
  | cons e' l ih =>
    unfold alterEntries at h
    grind

theorem sorted_alterEntries {k : κ} {f : Option ν → ν} {l : List (κ × ν)}
    (h : l.Pairwise (·.1 < ·.1)) : (alterEntries k f l).Pairwise (·.1 < ·.1) := by
  induction l with
  | nil => simp [alterEntries]
  | cons e l ih =>
    obtain ⟨hlt, hl⟩ := List.pairwise_cons.1 h
    unfold alterEntries
    split
    · apply List.pairwise_cons.2 ⟨fun e' he' => ?_, h⟩
      rcases List.mem_cons.1 he' with rfl | he'
      · assumption
      · exact lt_trans ‹_› (hlt e' he')
    · split
      · rename_i hk
        exact List.pairwise_cons.2 ⟨fun e' he' => hk ▸ hlt e' he', hl⟩
      · apply List.pairwise_cons.2 ⟨fun e' he' => ?_, ih hl⟩
        rcases mem_alterEntries he' with hk | he'
        · rw [hk]
          exact lt_of_le_of_ne (not_lt.1 ‹_›) (Ne.symm ‹_›)
        · exact hlt e' he'

/-- The value of `k` becomes what `f` makes of it. -/
def alter (m : OrderedMap κ ν) (k : κ) (f : Option ν → ν) : OrderedMap κ ν :=
  ⟨alterEntries k f m.entries, sorted_alterEntries m.sorted⟩

/-- A value for `k`, where there is none. -/
def insertNew (m : OrderedMap κ ν) (k : κ) (v : ν) : OrderedMap κ ν := m.alter k (·.getD v)

/-! ## What is found -/

variable {m : OrderedMap κ ν} {k k' : κ} {v : ν}

@[simp] theorem find?_empty : (empty : OrderedMap κ ν).find? k = none := rfl

theorem lookup_cons_if {e : κ × ν} {l : List (κ × ν)} :
    (e :: l).lookup k' = if k' = e.1 then some e.2 else l.lookup k' := by
  rw [List.lookup_cons]
  by_cases hk : k' = e.1
  · simp [hk]
  · simp [hk, beq_false_of_ne hk]

theorem lookup_alterEntries {f : Option ν → ν} {l : List (κ × ν)} (h : l.Pairwise (·.1 < ·.1)) :
    (alterEntries k f l).lookup k' = if k' = k then some (f (l.lookup k)) else l.lookup k' := by
  induction l with
  | nil => simp [alterEntries, lookup_cons_if]
  | cons e l ih =>
    obtain ⟨hlt, hl⟩ := List.pairwise_cons.1 h
    have hnone (hk : k < e.1) : (e :: l).lookup k = none := by
      apply List.lookup_eq_none_iff.2
      intro e' he'
      rcases List.mem_cons.1 he' with rfl | he'
      · simpa using ne_of_lt hk
      · simpa using ne_of_lt (lt_trans hk (hlt e' he'))
    unfold alterEntries
    split
    · rw [hnone ‹_›, lookup_cons_if]
    · split
      · rename_i hk
        subst hk
        simp only [lookup_cons_if, if_true]
        split <;> rfl
      · rename_i hk
        simp only [lookup_cons_if, ih hl, if_neg hk]
        split
        · rename_i hk'
          rw [if_neg (hk' ▸ Ne.symm hk)]
        · rfl

/-- **The value of a key** after it was altered, or another one was. -/
theorem find?_alter {f : Option ν → ν} :
    (m.alter k f).find? k' = if k' = k then some (f (m.find? k)) else m.find? k' :=
  lookup_alterEntries m.sorted

theorem find?_insertNew :
    (m.insertNew k v).find? k' = if k' = k then some ((m.find? k).getD v) else m.find? k' :=
  find?_alter

/-- The values that can be found are those of the entries. -/
theorem mem_entries : (k, v) ∈ m.entries ↔ m.find? k = some v := by
  obtain ⟨l, h⟩ := m
  show _ ↔ l.lookup k = some v
  induction l with
  | nil => simp
  | cons e l ih =>
    obtain ⟨hlt, hl⟩ := List.pairwise_cons.1 h
    rw [lookup_cons_if, List.mem_cons]
    by_cases hk : k = e.1
    · have hnot : (k, v) ∉ l := fun he => ne_of_lt (hlt _ he) hk.symm
      rw [if_pos hk, or_iff_left hnot, Option.some.injEq, eq_comm, Prod.ext_iff,
        and_iff_right hk.symm]
    · simp [hk, Prod.ext_iff, ih hl]

theorem nodup_keys (m : OrderedMap κ ν) : (m.entries.map (·.1)).Nodup :=
  (List.pairwise_map.2 m.sorted).imp ne_of_lt

/-! ## Going through the values -/

/-- `traverse` of a list of entries. -/
def traverseEntries (f : σ → κ → ν → ν × σ) : σ → List (κ × ν) → List (κ × ν) × σ
  | s, [] => ([], s)
  | s, (k, v) :: l =>
    let (v', s) := f s k v
    let (l', s) := traverseEntries f s l
    ((k, v') :: l', s)

variable {f : σ → κ → ν → ν × σ} {s : σ} {l : List (κ × ν)}

omit [LinearOrder κ] in
theorem traverseEntries_keys : (traverseEntries f s l).1.map (·.1) = l.map (·.1) := by
  induction l generalizing s with
  | nil => rfl
  | cons e l ih => simp [traverseEntries, ih]

/-- The values are replaced one after another, with a state that goes along. -/
def traverse (f : σ → κ → ν → ν × σ) (s : σ) (m : OrderedMap κ ν) : OrderedMap κ ν × σ :=
  (⟨(traverseEntries f s m.entries).1, by
    have h : (m.entries.map (·.1)).Pairwise (· < ·) := List.pairwise_map.2 m.sorted
    rw [← traverseEntries_keys (f := f) (s := s)] at h
    exact List.pairwise_map.1 h⟩, (traverseEntries f s m.entries).2)

end OrderedMap
