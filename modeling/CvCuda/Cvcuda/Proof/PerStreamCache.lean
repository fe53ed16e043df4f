import CvCuda.Cvcuda.PerStreamCache

/-! # What a cache per stream holds

Payloads move from a list of items, which a set orders by size, to the global cache, and out of
either. None is lost or there twice, and the set of a list has its items.

* `Consistent`: the invariant.
* `Consistent.put`, `Consistent.get`, `Consistent.purge`: what the calls do to the payloads.
* `Consistent.get_cases`: where `get` looks for a payload.
-/

namespace Cvcuda

open Nvcv StreamCachePayload

variable {P E : Type} [StreamCachePayload P E]

/-! ## The order by size -/

theorem less_irrefl (x : Nat × Nat) : ¬less x x := by
  simp [less]

theorem less_trans {x y z : Nat × Nat} (h : less x y) (h' : less y z) : less x z := by
  unfold less at *
  omega

theorem less_total {x y : Nat × Nat} (h : ¬less x y) (hne : x ≠ y) : less y x := by
  unfold less at *
  have : ¬(x.1 = y.1 ∧ x.2 = y.2) := fun h' => hne (Prod.ext h'.1 h'.2)
  omega

theorem mem_insertPair {x y : Nat × Nat} {l : List (Nat × Nat)} :
    y ∈ insertPair x l ↔ y = x ∨ y ∈ l := by
  induction l with
  | nil => simp [insertPair]
  | cons z l ih =>
    rw [insertPair]
    split_ifs with h h'
    · simp
    · subst h'
      simp
    · rw [List.mem_cons, ih, List.mem_cons]
      tauto

theorem insertPair_sorted {x : Nat × Nat} {l : List (Nat × Nat)} (h : l.Pairwise less) :
    (insertPair x l).Pairwise less := by
  induction l with
  | nil => exact List.pairwise_singleton _ _
  | cons z l ih =>
    obtain ⟨hz, hl⟩ := List.pairwise_cons.1 h
    rw [insertPair]
    split_ifs with hlt heq
    · refine List.pairwise_cons.2 ⟨fun y hy => ?_, h⟩
      rcases List.mem_cons.1 hy with rfl | hy
      · exact hlt
      · exact less_trans hlt (hz y hy)
    · exact h
    · refine List.pairwise_cons.2 ⟨fun y hy => ?_, ih hl⟩
      rcases mem_insertPair.1 hy with rfl | hy
      · exact less_total hlt heq
      · exact hz y hy

/-- Nothing of at least a size is before its lower bound. -/
theorem mem_dropWhile {α : Type} {r : α → α → Prop} {p : α → Bool} {l : List α}
    (h : l.Pairwise r) (hp : ∀ x y, r x y → p y → p x) {x : α} :
    x ∈ l.dropWhile p ↔ x ∈ l ∧ p x = false := by
  induction l with
  | nil => simp
  | cons y l ih =>
    obtain ⟨hy, hl⟩ := List.pairwise_cons.1 h
    rw [List.dropWhile_cons]
    by_cases hpy : p y
    · rw [if_pos hpy, ih hl, List.mem_cons]
      constructor
      · exact fun ⟨h, h'⟩ => ⟨.inr h, h'⟩
      · rintro ⟨rfl | h, h'⟩
        · rw [hpy] at h'
          cases h'
        · exact ⟨h, h'⟩
    · rw [if_neg hpy]
      refine ⟨fun h => ⟨h, ?_⟩, And.left⟩
      rcases List.mem_cons.1 h with rfl | h
      · simpa using hpy
      · by_contra hx
        exact hpy (hp _ _ (hy x h) (by simpa using hx))

/-! ## A list of items -/

namespace StreamOrderedCache

/-- The set has the items of the list, which are at different addresses. -/
structure Consistent (c : StreamOrderedCache P) : Prop where
  addrs : (c.items.map StreamCacheItem.addr).Nodup
  sorted : c.bySize.Pairwise less
  mem : ∀ x, x ∈ c.bySize ↔ ∃ i ∈ c.items, x = (i.payloadSize, i.addr)

theorem Consistent.empty : ({} : StreamOrderedCache P).Consistent :=
  ⟨List.nodup_nil, List.Pairwise.nil, by simp⟩

section
variable {c : StreamOrderedCache P} {i j : StreamCacheItem P}

theorem Consistent.items_eq_nil (h : c.Consistent) (he : c.bySize = []) : c.items = [] := by
  refine List.eq_nil_iff_forall_not_mem.2 fun i hi => ?_
  have hm := (h.mem _).2 ⟨i, hi, rfl⟩
  rw [he] at hm
  cases hm

theorem Consistent.inj (h : c.Consistent) (hi : i ∈ c.items) (hj : j ∈ c.items)
    (ha : i.addr = j.addr) : i = j :=
  List.inj_on_of_nodup_map h.addrs hi hj ha

theorem Consistent.insert (h : c.Consistent) (hi : i.addr ∉ c.items.map StreamCacheItem.addr) :
    (c.insert i).Consistent where
  addrs := by
    rw [StreamOrderedCache.insert, List.map_append, List.map_singleton]
    refine List.nodup_append.2 ⟨h.addrs, List.nodup_singleton _, ?_⟩
    intro a ha b hb
    rw [List.mem_singleton] at hb
    rintro rfl
    exact hi (hb ▸ ha)
  sorted := insertPair_sorted h.sorted
  mem x := by
    simp only [StreamOrderedCache.insert, mem_insertPair, h.mem, List.mem_append,
      List.mem_singleton]
    constructor
    · rintro (rfl | ⟨j, hj, rfl⟩)
      · exact ⟨i, .inr rfl, rfl⟩
      · exact ⟨j, .inl hj, rfl⟩
    · rintro ⟨j, hj | rfl, rfl⟩
      · exact .inr ⟨j, hj, rfl⟩
      · exact .inl rfl

/-- What removing an item leaves. -/
theorem Consistent.remove (h : c.Consistent) (hi : i ∈ c.items) :
    (c.remove i).Consistent ∧ c.items.Perm (i :: (c.remove i).items) := by
  have hmem : ∀ j, j ∈ (c.remove i).items ↔ j ∈ c.items ∧ j ≠ i := by
    intro j
    simp only [StreamOrderedCache.remove, List.mem_filter, decide_eq_true_eq]
    refine and_congr_right fun hj => not_congr ⟨h.inj hj hi, congrArg _⟩
  constructor
  · refine ⟨h.addrs.sublist ((List.filter_sublist).map _), h.sorted.filter _, fun x => ?_⟩
    simp only [StreamOrderedCache.remove, List.mem_filter, h.mem, decide_eq_true_eq]
    constructor
    · rintro ⟨⟨j, hj, rfl⟩, hne⟩
      refine ⟨j, ⟨hj, fun ha => hne ?_⟩, rfl⟩
      rw [h.inj hj hi ha]
    · rintro ⟨j, ⟨hj, hne⟩, rfl⟩
      exact ⟨⟨j, hj, rfl⟩, fun he => hne (congrArg Prod.snd he)⟩
  · have hnodup : c.items.Nodup := h.addrs.of_map _
    rw [List.perm_ext_iff_of_nodup hnodup]
    · intro j
      rw [List.mem_cons, hmem]
      by_cases hj : j = i
      · subst hj
        simp [hi]
      · simp [hj]
    · refine List.nodup_cons.2 ⟨fun hm => ((hmem i).1 hm).2 rfl, ?_⟩
      exact hnodup.sublist List.filter_sublist

theorem remove_sublist (c : StreamOrderedCache P) (i : StreamCacheItem P) :
    (c.remove i).items.Sublist c.items := List.filter_sublist

/-- What removing items one after another leaves. -/
theorem Consistent.removeAll {out : List (StreamCacheItem P)} (h : c.Consistent)
    (hn : out.Nodup) (hi : ∀ i ∈ out, i ∈ c.items) :
    (out.foldl StreamOrderedCache.remove c).Consistent ∧
      c.items.Perm (out ++ (out.foldl StreamOrderedCache.remove c).items) ∧
      (out.foldl StreamOrderedCache.remove c).items.Sublist c.items := by
  induction out generalizing c with
  | nil => exact ⟨h, List.Perm.refl _, List.Sublist.refl _⟩
  | cons i out ih =>
    obtain ⟨hni, hn⟩ := List.nodup_cons.1 hn
    obtain ⟨hc, hp⟩ := h.remove (hi i List.mem_cons_self)
    have hi' : ∀ j ∈ out, j ∈ (c.remove i).items := by
      intro j hj
      have hjc := hp.mem_iff.1 (hi j (List.mem_cons_of_mem _ hj))
      rcases List.mem_cons.1 hjc with rfl | hjc
      · exact absurd hj hni
      · exact hjc
    obtain ⟨hc', hp', hs'⟩ := ih hc hn hi'
    exact ⟨hc', hp.trans (hp'.cons i), hs'.trans (remove_sublist c i)⟩

/-- `removeAllReady` takes items out in order. -/
theorem removeAllReady_sublist (c : StreamOrderedCache P) (unambiguous : Bool)
    (query : E → Bool) : (c.removeAllReady unambiguous query).1.Sublist c.items.reverse := by
  unfold removeAllReady
  cases unambiguous with
  | false => exact List.filter_sublist
  | true =>
    simp only [if_true]
    cases hf : c.findNewestReady query with
    | none => exact List.nil_sublist _
    | some l => exact (SectionSearch.find_suffix hf).1.sublist

/-- A ready item, behind which all are where only the newest one is looked for, is taken out. -/
theorem mem_removeAllReady {unambiguous : Bool} {query : E → Bool} (hi : i ∈ c.items)
    (hq : i.isReady query)
    (hold : unambiguous → c.items.Pairwise fun j k => k = i → j.isReady query) :
    i ∈ (c.removeAllReady unambiguous query).1 := by
  unfold StreamOrderedCache.removeAllReady
  cases unambiguous with
  | false => exact List.mem_filter.2 ⟨List.mem_reverse.2 hi, hq⟩
  | true =>
    obtain ⟨older, newer, hc⟩ := List.append_of_mem hi
    have hp := hold rfl
    rw [hc] at hp
    have hall : ∀ j ∈ i :: older.reverse, StreamCacheItem.isReady query j := by
      intro j hj
      rcases List.mem_cons.1 hj with rfl | hj
      · exact hq
      · exact (List.pairwise_append.1 hp).2.2 j (List.mem_reverse.1 hj) i List.mem_cons_self rfl
    have hrev : c.items.reverse = newer.reverse ++ i :: older.reverse := by simp [hc]
    have hlen : (newer.reverse ++ i :: older.reverse).length ≤ c.items.length := by
      rw [← hrev, List.length_reverse]
    obtain ⟨l, hf, hl⟩ := SectionSearch.find_mem (by decide : 0 < 256) hlen hall
    rw [← hrev] at hf
    simp only [if_true, findNewestReady, hf]
    exact hl.subset List.mem_cons_self

/-- What is taken out is ready where a list gets ready in order. -/
theorem isReady_removeAllReady {unambiguous : Bool} {query : E → Bool}
    (hord : unambiguous → c.items.Pairwise fun j k => k.isReady query → j.isReady query)
    (hi : i ∈ (c.removeAllReady unambiguous query).1) : i.isReady query := by
  unfold StreamOrderedCache.removeAllReady at hi
  cases unambiguous with
  | false => exact (List.mem_filter.1 hi).2
  | true =>
    simp only [if_true] at hi
    cases hf : c.findNewestReady query with
    | none =>
      rw [hf] at hi
      cases hi
    | some l =>
      rw [hf] at hi
      obtain ⟨⟨newer, hl⟩, y, ys, rfl, hy⟩ := SectionSearch.find_suffix hf
      rcases List.mem_cons.1 hi with rfl | hi
      · exact hy
      · have hp := List.pairwise_reverse.2 (hord rfl)
        rw [← hl] at hp
        have hys := (List.pairwise_append.1 hp).2.1
        exact (List.pairwise_cons.1 hys).1 i hi hy

theorem Consistent.removeAllReady (h : c.Consistent) (unambiguous : Bool) (query : E → Bool) :
    (c.removeAllReady unambiguous query).2.Consistent ∧
      c.items.Perm ((c.removeAllReady unambiguous query).1 ++
        (c.removeAllReady unambiguous query).2.items) ∧
      (c.removeAllReady unambiguous query).2.items.Sublist c.items := by
  have hs := removeAllReady_sublist c unambiguous query
  have hn : c.items.Nodup := h.addrs.of_map _
  exact h.removeAll ((List.nodup_reverse.2 hn).sublist hs)
    fun i hi => List.mem_reverse.1 (hs.subset hi)

theorem Consistent.find?_addr (h : c.Consistent) (hi : i ∈ c.items) :
    c.items.find? (·.addr = i.addr) = some i := by
  cases hf : c.items.find? (·.addr = i.addr) with
  | none =>
    rw [List.find?_eq_none] at hf
    exact absurd (decide_eq_true rfl) (hf i hi)
  | some j =>
    have hj := List.find?_some hf
    rw [h.inj (List.mem_of_find?_eq_some hf) hi (by simpa using hj)]

section
variable {minSize : Nat} {pred : P → Bool}

theorem Consistent.mem_lowerBound (h : c.Consistent) {x : Nat × Nat} :
    (x ∈ c.bySize.dropWhile fun x => less x (minSize, 0)) ↔
      ∃ i ∈ c.items, minSize ≤ i.payloadSize ∧ x = (i.payloadSize, i.addr) := by
  rw [mem_dropWhile h.sorted fun x y hxy hy =>
    decide_eq_true (less_trans hxy (of_decide_eq_true hy)), h.mem]
  constructor
  · rintro ⟨⟨i, hi, rfl⟩, hl⟩
    refine ⟨i, hi, ?_, rfl⟩
    have hl := of_decide_eq_false hl
    simp only [less] at hl
    omega
  · rintro ⟨i, hi, hm, rfl⟩
    refine ⟨⟨i, hi, rfl⟩, decide_eq_false ?_⟩
    simp only [less]
    omega

/-- A payload that `getIf` finds. -/
theorem Consistent.getIf_some {c' : StreamOrderedCache P} (h : c.Consistent)
    (hg : c.getIf minSize pred = some (i, c')) :
    i ∈ c.items ∧ minSize ≤ i.payloadSize ∧ pred i.payload ∧ c' = c.remove i := by
  unfold getIf at hg
  obtain ⟨j, hf, he⟩ := Option.map_eq_some_iff.1 hg
  cases he
  obtain ⟨x, hx, hfx⟩ := List.exists_of_findSome?_eq_some hf
  obtain ⟨j, hj, hm, rfl⟩ := h.mem_lowerBound.1 hx
  rw [h.find?_addr hj, Option.filter_some] at hfx
  split_ifs at hfx with hp
  cases hfx
  exact ⟨hj, hm, hp, rfl⟩

/-- `getIf` finds a payload if there is one. -/
theorem Consistent.getIf_none (h : c.Consistent) (hg : c.getIf minSize pred = none)
    (hi : i ∈ c.items) (hm : minSize ≤ i.payloadSize) : pred i.payload = false := by
  unfold getIf at hg
  rw [Option.map_eq_none_iff, List.findSome?_eq_none_iff] at hg
  have hx := hg _ (h.mem_lowerBound.2 ⟨i, hi, hm, rfl⟩)
  rw [h.find?_addr hi, Option.filter_some] at hx
  split_ifs at hx with hp
  simpa using hp

end

end

end StreamOrderedCache

namespace PerStreamCache

open StreamCacheItem (addr)

/-! ## The lists by id -/

section
variable {id : BitVec 64} {l : List (BitVec 64 × StreamOrderedCache P)}
  {f : StreamOrderedCache P → StreamOrderedCache P}

theorem upsert_none (h : l.lookup id = none) : upsert id f l = l ++ [(id, f {})] := by
  induction l with
  | nil => rfl
  | cons kc l ih =>
    rw [List.lookup_cons] at h
    split at h
    · cases h
    · rename_i hne
      rw [upsert, if_neg fun he => by simp [he] at hne, ih h]
      rfl

theorem upsert_some {c : StreamOrderedCache P} (h : l.lookup id = some c) :
    ∃ l₁ l₂, l = l₁ ++ (id, c) :: l₂ ∧ upsert id f l = l₁ ++ (id, f c) :: l₂ := by
  induction l with
  | nil => cases h
  | cons kc l ih =>
    rw [List.lookup_cons] at h
    split at h
    · rename_i he
      cases h
      have hk : kc.1 = id := (beq_iff_eq.1 he).symm
      refine ⟨[], l, ?_, ?_⟩
      · rw [← hk]
        rfl
      · rw [upsert, if_pos hk, hk]
        rfl
    · rename_i hne
      obtain ⟨l₁, l₂, rfl, hu⟩ := ih h
      refine ⟨kc :: l₁, l₂, rfl, ?_⟩
      rw [upsert, if_neg fun he => by simp [he] at hne, hu]
      rfl

end

/-- The items in lists. -/
def listed (l : List (BitVec 64 × StreamOrderedCache P)) : List (StreamCacheItem P) :=
  l.flatMap fun kc => kc.2.items

@[simp] theorem listed_append (l l' : List (BitVec 64 × StreamOrderedCache P)) :
    listed (l ++ l') = listed l ++ listed l' := List.flatMap_append

@[simp] theorem listed_cons (kc : BitVec 64 × StreamOrderedCache P)
    (l : List (BitVec 64 × StreamOrderedCache P)) :
    listed (kc :: l) = kc.2.items ++ listed l := List.flatMap_cons

@[simp] theorem listed_nil : listed ([] : List (BitVec 64 × StreamOrderedCache P)) = [] := rfl

/-- No payload is at two places of a list, its set or the global cache, which is in order. -/
structure Consistent (s : PerStreamCache P) : Prop where
  keys : (s.perStreamCache.map Prod.fst).Nodup
  lists : ∀ kc ∈ s.perStreamCache, kc.2.Consistent
  addrs : (s.free ++ s.items.map addr).Nodup
  sorted : s.globalCache.Pairwise fun p q => size p ≤ size q

theorem Consistent.empty : ({} : PerStreamCache P).Consistent :=
  ⟨List.nodup_nil, by simp, List.nodup_nil, List.Pairwise.nil⟩

/-! ## The global cache -/

theorem emplace_perm (p : P) (g : List P) : (emplace p g).Perm (p :: g) := by
  rw [emplace]
  refine List.perm_middle.trans (List.Perm.cons p ?_)
  rw [List.takeWhile_append_dropWhile]

theorem emplace_sorted {p : P} {g : List P} (h : g.Pairwise fun p q => size p ≤ size q) :
    (emplace p g).Pairwise fun p q => size p ≤ size q := by
  have hle : ∀ q ∈ g.takeWhile fun q => size q ≤ size p, size q ≤ size p := fun q hq =>
    of_decide_eq_true (List.all_eq_true.1 List.all_takeWhile q hq)
  have hgt : ∀ q ∈ g.dropWhile fun q => size q ≤ size p, size p < size q := by
    intro q hq
    have hq' := (mem_dropWhile h (fun x y hxy hy => decide_eq_true
      (le_trans hxy (of_decide_eq_true hy)))).1 hq
    have hq'' := of_decide_eq_false hq'.2
    omega
  refine List.pairwise_append.2 ⟨h.sublist (List.takeWhile_sublist _), ?_, ?_⟩
  · exact List.pairwise_cons.2
      ⟨fun q hq => (hgt q hq).le, h.sublist (List.dropWhile_sublist _)⟩
  · intro q hq r hr
    rcases List.mem_cons.1 hr with rfl | hr
    · exact hle q hq
    · exact (hle q hq).trans (hgt r hr).le

theorem extract_some {pred : P → Bool} {g g' : List P} {p : P}
    (h : extract pred g = some (p, g')) : pred p ∧ g.Perm (p :: g') ∧ g'.Sublist g := by
  induction g generalizing g' with
  | nil => cases h
  | cons q g ih =>
    rw [extract] at h
    split_ifs at h with hq
    · cases h
      exact ⟨hq, List.Perm.refl _, List.sublist_cons_self _ _⟩
    · obtain ⟨⟨r, g''⟩, he, heq⟩ := Option.map_eq_some_iff.1 h
      cases heq
      obtain ⟨hp, hperm, hsub⟩ := ih he
      exact ⟨hp, (hperm.cons q).trans (List.Perm.swap _ _ _), hsub.cons_cons q⟩

theorem extract_none {pred : P → Bool} {g : List P} (h : extract pred g = none) :
    ∀ p ∈ g, pred p = false := by
  induction g with
  | nil => simp
  | cons q g ih =>
    rw [extract] at h
    split_ifs at h with hq
    refine List.forall_mem_cons.2 ⟨by simpa using hq, ih ?_⟩
    simpa using h

section
variable {s s' : PerStreamCache P} {minSize : Nat} {pred : P → Bool} {p : P}

theorem Consistent.tryGetGlobal_some (h : s.Consistent)
    (hg : s.tryGetGlobal minSize pred = some (p, s')) :
    minSize ≤ size p ∧ pred p ∧ s.globalCache.Perm (p :: s'.globalCache) ∧
      s.contents.Perm (p :: s'.contents) ∧ s'.Consistent ∧
      s'.perStreamCache = s.perStreamCache := by
  obtain ⟨⟨q, g⟩, he, heq⟩ := Option.map_eq_some_iff.1 hg
  cases heq
  obtain ⟨hp, hperm, hsub⟩ := extract_some he
  have hmem := hperm.mem_iff.2 List.mem_cons_self
  have hd := (mem_dropWhile h.sorted (fun x y hxy hy => decide_eq_true
    (lt_of_le_of_lt hxy (of_decide_eq_true hy)))).1 hmem
  have hsplit : s.globalCache = (s.globalCache.takeWhile fun p => size p < minSize) ++
      s.globalCache.dropWhile fun p => size p < minSize :=
    List.takeWhile_append_dropWhile.symm
  have hglobal := (hperm.append_left (s.globalCache.takeWhile fun p => size p < minSize)).trans
    List.perm_middle
  rw [← hsplit] at hglobal
  refine ⟨Nat.le_of_not_lt (of_decide_eq_false hd.2), hp, hglobal, hglobal.append_right _,
    ⟨h.keys, h.lists, h.addrs, ?_⟩, rfl⟩
  · have hg' := hsub.append_left (s.globalCache.takeWhile fun p => size p < minSize)
    rw [← hsplit] at hg'
    exact h.sorted.sublist hg'

theorem Consistent.tryGetGlobal_none (h : s.Consistent)
    (hg : s.tryGetGlobal minSize pred = none) (hp : p ∈ s.globalCache) (hm : minSize ≤ size p) :
    pred p = false := by
  have he := Option.map_eq_none_iff.1 hg
  refine extract_none he p ((mem_dropWhile h.sorted (fun x y hxy hy => decide_eq_true
    (lt_of_le_of_lt hxy (of_decide_eq_true hy)))).2 ⟨hp, decide_eq_false (by omega)⟩)

/-! ## The caches of streams -/

/-- Lists of which one item, at an address of its own, was added. -/
theorem upsert_insert (id : BitVec 64) (i : StreamCacheItem P)
    (l : List (BitVec 64 × StreamOrderedCache P)) :
    (listed (upsert id (fun c => c.insert i) l)).Perm (i :: listed l) := by
  cases hl : l.lookup id with
  | none =>
    rw [upsert_none hl, listed_append]
    exact List.perm_append_singleton i _
  | some c =>
    obtain ⟨l₁, l₂, rfl, hu⟩ := upsert_some (f := fun c => c.insert i) hl
    rw [hu, listed_append, listed_append, listed_cons, listed_cons]
    refine (List.Perm.append_left _ ?_).trans List.perm_middle
    show ((c.items ++ [i]) ++ _).Perm (i :: (c.items ++ _))
    rw [List.append_assoc]
    exact List.perm_middle

theorem upsert_keys (id : BitVec 64) (f : StreamOrderedCache P → StreamOrderedCache P)
    {l : List (BitVec 64 × StreamOrderedCache P)} (h : (l.map Prod.fst).Nodup) :
    ((upsert id f l).map Prod.fst).Nodup := by
  cases hl : l.lookup id with
  | none =>
    rw [upsert_none hl, List.map_append]
    refine List.nodup_append.2 ⟨h, List.nodup_singleton _, ?_⟩
    rintro k hk k' hk' rfl
    obtain ⟨kc, hkc, rfl⟩ := List.mem_map.1 hk
    have hne := List.lookup_eq_none_iff.1 hl kc hkc
    simp only [List.map_cons, List.map_nil, List.mem_singleton] at hk'
    simp [hk'] at hne
  | some c =>
    obtain ⟨l₁, l₂, rfl, hu⟩ := upsert_some (f := f) hl
    rw [hu]
    simpa using h

theorem upsert_mem {id : BitVec 64} {f : StreamOrderedCache P → StreamOrderedCache P}
    {l : List (BitVec 64 × StreamOrderedCache P)} {kc : BitVec 64 × StreamOrderedCache P}
    (h : kc ∈ upsert id f l) :
    kc ∈ l ∨ kc = (id, f ((l.lookup id).getD {})) := by
  cases hl : l.lookup id with
  | none =>
    rw [upsert_none hl, List.mem_append, List.mem_singleton] at h
    exact h
  | some c =>
    obtain ⟨l₁, l₂, rfl, hu⟩ := upsert_some (f := f) hl
    rw [hu] at h
    simp only [List.mem_append, List.mem_cons] at h ⊢
    rcases h with h | rfl | h
    · exact .inl (.inl h)
    · exact .inr rfl
    · exact .inl (.inr (.inr h))

theorem mem_of_lookup {id : BitVec 64} {l : List (BitVec 64 × StreamOrderedCache P)}
    {c : StreamOrderedCache P} (h : l.lookup id = some c) : (id, c) ∈ l := by
  obtain ⟨l₁, l₂, rfl, -⟩ := upsert_some (f := fun c => c) h
  simp

theorem mem_items {i : StreamCacheItem P} :
    i ∈ s.items ↔ ∃ kc ∈ s.perStreamCache, i ∈ kc.2.items := List.mem_flatMap

/-- Where `put` puts a payload. -/
theorem put_cases {fn : CuStreamGetId} {caller : Caller} {query : E → Bool} {new : Nat}
    {stream : Option MUstream} (hp : s.put fn caller query new p stream = .ok s') :
    (∃ id addr, cacheKey fn caller stream = .ok id ∧ (ready p).all query = false ∧
        addr = s.free.headD new ∧ s' = { s with
          free := s.free.tail
          perStreamCache := upsert id (fun c => c.insert ⟨addr, p⟩) s.perStreamCache }) ∨
      (ready p).all query ∧ s' = { s with globalCache := emplace p s.globalCache } := by
  have hready : (ready p).all query = !(ready p).any fun ev => !query ev := by
    cases ready p <;> simp
  unfold PerStreamCache.put at hp
  split_ifs at hp with hr
  · cases hk : cacheKey fn caller stream with
    | error e =>
      simp only [hk] at hp
      cases hp
    | ok id =>
      simp only [hk] at hp
      cases hp
      exact .inl ⟨id, _, rfl, by rw [hready, hr]; rfl, rfl, rfl⟩
  · cases hp
    exact .inr ⟨by rw [hready]; simpa using hr, rfl⟩

/-- **What `put` does**: the payload is there then. The address of a new item is a new one. -/
theorem Consistent.put {fn : CuStreamGetId} {caller : Caller} {query : E → Bool} {new : Nat}
    {stream : Option MUstream} (h : s.Consistent) (hnew : new ∉ s.free ++ s.items.map addr)
    (hp : s.put fn caller query new p stream = .ok s') :
    s'.contents.Perm (p :: s.contents) ∧ s'.Consistent := by
  rcases put_cases hp with ⟨id, a, -, -, rfl, rfl⟩ | ⟨-, rfl⟩
  · have hperm := upsert_insert id ⟨s.free.headD new, p⟩ s.perStreamCache
    have haddr : (s.free.tail ++ s.free.headD new :: s.items.map addr).Nodup ∧
        s.free.headD new ∉ s.items.map addr := by
      have hn := h.addrs
      cases hf : s.free with
      | nil =>
        rw [hf] at hnew hn
        exact ⟨List.nodup_cons.2 ⟨hnew, hn⟩, hnew⟩
      | cons a free =>
        rw [hf] at hn
        rw [List.cons_append, List.nodup_cons, List.mem_append, not_or] at hn
        exact ⟨List.nodup_middle.2 (List.nodup_cons.2 ⟨by simpa using hn.1, hn.2⟩), hn.1.2⟩
    refine ⟨?_, ⟨upsert_keys id _ h.keys, ?_, ?_, h.sorted⟩⟩
    · exact ((hperm.map StreamCacheItem.payload).append_left _).trans List.perm_middle
    · intro kc hkc
      rcases upsert_mem hkc with hkc | rfl
      · exact h.lists kc hkc
      · cases hl : s.perStreamCache.lookup id with
        | none => exact StreamOrderedCache.Consistent.empty.insert List.not_mem_nil
        | some c =>
          refine (h.lists _ (mem_of_lookup hl)).insert fun hm => haddr.2 ?_
          obtain ⟨i, hi, hia⟩ := List.mem_map.1 hm
          exact List.mem_map.2 ⟨i, mem_items.2 ⟨_, mem_of_lookup hl, hi⟩, hia⟩
    · exact ((hperm.map addr).append_left _).nodup_iff.2 haddr.1
  · refine ⟨(emplace_perm p s.globalCache).append_right _, ⟨h.keys, h.lists, h.addrs, ?_⟩⟩
    exact emplace_sorted h.sorted

/-- A payload that the list of a stream gives. -/
theorem Consistent.tryGetPerStream_some {id : BitVec 64} (h : s.Consistent)
    (hg : s.tryGetPerStream minSize pred id = some (p, s')) :
    ∃ c i, s.perStreamCache.lookup id = some c ∧ i ∈ c.items ∧ p = i.payload ∧
      minSize ≤ size p ∧ pred p ∧ s'.perStreamCache = upsert id (fun _ => c.remove i)
        s.perStreamCache ∧ s'.globalCache = s.globalCache ∧
      s.contents.Perm (p :: s'.contents) ∧ s'.Consistent := by
  unfold PerStreamCache.tryGetPerStream at hg
  cases hl : s.perStreamCache.lookup id with
  | none =>
    simp only [hl] at hg
    cases hg
  | some c =>
    simp only [hl] at hg
    obtain ⟨⟨i, c'⟩, hf, he⟩ := Option.map_eq_some_iff.1 hg
    cases he
    have hc := h.lists _ (mem_of_lookup hl)
    obtain ⟨hi, hm, hp, rfl⟩ := hc.getIf_some hf
    obtain ⟨hrem, hperm⟩ := hc.remove hi
    obtain ⟨l₁, l₂, hl₁, hu⟩ := upsert_some (f := fun _ => c.remove i) hl
    have hitems : s.items.Perm (i :: listed (upsert id (fun _ => c.remove i)
        s.perStreamCache)) := by
      rw [hu, listed_append, listed_cons]
      show (listed s.perStreamCache).Perm _
      rw [hl₁, listed_append, listed_cons]
      exact ((hperm.append_right _).append_left _).trans List.perm_middle
    refine ⟨c, i, rfl, hi, rfl, hm, hp, rfl, rfl, ?_, ⟨upsert_keys id _ h.keys, ?_, ?_, h.sorted⟩⟩
    · exact ((hitems.map StreamCacheItem.payload).append_left _).trans List.perm_middle
    · intro kc hkc
      rcases upsert_mem hkc with hkc | rfl
      · exact h.lists kc hkc
      · exact hrem
    · have hn := ((hitems.map addr).append_left s.free).nodup_iff.1 h.addrs
      exact List.nodup_middle.1 hn

theorem Consistent.tryGetPerStream_none {id : BitVec 64} {c : StreamOrderedCache P}
    (h : s.Consistent) (hg : s.tryGetPerStream minSize pred id = none)
    (hl : s.perStreamCache.lookup id = some c) {i : StreamCacheItem P} (hi : i ∈ c.items)
    (hm : minSize ≤ size i.payload) : pred i.payload = false := by
  unfold PerStreamCache.tryGetPerStream at hg
  simp only [hl, Option.map_eq_none_iff] at hg
  exact (h.lists _ (mem_of_lookup hl)).getIf_none hg hi hm

/-! ## Moving what is ready to the global cache -/

/-- Lists without what was removed, of which the empty ones are erased. -/
theorem listed_removeAllReady {l : List (BitVec 64 × StreamOrderedCache P)}
    (h : ∀ kc ∈ l, kc.2.Consistent) (unambiguous : Bool) (query : E → Bool) :
    (listed l).Perm ((l.flatMap fun kc => (kc.2.removeAllReady unambiguous query).1) ++
      listed ((l.map fun kc => (kc.1, (kc.2.removeAllReady unambiguous query).2)).filter
        fun kc => !kc.2.bySize.isEmpty)) := by
  induction l with
  | nil => exact List.Perm.refl _
  | cons kc l ih =>
    obtain ⟨hc, hp, -⟩ := (h kc List.mem_cons_self).removeAllReady unambiguous query
    have ih := ih fun kc' hkc => h kc' (List.mem_cons_of_mem _ hkc)
    have hkept : listed (((kc :: l).map fun kc =>
          (kc.1, (kc.2.removeAllReady unambiguous query).2)).filter
          fun kc => !kc.2.bySize.isEmpty) =
        (kc.2.removeAllReady unambiguous query).2.items ++
          listed ((l.map fun kc => (kc.1, (kc.2.removeAllReady unambiguous query).2)).filter
            fun kc => !kc.2.bySize.isEmpty) := by
      rw [List.map_cons, List.filter_cons]
      split_ifs with he
      · rw [listed_cons]
      · rw [hc.items_eq_nil (by simpa using he), List.nil_append]
    rw [listed_cons, List.flatMap_cons, hkept, List.append_assoc]
    refine (hp.append ih).trans ?_
    rw [List.append_assoc]
    exact (List.perm_append_comm_assoc _ _ _).append_left _

theorem foldl_emplace (moved : List (StreamCacheItem P)) (g : List P) :
    (moved.foldl (fun g i => emplace i.payload g) g).Perm
      (moved.map StreamCacheItem.payload ++ g) := by
  induction moved generalizing g with
  | nil => exact List.Perm.refl _
  | cons i moved ih =>
    refine (ih _).trans (((emplace_perm i.payload g).append_left _).trans ?_)
    exact List.perm_middle

theorem foldl_emplace_sorted (moved : List (StreamCacheItem P)) {g : List P}
    (h : g.Pairwise fun p q => size p ≤ size q) :
    (moved.foldl (fun g i => emplace i.payload g) g).Pairwise fun p q => size p ≤ size q := by
  induction moved generalizing g with
  | nil => exact h
  | cons i moved ih => exact ih (emplace_sorted h)

section
variable {unambiguous : Bool} {query : E → Bool}

/-- The items that are moved. -/
def readyItems (s : PerStreamCache P) (unambiguous : Bool) (query : E → Bool) :
    List (StreamCacheItem P) :=
  s.perStreamCache.flatMap fun kc => (kc.2.removeAllReady unambiguous query).1

theorem moveReadyToGlobal_eq (s : PerStreamCache P) (unambiguous : Bool) (query : E → Bool) :
    s.moveReadyToGlobal unambiguous query = ((s.readyItems unambiguous query).length, {
      free := ((s.readyItems unambiguous query).map addr).reverse ++ s.free
      perStreamCache := (s.perStreamCache.map fun kc =>
        (kc.1, (kc.2.removeAllReady unambiguous query).2)).filter fun kc => !kc.2.bySize.isEmpty
      globalCache := (s.readyItems unambiguous query).foldl
        (fun g i => emplace i.payload g) s.globalCache }) := by
  simp only [moveReadyToGlobal, readyItems, List.flatMap_map, List.map_map, Function.comp_def]

/-- A list after a move, of which items were removed. -/
theorem mem_moveReadyToGlobal {kc : BitVec 64 × StreamOrderedCache P}
    (hkc : kc ∈ (s.moveReadyToGlobal unambiguous query).2.perStreamCache) :
    ∃ c, (kc.1, c) ∈ s.perStreamCache ∧ kc.2 = (c.removeAllReady unambiguous query).2 := by
  rw [moveReadyToGlobal_eq] at hkc
  obtain ⟨kc', h', rfl⟩ := List.mem_map.1 (List.mem_of_mem_filter hkc)
  exact ⟨kc'.2, h', rfl⟩

/-- **What a move does**: payloads go from the lists to the global cache. -/
theorem Consistent.moveReadyToGlobal (h : s.Consistent) (unambiguous : Bool)
    (query : E → Bool) :
    s.items.Perm (s.readyItems unambiguous query ++
        (s.moveReadyToGlobal unambiguous query).2.items) ∧
      (s.moveReadyToGlobal unambiguous query).2.globalCache.Perm
        ((s.readyItems unambiguous query).map StreamCacheItem.payload ++ s.globalCache) ∧
      (s.moveReadyToGlobal unambiguous query).2.Consistent := by
  rw [moveReadyToGlobal_eq]
  have hitems := listed_removeAllReady h.lists unambiguous query
  refine ⟨hitems, foldl_emplace _ _, ⟨?_, ?_, ?_, foldl_emplace_sorted _ h.sorted⟩⟩
  · refine h.keys.sublist ((List.filter_sublist.map _).trans ?_)
    rw [List.map_map]
    exact List.Sublist.refl _
  · intro kc hkc
    obtain ⟨kc', h', rfl⟩ := List.mem_map.1 (List.mem_of_mem_filter hkc)
    exact ((h.lists kc' h').removeAllReady unambiguous query).1
  · have hn := ((hitems.map addr).append_left s.free).nodup_iff.1 h.addrs
    rw [List.map_append] at hn
    rw [List.append_assoc]
    refine (List.Perm.nodup_iff ?_).2 hn
    refine ((List.reverse_perm _).append_right _).trans ?_
    exact List.perm_append_comm_assoc _ _ _

/-- A move changes the place of payloads only. -/
theorem Consistent.contents_move (h : s.Consistent) (unambiguous : Bool) (query : E → Bool) :
    s.contents.Perm (s.moveReadyToGlobal unambiguous query).2.contents := by
  obtain ⟨hitems, hglobal, -⟩ := h.moveReadyToGlobal unambiguous query
  have hp := hitems.map StreamCacheItem.payload
  rw [List.map_append] at hp
  refine (hp.append_left _).trans ?_
  rw [← List.append_assoc]
  exact (List.perm_append_comm.trans hglobal.symm).append_right _

/-- The caches that the loop goes through from its `k`th turn on, up to the `j`th one. -/
inductive Moves (unambiguous : Bool) (queries : Nat → E → Bool) :
    Nat → PerStreamCache P → Nat → PerStreamCache P → Prop
  | nil (k : Nat) (s : PerStreamCache P) : Moves unambiguous queries k s k s
  | cons {k j : Nat} {s s' : PerStreamCache P}
      (t : Moves unambiguous queries (k + 1) (s.moveReadyToGlobal unambiguous (queries k)).2 j s') :
      Moves unambiguous queries k s j s'

variable {queries : Nat → E → Bool} {k j : Nat}

theorem Moves.consistent (m : Moves unambiguous queries k s j s') (h : s.Consistent) :
    s'.Consistent ∧ s.contents.Perm s'.contents := by
  induction m with
  | nil => exact ⟨h, List.Perm.refl _⟩
  | cons _ ih =>
    obtain ⟨h', hp⟩ := ih (h.moveReadyToGlobal _ _).2.2
    exact ⟨h', (h.contents_move _ _).trans hp⟩

/-- Moves take items out of a list. -/
theorem Moves.sublist (m : Moves unambiguous queries k s j s') (h : s.Consistent)
    {kc : BitVec 64 × StreamOrderedCache P} (hkc : kc ∈ s'.perStreamCache) :
    ∃ c, (kc.1, c) ∈ s.perStreamCache ∧ kc.2.items.Sublist c.items := by
  induction m with
  | nil => exact ⟨kc.2, hkc, List.Sublist.refl _⟩
  | cons _ ih =>
    obtain ⟨c', hc', hs'⟩ := ih (h.moveReadyToGlobal _ _).2.2 hkc
    obtain ⟨c, hc, rfl⟩ := mem_moveReadyToGlobal hc'
    exact ⟨c, hc, hs'.trans ((h.lists _ hc).removeAllReady _ _).2.2⟩

/-- What is in the global cache then was there, or was ready in a turn. -/
theorem Moves.global (m : Moves unambiguous queries k s j s') (h : s.Consistent)
    (hord : unambiguous → ∀ k, ∀ kc ∈ s.perStreamCache,
      kc.2.items.Pairwise fun i j => j.isReady (queries k) → i.isReady (queries k))
    (hp : p ∈ s'.globalCache) : p ∈ s.globalCache ∨ ∃ k, (ready p).all (queries k) := by
  induction m with
  | nil => exact .inl hp
  | @cons k j s s' _ ih =>
    obtain ⟨-, hglobal, h'⟩ := h.moveReadyToGlobal unambiguous (queries k)
    refine (ih h' (fun hu k' kc hkc => ?_) hp).elim (fun hp => ?_) .inr
    · obtain ⟨c, hc, heq⟩ := mem_moveReadyToGlobal hkc
      rw [heq]
      exact (hord hu k' _ hc).sublist ((h.lists _ hc).removeAllReady _ _).2.2
    · rcases List.mem_append.1 (hglobal.mem_iff.1 hp) with hp | hp
      · obtain ⟨i, hi, rfl⟩ := List.mem_map.1 hp
        obtain ⟨kc, hkc, hi⟩ := List.mem_flatMap.1 hi
        exact .inr ⟨k, StreamOrderedCache.isReady_removeAllReady
          (fun hu => hord hu k kc hkc) hi⟩
      · exact .inl hp

theorem Moves.snoc (m : Moves unambiguous queries k s j s') : Moves unambiguous queries k s (j + 1)
    (s'.moveReadyToGlobal unambiguous (queries j)).2 := by
  induction m with
  | nil k s => exact .cons (.nil _ _)
  | cons _ ih => exact .cons ih

/-- How the loop ends: a payload was found, or none could be moved. -/
def Ends (unambiguous : Bool) (queries : Nat → E → Bool) (minSize : Nat) (pred : P → Bool) (k : Nat)
    (s : PerStreamCache P) (r : Option P) (s' : PerStreamCache P) : Prop :=
  ∃ j s₁, Moves unambiguous queries k s j s₁ ∧
    ((∃ p, r = some p ∧ s₁.tryGetGlobal minSize pred = some (p, s')) ∨
      r = none ∧ s₁.tryGetGlobal minSize pred = none ∧
        s₁.readyItems unambiguous (queries j) = [] ∧
        s' = (s₁.moveReadyToGlobal unambiguous (queries j)).2)

theorem Consistent.getLoop (h : s.Consistent) {fuel : Nat} {r : Option P}
    (hf : s.items.length < fuel)
    (hl : s.getLoop unambiguous queries minSize pred fuel k = (r, s')) :
    Ends unambiguous queries minSize pred k s r s' := by
  induction fuel generalizing s k with
  | zero => omega
  | succ fuel ih =>
    rw [PerStreamCache.getLoop] at hl
    cases hg : s.tryGetGlobal minSize pred with
    | some ps =>
      simp only [hg] at hl
      cases hl
      exact ⟨k, s, .nil k s, .inl ⟨_, rfl, hg⟩⟩
    | none =>
      simp only [hg] at hl
      have hlen : (s.moveReadyToGlobal unambiguous (queries k)).1 =
          (s.readyItems unambiguous (queries k)).length := by rw [moveReadyToGlobal_eq]
      obtain ⟨hitems, -, hc⟩ := h.moveReadyToGlobal unambiguous (queries k)
      have hcount := hitems.length_eq
      rw [List.length_append, ← hlen] at hcount
      split_ifs at hl with hz
      · cases hl
        rw [hlen] at hz
        exact ⟨k, s, .nil k s, .inr ⟨rfl, hg, List.length_eq_zero_iff.1 hz, rfl⟩⟩
      · obtain ⟨j, s₁, m, hr⟩ := ih hc (by omega) hl
        exact ⟨j, s₁, .cons m, hr⟩

/-- The loop takes payloads from the global cache. -/
theorem Ends.moves {r : Option P} (he : Ends unambiguous queries minSize pred k s r s')
    (h : s.Consistent) :
    ∃ j s₁, Moves unambiguous queries k s j s₁ ∧ s'.perStreamCache = s₁.perStreamCache ∧
      (∀ p ∈ s'.globalCache, p ∈ s₁.globalCache) ∧ ∀ p ∈ r, p ∈ s₁.globalCache := by
  obtain ⟨j, s₁, m, ⟨p, rfl, hg⟩ | ⟨rfl, -, -, rfl⟩⟩ := he
  · obtain ⟨-, -, hperm, -, -, hs⟩ := (m.consistent h).1.tryGetGlobal_some hg
    refine ⟨j, s₁, m, hs, fun q hq => hperm.mem_iff.2 (List.mem_cons_of_mem _ hq), fun q hq => ?_⟩
    cases hq
    exact hperm.mem_iff.2 List.mem_cons_self
  · exact ⟨j + 1, _, m.snoc, rfl, fun _ hp => hp, by simp⟩

theorem Ends.spec {r : Option P} (he : Ends unambiguous queries minSize pred k s r s')
    (h : s.Consistent) :
    s.contents.Perm (r.toList ++ s'.contents) ∧ s'.Consistent ∧
      ∀ p ∈ r, minSize ≤ size p ∧ pred p := by
  obtain ⟨j, s₁, m, ⟨p, rfl, hg⟩ | ⟨rfl, -, -, rfl⟩⟩ := he
  · obtain ⟨h₁, hp⟩ := m.consistent h
    obtain ⟨hm, hpred, -, hp', h', -⟩ := h₁.tryGetGlobal_some hg
    refine ⟨hp.trans hp', h', fun q hq => ?_⟩
    cases hq
    exact ⟨hm, hpred⟩
  · obtain ⟨h₁, hp⟩ := m.consistent h
    exact ⟨hp.trans (h₁.contents_move _ _), (h₁.moveReadyToGlobal _ _).2.2, by simp⟩

end

section
variable {fn : CuStreamGetId} {caller : Caller} {queries : Nat → E → Bool}
  {minAlignment : Nat} {stream : Option MUstream} {r : Option P}

/-- **What `get` does**: the list of the stream gives a payload, or the loop is run. -/
theorem Consistent.get_cases (h : s.Consistent)
    (hg : s.get fn caller queries minSize minAlignment stream = .ok (r, s')) :
    (∃ st id p, stream = some st ∧ getCudaStreamIdHint fn caller st = .ok id ∧ r = some p ∧
        s.tryGetPerStream minSize (fits minSize minAlignment) id = some (p, s')) ∨
      (∀ st ∈ stream, ∃ id, getCudaStreamIdHint fn caller st = .ok id ∧
          s.tryGetPerStream minSize (fits minSize minAlignment) id = none) ∧
        Ends fn.isUnambiguous queries minSize (fits minSize minAlignment) 0 s r s' := by
  unfold PerStreamCache.get PerStreamCache.getIf at hg
  cases stream with
  | none => exact .inr ⟨by simp, h.getLoop (Nat.lt_succ_self _) (Except.ok.inj hg)⟩
  | some st =>
    cases hid : getCudaStreamIdHint fn caller st with
    | error e =>
      simp only [hid] at hg
      cases hg
    | ok id =>
      simp only [hid] at hg
      cases ht : s.tryGetPerStream minSize (fits minSize minAlignment) id with
      | some ps =>
        simp only [ht] at hg
        cases hg
        exact .inl ⟨st, id, _, rfl, hid, rfl, ht⟩
      | none =>
        simp only [ht] at hg
        refine .inr ⟨?_, h.getLoop (Nat.lt_succ_self _) (Except.ok.inj hg)⟩
        intro st' hst
        cases hst
        exact ⟨id, hid, ht⟩

/-- An exception in `get` is that of a stream without id. -/
theorem get_error {e : Exception}
    (hg : s.get fn caller queries minSize minAlignment stream = .error e) :
    ∃ st ∈ stream, getCudaStreamIdHint fn caller st = .error e := by
  unfold PerStreamCache.get PerStreamCache.getIf at hg
  cases stream with
  | none => cases hg
  | some st =>
    refine ⟨st, rfl, ?_⟩
    cases hid : getCudaStreamIdHint fn caller st with
    | error e' =>
      simp only [hid] at hg
      cases hg
      rfl
    | ok id =>
      simp only [hid] at hg
      cases ht : s.tryGetPerStream minSize (fits minSize minAlignment) id with
      | some ps =>
        simp only [ht] at hg
        cases hg
      | none =>
        simp only [ht] at hg
        cases hg

/-- What `get` returns is what it was asked for, and no longer there. -/
theorem Consistent.get (h : s.Consistent)
    (hg : s.get fn caller queries minSize minAlignment stream = .ok (r, s')) :
    s.contents.Perm (r.toList ++ s'.contents) ∧ s'.Consistent ∧
      ∀ p ∈ r, fits minSize minAlignment p := by
  rcases h.get_cases hg with ⟨st, id, p, -, -, rfl, ht⟩ | ⟨-, he⟩
  · obtain ⟨c, i, -, -, -, -, hf, -, -, hp, h'⟩ := h.tryGetPerStream_some ht
    refine ⟨hp, h', fun q hq => ?_⟩
    cases hq
    exact hf
  · obtain ⟨hp, h', hr⟩ := he.spec h
    exact ⟨hp, h', fun p hp => (hr p hp).2⟩

end

/-- `purge` destroys every payload; the items are free then. -/
theorem Consistent.purge (h : s.Consistent) : s.purge.contents = [] ∧ s.purge.Consistent := by
  have hitems : s.purge.items = [] := by
    refine List.flatMap_eq_nil_iff.2 fun kc hkc => ?_
    obtain ⟨kc', -, rfl⟩ := List.mem_map.1 hkc
    rfl
  refine ⟨?_, ⟨?_, ?_, ?_, List.Pairwise.nil⟩⟩
  · rw [contents, hitems]
    rfl
  · rw [PerStreamCache.purge, List.map_map]
    exact h.keys
  · intro kc hkc
    obtain ⟨kc', -, rfl⟩ := List.mem_map.1 hkc
    exact StreamOrderedCache.Consistent.empty
  · rw [hitems]
    refine (List.Perm.nodup_iff ?_).2 h.addrs
    rw [List.map_nil, List.append_nil]
    exact ((List.reverse_perm _).append_right _).trans List.perm_append_comm

end

end PerStreamCache

end Cvcuda
