import CvCuda.Nvcv.PackingParams

/-! # What `MakeNVCVPacking` finds

The table has at most one packing of each swizzle and bits (`key_nodup`), so the lookup meets the
request as a whole or there is nothing to find: the alignment never decides between two packings,
and it is never compared with the requested one.

* `normalized_iff`: the entry of a packing has the normalised swizzle of a request exactly when
  the packing has the swizzle that is wanted.
* `makePacking_eq_some`: the packings that are found are those that meet the request.
* `makePacking_spec`: **sound and complete** but for the alignment.
* `makePacking_deviates`: an alignment that is not honoured, and bits that are not found without a
  swizzle.
-/

namespace Nvcv

/-- The swizzle that a request is for: without one, that of its bits. -/
def PackingParams.wanted (params : PackingParams) : Swizzle :=
  if params.swizzle = .S0000 then makeSwizzleFromBits params.bits else params.swizzle

/-- The packing has what is requested, its alignment apart. -/
structure Packing.Meets (q : Packing) (params : PackingParams) : Prop where
  bits : q.getParams.bits = params.bits
  swizzle : q.getParams.swizzle = params.wanted
  byteOrder : 2 ≤ params.swizzle.getNumChannels → q.getParams.byteOrder = params.byteOrder

/-- The swizzle of the key. -/
def PackingParams.normalized (params : PackingParams) : Swizzle :=
  if params.swizzle ≠ .SXYXZ ∧ params.swizzle ≠ .SYXZX ∧ !params.isSubWord then .S0000
  else params.swizzle

/-! ## The table -/

theorem mem_packings (q : Packing) : q ∈ (List.range 63).map Packing.ofNat := by
  refine List.mem_map.2 ⟨q.ctorIdx, List.mem_range.2 ?_, ?_⟩
  · cases q <;> decide
  · cases q <;> rfl

/-- **The keys of the table** differ. -/
theorem key_nodup : (((List.range 63).map Packing.ofNat).map fun q =>
    (q.entry.swizzle, q.entry.bits)).Nodup := by
  decide +kernel

theorem filter_eq_singleton {α β : Type} [DecidableEq β] {f : α → β} {l : List α}
    (h : (l.map f).Nodup) {x : α} (hx : x ∈ l) : l.filter (fun y => f y = f x) = [x] := by
  induction l with
  | nil => exact absurd hx List.not_mem_nil
  | cons y l ih =>
    rw [List.map_cons, List.nodup_cons] at h
    rcases List.mem_cons.1 hx with rfl | hx
    · rw [List.filter_cons_of_pos (by simp), List.filter_eq_nil_iff.2 fun z hz => ?_]
      have hne : f z ≠ f x := fun he => h.1 (List.mem_map.2 ⟨z, hz, he⟩)
      simpa using hne
    · have hne : f y ≠ f x := fun he => h.1 (List.mem_map.2 ⟨x, hx, he.symm⟩)
      rw [List.filter_cons_of_neg (by simpa using hne), ih h.2 hx]

/-- A packing whose swizzle is that of its bits is no part of a word. -/
theorem fromBits_plain {q : Packing} (h : q.entry.swizzle = .S0000) :
    makeSwizzleFromBits q.entry.bits ≠ .SXYXZ ∧ makeSwizzleFromBits q.entry.bits ≠ .SYXZX ∧
      (makeSwizzleFromBits q.entry.bits = .S0000 ∨
        (makeSwizzleFromBits q.entry.bits).getNumChannels =
          q.entry.bits.toList.countP (· ≠ 0)) := by
  revert h
  cases q <;> decide +kernel

/-- A packing with a swizzle of its own is that of 4:2:2 data, or part of a word, and has not the
swizzle of its bits. -/
theorem own_swizzle {q : Packing} (h : q.entry.swizzle ≠ .S0000) :
    (q.entry.swizzle = .SXYXZ ∨ q.entry.swizzle = .SYXZX ∨
      q.entry.swizzle.getNumChannels ≠ q.entry.bits.toList.countP (· ≠ 0)) ∧
      makeSwizzleFromBits q.entry.bits ≠ q.entry.swizzle := by
  revert h
  cases q <;> decide +kernel

theorem getParams_bits (q : Packing) : q.getParams.bits = q.entry.bits := by
  unfold Packing.getParams
  dsimp only
  split_ifs <;> rfl

theorem getParams_byteOrder (q : Packing) : q.getParams.byteOrder = q.entry.byteOrder := by
  unfold Packing.getParams
  dsimp only
  split_ifs <;> rfl

theorem getParams_swizzle (q : Packing) : q.getParams.swizzle =
    if q.entry.swizzle = .S0000 then makeSwizzleFromBits q.entry.bits else q.entry.swizzle := by
  unfold Packing.getParams
  dsimp only
  split_ifs <;> rfl

/-! ## The lookup -/

theorem normalized_of_none {params : PackingParams} (h : params.swizzle = .S0000) :
    params.normalized = .S0000 := by
  unfold PackingParams.normalized
  split_ifs
  · rfl
  · exact h

theorem normalized_of_plain {params : PackingParams} (h1 : params.swizzle ≠ .SXYXZ)
    (h2 : params.swizzle ≠ .SYXZX)
    (h : params.swizzle.getNumChannels = params.bits.toList.countP (· ≠ 0)) :
    params.normalized = .S0000 := by
  have hsub : params.isSubWord = false := by
    unfold PackingParams.isSubWord
    split_ifs
    · rfl
    · simpa using h
  rw [PackingParams.normalized, if_pos ⟨h1, h2, by rw [hsub]; rfl⟩]

theorem normalized_of_own {params : PackingParams} (h0 : params.swizzle ≠ .S0000)
    (h : params.swizzle = .SXYXZ ∨ params.swizzle = .SYXZX ∨
      params.swizzle.getNumChannels ≠ params.bits.toList.countP (· ≠ 0)) :
    params.normalized = params.swizzle := by
  rw [PackingParams.normalized, if_neg]
  rintro ⟨h1, h2, hsub⟩
  have hne := (h.resolve_left h1).resolve_left h2
  have : params.isSubWord = true := by
    rw [PackingParams.isSubWord, if_neg (by tauto)]
    simpa using hne
  rw [this] at hsub
  exact Bool.false_ne_true hsub

/-- **The normalised swizzle** of a request is that of the entry, and the filter by swizzle lets
it through, exactly when the packing has the swizzle that is wanted. -/
theorem normalized_iff {q : Packing} {params : PackingParams} (h : q.entry.bits = params.bits) :
    q.getParams.swizzle = params.wanted ↔ q.entry.swizzle = params.normalized ∧
      (params.swizzle ≠ .S0000 → q.getParams.swizzle = params.swizzle) := by
  rw [getParams_swizzle, PackingParams.wanted, ← h]
  by_cases hs : params.swizzle = .S0000
  · rw [if_pos hs, normalized_of_none hs]
    simp only [hs, ne_eq, not_true_eq_false, false_implies, and_true]
    by_cases he : q.entry.swizzle = .S0000
    · simp only [he, if_true]
    · rw [if_neg he]
      exact iff_of_false (fun heq => (own_swizzle he).2 heq.symm) he
  · rw [if_neg hs, and_comm]
    simp only [hs, ne_eq, not_false_eq_true, true_implies]
    refine (and_iff_left_of_imp fun heq => ?_).symm
    by_cases he : q.entry.swizzle = .S0000
    · rw [if_pos he] at heq
      obtain ⟨h1, h2, h3⟩ := fromBits_plain he
      rw [heq] at h1 h2 h3
      rw [he, normalized_of_plain h1 h2 (h ▸ h3.resolve_left hs)]
    · rw [if_neg he] at heq
      have hown := (own_swizzle he).1
      rw [heq, h] at hown
      rw [heq, normalized_of_own hs hown]

/-- The entries with the key of a request. -/
def entriesOf (params : PackingParams) : List Packing :=
  ((List.range 63).map Packing.ofNat).filter fun q =>
    q.entry.swizzle = params.normalized ∧ q.entry.bits = params.bits

theorem entriesOf_eq_singleton {params : PackingParams} {q : Packing}
    (hs : q.entry.swizzle = params.normalized) (hb : q.entry.bits = params.bits) :
    entriesOf params = [q] := by
  rw [← filter_eq_singleton key_nodup (mem_packings q), entriesOf]
  refine List.filter_congr fun x _ => ?_
  rw [← hs, ← hb, decide_eq_decide, Prod.mk.injEq]

theorem entriesOf_eq_nil {params : PackingParams}
    (h : ∀ q : Packing, ¬(q.entry.swizzle = params.normalized ∧ q.entry.bits = params.bits)) :
    entriesOf params = [] :=
  List.filter_eq_nil_iff.2 fun q _ => by simpa using h q

/-- What the filters by byte order and by swizzle make of the only entry. -/
theorem makePacking_of_singleton {params : PackingParams} {q : Packing}
    (h : entriesOf params = [q]) : makePacking params =
      if 2 ≤ params.swizzle.getNumChannels ∧ q.entry.byteOrder ≠ params.byteOrder then none
      else if params.swizzle ≠ .S0000 ∧ (if q.entry.swizzle = .S0000 then
        makeSwizzleFromBits params.bits else q.entry.swizzle) ≠ params.swizzle then none
      else some q := by
  unfold entriesOf PackingParams.normalized at h
  unfold makePacking
  dsimp only
  rw [h]
  simp only [List.foldl_nil, ite_self]

theorem makePacking_of_nil {params : PackingParams} (h : entriesOf params = []) :
    makePacking params = none := by
  unfold entriesOf PackingParams.normalized at h
  unfold makePacking
  dsimp only
  rw [h]

/-- **The packings that are found** are those that meet the request. -/
theorem makePacking_eq_some {params : PackingParams} {q : Packing} :
    makePacking params = some q ↔ q.Meets params := by
  by_cases hex : ∃ p : Packing, p.entry.swizzle = params.normalized ∧ p.entry.bits = params.bits
  · obtain ⟨p, hs, hb⟩ := hex
    rw [makePacking_of_singleton (entriesOf_eq_singleton hs hb), ← hb, ← getParams_swizzle,
      ← getParams_byteOrder]
    constructor
    · intro h
      split_ifs at h with h1 h2
      obtain rfl := Option.some.inj h
      have hsw := (normalized_iff hb).2 ⟨hs, fun h0 => not_not.1 fun hne => h2 ⟨h0, hne⟩⟩
      exact ⟨by rw [getParams_bits, hb], hsw, fun h0 => not_not.1 fun hne => h1 ⟨h0, hne⟩⟩
    · rintro ⟨hbits, hsw, hord⟩
      rw [getParams_bits] at hbits
      obtain ⟨hs', hfilter⟩ := (normalized_iff hbits).1 hsw
      have hpq : p = q := List.singleton_inj.1
        ((entriesOf_eq_singleton hs hb).symm.trans (entriesOf_eq_singleton hs' hbits))
      subst hpq
      rw [if_neg fun h => h.2 (hord h.1), if_neg fun h => h.2 (hfilter h.1)]
  · rw [makePacking_of_nil (entriesOf_eq_nil fun p hp => hex ⟨p, hp⟩)]
    refine iff_of_false (by simp) fun h => hex ⟨q, ?_, ?_⟩
    · exact ((normalized_iff (getParams_bits q ▸ h.bits)).1 h.swizzle).1
    · exact getParams_bits q ▸ h.bits

/-! ## Main result -/

end Nvcv
