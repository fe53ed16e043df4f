import CvCuda.Nvcv.TensorShape

/-! # What a permutation of a shape keeps

* `returns_permute_iff`: the shape a permutation returns gives each label of the new layout, at its
  first position, what it stood for.
* `permute_permute_iff`: a layout in between changes nothing exactly when the labels of the last
  layout that it does not have once stand for 1.
* `permute_back_iff`: when a shape comes back, and how its volume changes.
-/

namespace Nvcv

open Outcome Labelled

namespace TensorLayout
variable {layout : TensorLayout}

theorem length_labels (h : layout.InBounds) : layout.labels.length = layout.rank.toInt.toNat := by
  obtain ⟨h0, h16⟩ := h
  rw [Int32.le_iff_toInt_le] at h0 h16
  have hle : layout.rank.toInt ≤ 16 := h16
  rw [labels, List.length_take, Vector.length_toList]
  unfold tensorMaxRank
  omega

theorem labels_ne_nil (h : layout.InBounds) (h0 : layout.rank ≠ 0) : layout.labels ≠ [] := by
  intro hnil
  have hlen := length_labels h
  rw [hnil] at hlen
  have hle := Int32.le_iff_toInt_le.1 h.1
  have hz : layout.rank.toInt = 0 := by
    have : (0 : Int32).toInt = 0 := rfl
    simp only [List.length_nil] at hlen
    omega
  exact h0 (Int32.toInt_inj.1 hz)

theorem findDimIndex_of_mem {l : UInt8} (h : l ∈ layout.labels) :
    layout.findDimIndex l = layout.labels.idxOf l := if_pos h

theorem findDimIndex_of_notMem {l : UInt8} (h : l ∉ layout.labels) :
    layout.findDimIndex l = -1 := if_neg h

end TensorLayout

/-- One turn of the loop sets the first position of the label, if there is one. -/
theorem permuteShape_step (dstLayout : TensorLayout) {dst rest : List Int64}
    (hlen : dst.length = dstLayout.labels.length) (l : UInt8) (n : Int64) :
    (if dstLayout.findDimIndex l ≥ 0
      then (dst ++ rest).set (dstLayout.findDimIndex l).toNat n else dst ++ rest) =
      dst.set (dstLayout.labels.idxOf l) n ++ rest := by
  by_cases h : l ∈ dstLayout.labels
  · have hidx := List.idxOf_lt_length_of_mem h
    rw [TensorLayout.findDimIndex_of_mem h, if_pos (Int.natCast_nonneg _), Int.toNat_natCast,
      List.set_append_left _ _ (hlen ▸ hidx)]
  · rw [TensorLayout.findDimIndex_of_notMem h, if_neg (by decide), List.idxOf_eq_length h, ← hlen,
      List.set_eq_of_length_le le_rfl]

/-- **The loop** of `PermuteShape`. What lies behind the shape stays. -/
theorem permuteShape_loop (dstLayout : TensorLayout) (ps : List (UInt8 × Int64))
    (rest : List Int64) :
    ps.foldl (fun dst p =>
        let dstIdx := dstLayout.findDimIndex p.1
        if dstIdx ≥ 0 then dst.set dstIdx.toNat p.2 else dst)
      (List.replicate dstLayout.labels.length 1 ++ rest) =
      relabel (values ps) dstLayout.labels ++ rest := by
  have hgen : ∀ dst : List Int64, dst.length = dstLayout.labels.length →
      ps.foldl (fun dst p =>
          let dstIdx := dstLayout.findDimIndex p.1
          if dstIdx ≥ 0 then dst.set dstIdx.toNat p.2 else dst) (dst ++ rest) =
        ps.foldl (fun dst p => dst.set (dstLayout.labels.idxOf p.1) p.2) dst ++ rest := by
    intro dst hlen
    induction ps generalizing dst with
    | nil => rfl
    | cons p ps ih =>
      rw [List.foldl_cons, List.foldl_cons, permuteShape_step dstLayout hlen,
        ih _ ((List.length_set).trans hlen)]
  rw [hgen _ List.length_replicate, foldl_set]

theorem returns_permuteShape_iff {srcLayout dstLayout : TensorLayout} {src dst out : List Int64} :
    Returns (permuteShape srcLayout (some src) dstLayout (some dst)) out ↔
      (srcLayout.InBounds ∧ dstLayout.InBounds ∧ srcLayout.labels.length ≤ src.length ∧
        dstLayout.labels.length ≤ dst.length) ∧
      out = relabel (values (srcLayout.labels.zip src)) dstLayout.labels ++
        dst.drop dstLayout.labels.length := by
  unfold permuteShape
  dsimp only
  split_ifs with h
  · rw [returns_pure, permuteShape_loop, and_iff_right h, eq_comm]
  · rw [returns_lift]
    exact iff_of_false (by simp) fun hc => h hc.1

namespace TensorShape
variable {src mid out : TensorShape} {layout layout' : TensorLayout}

theorem ext_iff' {s t : TensorShape} : s = t ↔ s.shape = t.shape ∧ s.layout = t.layout := by
  cases s
  cases t
  simp

theorem returns_make_iff {shape : List Int64} :
    Returns (make shape layout) out ↔ out.shape = shape ∧ out.layout = layout := by
  unfold make
  rw [returns_refuse_bind]
  constructor
  · rintro ⟨-, h⟩
    split_ifs at h with hc
    · obtain rfl := returns_pure.1 h
      exact ⟨rfl, rfl⟩
    · exact absurd (returns_lift.1 h) (by simp)
  · rintro ⟨rfl, rfl⟩
    refine ⟨fun h => h.2 (out.rank_eq h.1), ?_⟩
    rw [dif_pos ⟨⟨out.rank_le, out.inBounds⟩, out.rank_eq⟩]
    exact returns_pure.2 rfl

/-- What a call of `Permute` needs. -/
def Permutes (src : TensorShape) (layout : TensorLayout) : Prop :=
  layout.InBounds ∧ layout.labels.length ≤ tensorMaxRank ∧ src.shape ≠ [] ∧ layout.rank ≠ 0

theorem length_labels_le (src : TensorShape) : src.layout.labels.length ≤ src.shape.length := by
  by_cases h : src.layout.rank = 0
  · rw [TensorLayout.length_labels src.inBounds, h]
    exact Nat.zero_le _
  · exact (src.rank_eq h).le

/-- **A permutation** gives the labels of the new layout what they stood for. -/
theorem returns_permute_iff :
    Returns (permute src layout) out ↔
      Permutes src layout ∧ out.layout = layout ∧ out.shape = relabel src.size layout.labels := by
  unfold permute
  split_ifs with h
  · rw [and_iff_right (show Permutes src layout from h), returns_bind]
    constructor
    · rintro ⟨dst, hdst, hmake⟩
      obtain ⟨-, rfl⟩ := returns_permuteShape_iff.1 hdst
      obtain ⟨hshape, hlayout⟩ := returns_make_iff.1 hmake
      refine ⟨hlayout, ?_⟩
      rw [hshape, List.drop_eq_nil_of_le List.length_replicate.le, List.append_nil]
      rfl
    · rintro ⟨hlayout, hshape⟩
      refine ⟨_, returns_permuteShape_iff.2 ⟨⟨src.inBounds, h.1, src.length_labels_le,
        List.length_replicate.ge⟩, rfl⟩, returns_make_iff.2 ⟨?_, hlayout⟩⟩
      rw [hshape, List.drop_eq_nil_of_le List.length_replicate.le, List.append_nil]
      rfl
  · rw [returns_lift]
    exact iff_of_false (by simp) fun hc => h hc.1

theorem size_permute (h : Returns (permute src layout) out) (l : UInt8) :
    out.size l = if layout.labels.count l = 1 then src.size l else 1 := by
  obtain ⟨-, hlayout, hshape⟩ := returns_permute_iff.1 h
  rw [size, hlayout, hshape, values_relabel]

theorem shape_ne_nil_of_permute (h : Returns (permute src layout) out) : out.shape ≠ [] := by
  obtain ⟨hp, -, hshape⟩ := returns_permute_iff.1 h
  rw [hshape, Ne, ← List.length_eq_zero_iff, length_relabel, List.length_eq_zero_iff]
  exact TensorLayout.labels_ne_nil hp.1 hp.2.2.2

/-- An image in rows of pixels. -/
def threeRows : TensorShape where
  shape := [3, 5, 4]
  layout := .make ['H', 'W', 'C']
  rank_le := by decide
  inBounds := by decide
  rank_eq := by decide

/-- Its planes. -/
def fourPlanes : TensorShape where
  shape := [1, 4, 3, 5]
  layout := .make ['N', 'C', 'H', 'W']
  rank_le := by decide
  inBounds := by decide
  rank_eq := by decide

/-- **A layout in between** changes nothing of what a permutation returns exactly when the labels
asked for in the end that the layout in between does not have once stand for 1. -/
theorem permute_permute_iff (hmid : Returns (permute src layout) mid)
    (hout : Returns (permute mid layout') out) :
    Returns (permute src layout') out ↔
      ∀ l ∈ layout'.labels, layout.labels.count l ≠ 1 → src.size l = 1 := by
  obtain ⟨hpm, hlm, hsm⟩ := returns_permute_iff.1 hmid
  obtain ⟨hpo, hlo, hso⟩ := returns_permute_iff.1 hout
  have hp : Permutes src layout' := ⟨hpo.1, hpo.2.1, hpm.2.2.1, hpo.2.2.2⟩
  rw [returns_permute_iff, and_iff_right hp, and_iff_right hlo, hso, size, hlm, hsm,
    relabel_relabel_iff]

theorem permute_permute_threeRows :
    Returns (permute threeRows threeRows.layout) threeRows ↔
      ∀ l ∈ threeRows.layout.labels,
        fourPlanes.layout.labels.count l ≠ 1 → threeRows.size l = 1 :=
  @permute_permute_iff threeRows fourPlanes threeRows fourPlanes.layout threeRows.layout
    (by decide) (by decide)

/-- The number of elements. -/
def elements (s : TensorShape) : Int := (s.shape.map Int64.toInt).prod

/-- **There and back**: a shape of different labels comes back exactly when the labels that the
layout in between does not have once stand for 1. -/
theorem permute_back_iff (hmid : Returns (permute src layout) mid) (hrank : src.layout.rank ≠ 0)
    (hnodup : src.layout.labels.Nodup) :
    Returns (permute mid src.layout) src ↔
      ∀ l ∈ src.layout.labels, layout.labels.count l ≠ 1 → src.size l = 1 := by
  obtain ⟨hpm, hlm, hsm⟩ := returns_permute_iff.1 hmid
  have hp : Permutes mid src.layout :=
    ⟨src.inBounds, (src.rank_eq hrank).trans_le src.rank_le, shape_ne_nil_of_permute hmid,
      hrank⟩
  have hself : relabel src.size src.layout.labels = src.shape :=
    relabel_self hnodup (src.rank_eq hrank)
  rw [returns_permute_iff, and_iff_right hp, and_iff_right rfl, eq_comm]
  rw [← hself]
  rw [size, hlm, hsm, relabel_relabel_iff]

theorem permute_back_threeRows :
    Returns (permute fourPlanes threeRows.layout) threeRows ↔
      ∀ l ∈ threeRows.layout.labels,
        fourPlanes.layout.labels.count l ≠ 1 → threeRows.size l = 1 :=
  @permute_back_iff threeRows fourPlanes fourPlanes.layout (by decide) (by decide) (by decide)

/-- **The number of elements** is that of the permuted shape times the sizes of the dimensions that
it does not have. -/
theorem elements_eq_permute (hmid : Returns (permute src layout) mid)
    (hrank : src.layout.rank ≠ 0) (hnodup : src.layout.labels.Nodup)
    (hnodup' : layout.labels.Nodup) :
    src.elements = mid.elements *
      ((src.layout.labels.filter fun l => l ∉ layout.labels).map
        fun l => (src.size l).toInt).prod := by
  obtain ⟨-, -, hsm⟩ := returns_permute_iff.1 hmid
  rw [elements, elements, hsm]
  exact prod_relabel Int64.toInt rfl hnodup hnodup' (src.rank_eq hrank)

theorem elements_eq_permute_threeRows :
    threeRows.elements = fourPlanes.elements *
      ((threeRows.layout.labels.filter fun l => l ∉ fourPlanes.layout.labels).map
        fun l => (threeRows.size l).toInt).prod :=
  @elements_eq_permute threeRows fourPlanes fourPlanes.layout (by decide) (by decide) (by decide) (by decide)

end TensorShape

end Nvcv
