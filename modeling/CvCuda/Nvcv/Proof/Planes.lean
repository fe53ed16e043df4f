import CvCuda.Nvcv.Planes
import CvCuda.Nvcv.Proof.ExtraChannels

/-! # A format from its planes

Which formats `FromPlanes` puts together again from their planes: those whose packings leave no
gap, and either have one plane or split their swizzle in one of the ways of `Swizzle.splits`.

* `splitsBack_iff`: the renumbering of the channels, apart from formats.
* `ofColorFormat_stored`: the constructor that planes are made with, called with what the getters of
  a format return.
* `returns_planeFormat`, `returns_fromPlanes`: the two halves of the way.
* `mergePlanes_iff`: the whole of it.
-/

namespace Nvcv

open Bitfield Outcome

/-! ## Swizzles -/

namespace Swizzle

/-- The channels of the planes, for each way to more than one plane on which the swizzle comes
back. -/
def splits : Swizzle → List (List Nat)
  | .SXY00 | .SXZ00 | .SYX00 | .SYW00 | .SYZ00 | .SXY01 | .SYX01 => [[1, 1]]
  | .SXYZ0 | .SXYZ1 | .SZYX0 | .SZYX1 | .SYZW0 => [[1, 2], [2, 1], [1, 1, 1]]
  | .SXZY0 | .SXZY1 => [[1, 2], [1, 1, 1]]
  | .SYZX1 | .SXYW0 => [[2, 1], [1, 1, 1]]
  | .SXYZW | .SZYXW => [[2, 2], [3, 1], [1, 1, 2], [1, 2, 1], [2, 1, 1], [1, 1, 1, 1]]
  | .SWXYZ | .SWZYX | .SYZWX => [[2, 2], [1, 1, 2], [1, 2, 1], [2, 1, 1], [1, 1, 1, 1]]
  | .SYZXW => [[2, 2], [1, 1, 2], [2, 1, 1], [1, 1, 1, 1]]
  | .SWYXZ => [[1, 2, 1], [1, 1, 1, 1]]
  | _ => []

/-- The swizzles of planes of so many channels each. -/
def split (swizzle : Swizzle) (ns : List Nat) : Call (List Swizzle) :=
  (List.range ns.length).mapM fun i =>
    ofPlane swizzle.getChannels (ns.take i).sum (ns.getD i 0)

def merge (sws : List Swizzle) : Call Swizzle :=
  mergePlaneSwizzles (sws.getD 0 .S0000) (sws.getD 1 .S0000) (sws.getD 2 .S0000)
    (sws.getD 3 .S0000)

/-- The planes have the channels asked for, and the swizzle comes back from theirs. -/
def SplitsBack (swizzle : Swizzle) (ns : List Nat) : Prop :=
  ∃ sws, Returns (split swizzle ns) sws ∧
    sws.map getNumChannels = ns ∧ Returns (merge sws) swizzle

theorem merge_one (swizzle : Swizzle) : Returns (merge [swizzle]) swizzle := by
  unfold merge mergePlaneSwizzles
  rw [if_pos (by rfl), returns_refuse_bind, returns_pure]
  exact ⟨not_not.2 ⟨rfl, rfl⟩, rfl⟩

instance (swizzle : Swizzle) (ns : List Nat) : Decidable (SplitsBack swizzle ns) :=
  inferInstanceAs (Decidable (∃ sws, Returns (split swizzle ns) sws ∧ _))

/-- The channels of two planes or more, of four channels together at most. The second plane has no
more than two. -/
def plans : List (List Nat) :=
  [[1, 1], [1, 2], [2, 1], [2, 2], [3, 1], [1, 1, 1], [1, 1, 2], [1, 2, 1], [2, 1, 1], [1, 1, 1, 1]]

theorem splitsBack_iff {swizzle : Swizzle} {ns : List Nat} (hns : ns ∈ plans)
    (h : swizzle.getNumChannels = ns.sum) : SplitsBack swizzle ns ↔ ns ∈ swizzle.splits := by
  revert ns
  cases swizzle <;> decide +kernel

theorem mem_plans {n : Nat} {k : Nat → Nat} (h2 : 2 ≤ n) (h4 : n ≤ 4) (hpos : ∀ i < n, 0 < k i)
    (h1 : k 1 ≤ 2) (hsum : ((List.range n).map k).sum ≤ 4) : (List.range n).map k ∈ plans := by
  have p0 := hpos 0 (by omega)
  have p1 := hpos 1 (by omega)
  generalize hx : k 0 = x at p0
  generalize hy : k 1 = y at p1 h1
  interval_cases n
  · have hl : (List.range 2).map k = [x, y] := by
      rw [← hx, ← hy]
      rfl
    rw [hl] at hsum ⊢
    simp only [List.sum_cons, List.sum_nil] at hsum
    have hx3 : x ≤ 3 := by omega
    interval_cases x <;> interval_cases y <;> first | omega | decide
  · have p2 := hpos 2 (by omega)
    generalize hz : k 2 = z at p2
    have hl : (List.range 3).map k = [x, y, z] := by
      rw [← hx, ← hy, ← hz]
      rfl
    rw [hl] at hsum ⊢
    simp only [List.sum_cons, List.sum_nil] at hsum
    have hx2 : x ≤ 2 := by omega
    have hz2 : z ≤ 2 := by omega
    interval_cases x <;> interval_cases y <;> interval_cases z <;> first | omega | decide
  · have p2 := hpos 2 (by omega)
    have p3 := hpos 3 (by omega)
    have hl : (List.range 4).map k = [x, y, k 2, k 3] := by
      rw [← hx, ← hy]
      rfl
    rw [hl] at hsum ⊢
    simp only [List.sum_cons, List.sum_nil] at hsum
    obtain ⟨rfl, rfl, h2', h3'⟩ : x = 1 ∧ y = 1 ∧ k 2 = 1 ∧ k 3 = 1 := by omega
    rw [h2', h3']
    decide

theorem getNumChannels_le (swizzle : Swizzle) : swizzle.getNumChannels ≤ 4 := by
  exact List.countP_le_length

end Swizzle

/-! ## Enumerators of values -/

theorem Packing.ofValue_value (p : Packing) : Packing.ofValue p.value = some p := by
  cases p <;> decide +kernel

theorem Swizzle.ofValue_value (s : Swizzle) : Swizzle.ofValue s.value = some s := by
  cases s <;> decide +kernel

theorem MemLayout.ofValue_value (m : MemLayout) : MemLayout.ofValue m.value = some m := by
  cases m <;> decide

theorem AlphaType.ofValue_value (t : AlphaType) : AlphaType.ofValue t.value = some t := by
  cases t <;> decide

theorem ChromaSubsampling.ofValue_value (c : ChromaSubsampling) :
    ChromaSubsampling.ofValue c.value = some c := by
  cases c <;> decide

theorem RawPattern.ofValue_value (r : RawPattern) : RawPattern.ofValue r.value = some r := by
  cases r <;> decide

theorem ColorModel.ofValue_value (m : ColorModel) : ColorModel.ofValue m.value = some m := by
  cases m <;> decide

/-- Three bits of the value are enough. -/
theorem DataKind.ofValue_value (d : DataKind) :
    DataKind.ofValue (get d.value 0 3) = some d := by
  cases d <;> decide

/-- The packing of a plane. -/
def FormatArgs.packing (a : FormatArgs) : Nat → Packing
  | 0 => a.packing0
  | 1 => a.packing1
  | 2 => a.packing2
  | 3 => a.packing3
  | _ => .zero

/-- No plane without a packing comes before one with a packing. -/
def FormatArgs.NoGap (a : FormatArgs) : Prop :=
  (a.packing1 = .zero → a.packing2 = .zero) ∧ (a.packing2 = .zero → a.packing3 = .zero)

instance (a : FormatArgs) : Decidable a.NoGap := inferInstanceAs (Decidable (_ ∧ _))

namespace ImageFormat

/-! ## The constructor of the planes -/

/-- What the getters return of the colors of a format. -/
def Passed.stored (t : Passed) : ColorFormat where
  model := t.colorModel
  cspec := if t.colorModel = .YCbCr ∨ t.colorModel = .RGB then t.colorSpec else .undefined
  raw := t.rawPattern.getD .bayerRGGB

section
variable {t : Passed} {a : FormatArgs} {s : BitVec 64}

theorem Passed.stored_cspec_undefined (h : ¬(t.colorModel = .YCbCr ∨ t.colorModel = .RGB)) :
    t.stored.cspec = .undefined := if_neg h

theorem Checked.rawPattern_none (h : Checked t) (hm : t.colorModel ≠ .RAW) :
    t.rawPattern = none := by
  rw [← Option.not_isSome_iff_eq_none, ← h.raw]
  exact hm

theorem plain_colorFormat (h : Checked t) :
    (plain t.colorModel t.bits s a).colorFormat = some t.stored := by
  have hraw := checked_rawPattern (s := s) (a := a) h rfl
  unfold colorFormat
  rw [plain_colorModel, ColorModel.ofValue_value, hraw]
  cases hr : t.rawPattern with
  | some r =>
    have hm : t.colorModel = .RAW := h.raw.2 (by rw [hr]; rfl)
    have hspec : t.stored.cspec = .undefined := by
      apply Passed.stored_cspec_undefined
      rw [hm]
      decide
    have hst : t.stored.raw = r := by rw [Passed.stored, hr]; rfl
    simp only [Option.map_some, RawPattern.ofValue_value, ← hst, ← hspec]
    rfl
  | none =>
    have hspec : (plain t.colorModel t.bits s a).colorSpec = t.stored.cspec := by
      by_cases hm : t.colorModel = .YCbCr ∨ t.colorModel = .RGB
      · rw [Passed.stored, if_pos hm]
        refine (checked_colorSpec h).2 fun hk => ?_
        rcases hm with hm | hm <;> rw [hm] at hk <;> exact absurd hk (by decide)
      · rw [Passed.stored_cspec_undefined hm]
        exact plain_colorSpec_undefined (not_or.1 hm).1 (not_or.1 hm).2
    have hst : t.stored.raw = .bayerRGGB := by rw [Passed.stored, hr]; rfl
    simp only [Option.map_none, hspec, ← hst]
    rfl

theorem validated_ok {x : Except Exception Unit} {f g : ImageFormat} :
    (do x; return f) = .ok g ↔ x = .ok () ∧ g = f := by
  rcases x with e | u
  · exact iff_of_false (fun h => by cases h) fun h => by cases h.1
  · constructor
    · intro h
      cases h
      exact ⟨rfl, rfl⟩
    · rintro ⟨-, rfl⟩
      rfl

theorem colorBits_stored (c : BitVec 64) (hm : t.colorModel ≠ .RAW) :
    colorBits t.colorModel (t.stored.cspec.setWidth 64) c =
      colorBits t.colorModel (t.colorSpec.setWidth 64) c := by
  by_cases hc : t.colorModel = .YCbCr ∨ t.colorModel = .RGB
  · rw [Passed.stored, if_pos hc]
  · obtain ⟨h₁, h₂⟩ := not_or.1 hc
    have hk : t.colorModel ∉ [.YCbCr, .RGB, .RAW] := by
      simp only [List.mem_cons, List.not_mem_nil, or_false, not_or]
      exact ⟨h₁, h₂, hm⟩
    rw [colorBits_const hk, colorBits_const (v := t.colorSpec.setWidth 64) hk]

theorem validateColor_stored (print : ColorSpec → String) {css : ChromaSubsampling}
    (hm : t.colorModel ≠ .RAW) (hcss : t.colorModel ≠ .YCbCr → css = .none) :
    validateColor print t.colorModel t.stored.cspec css = .ok () := by
  unfold validateColor
  rw [if_neg hm]
  have hu : ¬(t.colorModel = .undefined ∧ (t.stored.cspec ≠ .undefined ∨ css ≠ .none)) := by
    rintro ⟨hu, hs | hs⟩
    · refine hs (Passed.stored_cspec_undefined ?_)
      rw [hu]
      decide
    · refine hs (hcss ?_)
      rw [hu]
      decide
  rw [if_neg hu]
  have hspec := Passed.stored_cspec_undefined (t := t)
  cases hc : t.colorModel with
  | RGB => rfl
  | YCbCr => rfl
  | YCCK => rfl
  | CMYK => rfl
  | _ =>
    rw [hc] at hspec
    exact if_neg (not_not.2 (hspec (by decide)))

/-- **The constructor of the planes**, called with the colors of a format, makes the format of
these colors. -/
theorem ofColorFormat_stored (print : ColorSpec → String) (h : Checked t)
    {css : ChromaSubsampling} (hcss : t.colorModel ≠ .YCbCr → css = .none) (hn : NoExtra a)
    (hx : validateExtraChannelInfo a = .ok ()) :
    ofColorFormat print t.stored css a = (do
      validateSwizzlePacking a
      return plain t.colorModel t.bits css.value a) := by
  have hmodel : t.stored.model = t.colorModel := rfl
  have hplain : ∀ m v c, makeFormat m v c a = plain m v c a := fun m v c => makeFormat_plain hn
  unfold ofColorFormat
  rw [hmodel]
  by_cases hm : t.colorModel = .RAW
  · have hc : css = .none := hcss (by rw [hm]; decide)
    obtain ⟨r, hr⟩ := Option.isSome_iff_exists.1 (h.raw.1 hm)
    have hbits : t.bits = t.stored.raw.value := by
      rw [Passed.bits, Passed.stored, hr]
      rfl
    rw [if_pos hm, hm, hbits, hc]
    simp only [ofRawPattern, hx, hplain]
    rfl
  · have hbits : t.bits = t.colorSpec.setWidth 64 := by
      rw [Passed.bits, h.rawPattern_none hm]
    have hword : ∀ c, plain t.colorModel (t.stored.cspec.setWidth 64) c a =
        plain t.colorModel t.bits c a := by
      intro c
      rw [plain, colorBits_stored c hm, hbits, plain]
    rw [if_neg hm]
    simp only [ofColorModel, validateColor_stored print hm hcss, hx, hplain]
    by_cases hy : t.colorModel = .YCbCr
    · rw [← hword, hy]
      rfl
    · rw [if_neg hy, hcss hy, ← hword]
      rfl

end

/-! ## The packings of a format -/

/-- A format that a constructor made without extra channels. -/
structure Made (c : Color) (a : FormatArgs) (f : ImageFormat) : Prop where
  checked : Checked (passed c a)
  valid : validateSwizzlePacking a = .ok ()
  word : f = plain (passed c a).colorModel (passed c a).bits (passed c a).css.value a

theorem construct_made {print : ColorSpec → String} {c : Color} {a : FormatArgs} {f : ImageFormat}
    (hn : NoExtra a) (h : construct print c a = .ok f) : Made c a f := by
  obtain ⟨hch, hw⟩ := construct_ok hn h
  obtain ⟨m, v, s, -, hs, -⟩ := construct_extra h
  exact ⟨hch, hs, hw⟩

theorem validateSwizzlePacking_channels {a : FormatArgs} {u : Unit}
    (h : validateSwizzlePacking a = .ok u) : a.packing0 ≠ .zero ∧
      a.swizzle.getNumChannels = a.packing0.getNumChannels + a.packing1.getNumChannels +
        a.packing2.getNumChannels + a.packing3.getNumChannels := by
  obtain ⟨hz, h⟩ := check_ok h
  obtain ⟨-, h⟩ := check_ok h
  obtain ⟨-, h⟩ := check_ok h
  obtain ⟨-, h⟩ := check_ok h
  obtain ⟨-, h⟩ := check_ok h
  obtain ⟨-, h⟩ := check_ok h
  obtain ⟨-, h⟩ := check_ok h
  obtain ⟨-, h⟩ := check_ok h
  obtain ⟨-, h⟩ := check_ok h
  obtain ⟨hn, -⟩ := check_ok h
  exact ⟨hz, not_not.1 hn⟩

theorem getNumChannels_pos {p : Packing} (h : p ≠ .zero) : 0 < p.getNumChannels :=
  Nat.pos_of_ne_zero fun h0 => h (getNumChannels_eq_zero.1 h0)

section
variable {c : Color} {a : FormatArgs} {f : ImageFormat}

/-- The packings after a gap apart, all packings read back. -/
theorem Made.planePacking (h : Made c a f) (hgap : a.NoGap) (i : Nat) :
    f.planePacking i = (a.packing i).value := by
  obtain ⟨hch, hs, rfl⟩ := h
  obtain ⟨hz, hsum⟩ := validateSwizzlePacking_channels hs
  have hle := a.swizzle.getNumChannels_le
  have h0 := getNumChannels_pos hz
  have h2 : a.packing2 ≠ .zero → 0 < a.packing1.getNumChannels :=
    fun h2 => getNumChannels_pos fun h1 => h2 (hgap.1 h1)
  have h3 : a.packing3 ≠ .zero → 0 < a.packing1.getNumChannels ∧ 0 < a.packing2.getNumChannels :=
    fun h3 => ⟨h2 fun h => h3 (hgap.2 h), getNumChannels_pos fun h => h3 (hgap.2 h)⟩
  match i with
  | 0 => exact plain_planePacking0 hch.code0
  | 1 => exact plain_planePacking1 hch.code1 hch.bpp1 hch.channels1
  | 2 =>
    refine (plain_planePacking2 hch.code2 hch.bpp2).2 ?_
    by_cases hp : a.packing2 = .zero
    · rw [hp]
      decide
    · have := h2 hp
      omega
  | 3 =>
    refine (plain_planePacking3 hch.code3 hch.bpp3).2 ?_
    by_cases hp : a.packing3 = .zero
    · rw [hp]
      decide
    · have := h3 hp
      omega
  | _ + 4 => rfl

theorem Made.planeNumChannels (h : Made c a f) (hgap : a.NoGap) (i : Nat) :
    f.planeNumChannels i = (a.packing i).getNumChannels := by
  rw [ImageFormat.planeNumChannels, h.planePacking hgap, numChannelsOf_value]

theorem Made.numPlanes (h : Made c a f) : f.numPlanes =
    1 + (if a.packing1 ≠ .zero then 1 else 0) + (if a.packing2 ≠ .zero then 1 else 0) +
      if a.packing3 ≠ .zero then 1 else 0 := by
  obtain ⟨-, hs, rfl⟩ := h
  obtain ⟨n0, n1, n2, n3⟩ := plain_planeNumChannels_eq_zero (m := (passed c a).colorModel)
    (v := (passed c a).bits) (s := (passed c a).css.value) hs
  simp only [ImageFormat.numPlanes, if_pos n0, ne_eq, n1, n2, n3]

theorem Made.packing_ne_zero (h : Made c a f) (hgap : a.NoGap) {i : Nat} :
    a.packing i ≠ .zero ↔ i < f.numPlanes := by
  have h0 : a.packing0 ≠ .zero := (validateSwizzlePacking_channels h.valid).1
  have hn := h.numPlanes
  obtain ⟨g1, g2⟩ := hgap
  by_cases h1 : a.packing1 = .zero
  · have h2 := g1 h1
    have h3 := g2 h2
    rw [if_neg (not_not.2 h1), if_neg (not_not.2 h2), if_neg (not_not.2 h3)] at hn
    rcases i with _ | _ | _ | _ | i <;> simp [FormatArgs.packing, h0, h1, h2, h3, hn]
  · rw [if_pos h1] at hn
    by_cases h2 : a.packing2 = .zero
    · have h3 := g2 h2
      rw [if_neg (not_not.2 h2), if_neg (not_not.2 h3)] at hn
      rcases i with _ | _ | _ | _ | i <;> simp [FormatArgs.packing, h0, h1, h2, h3, hn]
    · rw [if_pos h2] at hn
      by_cases h3 : a.packing3 = .zero
      · rw [if_neg (not_not.2 h3)] at hn
        rcases i with _ | _ | _ | _ | i <;> simp [FormatArgs.packing, h0, h1, h2, h3, hn]
      · rw [if_pos h3] at hn
        rcases i with _ | _ | _ | _ | i <;> simp [FormatArgs.packing, h0, h1, h2, h3, hn]

theorem Made.numPlanes_pos (h : Made c a f) : 0 < f.numPlanes := by
  rw [h.numPlanes]
  omega

/-- The channels by plane. -/
def counts (a : FormatArgs) (f : ImageFormat) : List Nat :=
  (List.range f.numPlanes).map fun i => (a.packing i).getNumChannels

theorem length_of_counts {sws : List Swizzle} (h : sws.map Swizzle.getNumChannels = counts a f) :
    sws.length = f.numPlanes := by
  rw [← List.length_map (f := Swizzle.getNumChannels), h, counts, List.length_map,
    List.length_range]

theorem Made.packing_getNumChannels (h : Made c a f) (hgap : a.NoGap) {i : Nat} :
    0 < (a.packing i).getNumChannels ↔ i < f.numPlanes := by
  rw [← h.packing_ne_zero hgap, Nat.pos_iff_ne_zero, ne_eq, getNumChannels_eq_zero]

theorem Made.numPlanes_le (h : Made c a f) : f.numPlanes ≤ 4 := by
  rw [h.numPlanes]
  split_ifs <;> omega

theorem Made.counts_sum (h : Made c a f) (hgap : a.NoGap) :
    (counts a f).sum = a.swizzle.getNumChannels := by
  have hpos := @Made.packing_getNumChannels _ _ _ h hgap
  have h1 := hpos (i := 1)
  have h2 := hpos (i := 2)
  have h3 := hpos (i := 3)
  have hn := h.numPlanes_pos
  have hle := h.numPlanes_le
  rw [(validateSwizzlePacking_channels h.valid).2, counts]
  simp only [FormatArgs.packing] at h1 h2 h3
  generalize f.numPlanes = n at *
  interval_cases n <;> simp [List.range_succ, FormatArgs.packing] <;> omega

theorem Made.counts_mem (h : Made c a f) (hgap : a.NoGap) (h2 : 2 ≤ f.numPlanes) :
    counts a f ∈ Swizzle.plans := by
  refine Swizzle.mem_plans h2 h.numPlanes_le (fun i => (h.packing_getNumChannels hgap).2)
    h.checked.channels1 ?_
  rw [← counts, h.counts_sum hgap]
  exact a.swizzle.getNumChannels_le

/-! ## The planes of a format -/

/-- A plane that has no packing has no format. -/
theorem not_returns_planeFormat {print : ColorSpec → String} {i : Nat} {g : ImageFormat}
    (hi : i < f.numPlanes) (hp : f.planePacking i = Packing.zero.value) :
    ¬Returns (f.planeFormat print i) g := by
  intro h
  unfold planeFormat at h
  rw [if_pos hi] at h
  simp only [returns_bind, returns_lift, returns_ofExcept] at h
  obtain ⟨cf, -, css, -, memLayout, -, dataKind, -, sw, -, p, hpack, alphaType, -, e, -, h⟩ := h
  rw [hp, Packing.ofValue_value] at hpack
  cases hpack
  have hc : construct print (.colorFormat cf (if i = 0 then .none else css)) _ = .ok g := h
  obtain ⟨-, -, -, -, hs, -⟩ := construct_extra hc
  exact (validateSwizzlePacking_channels hs).1 rfl

/-- A gap is a plane without packing, among as many planes as there are packings. -/
theorem Made.gap (h : Made c a f) (hgap : ¬a.NoGap) :
    ∃ i < f.numPlanes, f.planePacking i = Packing.zero.value := by
  have hn := h.numPlanes
  obtain ⟨hch, -, rfl⟩ := h
  by_cases h1 : a.packing1 = .zero
  · refine ⟨1, ?_, ?_⟩
    · have h23 : a.packing2 ≠ .zero ∨ a.packing3 ≠ .zero := by
        by_contra hc
        obtain ⟨h2, h3⟩ := not_or.1 hc
        exact hgap ⟨fun _ => not_not.1 h2, fun _ => not_not.1 h3⟩
      rw [hn]
      rcases h23 with h2 | h3
      · rw [if_pos h2]
        omega
      · rw [if_pos h3]
        omega
    · rw [plain_planePacking1 hch.code1 hch.bpp1 hch.channels1, h1]
  · have h23 : a.packing2 = .zero ∧ a.packing3 ≠ .zero := by
      by_contra hc
      exact hgap ⟨fun h => absurd h h1, fun h2 => not_not.1 fun h3 => hc ⟨h2, h3⟩⟩
    refine ⟨2, ?_, ?_⟩
    · rw [hn, if_pos h1, if_pos h23.2]
      omega
    · rw [(plain_planePacking2 hch.code2 hch.bpp2).2 (by rw [h23.1]; decide), h23.1]

/-- What the getter returns of no extra channels. -/
def noInfo : ExtraChannelInfo := ⟨0, 0, .unspecified, .U⟩

theorem Made.extraChannelInfo (h : Made c a f) : f.extraChannelInfo.info? = some noInfo := by
  have hz : f.extraChannelInfo = {} := by
    unfold ImageFormat.extraChannelInfo
    by_cases h1 : f.numPlanes = 1
    · have hp : a.packing1 = .zero := by
        rw [h.numPlanes] at h1
        by_contra hne
        rw [if_pos hne] at h1
        omega
      have h47 : get f 47 3 = 0#64 := by
        have hf := h.word ▸ plain_field1 (m := (passed c a).colorModel) (v := (passed c a).bits)
          (c := (passed c a).css.value) (a := a)
        have hin : get (get f 44 7) 3 3 = get f 47 3 := get_get f (by decide)
        rw [← hin, hf, hp]
        decide
      simp only [if_pos h1, h47]
      rfl
    · rw [if_neg h1]
  rw [hz]
  rfl

/-- The arguments of a plane. -/
def planeArgs (a : FormatArgs) (sw : Swizzle) (p : Packing) : FormatArgs where
  memLayout := a.memLayout
  dataKind := a.dataKind
  swizzle := sw
  packing0 := p
  packing1 := .zero
  packing2 := .zero
  packing3 := .zero
  alphaType := a.alphaType
  exChannelInfo := some noInfo

theorem planeArgs_noExtra (a : FormatArgs) (sw : Swizzle) (p : Packing) :
    NoExtra (planeArgs a sw p) := by
  intro e he
  cases he
  decide

/-- The format of a plane. -/
def planeOf (c : Color) (a : FormatArgs) (i : Nat) (sw : Swizzle) : ImageFormat :=
  plain (passed c a).colorModel (passed c a).bits
    (if i = 0 then ChromaSubsampling.none else (passed c a).css).value
    (planeArgs a sw (a.packing i))

theorem Made.colorFormat (h : Made c a f) : f.colorFormat = some (passed c a).stored := by
  rw [h.word, plain_colorFormat h.checked]

theorem Made.css (h : Made c a f) : f.css = (passed c a).css.value := by
  rw [h.word, checked_css h.checked]

/-- The getters that read back what was passed, whatever it was. -/
theorem plain_getters {m : ColorModel} {v s : BitVec 64} {a : FormatArgs} :
    Swizzle.ofValue (plain m v s a).swizzle = some a.swizzle ∧
      MemLayout.ofValue (plain m v s a).memLayout = some a.memLayout ∧
      DataKind.ofValue (plain m v s a).dataKind = some a.dataKind ∧
      AlphaType.ofValue (plain m v s a).alphaType = some a.alphaType := by
  rw [plain_swizzle, plain_memLayout, plain_dataKind_bits, plain_alphaType]
  exact ⟨Swizzle.ofValue_value _, MemLayout.ofValue_value _, DataKind.ofValue_value _,
    AlphaType.ofValue_value _⟩

theorem Made.getters (h : Made c a f) : Swizzle.ofValue f.swizzle = some a.swizzle ∧
    MemLayout.ofValue f.memLayout = some a.memLayout ∧
    DataKind.ofValue f.dataKind = some a.dataKind ∧
    AlphaType.ofValue f.alphaType = some a.alphaType := by
  rw [h.word]
  exact plain_getters

theorem validateSwizzlePacking_plane {x : FormatArgs} (h1 : x.packing1 = .zero)
    (h2 : x.packing2 = .zero) (h3 : x.packing3 = .zero) (h0 : x.packing0 ≠ .zero)
    (hc : x.packing0.value &&& 0b1000#64 = 0) : validateSwizzlePacking x = .ok () ↔
      x.swizzle.getNumChannels = x.packing0.getNumChannels := by
  have hz : Packing.getNumChannels .zero = 0 := rfl
  constructor
  · intro h
    rw [(validateSwizzlePacking_channels h).2]
    simp only [h1, h2, h3, hz, Nat.add_zero]
  · intro h
    unfold validateSwizzlePacking
    simp only [h1, h2, h3, hz, Nat.add_zero]
    rw [if_neg h0, if_neg (not_not.2 hc), if_neg (by decide), if_neg (by decide),
      if_neg (by decide), if_neg (by decide), if_neg (by decide), if_neg (by decide),
      if_neg (by decide), if_neg (not_not.2 h)]

theorem Made.packing_code (h : Made c a f) (i : Nat) :
    (a.packing i).value &&& 0b1000#64 = 0 := by
  match i with
  | 0 => exact h.checked.code0
  | 1 => exact h.checked.code1
  | 2 => exact h.checked.code2
  | 3 =>
    have h3 : a.packing3.value &&& 0b1111#64 = 0 := h.checked.code3
    show a.packing3.value &&& 0b1000#64 = 0
    revert h3
    cases a.packing3 <;> decide
  | _ + 4 =>
    show Packing.zero.value &&& 0b1000#64 = 0
    decide

/-- **The planes**: each has the packing and the swizzle of the plane, and the rest from the
format, the chroma subsampling of the first plane apart. -/
theorem Made.returns_planeFormat (print : ColorSpec → String) (h : Made c a f) (hgap : a.NoGap)
    {i : Nat} (hi : i < f.numPlanes) {g : ImageFormat} : Returns (f.planeFormat print i) g ↔
      ∃ sw, Returns (f.planeSwizzle i) sw ∧
        sw.getNumChannels = (a.packing i).getNumChannels ∧ g = planeOf c a i sw := by
  obtain ⟨-, hmem, hkind, halpha⟩ := h.getters
  unfold planeFormat
  rw [if_pos hi]
  simp only [returns_bind, returns_lift, returns_ofExcept, h.colorFormat, h.css, hmem, hkind,
    halpha, h.extraChannelInfo, h.planePacking hgap, Packing.ofValue_value,
    ChromaSubsampling.ofValue_value, Option.some.injEq, exists_eq_left']
  refine exists_congr fun sw => and_congr_right fun _ => ?_
  have hcss : (passed c a).colorModel ≠ .YCbCr →
      (if i = 0 then ChromaSubsampling.none else (passed c a).css) = .none := by
    intro hm
    rw [h.checked.css hm, ite_self]
  have hvalid : validateSwizzlePacking (planeArgs a sw (a.packing i)) = .ok () ↔
      sw.getNumChannels = (a.packing i).getNumChannels :=
    validateSwizzlePacking_plane rfl rfl rfl ((h.packing_ne_zero hgap).2 hi) (h.packing_code i)
  have hmake := ofColorFormat_stored print h.checked hcss
    (planeArgs_noExtra a sw (a.packing i)) rfl
  rw [← hvalid, planeOf]
  exact hmake ▸ validated_ok

/-! ## All planes -/

/-- The formats of planes of these swizzles, from a plane on. -/
def planesFrom (c : Color) (a : FormatArgs) : Nat → List Swizzle → List ImageFormat
  | _, [] => []
  | i, sw :: sws => planeOf c a i sw :: planesFrom c a (i + 1) sws

theorem getElem?_planesFrom (sws : List Swizzle) (k i : Nat) :
    (planesFrom c a k sws)[i]? = sws[i]?.map (planeOf c a (k + i)) := by
  induction sws generalizing k i with
  | nil => rfl
  | cons sw sws ih =>
    cases i with
    | zero => rfl
    | succ i =>
      rw [planesFrom, List.getElem?_cons_succ, List.getElem?_cons_succ, ih, Nat.add_right_comm,
        Nat.add_assoc]

theorem Made.returns_planes (print : ColorSpec → String) (h : Made c a f) (hgap : a.NoGap)
    {m k : Nat} (hk : k + m ≤ f.numPlanes) {gs : List ImageFormat} :
    Returns ((List.range' k m).mapM (f.planeFormat print)) gs ↔
      ∃ sws, Returns ((List.range' k m).mapM f.planeSwizzle) sws ∧
        sws.map Swizzle.getNumChannels =
          (List.range' k m).map (fun i => (a.packing i).getNumChannels) ∧
        gs = planesFrom c a k sws := by
  induction m generalizing k gs with
  | zero =>
    simp only [List.range'_zero, List.mapM_nil, returns_pure, List.map_nil, List.map_eq_nil_iff]
    constructor
    · rintro rfl
      exact ⟨[], rfl, rfl, rfl⟩
    · rintro ⟨_, rfl, -, rfl⟩
      rfl
  | succ m ih =>
    simp only [List.range'_succ, List.mapM_cons, returns_bind, returns_pure, List.map_cons,
      h.returns_planeFormat print hgap (show k < f.numPlanes by omega),
      ih (show k + 1 + m ≤ f.numPlanes by omega)]
    constructor
    · rintro ⟨g, ⟨sw, hsw, hn, rfl⟩, gs, ⟨sws, hsws, hns, rfl⟩, rfl⟩
      exact ⟨sw :: sws, ⟨sw, hsw, sws, hsws, rfl⟩, by rw [List.map_cons, hn, hns], rfl⟩
    · rintro ⟨_, ⟨sw, hsw, sws, hsws, rfl⟩, hns, rfl⟩
      rw [List.map_cons, List.cons.injEq] at hns
      exact ⟨_, ⟨sw, hsw, hns.1, rfl⟩, _, ⟨sws, hsws, hns.2, rfl⟩, rfl⟩

/-! ## The checks of `FromPlanes` -/

theorem plain_css_eq {m : ColorModel} {v : BitVec 64} {css : ChromaSubsampling}
    (hcss : m ≠ .YCbCr → css = .none) : (plain m v css.value a).css = css.value := by
  by_cases hm : m = .YCbCr
  · rw [hm, plain_css_YCbCr]
    exact get_eq_self (css_value_lt _)
  · rw [plain_css hm, hcss hm]

/-- The colors of a format are in the bits that do not depend on its arguments. -/
theorem plain_sameColor {m : ColorModel} {v s s' : BitVec 64} {a' : FormatArgs} :
    (plain m v s a).rawPattern = (plain m v s' a').rawPattern ∧
      SameColorFormat (plain m v s a) (plain m v s' a') := by
  have hraw : (plain m v s a).rawPattern = (plain m v s' a').rawPattern := by
    by_cases hm : m = .RAW
    · rw [hm, plain_rawPattern_RAW, plain_rawPattern_RAW]
    · rw [plain_rawPattern hm, plain_rawPattern hm]
  have hspec : (plain m v s a).colorSpec = (plain m v s' a').colorSpec := by
    by_cases hm : m = .YCbCr ∨ m = .RGB
    · rw [plain_colorSpec hm, plain_colorSpec hm]
    · rw [plain_colorSpec_undefined (not_or.1 hm).1 (not_or.1 hm).2,
        plain_colorSpec_undefined (not_or.1 hm).1 (not_or.1 hm).2]
  refine ⟨hraw, ?_, ?_⟩
  · rw [plain_colorModel, plain_colorModel]
  · split_ifs
    · exact hraw
    · exact hspec

theorem Made.planePacking_planeOf (h : Made c a f) {i : Nat} {sw : Swizzle} (j : Nat) :
    (planeOf c a i sw).planePacking j = if j = 0 then (a.packing i).value else 0#64 := by
  have z8 : Packing.zero.value &&& 0b1000#64 = 0 := by decide
  have z15 : Packing.zero.value &&& 0b1111#64 = 0 := by decide
  have zb : Packing.zero.getBitsPerPixel ≤ 64 := by decide
  have zn : Packing.zero.getNumChannels ≤ 1 := by decide
  have zb' := zb.trans (show 64 ≤ 128 by decide)
  have zn' := zn.trans (show 1 ≤ 2 by decide)
  unfold planeOf
  match j with
  | 0 => exact plain_planePacking0 (h.packing_code i)
  | 1 => exact plain_planePacking1 (a := planeArgs a sw _) z8 zb' zn'
  | 2 => exact (plain_planePacking2 (a := planeArgs a sw _) z8 zb').2 zn'
  | 3 => exact (plain_planePacking3 (a := planeArgs a sw _) z15 zb).2 zn
  | _ + 4 => rfl

theorem Made.numPlanes_planeOf (h : Made c a f) {i : Nat} (hp : a.packing i ≠ .zero)
    (sw : Swizzle) : (planeOf c a i sw).numPlanes = 1 := by
  have hz : ∀ j ≠ 0, (planeOf c a i sw).planeNumChannels j = 0 := by
    intro j hj
    rw [ImageFormat.planeNumChannels, h.planePacking_planeOf, if_neg hj]
    decide
  have h0 : (planeOf c a i sw).planeNumChannels 0 ≠ 0 := by
    rw [ImageFormat.planeNumChannels, h.planePacking_planeOf, if_pos rfl, numChannelsOf_value]
    exact (getNumChannels_pos hp).ne'
  rw [ImageFormat.numPlanes, if_pos h0, hz 1 (by decide), hz 2 (by decide), hz 3 (by decide)]
  rfl

theorem numChannels_planeOf (i : Nat) (sw : Swizzle) :
    (planeOf c a i sw).numChannels = sw.getNumChannels := by
  have hsw : (planeOf c a i sw).swizzle = sw.value := plain_swizzle
  rw [numChannels, hsw, Swizzle.ofValue_value]

theorem Made.css_planeOf (h : Made c a f) (i : Nat) (sw : Swizzle) : (planeOf c a i sw).css =
    (if i = 0 then ChromaSubsampling.none else (passed c a).css).value := by
  refine plain_css_eq fun hm => ?_
  rw [h.checked.css hm, ite_self]

/-- What a plane has in common with the first. -/
theorem same_planeOf (i : Nat) (sw sw₀ : Swizzle) :
    (planeOf c a i sw).alphaType = (planeOf c a 0 sw₀).alphaType ∧
      (planeOf c a i sw).memLayout = (planeOf c a 0 sw₀).memLayout ∧
      (planeOf c a i sw).dataKind = (planeOf c a 0 sw₀).dataKind ∧
      (planeOf c a i sw).rawPattern = (planeOf c a 0 sw₀).rawPattern ∧
      SameColorFormat (planeOf c a i sw) (planeOf c a 0 sw₀) := by
  unfold planeOf
  rw [plain_alphaType, plain_alphaType, plain_memLayout, plain_memLayout, plain_dataKind_bits,
    plain_dataKind_bits]
  exact ⟨rfl, rfl, rfl, plain_sameColor⟩

/-- The checks on a plane pass. -/
theorem Made.returns_checkPlane (h : Made c a f) {i : Nat} (hp : a.packing i ≠ .zero)
    (sw₀ sw : Swizzle) (rest : List ImageFormat) (css : BitVec 64) (tot : Nat)
    (htot : tot + sw.getNumChannels ≤ 4)
    (hcss : css ≠ ChromaSubsampling.none.value → css = (planeOf c a i sw).css) :
    Returns (checkPlane (planeOf c a 0 sw₀) i (planeOf c a i sw) rest css tot)
      ((planeOf c a i sw).css, tot + sw.getNumChannels) := by
  have hone := h.numPlanes_planeOf hp sw
  have hpack := fun j => @Made.planePacking_planeOf _ _ _ h i sw j
  have hchannels := numChannels_planeOf (c := c) (a := a) i sw
  obtain ⟨halpha, hmem, hkind, hraw, hcolor⟩ := same_planeOf (c := c) (a := a) i sw sw₀
  generalize planeOf c a i sw = g at *
  generalize planeOf c a 0 sw₀ = first at *
  have hany : ¬([1, 2, 3].any fun j => g.planePacking j ≠ Packing.zero.value) = true := by
    rw [Bool.not_eq_true, List.any_eq_false]
    intro j hj
    rw [hpack, if_neg (by rintro rfl; exact absurd hj (by decide))]
    decide
  have h0 : g.planePacking 0 ≠ Packing.zero.value := by
    rw [hpack, if_pos rfl]
    exact fun h0 => hp (packing_value_inj h0)
  have hlast : Returns (if css = ChromaSubsampling.none.value then
      (pure (g.css, tot + sw.getNumChannels) : Call _) else do
        refuse (css ≠ g.css) (invalidPlanes (s!"Only one chroma-subsampling type must be " ++
          s!"specified, but plane #{i}" ++ s!"'s differ from {cssName css}"))
        return (css, tot + sw.getNumChannels)) (g.css, tot + sw.getNumChannels) := by
    by_cases hn : css = ChromaSubsampling.none.value
    · rw [if_pos hn, returns_pure]
    · rw [if_neg hn, returns_refuse_bind, returns_pure, hcss hn]
      exact ⟨not_not.2 rfl, rfl⟩
  unfold checkPlane
  rw [if_neg hany]
  simp only [returns_refuse_bind, hchannels]
  refine ⟨not_not.2 hone, h0, not_not.2 halpha, by omega, ?_⟩
  by_cases hi : 1 ≤ i
  · simp only [if_pos hi, returns_refuse_bind]
    exact ⟨not_not.2 hraw, not_not.2 hcolor, not_not.2 hmem, not_not.2 hkind, hlast⟩
  · rw [if_neg hi]
    exact hlast

theorem Made.returns_checkPlanes (h : Made c a f) (hgap : a.NoGap) (sw₀ : Swizzle)
    {k : Nat} (hk : k ≠ 0) {sws : List Swizzle} (hn : k + sws.length ≤ f.numPlanes)
    (css : BitVec 64) (tot : Nat) (htot : tot + (sws.map Swizzle.getNumChannels).sum ≤ 4)
    (hcss : css ≠ ChromaSubsampling.none.value → css = (passed c a).css.value) :
    Returns (checkPlanes (planeOf c a 0 sw₀) k (planesFrom c a k sws) css tot)
      (if sws = [] then css else (passed c a).css.value,
        tot + (sws.map Swizzle.getNumChannels).sum) := by
  induction sws generalizing k css tot with
  | nil => exact returns_pure.2 rfl
  | cons sw sws ih =>
    rw [List.length_cons] at hn
    rw [List.map_cons, List.sum_cons] at htot
    have hpc : (planeOf c a k sw).css = (passed c a).css.value := by
      rw [h.css_planeOf, if_neg hk]
    have hstep := h.returns_checkPlane ((h.packing_ne_zero hgap).2 (show k < f.numPlanes by omega))
      sw₀ sw (planesFrom c a (k + 1) sws) css tot (by omega) (hpc ▸ hcss)
    have hrest := ih (k := k + 1) (by omega) (by omega) (passed c a).css.value
      (tot + sw.getNumChannels) (by omega) fun _ => rfl
    rw [hpc] at hstep
    rw [ite_self, Nat.add_assoc] at hrest
    exact returns_bind.2 ⟨_, hstep, hrest⟩

/-- All checks on the planes pass: the chroma subsampling is that of the format. -/
theorem Made.checkPlanes (h : Made c a f) (hgap : a.NoGap)
    (hcss : f.css = ChromaSubsampling.none.value ∨ 2 ≤ f.numPlanes) {sw : Swizzle}
    {sws : List Swizzle} (hsws : (sw :: sws).map Swizzle.getNumChannels = counts a f) :
    Returns (checkPlanes (planeOf c a 0 sw) 0 (planesFrom c a 0 (sw :: sws))
      ChromaSubsampling.none.value 0) ((passed c a).css.value, a.swizzle.getNumChannels) := by
  have hlen : sws.length + 1 = f.numPlanes := length_of_counts hsws
  have hsum : sw.getNumChannels + (sws.map Swizzle.getNumChannels).sum =
      a.swizzle.getNumChannels := by
    rw [← h.counts_sum hgap, ← hsws, List.map_cons, List.sum_cons]
  have hle := a.swizzle.getNumChannels_le
  have hfirst := h.returns_checkPlane ((h.packing_ne_zero hgap).2 h.numPlanes_pos) sw sw
    (planesFrom c a 1 sws) ChromaSubsampling.none.value 0 (by omega)
    fun hne => absurd rfl hne
  have hrest := h.returns_checkPlanes hgap sw (k := 1) (by decide)
    (show 1 + sws.length ≤ f.numPlanes by omega) ChromaSubsampling.none.value
    (0 + sw.getNumChannels) (by omega) fun hne => absurd rfl hne
  have hend : (if sws = [] then ChromaSubsampling.none.value else (passed c a).css.value) =
      (passed c a).css.value := by
    by_cases he : sws = []
    · subst he
      rcases hcss with hcss | h2
      · rw [if_pos rfl, ← hcss, h.css]
      · rw [List.length_nil] at hlen
        omega
    · rw [if_neg he]
  rw [hend, Nat.zero_add, hsum] at hrest
  rw [h.css_planeOf, if_pos rfl, Nat.zero_add] at hfirst
  exact returns_bind.2 ⟨_, hfirst, hrest⟩

/-- The arguments of the format put together, with the swizzle found for it. -/
def merged (a : FormatArgs) (sw : Swizzle) : FormatArgs where
  memLayout := a.memLayout
  dataKind := a.dataKind
  swizzle := sw
  packing0 := a.packing 0
  packing1 := a.packing 1
  packing2 := a.packing 2
  packing3 := a.packing 3
  alphaType := a.alphaType

theorem Made.ofColorFormat_merged (print : ColorSpec → String) (h : Made c a f) {sw : Swizzle} :
    ofColorFormat print (passed c a).stored (passed c a).css (merged a sw) = .ok f ↔
      sw = a.swizzle := by
  have hno : NoExtra (merged a sw) := by
    intro e he
    cases he
  rw [ofColorFormat_stored print h.checked h.checked.css hno rfl, validated_ok]
  constructor
  · rintro ⟨-, hf⟩
    have hsw : f.swizzle = sw.value := by rw [hf, plain_swizzle, merged]
    rw [h.word, plain_swizzle] at hsw
    exact (swizzle_value_inj hsw).symm
  · rintro rfl
    exact ⟨h.valid, h.word⟩

/-- **A format from its planes**: it is the format when its swizzle comes back. -/
theorem Made.returns_fromPlanes (print : ColorSpec → String) (h : Made c a f) (hgap : a.NoGap)
    (hcss : f.css = ChromaSubsampling.none.value ∨ 2 ≤ f.numPlanes) {sw : Swizzle}
    {sws : List Swizzle} (hsws : (sw :: sws).map Swizzle.getNumChannels = counts a f) :
    Returns (fromPlanes print (planesFrom c a 0 (sw :: sws))) f ↔
      Returns (Swizzle.merge (sw :: sws)) a.swizzle := by
  have hcheck := h.checkPlanes hgap hcss hsws
  have htot : ¬a.swizzle.getNumChannels = 0 := by
    have := getNumChannels_pos (validateSwizzlePacking_channels h.valid).1
    rw [(validateSwizzlePacking_channels h.valid).2]
    omega
  have hlen := length_of_counts hsws
  have hswizzle : ∀ i, Returns (swPlane (planesFrom c a 0 (sw :: sws)) i)
      ((sw :: sws).getD i .S0000) := by
    intro i
    rw [swPlane, getElem?_planesFrom, Nat.zero_add, List.getD_eq_getElem?_getD]
    cases (sw :: sws)[i]? with
    | none => exact returns_pure.2 rfl
    | some s => exact returns_lift.2 plain_getters.1
  have hpacking : ∀ i, Returns (packPlane (planesFrom c a 0 (sw :: sws)) i) (a.packing i) := by
    intro i
    rw [packPlane, getElem?_planesFrom, Nat.zero_add]
    cases hi : (sw :: sws)[i]? with
    | none =>
      have hge := List.getElem?_eq_none_iff.1 hi
      have hz : a.packing i = .zero := by
        by_contra hne
        have := (h.packing_ne_zero hgap).1 hne
        omega
      exact returns_pure.2 hz.symm
    | some s =>
      refine returns_lift.2 ?_
      rw [h.planePacking_planeOf, if_pos rfl, Packing.ofValue_value]
  obtain ⟨-, hmem, hkind, halpha⟩ := plain_getters (m := (passed c a).colorModel)
    (v := (passed c a).bits) (s := ChromaSubsampling.none.value)
    (a := planeArgs a sw (a.packing 0))
  have hcolor := plain_colorFormat h.checked (s := ChromaSubsampling.none.value)
    (a := planeArgs a sw (a.packing 0))
  show Returns (fromPlanes print (planeOf c a 0 sw :: planesFrom c a 1 sws)) f ↔ _
  unfold fromPlanes
  simp only [returns_bind, returns_ofExcept, returns_lift, returns_refuse]
  constructor
  · rintro ⟨r, hr, _, -, s0, hs0, s1, hs1, s2, hs2, s3, hs3, s, hmerge, cf, hcf, css, hcs, ml, hml,
      dk, hdk, al, hal, p0, hp0, p1, hp1, p2, hp2, p3, hp3, hf⟩
    obtain rfl := hr.unique hcheck
    obtain rfl := hs0.unique (hswizzle 0)
    obtain rfl := hs1.unique (hswizzle 1)
    obtain rfl := hs2.unique (hswizzle 2)
    obtain rfl := hs3.unique (hswizzle 3)
    obtain rfl := hp0.unique (hpacking 0)
    obtain rfl := hp1.unique (hpacking 1)
    obtain rfl := hp2.unique (hpacking 2)
    obtain rfl := hp3.unique (hpacking 3)
    obtain rfl := Option.some.inj (hcf.symm.trans hcolor)
    obtain rfl := Option.some.inj (hcs.symm.trans (ChromaSubsampling.ofValue_value _))
    obtain rfl := Option.some.inj (hml.symm.trans hmem)
    obtain rfl := Option.some.inj (hdk.symm.trans hkind)
    obtain rfl := Option.some.inj (hal.symm.trans halpha)
    exact (h.ofColorFormat_merged print).1 hf ▸ hmerge
  · intro hmerge
    exact ⟨_, hcheck, (), htot, _, hswizzle 0, _, hswizzle 1, _, hswizzle 2, _, hswizzle 3, _,
      hmerge, _, hcolor, _, ChromaSubsampling.ofValue_value _, _, hmem, _, hkind, _, halpha, _,
      hpacking 0, _, hpacking 1, _, hpacking 2, _, hpacking 3, (h.ofColorFormat_merged print).2 rfl⟩

/-! ## There and back -/

theorem Made.returns_mergePlanes (print : ColorSpec → String) (h : Made c a f) (hgap : a.NoGap)
    (hcss : f.css = ChromaSubsampling.none.value ∨ 2 ≤ f.numPlanes) :
    Returns (f.mergePlanes print) f ↔
      ∃ sws, Returns ((List.range f.numPlanes).mapM f.planeSwizzle) sws ∧
        sws.map Swizzle.getNumChannels = counts a f ∧
        Returns (Swizzle.merge sws) a.swizzle := by
  have hcounts : counts a f =
      (List.range' 0 f.numPlanes).map fun i => (a.packing i).getNumChannels := by
    rw [counts, List.range_eq_range']
  unfold mergePlanes
  rw [List.range_eq_range']
  simp only [returns_bind, h.returns_planes print hgap (show 0 + f.numPlanes ≤ _ by omega),
    ← hcounts]
  have hback : ∀ {sws : List Swizzle}, sws.map Swizzle.getNumChannels = counts a f →
      (Returns (fromPlanes print (planesFrom c a 0 sws)) f ↔
        Returns (Swizzle.merge sws) a.swizzle) := by
    intro sws hsws
    cases sws with
    | nil =>
      have := length_of_counts hsws
      exact absurd h.numPlanes_pos (by rw [← this]; decide)
    | cons sw sws => exact h.returns_fromPlanes print hgap hcss hsws
  constructor
  · rintro ⟨_, ⟨sws, hret, hsws, rfl⟩, hf⟩
    exact ⟨sws, hret, hsws, (hback hsws).1 hf⟩
  · rintro ⟨sws, hret, hsws, hf⟩
    exact ⟨_, ⟨sws, hret, hsws, rfl⟩, (hback hsws).2 hf⟩

theorem Made.planeSwizzle_one (h : Made c a f) (h1 : f.numPlanes = 1) :
    Returns (f.planeSwizzle 0) a.swizzle := by
  unfold planeSwizzle
  rw [if_pos h1, if_pos rfl]
  exact returns_lift.2 h.getters.1

theorem Made.planeSwizzle_ofPlane (h : Made c a f) (hgap : a.NoGap) (h2 : 2 ≤ f.numPlanes)
    {i : Nat} (hi : i < f.numPlanes) : f.planeSwizzle i =
      Swizzle.ofPlane a.swizzle.getChannels ((counts a f).take i).sum ((counts a f).getD i 0) := by
  have hsum : ((List.range i).map f.planeNumChannels).sum = ((counts a f).take i).sum := by
    rw [counts, ← List.map_take, List.take_range, Nat.min_eq_left hi.le]
    exact congrArg List.sum (List.map_congr_left fun j _ => h.planeNumChannels hgap j)
  have hi' : f.planeNumChannels i = (counts a f).getD i 0 := by
    rw [h.planeNumChannels hgap, counts, List.getD_eq_getElem?_getD, List.getElem?_map,
      List.getElem?_range hi]
    rfl
  unfold planeSwizzle
  rw [if_neg (by omega), h.getters.1, ← hsum, ← hi']
  rfl

theorem Made.mapM_planeSwizzle (h : Made c a f) (hgap : a.NoGap) (h2 : 2 ≤ f.numPlanes) :
    (List.range f.numPlanes).mapM f.planeSwizzle = a.swizzle.split (counts a f) := by
  have hlen : (counts a f).length = f.numPlanes := by
    rw [counts, List.length_map, List.length_range]
  rw [Swizzle.split, hlen]
  exact mapM_congr fun i hi => h.planeSwizzle_ofPlane hgap h2 (List.mem_range.1 hi)

/-- The channels of the planes of a format that is to have these packings. -/
def channels (a : FormatArgs) : List Nat :=
  ([a.packing0, a.packing1, a.packing2, a.packing3].filter (· ≠ .zero)).map Packing.getNumChannels

theorem Made.counts_eq (h : Made c a f) (hgap : a.NoGap) : counts a f = channels a := by
  have h0 : a.packing0 ≠ .zero := (validateSwizzlePacking_channels h.valid).1
  have hn := h.numPlanes
  obtain ⟨g1, g2⟩ := hgap
  unfold counts channels
  by_cases h1 : a.packing1 = .zero
  · have h2 := g1 h1
    have h3 := g2 h2
    rw [if_neg (not_not.2 h1), if_neg (not_not.2 h2), if_neg (not_not.2 h3)] at hn
    simp [hn, h0, h1, h2, h3, List.range_succ, FormatArgs.packing]
  · rw [if_pos h1] at hn
    by_cases h2 : a.packing2 = .zero
    · have h3 := g2 h2
      rw [if_neg (not_not.2 h2), if_neg (not_not.2 h3)] at hn
      simp [hn, h0, h1, h2, h3, List.range_succ, FormatArgs.packing]
    · rw [if_pos h2] at hn
      by_cases h3 : a.packing3 = .zero
      · rw [if_neg (not_not.2 h3)] at hn
        simp [hn, h0, h1, h2, h3, List.range_succ, FormatArgs.packing]
      · rw [if_pos h3] at hn
        simp [hn, h0, h1, h2, h3, List.range_succ, FormatArgs.packing]

/-- What the planes of a format need for it to be put together again. -/
structure Separable (a : FormatArgs) : Prop where
  noGap : a.NoGap
  back : a.packing1 = .zero ∨ channels a ∈ a.swizzle.splits

end

/-- **The planes of a format give it back**, of the formats made without extra channels whose
chroma subsampling is none unless they have two planes, exactly when no packing is left out before
another and the swizzle is one that splits up that way. -/
theorem mergePlanes_iff (print : ColorSpec → String) {c : Color} {a : FormatArgs} {f : ImageFormat}
    (hn : NoExtra a) (hf : construct print c a = .ok f)
    (hcss : f.css = ChromaSubsampling.none.value ∨ 2 ≤ f.numPlanes) :
    Returns (f.mergePlanes print) f ↔ Separable a := by
  have h := construct_made hn hf
  constructor
  · intro hret
    have hgap : a.NoGap := by
      by_contra hgap
      obtain ⟨i, hi, hp⟩ := h.gap hgap
      obtain ⟨gs, hgs, -⟩ := returns_bind.1 hret
      obtain ⟨g, hg⟩ := returns_of_mapM hgs (List.mem_range.2 hi)
      exact not_returns_planeFormat hi hp hg
    refine ⟨hgap, ?_⟩
    by_cases h1 : a.packing1 = .zero
    · exact .inl h1
    · right
      have h2 : 2 ≤ f.numPlanes := by
        rw [h.numPlanes, if_pos h1]
        omega
      rw [h.returns_mergePlanes print hgap hcss, h.mapM_planeSwizzle hgap h2] at hret
      rw [← h.counts_eq hgap, ← Swizzle.splitsBack_iff (h.counts_mem hgap h2)
        (h.counts_sum hgap).symm]
      exact hret
  · rintro ⟨hgap, hback⟩
    rw [h.returns_mergePlanes print hgap hcss]
    by_cases h1 : f.numPlanes = 1
    · have hsum := h.counts_sum hgap
      have hcounts : counts a f = [a.packing0.getNumChannels] := by
        rw [counts, h1]
        rfl
      rw [hcounts, List.sum_singleton] at hsum
      refine ⟨[a.swizzle], ?_, ?_, Swizzle.merge_one _⟩
      · rw [h1]
        exact returns_bind.2 ⟨_, h.planeSwizzle_one h1, returns_pure.2 rfl⟩
      · rw [hcounts, hsum]
        rfl
    · have h2 : 2 ≤ f.numPlanes := by
        have := h.numPlanes_pos
        omega
      have hp1 : a.packing1 ≠ .zero := (h.packing_ne_zero hgap (i := 1)).2 h2
      have hmem : counts a f ∈ a.swizzle.splits := by
        rw [h.counts_eq hgap]
        exact hback.resolve_left hp1
      rw [h.mapM_planeSwizzle hgap h2]
      exact (Swizzle.splitsBack_iff (h.counts_mem hgap h2) (h.counts_sum hgap).symm).2 hmem

/-- The two planes of NV12. -/
theorem mergePlanes_iff_nv12 : ∃ f,
    construct (fun _ => "") (.colorModel .YCbCr .undefined .css420) nv12 = .ok f ∧
      f.numPlanes = 2 ∧ Returns (f.mergePlanes fun _ => "") f := by
  have hn : NoExtra nv12 := by
    intro e h
    cases h
  have hsep : Separable nv12 := ⟨by decide, .inr (by decide)⟩
  have h2 : (plain .YCbCr (ColorSpec.undefined.setWidth 64) ChromaSubsampling.css420.value
      nv12).numPlanes = 2 := by decide +kernel
  have hf : construct (fun _ => "") (.colorModel .YCbCr .undefined .css420) nv12 = .ok _ := rfl
  exact ⟨_, hf, h2, (mergePlanes_iff (fun _ => "") hn hf (.inr h2.ge)).2 hsep⟩

/-- A first plane of three channels and a second of one, in the order that has the alpha channel
first. -/
def alphaFirst : FormatArgs where
  memLayout := .pitchLinear
  dataKind := .unsigned
  swizzle := .SWXYZ
  packing0 := .X8_Y8_Z8
  packing1 := .X8
  packing2 := .zero
  packing3 := .zero
  alphaType := .associated

/-- The swizzle of the first plane has no enumerator: there is no format for it. -/
theorem alphaFirst_no_planes : ∃ f, construct (fun _ => "") .nonColor alphaFirst = .ok f ∧
    f.css = ChromaSubsampling.none.value ∧ f.numPlanes = 2 ∧
      ¬∃ g, Returns (f.mergePlanes fun _ => "") g := by
  have hn : NoExtra alphaFirst := by
    intro e h
    cases h
  have hf : construct (fun _ => "") .nonColor alphaFirst = .ok _ := rfl
  have h := construct_made hn hf
  have hgap : alphaFirst.NoGap := by decide
  have h2 : (makeFormat .undefined (ColorSpec.undefined.setWidth 64) 0 alphaFirst).numPlanes = 2 :=
    h.numPlanes
  have hno : ¬∃ sw, Returns (Swizzle.ofPlane alphaFirst.swizzle.getChannels 0 3) sw ∧
      sw.getNumChannels = 3 := by decide +kernel
  refine ⟨_, hf, h.css, h2, ?_⟩
  rintro ⟨g, hg⟩
  obtain ⟨gs, hgs, -⟩ := returns_bind.1 hg
  obtain ⟨g₀, hg₀⟩ := returns_of_mapM hgs (List.mem_range.2 h.numPlanes_pos)
  obtain ⟨sw, hsw, hch, -⟩ := (h.returns_planeFormat _ hgap h.numPlanes_pos).1 hg₀
  rw [h.planeSwizzle_ofPlane hgap h2.ge h.numPlanes_pos, h.counts_eq hgap] at hsw
  exact hno ⟨sw, hsw, hch⟩

end ImageFormat

end Nvcv
