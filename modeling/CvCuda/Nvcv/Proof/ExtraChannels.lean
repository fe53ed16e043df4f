import CvCuda.Lib.Int32
import CvCuda.Nvcv.Proof.ImageFormat

/-! # Extra channels read back

The information on extra channels is in the bits of the packings of the planes other than the
first, in a format whose flag says there are no such planes.

* `sameFields_of_agree`: what a format has apart from these bits.
* `carries_iff`: which information reads back from where it is put.
* `extraChannelInfo_round_trip`: which information the constructors and the setter give a format.
* `set_loses_info`: a format that does not have what was set.
-/

namespace Nvcv.ImageFormat

open Bitfield

/-! ## The rest of the word -/

/-- The fields of a format that are not those of extra channels or of other planes. -/
structure SameFields (f g : ImageFormat) : Prop where
  colorModel : g.colorModel = f.colorModel
  colorSpec : g.colorSpec = f.colorSpec
  rawPattern : g.rawPattern = f.rawPattern
  css : g.css = f.css
  memLayout : g.memLayout = f.memLayout
  dataKind : g.dataKind = f.dataKind
  swizzle : g.swizzle = f.swizzle
  alphaType : g.alphaType = f.alphaType
  packing0 : g.planePacking 0 = f.planePacking 0

/-- The fields outside the bits 7 and 44 to 60. -/
def Outside (o n : Nat) : Prop := o + n ≤ 7 ∨ 8 ≤ o ∧ o + n ≤ 44 ∨ 61 ≤ o

instance (o n : Nat) : Decidable (Outside o n) := by
  unfold Outside
  infer_instance

theorem sameFields_of_agree {f g : ImageFormat} (hf : f ≠ 0#64) (hg : g ≠ 0#64)
    (h : ∀ o n, Outside o n → get g o n = get f o n) : SameFields f g := by
  have hm : g.colorModel = f.colorModel := by
    unfold colorModel
    rw [if_neg hf, if_neg hg, h 16 1 (by decide), h 16 19 (by decide), h 17 3 (by decide),
      h 20 1 (by decide), h 21 6 (by decide)]
  exact
    { colorModel := hm
      colorSpec := by unfold colorSpec; rw [hm, h 20 15 (by decide)]
      rawPattern := by unfold rawPattern; rw [hm, h 21 6 (by decide)]
      css := by unfold css; rw [hm, h 17 3 (by decide)]
      memLayout := h 12 3 (by decide)
      dataKind := h 61 3 (by decide)
      swizzle := h 0 6 (by decide)
      alphaType := h 6 1 (by decide)
      packing0 := by simp only [planePacking, h 35 9 (by decide)] }

section
variable {m : ColorModel} {v c : BitVec 64} {a : FormatArgs}

/-- What a format has outside the bits of extra channels and other planes. -/
def base (m : ColorModel) (v c : BitVec 64) (a : FormatArgs) : ImageFormat :=
  set a.dataKind.value 61 3 ||| set a.swizzle.value 0 6 ||| set a.alphaType.value 6 1 |||
    set a.memLayout.value 12 3 ||| colorBits m v c |||
    set (encodePacking a.packing0.value 2 3 4) 35 9

theorem makeFormat_base : makeFormat m v c a =
    base m v c a ||| planeBits a.packing1 a.packing2 a.packing3 a.exChannelInfo := rfl

/-- The word of the information on extra channels. -/
def extraBits (e : ExtraChannelInfo) : BitVec 64 :=
  set e.channelType.value 44 3 ||| set (.ofInt 64 e.numChannels.toInt) 47 3 |||
    set (encodeBpp e.bitsPerPixel.toInt.toNat) 50 3 ||| set e.datakind.value 53 3

theorem planeBits_extra {p1 p2 p3 : Packing} {e : ExtraChannelInfo} (h1 : p1 = .zero)
    (hn : 0 < e.numChannels) : planeBits p1 p2 p3 (some e) = extraBits e :=
  if_pos ⟨h1, hn⟩

theorem get_base_inside {o n : Nat} (h : o = 7 ∧ n = 1 ∨ 44 ≤ o ∧ o + n ≤ 61) :
    get (base m v c a) o n = 0#64 := by
  unfold base
  rcases h with ⟨rfl, rfl⟩ | ⟨hl, hr⟩
  · simp (disch := decide) only [get_or, get_set_apart, get_colorBits_apart, BitVec.or_zero]
  · simp (disch := omega) only [get_or, get_set_apart, get_colorBits_apart, BitVec.or_zero]

theorem get_extraBits_outside {o n : Nat} (h : Outside o n ∨ o = 7 ∧ n = 1) (e : ExtraChannelInfo) :
    get (extraBits e) o n = 0#64 := by
  unfold Outside at h
  unfold extraBits
  simp (disch := omega) only [get_or, get_set_apart, BitVec.or_zero]

theorem get_planeBits_outside {p1 p2 p3 : Packing} {x : Option ExtraChannelInfo} {o n : Nat}
    (h : Outside o n) : get (planeBits p1 p2 p3 x) o n = 0#64 := by
  have hp : get (planeBits.planes p1 p2 p3) o n = 0#64 := by
    unfold Outside at h
    unfold planeBits.planes
    simp (disch := omega) only [get_or, get_set_apart, BitVec.or_zero]
  unfold planeBits
  cases x with
  | none => exact hp
  | some e =>
    by_cases hc : p1 = .zero ∧ 0 < e.numChannels
    · simp only [if_pos hc]
      exact get_extraBits_outside (.inl h) e
    · simp only [if_neg hc]
      exact hp

theorem get_makeFormat_outside {o n : Nat} (h : Outside o n) :
    get (makeFormat m v c a) o n = get (base m v c a) o n := by
  rw [makeFormat_base, get_or, get_planeBits_outside h, BitVec.or_zero]

theorem encodePacking0_ne_zero {p : Packing} (h : p ≠ .zero) :
    encodePacking p.value 2 3 4 ≠ 0#64 := by
  revert h
  cases p <;> decide

theorem get_base_packing0 : get (base m v c a) 35 9 = encodePacking a.packing0.value 2 3 4 := by
  unfold base
  simp (disch := decide) only [get_or, get_set, get_set_apart, get_colorBits_apart, BitVec.zero_or]
  exact get_eq_self (encodePacking_lt _).1

theorem ne_zero_of_agree {g : ImageFormat} (h0 : a.packing0 ≠ .zero)
    (h : ∀ o n, Outside o n → get g o n = get (base m v c a) o n) : g ≠ 0#64 := by
  rintro rfl
  have h9 := h 35 9 (by decide)
  rw [get_base_packing0] at h9
  exact encodePacking0_ne_zero h0 h9.symm

theorem planePacking0_of_agree {g : ImageFormat} (hc : a.packing0.value &&& 0b1000#64 = 0)
    (h : ∀ o n, Outside o n → get g o n = get (base m v c a) o n) :
    g.planePacking 0 = a.packing0.value := by
  simp only [planePacking, h 35 9 (by decide), get_base_packing0]
  exact plane0_eq hc

end

/-! ## The fields of the information -/

/-- The information reads back from the format. -/
def Carries (g : ImageFormat) (e : ExtraChannelInfo) : Prop :=
  g.extraChannelInfo = ⟨e.numChannels, e.bitsPerPixel, e.datakind.value, e.channelType.value⟩

theorem numChannels_cases {n : Int32} (h0 : 0 < n) (h7 : n ≤ 7) :
    n ∈ [1, 2, 3, 4, 5, 6, (7 : Int32)] := by
  have h0 := Int32.lt_iff_toInt_lt.1 h0
  have h7 := Int32.le_iff_toInt_le.1 h7
  have h : n = Int32.ofInt n.toInt := by rw [Int32.ofInt_toInt]
  rw [h]
  have hz : (0 : Int32).toInt = 0 := rfl
  have h7' : (7 : Int32).toInt = 7 := rfl
  rw [hz] at h0
  rw [h7'] at h7
  generalize n.toInt = k at h0 h7
  interval_cases k <;> decide

theorem encodeBpp_lt {b : Nat} (h : b ≤ 128) : (encodeBpp b).toNat < 2 ^ 3 := by
  unfold encodeBpp
  rw [BitVec.toNat_ofNat]
  split_ifs <;> omega

/-- The power of two that is read back is what was put there in two cases. -/
theorem bpp_iff {b : Int32} (h : b ≤ 128) :
    Int32.ofNat (2 ^ (3 + (encodeBpp b.toInt.toNat).toNat)) = b ↔ b = 8 ∨ b = 16 := by
  have key : ∀ k < 129, Int32.ofNat (2 ^ (3 + (encodeBpp k).toNat)) = Int32.ofNat k ↔
      Int32.ofNat k = 8 ∨ Int32.ofNat k = 16 := by decide +kernel
  have hb : b.toInt ≤ 128 := Int32.le_iff_toInt_le.1 h
  by_cases h0 : 0 ≤ b.toInt
  · have he : b = Int32.ofNat b.toInt.toNat := by
      apply Int32.toInt_inj.1
      rw [Int32.toInt_ofNat_of_lt (by omega)]
      omega
    have := key b.toInt.toNat (by omega)
    rwa [← he] at this
  · have hn : b.toInt.toNat = 0 := by omega
    rw [hn]
    constructor
    · intro h8
      rw [← h8] at h0
      exact absurd h0 (by decide)
    · rintro (rfl | rfl) <;> exact absurd (by decide) h0

theorem numChannelsOf_value (p : Packing) : Packing.numChannelsOf p.value = p.getNumChannels := by
  cases p <;> decide

theorem getNumChannels_eq_zero {p : Packing} : p.getNumChannels = 0 ↔ p = .zero := by
  cases p <;> decide

section
variable {g : ImageFormat} {e : ExtraChannelInfo}

/-- A format whose flag is off has no packing in its other planes. -/
theorem planePacking_of_flag (h : get g 7 1 = 0#64) {i : Nat} (hi : 1 ≤ i) :
    g.planePacking i = Packing.zero.value := by
  have hdec : ∀ plane v chlen packlen bpplen,
      decodePacking plane 0#64 v chlen packlen bpplen = 0#64 := by
    intro plane v chlen packlen bpplen
    unfold decodePacking
    rw [if_neg (by decide)]
    decide
  match i, hi with
  | 1, _ => simp only [planePacking, h, hdec, Packing.value]
  | 2, _ => simp only [planePacking, h, hdec, Packing.value]
  | 3, _ => simp only [planePacking, h, hdec, Packing.value]
  | n + 4, _ => rfl

theorem numPlanes_of_flag {p : Packing} (h : get g 7 1 = 0#64) (h0 : g.planePacking 0 = p.value)
    (hp : p ≠ .zero) : g.numPlanes = 1 := by
  have hz : ∀ i, 1 ≤ i → g.planeNumChannels i = 0 := by
    intro i hi
    rw [planeNumChannels, planePacking_of_flag h hi, numChannelsOf_value]
    rfl
  have h0 : g.planeNumChannels 0 ≠ 0 := by
    rw [planeNumChannels, h0, numChannelsOf_value]
    exact fun hc => hp (getNumChannels_eq_zero.1 hc)
  rw [numPlanes, hz 1 (by decide), hz 2 (by decide), hz 3 (by decide), if_pos h0]
  rfl

/-- **What reads back**: with the flag off, the information in the bits of the other planes is
read back when its bits per pixel are 8 or 16 and its data kind is not the unspecified one. -/
theorem carries_iff {p : Packing} (hflag : get g 7 1 = 0#64) (h0 : g.planePacking 0 = p.value)
    (hp : p ≠ .zero) (hin : ∀ o n, 44 ≤ o → o + n ≤ 56 → get g o n = get (extraBits e) o n)
    (hn0 : 0 < e.numChannels) (hn7 : e.numChannels ≤ 7) (hb : e.bitsPerPixel ≤ 128) :
    Carries g e ↔ (e.bitsPerPixel = 8 ∨ e.bitsPerPixel = 16) ∧ e.datakind ≠ .unspecified := by
  have hnum : Int32.ofNat (get g 47 3).toNat = e.numChannels ∧ 0 < (get g 47 3).toNat := by
    have h47 : get g 47 3 = get (.ofInt 64 e.numChannels.toInt) 0 3 := by
      rw [hin 47 3 (by decide) (by decide), extraBits]
      simp (disch := decide) only [get_or, get_set, get_set_apart, BitVec.zero_or, BitVec.or_zero]
    rw [h47]
    have hc := numChannels_cases hn0 hn7
    generalize e.numChannels = n at hc
    revert n
    exact forall_mem_of_all (by decide)
  have hbpp : get g 50 3 = encodeBpp e.bitsPerPixel.toInt.toNat := by
    rw [hin 50 3 (by decide) (by decide), extraBits]
    simp (disch := decide) only [get_or, get_set, get_set_apart, BitVec.zero_or, BitVec.or_zero]
    refine get_eq_self (encodeBpp_lt ?_)
    have : e.bitsPerPixel.toInt ≤ 128 := Int32.le_iff_toInt_le.1 hb
    omega
  have hkind : get g 53 3 = e.datakind.value ↔ e.datakind ≠ .unspecified := by
    rw [hin 53 3 (by decide) (by decide), extraBits]
    simp (disch := decide) only [get_or, get_set, get_set_apart, BitVec.zero_or]
    cases e.datakind <;> decide
  have htype : get g 44 3 = e.channelType.value := by
    rw [hin 44 3 (by decide) (by decide), extraBits]
    simp (disch := decide) only [get_or, get_set, get_set_apart, BitVec.or_zero]
    cases e.channelType <;> decide
  unfold Carries extraChannelInfo
  rw [if_pos (numPlanes_of_flag hflag h0 hp)]
  simp only [if_pos hnum.2, hnum.1, hbpp, htype, ExtraChannelFields.mk.injEq, true_and, and_true,
    bpp_iff hb, hkind]

end

/-! ## The constructors -/

/-- A constructor called again, with other extra channels. -/
theorem construct_extra {print : ColorSpec → String} {c : Color} {a : FormatArgs} {f : ImageFormat}
    (h : construct print c a = .ok f) :
    ∃ m v s, f = makeFormat m v s a ∧ validateSwizzlePacking a = .ok () ∧
      validateExtraChannelInfo a = .ok () ∧
      ∀ x, validateExtraChannelInfo { a with exChannelInfo := x } = .ok () →
        construct print c { a with exChannelInfo := x } =
          .ok (makeFormat m v s { a with exChannelInfo := x }) := by
  have hraw : ∀ {r : RawPattern}, ofRawPattern r a = .ok f → ∃ m v s, f = makeFormat m v s a ∧
      validateSwizzlePacking a = .ok () ∧ validateExtraChannelInfo a = .ok () ∧
      ∀ x, validateExtraChannelInfo { a with exChannelInfo := x } = .ok () →
        ofRawPattern r { a with exChannelInfo := x } =
          .ok (makeFormat m v s { a with exChannelInfo := x }) := by
    intro r h
    obtain ⟨_, hs, h⟩ := bind_ok h
    obtain ⟨_, hx, h⟩ := bind_ok h
    cases h
    refine ⟨_, _, _, rfl, hs, hx, fun x hx => ?_⟩
    have hs : validateSwizzlePacking { a with exChannelInfo := x } = .ok () := hs
    simp only [ofRawPattern, hs, hx]
    rfl
  have hmodel : ∀ {m : ColorModel} {s : ColorSpec} {css : ChromaSubsampling},
      ofColorModel print m s css a = .ok f → ∃ m' v s', f = makeFormat m' v s' a ∧
      validateSwizzlePacking a = .ok () ∧ validateExtraChannelInfo a = .ok () ∧
      ∀ x, validateExtraChannelInfo { a with exChannelInfo := x } = .ok () →
        ofColorModel print m s css { a with exChannelInfo := x } =
          .ok (makeFormat m' v s' { a with exChannelInfo := x }) := by
    intro m s css h
    obtain ⟨_, hs, h⟩ := bind_ok h
    obtain ⟨_, hc, h⟩ := bind_ok h
    obtain ⟨_, hx, h⟩ := bind_ok h
    by_cases hy : m = .YCbCr
    · subst hy
      rw [if_pos rfl] at h
      cases h
      refine ⟨_, _, _, rfl, hs, hx, fun x hx => ?_⟩
      have hs : validateSwizzlePacking { a with exChannelInfo := x } = .ok () := hs
      simp only [ofColorModel, hs, hc, hx]
      rfl
    · rw [if_neg hy] at h
      by_cases hcss : css = .none
      · subst hcss
        cases h
        refine ⟨_, _, _, rfl, hs, hx, fun x hx => ?_⟩
        have hs : validateSwizzlePacking { a with exChannelInfo := x } = .ok () := hs
        simp only [ofColorModel, hs, hc, hx, if_neg hy]
        rfl
      · rw [if_pos hcss] at h
        cases h
  cases c with
  | colorModel m s css => exact hmodel h
  | rawPattern r => exact hraw h
  | nonColor =>
    obtain ⟨_, hs, h⟩ := bind_ok h
    obtain ⟨_, hx, h⟩ := bind_ok h
    cases h
    refine ⟨_, _, _, rfl, hs, hx, fun x hx => ?_⟩
    have hs : validateSwizzlePacking { a with exChannelInfo := x } = .ok () := hs
    simp only [construct, ofNonColor, hs, hx]
    rfl
  | colorFormat fmt css =>
    by_cases hr : fmt.model = .RAW
    · simp only [construct, ofColorFormat, if_pos hr] at h ⊢
      by_cases hcss : css = .none
      · subst hcss
        exact hraw h
      · rw [if_pos hcss] at h
        cases h
    · simp only [construct, ofColorFormat, if_neg hr] at h ⊢
      exact hmodel h

/-- Extra channels are asked for. -/
def AsksExtra (a : FormatArgs) : Prop := ∃ e, a.exChannelInfo = some e ∧ 0 < e.numChannels

theorem asksExtra_or (a : FormatArgs) : AsksExtra a ∨ NoExtra a := by
  by_cases h : AsksExtra a
  · exact .inl h
  · exact .inr fun e he hn => h ⟨e, he, hn⟩

/-- Formats with extra channels have one plane. -/
theorem validateExtraChannelInfo_ok {a : FormatArgs} (hx : AsksExtra a)
    (h : validateExtraChannelInfo a = .ok ()) :
    a.packing1 = .zero ∧ a.packing2 = .zero ∧ a.packing3 = .zero := by
  obtain ⟨e, he, hn⟩ := hx
  simp only [validateExtraChannelInfo, he] at h
  obtain ⟨-, h⟩ := check_ok h
  obtain ⟨h0, h⟩ := check_ok h
  obtain ⟨h1, -⟩ := check_ok h
  simp only [hn, true_and, not_and, not_or, not_not] at h0 h1
  exact h1 h0

theorem validateExtraChannelInfo_accepts {a : FormatArgs} {e : ExtraChannelInfo}
    (h0 : a.packing0 ≠ .zero) (h1 : a.packing1 = .zero) (h2 : a.packing2 = .zero)
    (h3 : a.packing3 = .zero) (hn7 : e.numChannels ≤ 7) (hb : e.bitsPerPixel ≤ 128) :
    validateExtraChannelInfo { a with exChannelInfo := some e } = .ok () := by
  have hn : ¬e.numChannels > 7 := Int32.not_lt.2 hn7
  have hb : ¬e.bitsPerPixel > 128 := Int32.not_lt.2 hb
  simp only [validateExtraChannelInfo, if_neg hn, if_neg hb, h0, h1, h2, h3, and_false, ne_eq,
    not_true_eq_false, or_self, if_false]

theorem field2_ne_zero {p : Packing} (h : p.value &&& 0b1000#64 = 0)
    (hb : p.getBitsPerPixel ≤ 128) (hp : p ≠ .zero) :
    Packing.numChannelsOf (decodePacking 2 1#64 (encodePacking p.value 1 3 3) 1 3 3) ≠ 0 := by
  revert h hb hp
  cases p <;> decide

theorem field3_ne_zero {p : Packing} (h : p.value &&& 0b1111#64 = 0)
    (hb : p.getBitsPerPixel ≤ 64) (hp : p ≠ .zero) :
    Packing.numChannelsOf (decodePacking 3 1#64 (encodePacking p.value 0 0 3) 0 0 3) ≠ 0 := by
  revert h hb hp
  cases p <;> decide

/-- A plane has no channels exactly when it was given no packing. -/
theorem plain_planeNumChannels_eq_zero {m : ColorModel} {v s : BitVec 64} {a : FormatArgs}
    (hs : validateSwizzlePacking a = .ok ()) :
    (plain m v s a).planeNumChannels 0 ≠ 0 ∧
      ((plain m v s a).planeNumChannels 1 = 0 ↔ a.packing1 = .zero) ∧
      ((plain m v s a).planeNumChannels 2 = 0 ↔ a.packing2 = .zero) ∧
      ((plain m v s a).planeNumChannels 3 = 0 ↔ a.packing3 = .zero) := by
  obtain ⟨hz, -⟩ := check_ok hs
  obtain ⟨c0, c1, c2, c3, b1, b2, b3, n1⟩ := validateSwizzlePacking_ok hs
  refine ⟨?_, ?_, ?_, ?_⟩
  · rw [planeNumChannels, plain_planePacking0 c0, numChannelsOf_value]
    exact fun h => hz (getNumChannels_eq_zero.1 h)
  · rw [planeNumChannels, plain_planePacking1 c1 b1 n1, numChannelsOf_value]
    exact getNumChannels_eq_zero
  · simp only [planeNumChannels, planePacking, plain_planar, plain_field2]
    refine ⟨fun h => ?_, fun h => by rw [h]; decide⟩
    by_contra hne
    exact field2_ne_zero c2 b2 hne h
  · simp only [planeNumChannels, planePacking, plain_planar, plain_field3]
    refine ⟨fun h => ?_, fun h => by rw [h]; decide⟩
    by_contra hne
    exact field3_ne_zero c3 b3 hne h

/-- A format of one plane was given one packing. -/
theorem single_plane {m : ColorModel} {v s : BitVec 64} {a : FormatArgs}
    (hs : validateSwizzlePacking a = .ok ()) (hx : validateExtraChannelInfo a = .ok ())
    (h1 : (makeFormat m v s a).numPlanes = 1) :
    a.packing1 = .zero ∧ a.packing2 = .zero ∧ a.packing3 = .zero := by
  rcases asksExtra_or a with hax | hno
  · exact validateExtraChannelInfo_ok hax hx
  · obtain ⟨n0, n1, n2, n3⟩ := plain_planeNumChannels_eq_zero (m := m) (v := v) (s := s) hs
    rw [makeFormat_plain hno, numPlanes, if_pos n0] at h1
    refine ⟨n1.1 ?_, n2.1 ?_, n3.1 ?_⟩
    · by_contra hne
      rw [if_pos hne] at h1
      omega
    · by_contra hne
      rw [if_pos hne] at h1
      omega
    · by_contra hne
      rw [if_pos hne] at h1
      omega

/-! ## The setter -/

/-- What the setter makes of a format. -/
def withExtra (f : ImageFormat) (e : ExtraChannelInfo) : ImageFormat :=
  clear f 44 12 ||| extraBits e

theorem setExtraChannelInfo_ok_iff {f g : ImageFormat} {e : ExtraChannelInfo} (hf : f ≠ 0#64)
    (h1 : f.numPlanes = 1) (hn0 : 0 < e.numChannels) (hn7 : e.numChannels ≤ 7)
    (hb : e.bitsPerPixel ≤ 128) :
    f.setExtraChannelInfo e = .ok g ↔ e.datakind ≠ .unspecified ∧ g = f.withExtra e := by
  have hn : ¬(e.numChannels < 0 ∨ e.numChannels > 7) := by
    rintro (h | h)
    · exact Int32.lt_asymm h hn0
    · exact Int32.not_lt.2 hn7 h
  unfold setExtraChannelInfo
  rw [if_neg hf, if_neg hn, if_neg (Int32.not_lt.2 hb)]
  by_cases hk : e.datakind = .unspecified
  · simp [hk]
  · rw [if_neg hk, if_pos h1, Except.ok.injEq, withExtra, extraBits]
    have hor : ∀ x y z t : BitVec 64, x ||| y ||| z ||| t = t ||| x ||| y ||| z := by
      intro x y z t
      rw [BitVec.or_comm, ← BitVec.or_assoc, ← BitVec.or_assoc]
    rw [hor]
    exact ⟨fun h => ⟨hk, h.symm⟩, fun h => h.2.symm⟩

section
variable {f : ImageFormat} {e : ExtraChannelInfo}

theorem get_withExtra_outside {o n : Nat} (h : Outside o n ∨ o = 7 ∧ n = 1) :
    get (f.withExtra e) o n = get f o n := by
  rw [withExtra, get_or, get_extraBits_outside h, BitVec.or_zero]
  unfold Outside at h
  exact get_clear_apart f (by omega)

theorem get_withExtra_inside {o n : Nat} (hl : 44 ≤ o) (hr : o + n ≤ 56) :
    get (f.withExtra e) o n = get (extraBits e) o n := by
  rw [withExtra, get_or, get_clear_inside f hl hr, BitVec.zero_or]

/-- The packing of a second plane that is zero has zeros in its field. -/
theorem decodePacking1_zero {x : BitVec 64} (h : decodePacking 1 1#64 x 1 3 3 = 0#64) :
    get x 3 1 = 0#64 ∧ get x 4 2 = 0#64 := by
  have hd : decodePacking 1 1#64 x 1 3 3 =
      set (get x 4 3) 6 4 ||| set (get x 3 1) 4 2 ||| set (get x 0 3) 0 4 := by
    unfold decodePacking
    rw [if_pos (by decide), if_neg fun h => absurd h.1 (by decide)]
  rw [hd] at h
  have h₃ := congrArg (get · 4 1) h
  have h₄ := congrArg (get · 6 2) h
  simp (disch := decide) only [get_or, get_set_inside, get_set_apart, get_get, BitVec.or_zero,
    BitVec.zero_or] at h₃ h₄
  exact ⟨h₃, h₄⟩

/-- With the flag on, the number of extra channels is a packing of the second plane. -/
theorem withExtra_planes (hflag : get f 7 1 = 1#64) (hn0 : 0 < e.numChannels)
    (hn7 : e.numChannels ≤ 7) : (f.withExtra e).planePacking 1 ≠ 0#64 := by
  have hflag : get (f.withExtra e) 7 1 = 1#64 := by
    rw [get_withExtra_outside (.inr ⟨rfl, rfl⟩), hflag]
  intro h
  simp only [planePacking, hflag] at h
  obtain ⟨h₃, h₄⟩ := decodePacking1_zero h
  rw [get_get _ (by decide), get_withExtra_inside (by decide) (by decide), extraBits] at h₃ h₄
  simp (disch := decide) only [get_or, get_set_inside, get_set_apart, BitVec.or_zero,
    BitVec.zero_or] at h₃ h₄
  have hc := numChannels_cases hn0 hn7
  generalize e.numChannels = n at hc h₃ h₄
  revert n
  exact forall_mem_of_all (by decide)

/-- A format of one plane and two packings is none of one plane. -/
theorem not_carries_of_flag {p : Packing} (h0 : f.planePacking 0 = p.value) (hp : p ≠ .zero)
    (hflag : get f 7 1 = 1#64) (hn0 : 0 < e.numChannels) (hn7 : e.numChannels ≤ 7) :
    ¬Carries (f.withExtra e) e := by
  have h0' : (f.withExtra e).planePacking 0 = p.value := by
    simp only [planePacking, get_withExtra_outside (f := f) (e := e) (o := 35) (n := 9)
      (.inl (by decide))]
    exact h0
  have hp0 : (f.withExtra e).planeNumChannels 0 ≠ 0 := by
    rw [planeNumChannels, h0', numChannelsOf_value]
    exact fun h => hp (getNumChannels_eq_zero.1 h)
  have hp1 : (f.withExtra e).planeNumChannels 1 ≠ 0 := by
    have h := withExtra_planes hflag hn0 hn7
    rw [planeNumChannels, Packing.numChannelsOf]
    split_ifs <;> omega
  intro hc
  have hn : (f.withExtra e).numPlanes ≠ 1 := by
    rw [numPlanes, if_pos hp0, if_pos hp1]
    omega
  rw [Carries, extraChannelInfo, if_neg hn] at hc
  have h0 : (0 : Int32) = e.numChannels := congrArg ExtraChannelFields.numChannels hc
  rw [← h0] at hn0
  exact absurd hn0 (by decide)

end

/-! ## The round trip -/

/-- The information is read back, the rest of the format is as before, and there are no packings
of other planes. -/
structure Encoded (f g : ImageFormat) (e : ExtraChannelInfo) : Prop where
  carries : Carries g e
  same : SameFields f g
  planes : ∀ i, 1 ≤ i → g.planePacking i = Packing.zero.value

/-- The information that reads back from where it is put. -/
def Readable (e : ExtraChannelInfo) : Prop :=
  (e.bitsPerPixel = 8 ∨ e.bitsPerPixel = 16) ∧ e.datakind ≠ .unspecified

/-- A word with the information in its bits and the flag off. -/
theorem encoded_iff {m : ColorModel} {v s : BitVec 64} {a : FormatArgs} {f g : ImageFormat}
    {e : ExtraChannelInfo} (hz : a.packing0 ≠ .zero) (hc : a.packing0.value &&& 0b1000#64 = 0)
    (hf : ∀ o n, Outside o n → get f o n = get (base m v s a) o n)
    (hg : ∀ o n, Outside o n → get g o n = get (base m v s a) o n) (hflag : get g 7 1 = 0#64)
    (hin : ∀ o n, 44 ≤ o → o + n ≤ 56 → get g o n = get (extraBits e) o n)
    (hn0 : 0 < e.numChannels) (hn7 : e.numChannels ≤ 7) (hb : e.bitsPerPixel ≤ 128) :
    Encoded f g e ↔ Readable e := by
  have hcar := carries_iff hflag (planePacking0_of_agree hc hg) hz hin hn0 hn7 hb
  refine ⟨fun h => hcar.1 h.carries, fun h => ⟨hcar.2 h, ?_, fun i => planePacking_of_flag hflag⟩⟩
  exact sameFields_of_agree (ne_zero_of_agree hz hf) (ne_zero_of_agree hz hg)
    fun o n ho => (hg o n ho).trans (hf o n ho).symm

/-- **Extra channels read back** from a format of one plane, for information the constructors
accept: when a constructor puts it there, those of 8 or 16 bits per pixel and a specified data
kind; when the setter does, those and in a format that has extra channels already. -/
theorem extraChannelInfo_round_trip (print : ColorSpec → String) {c : Color} {a : FormatArgs}
    {f : ImageFormat} (hf : construct print c a = .ok f) (h1 : f.numPlanes = 1)
    {e : ExtraChannelInfo} (hn0 : 0 < e.numChannels) (hn7 : e.numChannels ≤ 7)
    (hb : e.bitsPerPixel ≤ 128) :
    ((∃ g, construct print c { a with exChannelInfo := some e } = .ok g ∧ Encoded f g e) ↔
        Readable e) ∧
      ((∃ g, f.setExtraChannelInfo e = .ok g ∧ Encoded f g e) ↔ AsksExtra a ∧ Readable e) := by
  obtain ⟨m, v, s, rfl, hs, hx, hagain⟩ := construct_extra hf
  obtain ⟨hp1, hp2, hp3⟩ := single_plane hs hx h1
  obtain ⟨hz, -⟩ := check_ok hs
  obtain ⟨hc, -⟩ := validateSwizzlePacking_ok hs
  have hout : ∀ o n, Outside o n → get (makeFormat m v s a) o n = get (base m v s a) o n :=
    fun o n ho => get_makeFormat_outside ho
  have hword : ∀ e₀ : ExtraChannelInfo, 0 < e₀.numChannels →
      makeFormat m v s { a with exChannelInfo := some e₀ } = base m v s a ||| extraBits e₀ := by
    intro e₀ h₀
    rw [makeFormat_base, planeBits_extra hp1 h₀]
    rfl
  constructor
  · have hg := hagain (some e) (validateExtraChannelInfo_accepts hz hp1 hp2 hp3 hn7 hb)
    rw [hword e hn0] at hg
    have henc : Encoded (makeFormat m v s a) (base m v s a ||| extraBits e) e ↔ Readable e := by
      refine encoded_iff hz hc hout (fun o n ho => ?_) ?_ (fun o n hl hr => ?_) hn0 hn7 hb
      · rw [get_or, get_extraBits_outside (.inl ho), BitVec.or_zero]
      · rw [get_or, get_base_inside (.inl ⟨rfl, rfl⟩), get_extraBits_outside (.inr ⟨rfl, rfl⟩),
          BitVec.or_zero]
      · rw [get_or, get_base_inside (.inr ⟨hl, by omega⟩), BitVec.zero_or]
    rw [← henc, hg]
    constructor
    · rintro ⟨g, hg, he⟩
      cases hg
      exact he
    · exact fun he => ⟨_, rfl, he⟩
  · have hne := ne_zero_of_agree hz hout
    have hset : ∀ g, (makeFormat m v s a).setExtraChannelInfo e = .ok g ↔ _ :=
      fun g => setExtraChannelInfo_ok_iff hne h1 hn0 hn7 hb
    simp only [hset]
    rcases asksExtra_or a with hax | hno
    · obtain ⟨e₀, he₀, h₀⟩ := hax
      have hflag : get (makeFormat m v s a) 7 1 = 0#64 := by
        rw [makeFormat_base, he₀, planeBits_extra hp1 h₀, get_or,
          get_base_inside (.inl ⟨rfl, rfl⟩), get_extraBits_outside (.inr ⟨rfl, rfl⟩),
          BitVec.or_zero]
      have henc : Encoded (makeFormat m v s a) ((makeFormat m v s a).withExtra e) e ↔
          Readable e := by
        refine encoded_iff hz hc hout (fun o n ho => ?_) ?_ (fun o n hl hr => ?_) hn0 hn7 hb
        · rw [get_withExtra_outside (.inl ho), hout o n ho]
        · rw [get_withExtra_outside (.inr ⟨rfl, rfl⟩), hflag]
        · exact get_withExtra_inside hl hr
      constructor
      · rintro ⟨g, ⟨-, rfl⟩, he⟩
        exact ⟨⟨e₀, he₀, h₀⟩, henc.1 he⟩
      · rintro ⟨-, hr⟩
        exact ⟨_, ⟨hr.2, rfl⟩, henc.2 hr⟩
    · have hflag : get (makeFormat m v s a) 7 1 = 1#64 := by
        rw [makeFormat_plain hno, plain_planar]
      have hnot := not_carries_of_flag (planePacking0_of_agree hc hout) hz hflag hn0 hn7
      constructor
      · rintro ⟨g, ⟨-, rfl⟩, he⟩
        exact absurd he.carries hnot
      · rintro ⟨⟨e₀, he₀, h₀⟩, -⟩
        exact absurd h₀ (hno e₀ he₀)

/-- Eight bits of one channel. -/
def oneByte : FormatArgs where
  memLayout := .pitchLinear
  dataKind := .unsigned
  swizzle := .SX000
  packing0 := .X8
  packing1 := .zero
  packing2 := .zero
  packing3 := .zero
  alphaType := .associated

/-- Two extra channels. -/
def twoExtra (bitsPerPixel : Int32) : ExtraChannelInfo := ⟨2, bitsPerPixel, .unsigned, .POS3D⟩

theorem extraChannelInfo_round_trip_twice : ∃ f g,
    construct (fun _ => "") .nonColor { oneByte with exChannelInfo := some (twoExtra 8) } =
      .ok f ∧ f.setExtraChannelInfo (twoExtra 16) = .ok g ∧ Encoded f g (twoExtra 16) := by
  have hf : construct (fun _ => "") .nonColor
      { oneByte with exChannelInfo := some (twoExtra 8) } = .ok _ := rfl
  obtain ⟨-, hset⟩ := extraChannelInfo_round_trip (fun _ => "") hf (by decide +kernel)
    (e := twoExtra 16) (by decide) (by decide) (by decide)
  obtain ⟨g, hg, he⟩ := hset.2 ⟨⟨_, rfl, by decide⟩, .inr rfl, by decide⟩
  exact ⟨_, g, hf, hg, he⟩

/-- A format without extra channels does not have those that are set; a constructor gives it those
of 32 bits as if they had 64. -/
theorem set_loses_info : ∃ f g h, construct (fun _ => "") .nonColor oneByte = .ok f ∧
    f.numPlanes = 1 ∧ f.setExtraChannelInfo (twoExtra 8) = .ok g ∧
    g.extraChannelInfo.numChannels = 0 ∧
    construct (fun _ => "") .nonColor { oneByte with exChannelInfo := some (twoExtra 32) } =
      .ok h ∧ h.extraChannelInfo.bitsPerPixel = 64 := by
  refine ⟨_, _, _, rfl, ?_, rfl, ?_, rfl, ?_⟩ <;> decide +kernel

end Nvcv.ImageFormat
