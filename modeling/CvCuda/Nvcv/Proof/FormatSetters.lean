import CvCuda.Lib.Run
import CvCuda.Nvcv.FormatSetters
import CvCuda.Nvcv.Proof.ExtraChannels

/-! # Setters of image formats keep the other attributes

A setter puts one field in the place of another. The getters of the color read the bits 16 to 34,
those of the planes bit 7 and the bits 35 to 60, and the other three a field each. `update` says
what the getters should return after a setter, `Settable` which setters do that.

* `colorModel_eq_YCbCr_iff`, `colorModel_eq_RGB_iff`, `colorModel_eq_RAW_iff`: color models.
* `attributes_put_color`, `attributes_put_plain`: what one field does to the getters.
* `call_attributes_iff`: a setter that returns does what `update` says exactly when it is settable.
* `setters_run_iff`: so it is in every run of setters from a constructor's format.
* `setters_deviate`: setters that return and change nothing, or to another value.
-/

namespace Nvcv.ImageFormat

open Bitfield

/-- What the getters return. -/
structure Attributes where
  colorModel : Nat
  colorSpec : ColorSpec
  colorRange : BitVec 15
  rawPattern : Option (BitVec 64)
  css : BitVec 64
  memLayout : BitVec 64
  dataKind : BitVec 64
  alphaType : BitVec 64
  swizzle : BitVec 64
  planePacking : Nat → BitVec 64
  extraChannelInfo : ExtraChannelFields

def attributes (f : ImageFormat) : Attributes where
  colorModel := f.colorModel
  colorSpec := f.colorSpec
  colorRange := f.colorRange
  rawPattern := f.rawPattern
  css := f.css
  memLayout := f.memLayout
  dataKind := f.dataKind
  alphaType := f.alphaType
  swizzle := f.swizzle
  planePacking := f.planePacking
  extraChannelInfo := f.extraChannelInfo

/-- A color spec as a format of the color model has it: for RGB the encoding is the undefined one,
for YCbCr an undefined encoding gives way to that of the undefined color spec. -/
def normalized (colorModel : Nat) (cspec : ColorSpec) : ColorSpec :=
  if colorModel = ColorModel.RGB.value then cspec.setYCbCrEncoding ColorSpec.undefinedEncoding
  else if colorModel = ColorModel.YCbCr.value ∧
      cspec.yCbCrEncoding = ColorSpec.undefinedEncoding then
    cspec.setYCbCrEncoding ColorSpec.undefined.yCbCrEncoding
  else cspec

namespace Attributes

/-- The attributes with the color spec of a format of the same color model. -/
def withColorSpec (a : Attributes) (cspec : ColorSpec) : Attributes :=
  { a with
    colorSpec := normalized a.colorModel cspec
    colorRange := cspec.colorRange }

/-- One attribute has the value given, the others are as before. -/
def update (a : Attributes) : Setter → Attributes
  | .colorSpec newColorSpec => a.withColorSpec newColorSpec
  | .colorRange newColorRange =>
    { a.withColorSpec (a.colorSpec.setColorRange newColorRange) with
      colorRange := newColorRange.value }
  | .css newCSS => { a with css := newCSS.value }
  | .memLayout newMemLayout => { a with memLayout := newMemLayout.value }
  | .dataKind newDataKind => { a with dataKind := newDataKind.value }
  | .alphaType newAlphaType => { a with alphaType := newAlphaType.value }
  | .rawPattern newRawPattern => { a with rawPattern := some newRawPattern.value }

end Attributes

/-- Formats of the color model have a color spec that can be set. -/
def HasColorSpec (colorModel : Nat) : Prop :=
  colorModel = ColorModel.RGB.value ∨ colorModel = ColorModel.YCbCr.value

/-- A format of the color model can have the value. -/
def Settable (colorModel : Nat) : Setter → Prop
  | .colorSpec newColorSpec => HasColorSpec colorModel ∨ newColorSpec = .undefined
  | .colorRange newColorRange => HasColorSpec colorModel ∨ newColorRange = .full
  | .dataKind newDataKind => newDataKind ≠ .unspecified
  | .css _ | .memLayout _ | .alphaType _ | .rawPattern _ => True

/-! ## Color models -/

section
variable {f g : ImageFormat}

theorem colorModel_of_ne_zero (hf : f ≠ 0#64) : f.colorModel =
    if get f 16 1 = 0#64 then 1
    else if get f 16 19 = .ofNat 64 (2 ^ 19 - 1) then 0
    else if (get f 17 3).toNat < 7 then (get f 17 3).toNat + 2
    else if get f 20 1 = 0#64 then 9
    else (get f 21 6).toNat + (7 + 2 + 1) :=
  if_neg hf

theorem colorModel_eq_YCbCr_iff (hf : f ≠ 0#64) :
    f.colorModel = ColorModel.YCbCr.value ↔ get f 16 1 = 0#64 := by
  rw [colorModel_of_ne_zero hf, ColorModel.value]
  by_cases h : get f 16 1 = 0#64
  · rw [if_pos h]
    exact ⟨fun _ => h, fun _ => rfl⟩
  · rw [if_neg h]
    refine ⟨fun hc => ?_, fun hc => absurd hc h⟩
    split_ifs at hc <;> omega

/-- A format with a bit from 16 to 34 that is not set is none without a color model. -/
theorem get_16_19_ne {o n : Nat} (ho : 16 ≤ o) (hn : o + n ≤ 35)
    (h : get f o n ≠ get (BitVec.ofNat 64 (2 ^ 19 - 1)) (o - 16) n) :
    get f 16 19 ≠ .ofNat 64 (2 ^ 19 - 1) := by
  intro hc
  have hon : o - 16 + n ≤ 19 := by omega
  rw [← hc, get_get f hon, Nat.add_sub_cancel' ho] at h
  exact h rfl

theorem colorModel_eq_RGB_iff (hf : f ≠ 0#64) :
    f.colorModel = ColorModel.RGB.value ↔ get f 16 1 ≠ 0#64 ∧ (get f 17 3).toNat = 0 := by
  rw [colorModel_of_ne_zero hf, ColorModel.value]
  constructor
  · intro h
    by_cases h16 : get f 16 1 = 0#64
    · rw [if_pos h16] at h
      omega
    · rw [if_neg h16] at h
      refine ⟨h16, ?_⟩
      split_ifs at h <;> omega
  · rintro ⟨h16, h17⟩
    have hne : get f 16 19 ≠ .ofNat 64 (2 ^ 19 - 1) := by
      have hz : get f 17 3 = 0#64 := BitVec.eq_of_toNat_eq h17
      exact get_16_19_ne (o := 17) (n := 3) (by decide) (by decide) (by rw [hz]; decide)
    rw [if_neg h16, if_neg hne, h17, if_pos (by decide)]

theorem colorModel_eq_RAW_iff (hf : f ≠ 0#64) : f.colorModel = ColorModel.RAW.value ↔
    get f 16 1 ≠ 0#64 ∧ (get f 17 3).toNat = 7 ∧ get f 20 1 = 0#64 := by
  have hlt := toNat_get_lt f 17 3
  rw [colorModel_of_ne_zero hf, ColorModel.value]
  constructor
  · intro h
    by_cases h16 : get f 16 1 = 0#64
    · rw [if_pos h16] at h
      omega
    · rw [if_neg h16] at h
      by_cases h20 : get f 20 1 = 0#64
      · refine ⟨h16, ?_, h20⟩
        split_ifs at h <;> omega
      · rw [if_neg h20] at h
        split_ifs at h <;> omega
  · rintro ⟨h16, h17, h20⟩
    have hne : get f 16 19 ≠ .ofNat 64 (2 ^ 19 - 1) :=
      get_16_19_ne (o := 20) (n := 1) (by decide) (by decide) (by rw [h20]; decide)
    rw [if_neg h16, if_neg hne, h17, if_neg (by decide), if_pos h20]

end

/-! ## What the getters read -/

section
variable {f g : ImageFormat}

/-- The getters of the color read the bits 16 to 34. -/
theorem color_of_agree (hf : f ≠ 0#64) (hg : g ≠ 0#64)
    (h : ∀ o n, 16 ≤ o → o + n ≤ 35 → get g o n = get f o n) :
    g.colorModel = f.colorModel ∧ g.colorSpec = f.colorSpec ∧ g.rawPattern = f.rawPattern ∧
      g.css = f.css := by
  have hm : g.colorModel = f.colorModel := by
    unfold colorModel
    rw [if_neg hf, if_neg hg, h 16 1 (by decide) (by decide), h 16 19 (by decide) (by decide),
      h 17 3 (by decide) (by decide), h 20 1 (by decide) (by decide),
      h 21 6 (by decide) (by decide)]
  refine ⟨hm, ?_, ?_, ?_⟩
  · unfold colorSpec
    rw [hm, h 20 15 (by decide) (by decide)]
  · unfold rawPattern
    rw [hm, h 21 6 (by decide) (by decide)]
  · unfold css
    rw [hm, h 17 3 (by decide) (by decide)]

/-- The getters of the planes read bit 7 and the bits 35 to 60. -/
theorem planes_of_agree (h7 : get g 7 1 = get f 7 1)
    (h : ∀ o n, 35 ≤ o → o + n ≤ 61 → get g o n = get f o n) :
    g.planePacking = f.planePacking ∧ g.extraChannelInfo = f.extraChannelInfo := by
  have hp : g.planePacking = f.planePacking := by
    funext plane
    unfold planePacking
    rw [h7, h 35 9 (by decide) (by decide), h 44 7 (by decide) (by decide),
      h 51 7 (by decide) (by decide), h 58 3 (by decide) (by decide)]
  refine ⟨hp, ?_⟩
  have hn : g.numPlanes = f.numPlanes := by
    unfold numPlanes planeNumChannels
    rw [hp]
  unfold extraChannelInfo
  rw [hn, h 47 3 (by decide) (by decide), h 50 3 (by decide) (by decide),
    h 53 3 (by decide) (by decide), h 44 3 (by decide) (by decide)]

end

/-! ## One field in the place of another -/

section
variable {f g : ImageFormat} {v : BitVec 64} {o n : Nat}

theorem ne_zero_of_packing0 (hf : get f 35 9 ≠ 0#64) : f ≠ 0#64 := by
  rintro rfl
  exact hf (by decide)

/-- The other fields. -/
theorem get_of_put (hg : g = put f v o n) (o' n' : Nat) (h : o + n ≤ o' ∨ o' + n' ≤ o) :
    get g o' n' = get f o' n' := by
  rw [hg]
  exact get_put_apart f v h

/-- No setter changes the packing of the first plane. -/
theorem ne_zero_of_put (hf : get f 35 9 ≠ 0#64) (hg : g = put f v o n)
    (h : o + n ≤ 35 ∨ 44 ≤ o) : g ≠ 0#64 :=
  ne_zero_of_packing0 (by rwa [get_of_put hg 35 9 (by omega)])

theorem planes_put (hg : g = put f v o n) (h : o + n ≤ 7 ∨ 8 ≤ o ∧ o + n ≤ 35 ∨ 61 ≤ o) :
    g.planePacking = f.planePacking ∧ g.extraChannelInfo = f.extraChannelInfo := by
  refine planes_of_agree (get_of_put hg 7 1 (by omega)) fun o' n' hl hr => ?_
  exact get_of_put hg o' n' (by omega)

/-- A field of the color does nothing to the getters of anything else. -/
theorem attributes_put_color (hg : g = put f v o n) (hl : 16 ≤ o) (hr : o + n ≤ 35) :
    attributes g =
      { attributes f with
        colorModel := g.colorModel
        colorSpec := g.colorSpec
        colorRange := g.colorRange
        rawPattern := g.rawPattern
        css := g.css } := by
  obtain ⟨hp, he⟩ := planes_put hg (by omega)
  have hs : g.swizzle = f.swizzle := get_of_put hg 0 6 (by omega)
  have ha : g.alphaType = f.alphaType := get_of_put hg 6 1 (by omega)
  have hm : g.memLayout = f.memLayout := get_of_put hg 12 3 (by omega)
  have hk : g.dataKind = f.dataKind := get_of_put hg 61 3 (by omega)
  rw [attributes, hp, he, hs, ha, hm, hk]
  rfl

/-- A field of none of these does nothing to the getters of the color, the planes and the
swizzle. -/
theorem attributes_put_plain (hf : get f 35 9 ≠ 0#64) (hg : g = put f v o n)
    (h : 6 ≤ o ∧ o + n ≤ 7 ∨ 8 ≤ o ∧ o + n ≤ 16 ∨ 61 ≤ o) :
    attributes g =
      { attributes f with
        memLayout := g.memLayout
        dataKind := g.dataKind
        alphaType := g.alphaType } := by
  obtain ⟨hp, he⟩ := planes_put hg (by omega)
  obtain ⟨hm, hc, hr, hs⟩ := color_of_agree (ne_zero_of_packing0 hf)
    (ne_zero_of_put hf hg (by omega)) fun o' n' hl hr => get_of_put hg o' n' (by omega)
  have hw : g.swizzle = f.swizzle := get_of_put hg 0 6 (by omega)
  have hrange : g.colorRange = f.colorRange := by rw [colorRange, hc, colorRange]
  rw [attributes, hp, he, hm, hc, hr, hs, hw, hrange]
  rfl

end

/-! ## The setters -/

section
variable {print : ColorSpec → String} {f g : ImageFormat}

theorem checkNone_ok {msg : String} {u : Unit} (h : f.checkNone msg = .ok u) : f ≠ 0#64 := by
  rintro rfl
  cases h

/-- The branch for a data kind whose third bit is set does what the other does. -/
theorem dataKind_negation {k : DataKind} (hk : get k.value 2 1 ≠ 0#64) :
    -(1#64 + (~~~(clear f 61 3 ||| set k.value 61 2) &&& ~~~(1#64 <<< 63))) =
      put f k.value 61 3 := by
  have hneg : ∀ x : BitVec 64, -(1#64 + x) = ~~~x := by
    intro x
    rw [BitVec.add_comm, BitVec.neg_add, BitVec.not_eq_neg_add]
  have hset : set k.value 61 3 = set k.value 61 2 ||| (1#64 <<< 63) := by
    revert hk
    cases k <;> decide
  rw [hneg, BitVec.not_and, BitVec.not_not, BitVec.not_not, put, hset, BitVec.or_assoc]

theorem setAlphaType_ok {newAlphaType : AlphaType} (h : f.setAlphaType newAlphaType = .ok g) :
    g = put f newAlphaType.value 6 1 := by
  obtain ⟨_, -, h⟩ := bind_ok h
  cases h
  rfl

theorem setMemLayout_ok {newMemLayout : MemLayout} (h : f.setMemLayout newMemLayout = .ok g) :
    g = put f newMemLayout.value 12 3 := by
  obtain ⟨_, -, h⟩ := bind_ok h
  cases h
  rfl

theorem setDataKind_ok {newDataKind : DataKind} (h : f.setDataKind newDataKind = .ok g) :
    g = put f newDataKind.value 61 3 := by
  obtain ⟨_, -, h⟩ := bind_ok h
  by_cases hk : get newDataKind.value 2 1 ≠ 0#64
  · rw [if_pos hk] at h
    cases h
    exact dataKind_negation hk
  · rw [if_neg hk] at h
    cases h
    rfl

theorem setRawPattern_ok {newRawPattern : RawPattern}
    (h : f.setRawPattern newRawPattern = .ok g) :
    f.colorModel = ColorModel.RAW.value ∧ g = put f newRawPattern.value 21 6 := by
  obtain ⟨_, -, h⟩ := bind_ok h
  by_cases hm : f.colorModel = ColorModel.RAW.value
  · rw [if_pos hm] at h
    cases h
    exact ⟨hm, rfl⟩
  · rw [if_neg hm] at h
    cases h

theorem setCss_ok {newCSS : ChromaSubsampling} (h : f.setCss newCSS = .ok g) :
    f.colorModel = ColorModel.YCbCr.value ∧ g = put f newCSS.value 17 3 ∨
      f.colorModel ≠ ColorModel.YCbCr.value ∧ newCSS = .none ∧ g = f := by
  obtain ⟨_, -, h⟩ := bind_ok h
  by_cases hm : f.colorModel = ColorModel.YCbCr.value
  · rw [if_pos hm] at h
    cases h
    exact .inl ⟨hm, rfl⟩
  · rw [if_neg hm] at h
    by_cases hc : newCSS = .none
    · rw [if_pos hc] at h
      cases h
      exact .inr ⟨hm, hc, rfl⟩
    · rw [if_neg hc] at h
      cases h

/-- The encoding that is computed and not used is the one that is there. -/
theorem adjustColorSpec_eq (cspec : ColorSpec) :
    f.adjustColorSpec cspec = normalized f.colorModel cspec := by
  unfold adjustColorSpec normalized
  by_cases hm : f.colorModel = ColorModel.RGB.value
  · rw [if_pos hm, if_pos hm]
  · rw [if_neg hm, if_neg hm]
    by_cases he : f.colorModel = ColorModel.YCbCr.value ∧
        cspec.yCbCrEncoding = ColorSpec.undefinedEncoding
    · have hu : ColorSpec.undefined.yCbCrEncoding = cspec.yCbCrEncoding := by
        rw [he.2]
        decide
      rw [if_pos he, hu]
      exact (put_get cspec 7 3).symm
    · rw [if_neg he]

/-- A color spec is put in a format of the two color models, normalized; another format has the
undefined one and stays. -/
theorem setColorSpec_ok {newColorSpec : ColorSpec}
    (h : f.setColorSpec print newColorSpec = .ok g) :
    HasColorSpec f.colorModel ∧
        g = put f ((normalized f.colorModel newColorSpec).setWidth 64) 20 15 ∨
      ¬HasColorSpec f.colorModel ∧ f.colorSpec = .undefined ∧ g = f := by
  obtain ⟨_, -, h⟩ := bind_ok h
  by_cases hm : f.colorModel = ColorModel.RGB.value ∨ f.colorModel = ColorModel.YCbCr.value
  · rw [if_pos hm] at h
    rw [adjustColorSpec_eq] at h
    cases h
    exact .inl ⟨hm, rfl⟩
  · rw [if_neg hm] at h
    by_cases hc : f.colorSpec ≠ .undefined
    · rw [if_pos hc] at h
      cases h
    · rw [if_neg hc] at h
      cases h
      exact .inr ⟨hm, not_not.1 hc, rfl⟩

end

/-! ## What the getters return after a setter -/

section
variable {print : ColorSpec → String} {f g : ImageFormat}

theorem HasColorSpec.lt {model : Nat} (h : HasColorSpec model) :
    model ≠ ColorModel.undefined.value ∧ model < 7 ∧ model ≠ ColorModel.RAW.value := by
  rcases h with rfl | rfl <;> decide

theorem attributes_put_colorSpec {cspec : ColorSpec} (hf : get f 35 9 ≠ 0#64)
    (hm : HasColorSpec f.colorModel) (hg : g = put f (cspec.setWidth 64) 20 15) :
    attributes g = { attributes f with colorSpec := cspec, colorRange := cspec.colorRange } := by
  have hf0 := ne_zero_of_packing0 hf
  have hg0 := ne_zero_of_put hf hg (by decide)
  have h16 := get_of_put hg 16 1 (by decide)
  have h17 := get_of_put hg 17 3 (by decide)
  have hmodel : g.colorModel = f.colorModel := by
    rcases hm with hm | hm
    · rw [hm, colorModel_eq_RGB_iff hg0, h16, h17]
      exact (colorModel_eq_RGB_iff hf0).1 hm
    · rw [hm, colorModel_eq_YCbCr_iff hg0, h16]
      exact (colorModel_eq_YCbCr_iff hf0).1 hm
  obtain ⟨hne, hlt, hraw⟩ := hm.lt
  have hspec : g.colorSpec = cspec := by
    have hget : get g 20 15 = cspec.setWidth 64 := by
      rw [hg, get_put f _ (by decide)]
      exact get_eq_self (colorSpec_lt cspec)
    rw [colorSpec, hmodel, if_pos ⟨hne, hlt⟩, hget, BitVec.truncate_eq_setWidth,
      BitVec.setWidth_setWidth_of_le _ (by decide), BitVec.setWidth_eq]
  have hrange : g.colorRange = cspec.colorRange := by rw [colorRange, hspec]
  have hpat : g.rawPattern = f.rawPattern := by
    rw [rawPattern, rawPattern, hmodel, if_neg hraw, if_neg hraw]
  have hcss : g.css = f.css := by rw [css, css, hmodel, h17]
  rw [attributes_put_color hg (by decide) (by decide), hmodel, hspec, hrange, hpat, hcss]
  rfl

theorem attributes_put_css {newCSS : ChromaSubsampling} (hf : get f 35 9 ≠ 0#64)
    (hm : f.colorModel = ColorModel.YCbCr.value) (hg : g = put f newCSS.value 17 3) :
    attributes g = { attributes f with css := newCSS.value } := by
  have hf0 := ne_zero_of_packing0 hf
  have hg0 := ne_zero_of_put hf hg (by decide)
  have h16 := get_of_put hg 16 1 (by decide)
  have h20 := get_of_put hg 20 15 (by decide)
  have hmodel : g.colorModel = f.colorModel := by
    rw [hm, colorModel_eq_YCbCr_iff hg0, h16]
    exact (colorModel_eq_YCbCr_iff hf0).1 hm
  have hspec : g.colorSpec = f.colorSpec := by rw [colorSpec, colorSpec, hmodel, h20]
  have hrange : g.colorRange = f.colorRange := by rw [colorRange, colorRange, hspec]
  have hpat : g.rawPattern = f.rawPattern := by
    rw [rawPattern, rawPattern, hmodel, hm]
    rfl
  have hcss : g.css = newCSS.value := by
    rw [css, hmodel, if_pos hm, hg, get_put f _ (by decide)]
    exact get_eq_self (css_value_lt newCSS)
  rw [attributes_put_color hg (by decide) (by decide), hmodel, hspec, hrange, hpat, hcss]
  rfl

theorem attributes_put_rawPattern {newRawPattern : RawPattern} (hf : get f 35 9 ≠ 0#64)
    (hm : f.colorModel = ColorModel.RAW.value) (hg : g = put f newRawPattern.value 21 6) :
    attributes g = { attributes f with rawPattern := some newRawPattern.value } := by
  have hf0 := ne_zero_of_packing0 hf
  have hg0 := ne_zero_of_put hf hg (by decide)
  have hmodel : g.colorModel = f.colorModel := by
    rw [hm, colorModel_eq_RAW_iff hg0, get_of_put hg 16 1 (by decide),
      get_of_put hg 17 3 (by decide), get_of_put hg 20 1 (by decide)]
    exact (colorModel_eq_RAW_iff hf0).1 hm
  have hspec : g.colorSpec = f.colorSpec := by
    rw [colorSpec, colorSpec, hmodel, hm]
    rfl
  have hrange : g.colorRange = f.colorRange := by rw [colorRange, colorRange, hspec]
  have hpat : g.rawPattern = some newRawPattern.value := by
    rw [rawPattern, hmodel, if_pos hm, hg, get_put f _ (by decide)]
    exact congrArg some (get_eq_self (rawPattern_value_lt newRawPattern))
  have hcss : g.css = f.css := by
    rw [css, css, hmodel, hm]
    rfl
  rw [attributes_put_color hg (by decide) (by decide), hmodel, hspec, hrange, hpat, hcss]
  rfl

theorem attributes_put_memLayout {newMemLayout : MemLayout} (hf : get f 35 9 ≠ 0#64)
    (hg : g = put f newMemLayout.value 12 3) :
    attributes g = { attributes f with memLayout := newMemLayout.value } := by
  have hm : g.memLayout = newMemLayout.value := by
    rw [hg, memLayout, get_put f _ (by decide)]
    exact get_eq_self (memLayout_value_lt newMemLayout)
  have hk : g.dataKind = f.dataKind := get_of_put hg 61 3 (by decide)
  have ha : g.alphaType = f.alphaType := get_of_put hg 6 1 (by decide)
  rw [attributes_put_plain hf hg (by decide), hm, hk, ha]
  rfl

theorem attributes_put_alphaType {newAlphaType : AlphaType} (hf : get f 35 9 ≠ 0#64)
    (hg : g = put f newAlphaType.value 6 1) :
    attributes g = { attributes f with alphaType := newAlphaType.value } := by
  have hm : g.memLayout = f.memLayout := get_of_put hg 12 3 (by decide)
  have hk : g.dataKind = f.dataKind := get_of_put hg 61 3 (by decide)
  have ha : g.alphaType = newAlphaType.value := by
    rw [hg, alphaType, get_put f _ (by decide)]
    exact get_eq_self (alphaType_value_lt newAlphaType)
  rw [attributes_put_plain hf hg (by decide), hm, hk, ha]
  rfl

/-- The data kind is cut to three bits. -/
theorem attributes_put_dataKind {newDataKind : DataKind} (hf : get f 35 9 ≠ 0#64)
    (hg : g = put f newDataKind.value 61 3) :
    attributes g = { attributes f with dataKind := get newDataKind.value 0 3 } := by
  have hm : g.memLayout = f.memLayout := get_of_put hg 12 3 (by decide)
  have hk : g.dataKind = get newDataKind.value 0 3 := by
    rw [hg]
    exact get_put f _ (by decide)
  have ha : g.alphaType = f.alphaType := get_of_put hg 6 1 (by decide)
  rw [attributes_put_plain hf hg (by decide), hm, hk, ha]
  rfl

theorem colorRange_normalized (model : Nat) (cspec : ColorSpec) :
    (normalized model cspec).colorRange = cspec.colorRange := by
  unfold normalized
  split_ifs
  · exact get_put_apart cspec _ (by decide)
  · exact get_put_apart cspec _ (by decide)
  · rfl

theorem colorRange_set (cspec : ColorSpec) (r : ColorRange) :
    (cspec.setColorRange r).colorRange = r.value := by
  have h : (cspec.setColorRange r).colorRange = get r.value 0 1 :=
    get_put cspec r.value (by decide)
  rw [h]
  cases r <;> decide

theorem normalized_of_not {model : Nat} (h : ¬HasColorSpec model) (cspec : ColorSpec) :
    normalized model cspec = cspec := by
  rw [normalized, if_neg fun hc => h (.inl hc), if_neg fun hc => h (.inr hc.1)]

theorem withColorSpec_self (h : normalized f.colorModel f.colorSpec = f.colorSpec) :
    (attributes f).withColorSpec f.colorSpec = attributes f := by
  have hn : normalized (attributes f).colorModel f.colorSpec = (attributes f).colorSpec := h
  rw [Attributes.withColorSpec, hn]
  rfl

/-- A color spec that is set is the one of the format, or the format stays as it was. -/
theorem setColorSpec_attributes_iff {cspec : ColorSpec} (hf : get f 35 9 ≠ 0#64)
    (h : f.setColorSpec print cspec = .ok g) :
    get g 35 9 = get f 35 9 ∧ g.colorModel = f.colorModel ∧
      (attributes g = (attributes f).withColorSpec cspec ↔
        HasColorSpec f.colorModel ∨ cspec = .undefined) := by
  rcases setColorSpec_ok h with ⟨hm, hg⟩ | ⟨hm, hu, rfl⟩
  · have hattr := attributes_put_colorSpec hf hm hg
    rw [colorRange_normalized] at hattr
    exact ⟨get_of_put hg 35 9 (by decide), congrArg Attributes.colorModel hattr,
      fun _ => .inl hm, fun _ => hattr⟩
  · refine ⟨rfl, rfl, fun hattr => .inr ?_, ?_⟩
    · have hs : g.colorSpec = normalized g.colorModel cspec :=
        congrArg Attributes.colorSpec hattr
      rw [normalized_of_not hm, hu] at hs
      exact hs.symm
    · rintro (hc | rfl)
      · exact absurd hc hm
      · rw [← hu]
        exact (withColorSpec_self (normalized_of_not hm _)).symm

/-- **One call**: a setter that returns does what it should exactly when it is settable; the
packing of the first plane and the color model stay in any case. -/
theorem call_attributes_iff {c : Setter} (hf : get f 35 9 ≠ 0#64) (h : f.call print c = .ok g) :
    get g 35 9 = get f 35 9 ∧ g.colorModel = f.colorModel ∧
      (attributes g = (attributes f).update c ↔ Settable f.colorModel c) := by
  cases c with
  | colorSpec newColorSpec => exact setColorSpec_attributes_iff hf h
  | colorRange newColorRange =>
    obtain ⟨_, -, h⟩ := bind_ok h
    obtain ⟨h35, hm, hiff⟩ := setColorSpec_attributes_iff hf h
    refine ⟨h35, hm, ?_⟩
    have hupd : (attributes f).update (.colorRange newColorRange) =
        (attributes f).withColorSpec (f.colorSpec.setColorRange newColorRange) := by
      rw [Attributes.update, ← colorRange_set f.colorSpec newColorRange]
      rfl
    rw [hupd, hiff, Settable]
    refine or_congr_right' fun hno => ?_
    rcases setColorSpec_ok h with ⟨hc, -⟩ | ⟨-, hu, -⟩
    · exact absurd hc hno
    · rw [hu]
      cases newColorRange <;> decide
  | css newCSS =>
    rcases setCss_ok h with ⟨hm, hg⟩ | ⟨hm, hc, rfl⟩
    · have hattr := attributes_put_css hf hm hg
      exact ⟨get_of_put hg 35 9 (by decide), congrArg Attributes.colorModel hattr,
        fun _ => trivial, fun _ => hattr⟩
    · have hcss : g.css = newCSS.value := by
        rw [css, if_neg hm, hc]
      refine ⟨rfl, rfl, fun _ => trivial, fun _ => ?_⟩
      rw [Attributes.update, ← hcss]
      rfl
  | memLayout newMemLayout =>
    have hg := setMemLayout_ok h
    have hattr := attributes_put_memLayout hf hg
    exact ⟨get_of_put hg 35 9 (by decide), congrArg Attributes.colorModel hattr,
      fun _ => trivial, fun _ => hattr⟩
  | dataKind newDataKind =>
    have hg := setDataKind_ok h
    have hattr := attributes_put_dataKind hf hg
    refine ⟨get_of_put hg 35 9 (by decide), congrArg Attributes.colorModel hattr, ?_⟩
    have hk : get newDataKind.value 0 3 = newDataKind.value ↔ newDataKind ≠ .unspecified := by
      cases newDataKind <;> decide
    rw [hattr]
    constructor
    · exact fun hu => hk.1 (congrArg Attributes.dataKind hu)
    · intro hne
      rw [hk.2 hne]
      rfl
  | alphaType newAlphaType =>
    have hg := setAlphaType_ok h
    have hattr := attributes_put_alphaType hf hg
    exact ⟨get_of_put hg 35 9 (by decide), congrArg Attributes.colorModel hattr,
      fun _ => trivial, fun _ => hattr⟩
  | rawPattern newRawPattern =>
    obtain ⟨hm, hg⟩ := setRawPattern_ok h
    have hattr := attributes_put_rawPattern hf hm hg
    exact ⟨get_of_put hg 35 9 (by decide), congrArg Attributes.colorModel hattr,
      fun _ => trivial, fun _ => hattr⟩

end

/-! ## Runs of setters -/

/-- A setter that returns. -/
def Setter.Returns (print : ColorSpec → String) (f : ImageFormat) (c : Setter) (g : ImageFormat) : Prop :=
  f.call print c = .ok g

/-- A format a constructor returns has a first plane. -/
theorem construct_packing0 {print : ColorSpec → String} {c : Color} {a : FormatArgs}
    {f : ImageFormat} (h : construct print c a = .ok f) : get f 35 9 ≠ 0#64 := by
  obtain ⟨m, v, s, rfl, hs, -, -⟩ := construct_extra h
  obtain ⟨hz, -⟩ := check_ok hs
  rw [get_makeFormat_outside (by decide), get_base_packing0]
  exact encodePacking0_ne_zero hz

section
variable {print : ColorSpec → String} {f f₀ g : ImageFormat} {cs : List Setter}

/-- **Runs**: the packing of the first plane and the color model are those of the first format. -/
theorem run_keeps (hf : get f₀ 35 9 ≠ 0#64) (r : Run (Setter.Returns print) f₀ cs f) :
    get f 35 9 ≠ 0#64 ∧ f.colorModel = f₀.colorModel := by
  refine r.inv (P := fun f : ImageFormat => get f 35 9 ≠ 0#64 ∧ f.colorModel = f₀.colorModel) ?_ ⟨hf, rfl⟩
  rintro f c g ⟨hf, hm⟩ h
  obtain ⟨h35, hm', -⟩ := call_attributes_iff hf h
  exact ⟨by rwa [h35], hm'.trans hm⟩

theorem run_attributes (hf : get f₀ 35 9 ≠ 0#64) (r : Run (Setter.Returns print) f₀ cs f)
    (h : ∀ c ∈ cs, Settable f₀.colorModel c) :
    attributes f = cs.foldl Attributes.update (attributes f₀) := by
  induction r with
  | nil => rfl
  | cons hc _ ih =>
    obtain ⟨h35, hm, hiff⟩ := call_attributes_iff hf hc
    rw [List.foldl_cons, ← hiff.2 (h _ (.head _))]
    refine ih (by rwa [h35]) fun c hcs => ?_
    rw [hm]
    exact h c (.tail _ hcs)

/-- **Setters change one attribute**: in every run of setters that return, from a format of a
constructor, a setter makes the getters return what they should exactly when the format can have
the value; after a run of such setters each attribute has the value it was given last. -/
theorem setters_run_iff {color : Color} {a : FormatArgs} (hf : construct print color a = .ok f₀)
    (r : Run (Setter.Returns print) f₀ cs f) :
    (∀ c g, Setter.Returns print f c g →
        (attributes g = (attributes f).update c ↔ Settable f₀.colorModel c)) ∧
      ((∀ c ∈ cs, Settable f₀.colorModel c) →
        attributes f = cs.foldl Attributes.update (attributes f₀)) := by
  have hf := construct_packing0 hf
  obtain ⟨h35, hm⟩ := run_keeps hf r
  refine ⟨fun c g h => ?_, run_attributes hf r⟩
  rw [← hm]
  exact (call_attributes_iff h35 h).2.2

end

/-- Two planes of a YCbCr format. -/
def twoPlanes : FormatArgs where
  memLayout := .pitchLinear
  dataKind := .unsigned
  swizzle := .SXYZ0
  packing0 := .X8
  packing1 := .X8_Y8
  packing2 := .zero
  packing3 := .zero
  alphaType := .associated

/-- `NVCV_COLOR_SPEC_sRGB` and `NVCV_COLOR_SPEC_sYCC`. -/
def sRGB : ColorSpec := 9#15

def sYCC : ColorSpec := 10385#15

/-- A format with a color spec, then another range and another subsampling. -/
def setters : List Setter := [.colorSpec sYCC, .colorRange .limited, .css .css422]

def semiPlanar : ImageFormat :=
  makeFormat .YCbCr (ColorSpec.undefined.setWidth 64) ChromaSubsampling.css420.value twoPlanes

theorem setters_run_iff_semiPlanar : ∃ f,
    construct (fun _ => "") (.colorModel .YCbCr .undefined .css420) twoPlanes = .ok semiPlanar ∧
      Run (Setter.Returns fun _ => "") semiPlanar setters f ∧
      attributes f = setters.foldl Attributes.update (attributes semiPlanar) := by
  have hf : construct (fun _ => "") (.colorModel .YCbCr .undefined .css420) twoPlanes =
      .ok semiPlanar := rfl
  have r : Run (Setter.Returns fun _ => "") semiPlanar setters _ :=
    .cons rfl (.cons rfl (.cons rfl (.nil _)))
  have hm : HasColorSpec semiPlanar.colorModel := .inr (by decide +kernel)
  refine ⟨_, hf, r, (setters_run_iff hf r).2 ?_⟩
  simp only [setters, List.forall_mem_cons]
  exact ⟨.inl hm, .inl hm, trivial, List.forall_mem_nil _⟩

/-- A color spec and a color range that are set and not there, and a data kind that is another. -/
theorem setters_deviate : ∃ f g₁ g₂ g₃, construct (fun _ => "") .nonColor oneByte = .ok f ∧
    Setter.Returns (fun _ => "") f (.colorSpec sRGB) g₁ ∧ g₁.colorSpec ≠ sRGB ∧
    Setter.Returns (fun _ => "") f (.colorRange .limited) g₂ ∧
    g₂.colorRange ≠ ColorRange.limited.value ∧
    Setter.Returns (fun _ => "") f (.dataKind .unspecified) g₃ ∧
    g₃.dataKind ≠ DataKind.unspecified.value := by
  refine ⟨_, _, _, _, rfl, rfl, ?_, rfl, ?_, rfl, ?_⟩ <;> decide +kernel

end Nvcv.ImageFormat
