import CvCuda.Nvcv.ImageFormat

/-! # Image formats read back

What the getters read in a format is what the constructor was given, as far as the fields of the
word can hold it: `Storable` says when.

* `plane0_eq`, `plane1_eq`, `plane2_iff`, `plane3_iff`: the packings and their fields.
* `construct_ok`: what the checks of the constructors establish.
* `construct_round_trip`: an accepted tuple is read back exactly when it is storable, and two
  storable ones that differ have different formats.
* `plane2_reads_back`: an accepted tuple that is not read back.
-/

namespace Nvcv.ImageFormat

open Bitfield

/-! ## Packings -/

theorem encodePacking_lt (p : Packing) : (encodePacking p.value 2 3 4).toNat < 2 ^ 9 ∧
    (encodePacking p.value 1 3 3).toNat < 2 ^ 7 ∧ (encodePacking p.value 0 0 3).toNat < 2 ^ 3 := by
  cases p <;> decide

theorem plane0_eq {p : Packing} (h : p.value &&& 0b1000#64 = 0) :
    decodePacking 0 1#64 (encodePacking p.value 2 3 4) 2 3 4 = p.value := by
  revert h
  cases p <;> decide

theorem plane1_eq {p : Packing} (h : p.value &&& 0b1000#64 = 0) (hb : p.getBitsPerPixel ≤ 128)
    (hn : p.getNumChannels ≤ 2) :
    decodePacking 1 1#64 (encodePacking p.value 1 3 3) 1 3 3 = p.value := by
  revert h hb hn
  cases p <;> decide

/-- The field of the third plane holds two channels at most. -/
theorem plane2_iff {p : Packing} (h : p.value &&& 0b1000#64 = 0)
    (hb : p.getBitsPerPixel ≤ 128) :
    decodePacking 2 1#64 (encodePacking p.value 1 3 3) 1 3 3 = p.value ↔ p.getNumChannels ≤ 2 := by
  revert h hb
  cases p <;> decide

/-- The field of the fourth plane holds one channel. -/
theorem plane3_iff {p : Packing} (h : p.value &&& 0b1111#64 = 0)
    (hb : p.getBitsPerPixel ≤ 64) :
    decodePacking 3 1#64 (encodePacking p.value 0 0 3) 0 0 3 = p.value ↔ p.getNumChannels ≤ 1 := by
  revert h hb
  cases p <;> decide

/-! ## Values of enumerators -/

/-- The packing of a value. -/
def packingOf (v : BitVec 64) : Packing :=
  .ofNat (((List.range 63).map fun i => (Packing.ofNat i).value).idxOf v)

theorem packingOf_value (p : Packing) : packingOf p.value = p := by
  cases p <;> decide +kernel

theorem packing_value_inj {p q : Packing} (h : p.value = q.value) : p = q := by
  rw [← packingOf_value p, h, packingOf_value]

theorem swizzle_value_inj {p q : Swizzle} (h : p.value = q.value) : p = q := by
  have key : ∀ s : Swizzle, Swizzle.ofNat (min s.value.toNat 56) = s := by
    intro s
    cases s <;> rfl
  rw [← key p, h, key]

theorem colorModel_value_inj {p q : ColorModel} (h : p.value = q.value) : p = q := by
  cases p <;> cases q <;> first | rfl | exact absurd h (by decide)

theorem css_value_inj {p q : ChromaSubsampling} (h : p.value = q.value) : p = q := by
  cases p <;> cases q <;> first | rfl | exact absurd h (by decide)

theorem rawPattern_value_inj {p q : RawPattern} (h : p.value = q.value) : p = q := by
  have key : ∀ r : RawPattern, RawPattern.ofNat r.value.toNat = r := by
    intro r
    cases r <;> rfl
  rw [← key p, h, key]

theorem memLayout_value_inj {p q : MemLayout} (h : p.value = q.value) : p = q := by
  cases p <;> cases q <;> first | rfl | exact absurd h (by decide)

theorem dataKind_value_inj {p q : DataKind} (h : p.value = q.value) : p = q := by
  cases p <;> cases q <;> first | rfl | exact absurd h (by decide)

theorem alphaType_value_inj {p q : AlphaType} (h : p.value = q.value) : p = q := by
  cases p <;> cases q <;> first | rfl | exact absurd h (by decide)

theorem swizzle_value_lt (s : Swizzle) : s.value.toNat < 2 ^ 6 := by
  cases s <;> decide

theorem memLayout_value_lt (m : MemLayout) : m.value.toNat < 2 ^ 3 := by
  cases m <;> decide

theorem alphaType_value_lt (t : AlphaType) : t.value.toNat < 2 ^ 1 := by
  cases t <;> decide

theorem css_value_lt (c : ChromaSubsampling) : c.value.toNat < 2 ^ 3 := by
  cases c <;> decide

theorem rawPattern_value_lt (r : RawPattern) : r.value.toNat < 2 ^ 6 := by
  cases r <;> decide

theorem colorSpec_lt (c : ColorSpec) : (c.setWidth 64).toNat < 2 ^ 15 := by
  rw [BitVec.toNat_setWidth_of_le (by decide)]
  exact c.isLt

/-! ## The fields of the word -/

section
variable {m : ColorModel} {v c : BitVec 64} {a : FormatArgs}

/-- The bits of the color model are those from 16 to 34. -/
theorem get_colorBits_apart {o n : Nat} (h : o + n ≤ 16 ∨ 35 ≤ o) :
    get (colorBits m v c) o n = 0#64 := by
  unfold colorBits
  split_ifs <;> simp (disch := omega) only [get_or, get_set_apart, BitVec.or_zero]

/-- The format without extra channels. -/
def plain (m : ColorModel) (v c : BitVec 64) (a : FormatArgs) : ImageFormat :=
  set a.dataKind.value 61 3 ||| set a.swizzle.value 0 6 ||| set a.alphaType.value 6 1 |||
    set a.memLayout.value 12 3 ||| colorBits m v c |||
    set (encodePacking a.packing0.value 2 3 4) 35 9 |||
    planeBits.planes a.packing1 a.packing2 a.packing3

theorem plain_swizzle : (plain m v c a).swizzle = a.swizzle.value := by
  unfold plain planeBits.planes swizzle
  simp (disch := omega) only [get_or, get_set, get_set_apart, get_colorBits_apart, BitVec.or_zero,
    BitVec.zero_or]
  exact get_eq_self (swizzle_value_lt _)

theorem plain_alphaType : (plain m v c a).alphaType = a.alphaType.value := by
  unfold plain planeBits.planes alphaType
  simp (disch := omega) only [get_or, get_set, get_set_apart, get_colorBits_apart, BitVec.or_zero,
    BitVec.zero_or]
  exact get_eq_self (alphaType_value_lt _)

theorem plain_memLayout : (plain m v c a).memLayout = a.memLayout.value := by
  unfold plain planeBits.planes memLayout
  simp (disch := omega) only [get_or, get_set, get_set_apart, get_colorBits_apart, BitVec.or_zero,
    BitVec.zero_or]
  exact get_eq_self (memLayout_value_lt _)

theorem plain_dataKind_bits : (plain m v c a).dataKind = get a.dataKind.value 0 3 := by
  unfold plain planeBits.planes dataKind
  simp (disch := omega) only [get_or, get_set, get_set_apart, get_colorBits_apart, BitVec.or_zero]

/-- Three bits hold every data kind but the unspecified one. -/
theorem plain_dataKind :
    (plain m v c a).dataKind = a.dataKind.value ↔ a.dataKind ≠ .unspecified := by
  rw [plain_dataKind_bits]
  cases a.dataKind <;> decide

theorem plain_planePacking0 (h : a.packing0.value &&& 0b1000#64 = 0) :
    (plain m v c a).planePacking 0 = a.packing0.value := by
  unfold plain planeBits.planes planePacking
  simp (disch := omega) only [get_or, get_set, get_set_apart, get_colorBits_apart, BitVec.or_zero,
    BitVec.zero_or]
  rw [get_eq_self (encodePacking_lt _).1, plane0_eq h]

theorem plain_planar : get (plain m v c a) 7 1 = 1#64 := by
  unfold plain planeBits.planes
  simp (disch := omega) only [get_or, get_set, get_set_apart, get_colorBits_apart, BitVec.or_zero,
    BitVec.zero_or]
  decide

theorem plain_field1 :
    get (plain m v c a) 44 7 = encodePacking a.packing1.value 1 3 3 := by
  unfold plain planeBits.planes
  simp (disch := decide) only [get_or, get_set, get_set_apart, get_colorBits_apart,
    BitVec.or_zero, BitVec.zero_or]
  exact get_eq_self (encodePacking_lt _).2.1

theorem plain_field2 :
    get (plain m v c a) 51 7 = encodePacking a.packing2.value 1 3 3 := by
  unfold plain planeBits.planes
  simp (disch := decide) only [get_or, get_set, get_set_apart, get_colorBits_apart,
    BitVec.or_zero, BitVec.zero_or]
  exact get_eq_self (encodePacking_lt _).2.1

theorem plain_field3 :
    get (plain m v c a) 58 3 = encodePacking a.packing3.value 0 0 3 := by
  unfold plain planeBits.planes
  simp (disch := decide) only [get_or, get_set, get_set_apart, get_colorBits_apart,
    BitVec.or_zero, BitVec.zero_or]
  exact get_eq_self (encodePacking_lt _).2.2

theorem plain_planePacking1 (h : a.packing1.value &&& 0b1000#64 = 0)
    (hb : a.packing1.getBitsPerPixel ≤ 128) (hn : a.packing1.getNumChannels ≤ 2) :
    (plain m v c a).planePacking 1 = a.packing1.value := by
  simp only [planePacking, plain_planar, plain_field1]
  exact plane1_eq h hb hn

theorem plain_planePacking2 (h : a.packing2.value &&& 0b1000#64 = 0)
    (hb : a.packing2.getBitsPerPixel ≤ 128) :
    (plain m v c a).planePacking 2 = a.packing2.value ↔ a.packing2.getNumChannels ≤ 2 := by
  simp only [planePacking, plain_planar, plain_field2]
  exact plane2_iff h hb

theorem plain_planePacking3 (h : a.packing3.value &&& 0b1111#64 = 0)
    (hb : a.packing3.getBitsPerPixel ≤ 64) :
    (plain m v c a).planePacking 3 = a.packing3.value ↔ a.packing3.getNumChannels ≤ 1 := by
  simp only [planePacking, plain_planar, plain_field3]
  exact plane3_iff h hb

/-! ## The color model -/

/-- A field of the color model is read in its bits alone. -/
theorem get_plain_color {o n : Nat} (hl : 16 ≤ o) (hr : o + n ≤ 35) :
    get (plain m v c a) o n = get (colorBits m v c) o n := by
  unfold plain planeBits.planes
  simp (disch := omega) only [get_or, get_set_apart, BitVec.or_zero, BitVec.zero_or]

theorem plain_ne_zero : plain m v c a ≠ 0#64 := by
  intro h
  have hp := plain_planar (m := m) (v := v) (c := c) (a := a)
  rw [h] at hp
  exact absurd hp (by decide)

theorem colorBits_YCbCr : colorBits .YCbCr v c = set v 20 15 ||| set c 17 3 := rfl

theorem colorBits_RGB :
    colorBits .RGB v c = set 1#64 16 1 ||| (set v 20 15 ||| set 0#64 17 3) := rfl

theorem colorBits_RAW :
    colorBits .RAW v c = set 1#64 16 1 ||| (set 7#64 17 3 ||| set v 21 6) := rfl

/-- The bits of the other color models are constants. -/
theorem colorBits_const (h : m ∉ [.YCbCr, .RGB, .RAW]) : colorBits m v c = colorBits m 0 0 := by
  simp only [List.mem_cons, List.not_mem_nil, or_false, not_or] at h
  have hs : m ≠ .undefined → ¬m.value - 2 < 7 := by
    have := h.1
    have := h.2.1
    cases m <;> first | contradiction | decide
  unfold colorBits
  rw [if_neg h.1, if_neg h.1]
  by_cases hu : m = .undefined
  · rw [if_pos hu, if_pos hu]
  · rw [if_neg hu, if_neg hu, if_neg (hs hu), if_neg (hs hu), if_neg h.2.2, if_neg h.2.2]

/-- A color model whose bits are all ones is undefined. -/
theorem get_ne_ones {x : BitVec 64} (o n : Nat) (hn : o + n ≤ 19)
    (h : get x (16 + o) n ≠ get (.ofNat 64 (2 ^ 19 - 1)) o n) :
    get x 16 19 ≠ .ofNat 64 (2 ^ 19 - 1) := by
  intro he
  rw [← he, get_get _ hn] at h
  exact h rfl

theorem plain_colorModel : (plain m v c a).colorModel = m.value := by
  unfold colorModel
  rw [if_neg plain_ne_zero]
  simp (disch := decide) only [get_plain_color]
  cases m with
  | YCbCr =>
    rw [colorBits_YCbCr, if_pos]
    simp (disch := decide) only [get_or, get_set_apart, BitVec.or_zero]
  | RGB =>
    have h16 : get (colorBits .RGB v c) 16 1 = 1#64 := by
      rw [colorBits_RGB]
      simp (disch := decide) only [get_or, get_set_apart, BitVec.or_zero]
      decide
    have h17 : get (colorBits .RGB v c) 17 3 = 0#64 := by
      rw [colorBits_RGB]
      simp (disch := decide) only [get_or, get_set_apart, BitVec.zero_or]
      decide
    rw [if_neg (by rw [h16]; decide), if_neg (get_ne_ones 1 3 (by decide) (by rw [h17]; decide)),
      h17]
    rfl
  | RAW =>
    have h16 : get (colorBits .RAW v c) 16 1 = 1#64 := by
      rw [colorBits_RAW]
      simp (disch := decide) only [get_or, get_set_apart, BitVec.or_zero]
      decide
    have h17 : get (colorBits .RAW v c) 17 3 = 7#64 := by
      rw [colorBits_RAW]
      simp (disch := decide) only [get_or, get_set_apart, BitVec.or_zero, BitVec.zero_or]
      decide
    have h20 : get (colorBits .RAW v c) 20 1 = 0#64 := by
      rw [colorBits_RAW]
      simp (disch := decide) only [get_or, get_set_apart, BitVec.or_zero]
    rw [if_neg (by rw [h16]; decide), if_neg (get_ne_ones 4 1 (by decide) (by rw [h20]; decide)),
      h17, h20]
    rfl
  | _ =>
    rw [colorBits_const (by decide)]
    decide

theorem plain_rawPattern_RAW : (plain .RAW v c a).rawPattern = some (get v 0 6) := by
  unfold rawPattern
  rw [plain_colorModel, if_pos rfl, get_plain_color (by decide) (by decide), colorBits_RAW]
  simp (disch := decide) only [get_or, get_set, get_set_apart, BitVec.zero_or]

theorem plain_rawPattern (h : m ≠ .RAW) : (plain m v c a).rawPattern = none := by
  unfold rawPattern
  rw [plain_colorModel, if_neg]
  cases m <;> first | decide | exact absurd rfl h

theorem plain_colorSpec (h : m = .YCbCr ∨ m = .RGB) :
    (plain m v c a).colorSpec = (get v 0 15).truncate 15 := by
  unfold colorSpec
  rw [plain_colorModel, get_plain_color (by decide) (by decide)]
  rcases h with rfl | rfl
  · rw [if_pos (by decide), colorBits_YCbCr]
    simp (disch := decide) only [get_or, get_set, get_set_apart, BitVec.or_zero]
  · rw [if_pos (by decide), colorBits_RGB]
    simp (disch := decide) only [get_or, get_set, get_set_apart, BitVec.or_zero, BitVec.zero_or]

/-- The other color models do not have a color spec. -/
theorem plain_colorSpec_undefined (h₁ : m ≠ .YCbCr) (h₂ : m ≠ .RGB) :
    (plain m v c a).colorSpec = .undefined := by
  unfold colorSpec
  rw [plain_colorModel, if_neg]
  cases m <;> first | decide | exact absurd rfl h₁ | exact absurd rfl h₂

theorem plain_css_YCbCr : (plain .YCbCr v c a).css = get c 0 3 := by
  unfold css
  rw [plain_colorModel, if_pos rfl, get_plain_color (by decide) (by decide), colorBits_YCbCr]
  simp (disch := decide) only [get_or, get_set, get_set_apart, BitVec.zero_or]

theorem plain_css (h : m ≠ .YCbCr) :
    (plain m v c a).css = ChromaSubsampling.none.value := by
  unfold css
  rw [plain_colorModel, if_neg]
  cases m <;> first | decide | exact absurd rfl h

end

/-! ## What the constructors accept -/

/-- What is passed to a constructor, extra channels apart. What one does not take is what the
format is to have instead. -/
structure Passed where
  colorModel : ColorModel
  colorSpec : ColorSpec
  rawPattern : Option RawPattern
  css : ChromaSubsampling
  memLayout : MemLayout
  dataKind : DataKind
  swizzle : Swizzle
  packing0 : Packing
  packing1 : Packing
  packing2 : Packing
  packing3 : Packing
  alphaType : AlphaType
  deriving DecidableEq

def passed (c : Color) (a : FormatArgs) : Passed :=
  let (model, spec, raw, css) := match c with
    | .colorModel model spec css => (model, spec, none, css)
    | .rawPattern raw => (.RAW, .undefined, some raw, .none)
    | .nonColor => (.undefined, .undefined, none, .none)
    | .colorFormat fmt css =>
      if fmt.model = .RAW then (.RAW, .undefined, some fmt.raw, css)
      else (fmt.model, fmt.cspec, none, css)
  { colorModel := model, colorSpec := spec, rawPattern := raw, css := css
    memLayout := a.memLayout, dataKind := a.dataKind, swizzle := a.swizzle
    packing0 := a.packing0, packing1 := a.packing1, packing2 := a.packing2
    packing3 := a.packing3, alphaType := a.alphaType }

/-- No extra channels are asked for. -/
def NoExtra (a : FormatArgs) : Prop := ∀ e, a.exChannelInfo = some e → ¬0 < e.numChannels

/-- The checks of the packings that the fields rely on. -/
structure Checked (t : Passed) : Prop where
  code0 : t.packing0.value &&& 0b1000#64 = 0
  code1 : t.packing1.value &&& 0b1000#64 = 0
  code2 : t.packing2.value &&& 0b1000#64 = 0
  code3 : t.packing3.value &&& 0b1111#64 = 0
  bpp1 : t.packing1.getBitsPerPixel ≤ 128
  bpp2 : t.packing2.getBitsPerPixel ≤ 128
  bpp3 : t.packing3.getBitsPerPixel ≤ 64
  channels1 : t.packing1.getNumChannels ≤ 2
  raw : t.colorModel = .RAW ↔ t.rawPattern.isSome
  rawSpec : t.colorModel = .RAW → t.colorSpec = .undefined
  spec : t.colorModel ∉ [.RGB, .YCCK, .CMYK, .YCbCr] → t.colorSpec = .undefined
  css : t.colorModel ≠ .YCbCr → t.css = .none

theorem bind_ok {α β : Type} {x : Except Exception α} {f : α → Except Exception β} {b : β}
    (h : x >>= f = .ok b) : ∃ a, x = .ok a ∧ f a = .ok b := by
  cases x with
  | error e => exact absurd h (by simp [Bind.bind, Except.bind])
  | ok a => exact ⟨a, rfl, h⟩

theorem check_ok {α : Type} {p : Prop} [Decidable p] {e : Exception} {x : Except Exception α}
    {b : α} (h : (if p then .error e else x) = .ok b) : ¬p ∧ x = .ok b := by
  by_cases hp : p
  · rw [if_pos hp] at h
    cases h
  · rw [if_neg hp] at h
    exact ⟨hp, h⟩

theorem validateSwizzlePacking_ok {a : FormatArgs} {u : Unit} (h : validateSwizzlePacking a = .ok u) :
    a.packing0.value &&& 0b1000#64 = 0 ∧ a.packing1.value &&& 0b1000#64 = 0 ∧
      a.packing2.value &&& 0b1000#64 = 0 ∧ a.packing3.value &&& 0b1111#64 = 0 ∧
      a.packing1.getBitsPerPixel ≤ 128 ∧ a.packing2.getBitsPerPixel ≤ 128 ∧
      a.packing3.getBitsPerPixel ≤ 64 ∧ a.packing1.getNumChannels ≤ 2 := by
  obtain ⟨-, h⟩ := check_ok h
  obtain ⟨h0, h⟩ := check_ok h
  obtain ⟨h1, h⟩ := check_ok h
  obtain ⟨h2, h⟩ := check_ok h
  obtain ⟨h3, h⟩ := check_ok h
  obtain ⟨h4, h⟩ := check_ok h
  obtain ⟨h5, h⟩ := check_ok h
  obtain ⟨h6, h⟩ := check_ok h
  obtain ⟨h7, -⟩ := check_ok h
  exact ⟨not_not.1 h0, not_not.1 h1, not_not.1 h2, not_not.1 h3, Nat.not_lt.1 h4, Nat.not_lt.1 h6,
    Nat.not_lt.1 h7, Nat.not_lt.1 h5⟩

theorem validateColor_ok {print : ColorSpec → String} {m : ColorModel} {s : ColorSpec}
    {c : ChromaSubsampling} {u : Unit} (h : validateColor print m s c = .ok u) :
    m ≠ .RAW ∧ (m ∉ [.RGB, .YCCK, .CMYK, .YCbCr] → s = .undefined) := by
  obtain ⟨hr, h⟩ := check_ok h
  obtain ⟨-, h⟩ := check_ok h
  refine ⟨hr, fun hm => ?_⟩
  cases m with
  | RGB => exact absurd (by decide) hm
  | YCCK => exact absurd (by decide) hm
  | CMYK => exact absurd (by decide) hm
  | YCbCr => exact absurd (by decide) hm
  | _ => exact not_not.1 (check_ok h).1

theorem makeFormat_plain {m : ColorModel} {v c : BitVec 64} {a : FormatArgs} (h : NoExtra a) :
    makeFormat m v c a = plain m v c a := by
  unfold makeFormat planeBits plain
  cases he : a.exChannelInfo with
  | none => rfl
  | some e =>
    simp only
    rw [if_neg fun hc => h e he hc.2]

/-- What an accepted call passed its checks with, and its format. -/
theorem ofRawPattern_ok {r : RawPattern} {a : FormatArgs} {f : ImageFormat} (hn : NoExtra a)
    (h : ofRawPattern r a = .ok f) :
    Checked (passed (.rawPattern r) a) ∧ f = plain .RAW r.value 0 a := by
  obtain ⟨_, hs, h⟩ := bind_ok h
  obtain ⟨_, -, h⟩ := bind_ok h
  obtain ⟨h0, h1, h2, h3, b1, b2, b3, n1⟩ := validateSwizzlePacking_ok hs
  cases h
  refine ⟨⟨h0, h1, h2, h3, b1, b2, b3, n1, by simp [passed], by simp [passed], by simp [passed],
    by simp [passed]⟩, makeFormat_plain hn⟩

theorem ofNonColor_ok {a : FormatArgs} {f : ImageFormat} (hn : NoExtra a)
    (h : ofNonColor a = .ok f) :
    Checked (passed .nonColor a) ∧ f = plain .undefined (ColorSpec.undefined.setWidth 64) 0 a := by
  obtain ⟨_, hs, h⟩ := bind_ok h
  obtain ⟨_, -, h⟩ := bind_ok h
  obtain ⟨h0, h1, h2, h3, b1, b2, b3, n1⟩ := validateSwizzlePacking_ok hs
  cases h
  refine ⟨⟨h0, h1, h2, h3, b1, b2, b3, n1, by simp [passed], by simp [passed], by simp [passed],
    by simp [passed]⟩, makeFormat_plain hn⟩

theorem ofColorModel_ok {print : ColorSpec → String} {m : ColorModel} {s : ColorSpec}
    {c : ChromaSubsampling} {a : FormatArgs} {f : ImageFormat} (hn : NoExtra a)
    (h : ofColorModel print m s c a = .ok f) :
    Checked (passed (.colorModel m s c) a) ∧ f = plain m (s.setWidth 64) c.value a := by
  obtain ⟨_, hs, h⟩ := bind_ok h
  obtain ⟨_, hc, h⟩ := bind_ok h
  obtain ⟨_, -, h⟩ := bind_ok h
  obtain ⟨h0, h1, h2, h3, b1, b2, b3, n1⟩ := validateSwizzlePacking_ok hs
  obtain ⟨hr, hsp⟩ := validateColor_ok hc
  by_cases hy : m = .YCbCr
  · subst hy
    rw [if_pos rfl] at h
    cases h
    exact ⟨⟨h0, h1, h2, h3, b1, b2, b3, n1, by simp [passed], by simp [passed], by simp [passed],
      by simp [passed]⟩, makeFormat_plain hn⟩
  · rw [if_neg hy] at h
    by_cases hcss : c = .none
    · subst hcss
      cases h
      exact ⟨⟨h0, h1, h2, h3, b1, b2, b3, n1, by simpa [passed] using hr, by simp [passed, hr], hsp,
        by simp [passed]⟩, makeFormat_plain hn⟩
    · rw [if_pos hcss] at h
      cases h

/-- The bits of the color spec or of the raw pattern. -/
def Passed.bits (t : Passed) : BitVec 64 :=
  match t.rawPattern with
  | some raw => raw.value
  | none => t.colorSpec.setWidth 64

theorem construct_ok {print : ColorSpec → String} {c : Color} {a : FormatArgs} {f : ImageFormat}
    (hn : NoExtra a) (h : construct print c a = .ok f) :
    Checked (passed c a) ∧
      f = plain (passed c a).colorModel (passed c a).bits (passed c a).css.value a := by
  cases c with
  | colorModel m s css => exact ofColorModel_ok hn h
  | rawPattern r => exact ofRawPattern_ok hn h
  | nonColor => exact ofNonColor_ok hn h
  | colorFormat fmt css =>
    by_cases hr : fmt.model = .RAW
    · have hp : css = .none ∧ ofRawPattern fmt.raw a = .ok f := by
        simp only [construct, ofColorFormat, if_pos hr] at h
        by_cases hcss : css = .none
        · subst hcss
          exact ⟨rfl, h⟩
        · rw [if_pos hcss] at h
          cases h
      obtain ⟨rfl, hraw⟩ := hp
      have he : passed (.colorFormat fmt .none) a = passed (.rawPattern fmt.raw) a := by
        simp [passed, hr]
      rw [he]
      exact ofRawPattern_ok hn hraw
    · simp only [construct, ofColorFormat, if_neg hr] at h
      have he : passed (.colorFormat fmt css) a = passed (.colorModel fmt.model fmt.cspec css) a := by
        simp [passed, hr]
      rw [he]
      exact ofColorModel_ok hn h

/-! ## The round trip -/

/-- Every getter returns what was passed. -/
structure RoundTrips (f : ImageFormat) (t : Passed) : Prop where
  colorModel : f.colorModel = t.colorModel.value
  colorSpec : f.colorSpec = t.colorSpec
  rawPattern : f.rawPattern = t.rawPattern.map RawPattern.value
  css : f.css = t.css.value
  memLayout : f.memLayout = t.memLayout.value
  dataKind : f.dataKind = t.dataKind.value
  swizzle : f.swizzle = t.swizzle.value
  alphaType : f.alphaType = t.alphaType.value
  packing0 : f.planePacking 0 = t.packing0.value
  packing1 : f.planePacking 1 = t.packing1.value
  packing2 : f.planePacking 2 = t.packing2.value
  packing3 : f.planePacking 3 = t.packing3.value

/-- The fields of the word can hold what was passed: a data kind of three bits, a color spec where
there is room for one, and for the last two planes no more channels than their fields count. -/
structure Storable (t : Passed) : Prop where
  dataKind : t.dataKind ≠ .unspecified
  colorSpec : t.colorModel ∈ [.CMYK, .YCCK] → t.colorSpec = .undefined
  channels2 : t.packing2.getNumChannels ≤ 2
  channels3 : t.packing3.getNumChannels ≤ 1

section
variable {c : Color} {a : FormatArgs} {m : ColorModel} {v s : BitVec 64}

theorem checked_rawPattern {t : Passed} (h : Checked t) (hm : t.colorModel = m) :
    (plain m t.bits s a).rawPattern = t.rawPattern.map RawPattern.value := by
  subst hm
  cases hr : t.rawPattern with
  | none =>
    have hm : t.colorModel ≠ .RAW := by
      rw [Ne, h.raw, hr]
      decide
    exact plain_rawPattern hm
  | some r =>
    have hm : t.colorModel = .RAW := h.raw.2 (by rw [hr]; rfl)
    have hb : t.bits = r.value := by simp only [Passed.bits, hr]
    rw [hm, plain_rawPattern_RAW, hb, get_eq_self (rawPattern_value_lt r)]
    rfl

theorem checked_css {t : Passed} (h : Checked t) :
    (plain t.colorModel v t.css.value a).css = t.css.value := by
  by_cases hy : t.colorModel = .YCbCr
  · rw [hy, plain_css_YCbCr]
    exact get_eq_self (css_value_lt _)
  · rw [plain_css hy, h.css hy]

theorem checked_colorSpec {t : Passed} (h : Checked t) :
    (plain t.colorModel t.bits s a).colorSpec = t.colorSpec ↔
      (t.colorModel ∈ [.CMYK, .YCCK] → t.colorSpec = .undefined) := by
  by_cases hm : t.colorModel = .YCbCr ∨ t.colorModel = .RGB
  · have hr : t.rawPattern = none := by
      rw [← Option.not_isSome_iff_eq_none, ← h.raw]
      rcases hm with hm | hm <;> rw [hm] <;> decide
    have hb : t.bits = t.colorSpec.setWidth 64 := by simp only [Passed.bits, hr]
    rw [plain_colorSpec hm, hb, get_eq_self (colorSpec_lt _)]
    constructor
    · intro _ hc
      rcases hm with hm | hm <;> rw [hm] at hc <;> exact absurd hc (by decide)
    · intro _
      exact BitVec.setWidth_setWidth_of_le _ (by decide)
  · obtain ⟨h₁, h₂⟩ := not_or.1 hm
    rw [plain_colorSpec_undefined h₁ h₂]
    constructor
    · intro he _
      exact he.symm
    · intro hc
      by_cases hk : t.colorModel ∈ [.CMYK, .YCCK]
      · exact (hc hk).symm
      · refine (h.spec fun hs => ?_).symm
        simp only [List.mem_cons, List.not_mem_nil, or_false] at hs hk
        tauto

/-- **An accepted format reads back** exactly when its fields can hold what was passed. -/
theorem roundTrips_iff {t : Passed} (h : Checked (passed c a)) (ht : passed c a = t) :
    RoundTrips (plain t.colorModel t.bits t.css.value a) t ↔ Storable t := by
  subst ht
  constructor
  · intro hrt
    exact ⟨plain_dataKind.1 hrt.dataKind, (checked_colorSpec h).1 hrt.colorSpec,
      (plain_planePacking2 h.code2 h.bpp2).1 hrt.packing2,
      (plain_planePacking3 h.code3 h.bpp3).1 hrt.packing3⟩
  · intro hs
    exact
      { colorModel := plain_colorModel
        colorSpec := (checked_colorSpec h).2 hs.colorSpec
        rawPattern := checked_rawPattern h rfl
        css := checked_css h
        memLayout := plain_memLayout
        dataKind := plain_dataKind.2 hs.dataKind
        swizzle := plain_swizzle
        alphaType := plain_alphaType
        packing0 := plain_planePacking0 h.code0
        packing1 := plain_planePacking1 h.code1 h.bpp1 h.channels1
        packing2 := (plain_planePacking2 h.code2 h.bpp2).2 hs.channels2
        packing3 := (plain_planePacking3 h.code3 h.bpp3).2 hs.channels3 }

end

/-- What the getters return says what was passed. -/
theorem RoundTrips.unique {f : ImageFormat} {t t' : Passed} (h : RoundTrips f t)
    (h' : RoundTrips f t') : t = t' := by
  have hm := colorModel_value_inj (h.colorModel.symm.trans h'.colorModel)
  have hs := h.colorSpec.symm.trans h'.colorSpec
  have hr : t.rawPattern = t'.rawPattern :=
    Option.map_injective (fun _ _ => rawPattern_value_inj) (h.rawPattern.symm.trans h'.rawPattern)
  have hc := css_value_inj (h.css.symm.trans h'.css)
  have hl := memLayout_value_inj (h.memLayout.symm.trans h'.memLayout)
  have hd := dataKind_value_inj (h.dataKind.symm.trans h'.dataKind)
  have hz := swizzle_value_inj (h.swizzle.symm.trans h'.swizzle)
  have ha := alphaType_value_inj (h.alphaType.symm.trans h'.alphaType)
  have h0 := packing_value_inj (h.packing0.symm.trans h'.packing0)
  have h1 := packing_value_inj (h.packing1.symm.trans h'.packing1)
  have h2 := packing_value_inj (h.packing2.symm.trans h'.packing2)
  have h3 := packing_value_inj (h.packing3.symm.trans h'.packing3)
  cases t
  cases t'
  simp only [Passed.mk.injEq]
  exact ⟨hm, hs, hr, hc, hl, hd, hz, h0, h1, h2, h3, ha⟩

/-- **Formats are what they were made of**: of the tuples accepted without extra channels, exactly
the storable ones are read back by all getters, and two of these that differ have different
formats. -/
theorem construct_round_trip (print : ColorSpec → String) :
    (∀ c a f, NoExtra a → construct print c a = .ok f →
      (RoundTrips f (passed c a) ↔ Storable (passed c a))) ∧
    (∀ c a c' a' f, NoExtra a → NoExtra a' → construct print c a = .ok f →
      construct print c' a' = .ok f → Storable (passed c a) → Storable (passed c' a') →
      passed c a = passed c' a') := by
  have hiff : ∀ c a f, NoExtra a → construct print c a = .ok f →
      (RoundTrips f (passed c a) ↔ Storable (passed c a)) := by
    intro c a f hn h
    obtain ⟨hch, rfl⟩ := construct_ok hn h
    exact roundTrips_iff hch rfl
  refine ⟨hiff, fun c a c' a' f hn hn' h h' hs hs' => ?_⟩
  exact ((hiff c a f hn h).2 hs).unique ((hiff c' a' f hn' h').2 hs')

/-- The layout of NV12. -/
def nv12 : FormatArgs where
  memLayout := .pitchLinear
  dataKind := .unsigned
  swizzle := .SXYZ0
  packing0 := .X8
  packing1 := .X8_Y8
  packing2 := .zero
  packing3 := .zero
  alphaType := .associated

theorem construct_round_trip_nv12 : ∃ f,
    construct (fun _ => "") (.colorModel .YCbCr .undefined .css420) nv12 = .ok f ∧
      RoundTrips f (passed (.colorModel .YCbCr .undefined .css420) nv12) ∧
      passed (.colorModel .YCbCr .undefined .css420) nv12 =
        passed (.colorFormat ⟨.YCbCr, .undefined, .bayerRGGB⟩ .css420) nv12 := by
  have hn : NoExtra nv12 := by
    intro e h
    cases h
  have hs : Storable (passed (.colorModel .YCbCr .undefined .css420) nv12) :=
    ⟨by decide, fun _ => rfl, by decide, by decide⟩
  obtain ⟨hiff, hinj⟩ := construct_round_trip fun _ => ""
  exact ⟨_, rfl, (hiff _ _ _ hn rfl).2 hs, hinj _ _ _ _ _ hn hn rfl rfl hs hs⟩

/-- Eight bits in the first plane and three channels of eight bits in the third. -/
def thirdOfThree : FormatArgs where
  memLayout := .pitchLinear
  dataKind := .unsigned
  swizzle := .SXYZW
  packing0 := .X8
  packing1 := .zero
  packing2 := .X8_Y8_Z8
  packing3 := .zero
  alphaType := .associated

theorem thirdOfThree_noExtra : NoExtra thirdOfThree := by
  intro e h
  cases h

theorem thirdOfThree_accepted : construct (fun _ => "") .nonColor thirdOfThree =
    .ok (plain .undefined (ColorSpec.undefined.setWidth 64) 0 thirdOfThree) := rfl

/-- This is accepted, and the third plane reads back with one channel of 24 bits. -/
theorem plane2_reads_back : ∃ c a f, NoExtra a ∧ construct (fun _ => "") c a = .ok f ∧
    f.planePacking 2 = Packing.X24.value ∧ ¬RoundTrips f (passed c a) := by
  have h24 : (plain .undefined (ColorSpec.undefined.setWidth 64) 0 thirdOfThree).planePacking 2 =
      Packing.X24.value := by decide
  refine ⟨.nonColor, thirdOfThree, _, thirdOfThree_noExtra, thirdOfThree_accepted, h24,
    fun h => ?_⟩
  have h2 := h24.symm.trans h.packing2
  exact absurd h2 (by decide)

end Nvcv.ImageFormat
