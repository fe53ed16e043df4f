import CvCuda.Cvcuda.Proof.GlyphAtlas
import CvCuda.Lib.Run
import Mathlib.Tactic

/-! # Runs of the glyph atlas

Texts are added and bitmaps built, in any order.

* `build_spec`: a build has an outcome exactly when the sizes of what there is to draw fit.
* `sound_iff`: in a run of builds in which the fonts load, the next build leaves a sound atlas
  exactly then.
-/

namespace Cvcuda.StbTrueTypeBackend

open CInt

/-- A text for a font and a size. -/
structure Text where
  words : List ℕ
  font_size : BitVec 32
  font : FontName

/-- The texts that calls add. -/
def texts (calls : List Call) : List Text :=
  calls.filterMap fun
    | .addBuildText words font_size font => some ⟨words, font_size, font⟩
    | .buildBitmap _ => none

/-- The glyphs of an atlas are inside of its bitmap and apart, and drawn on it. -/
structure Placed (s : Backend) : Prop where
  inside : ∀ key word m, glyphOf s.glyph_sets key word = some m → m.Drawn →
    0 ≤ m.offset_x ∧ m.offset_x + m.width ≤ s.text_bitmap_width ∧ m.height ≤ s.text_bitmap_height
  apart : ∀ key word m key' word' m', glyphOf s.glyph_sets key word = some m → m.Drawn →
    glyphOf s.glyph_sets key' word' = some m' → m'.Drawn → (key, word) ≠ (key', word') →
    m.offset_x + m.width ≤ m'.offset_x ∨ m'.offset_x + m'.width ≤ m.offset_x
  current : ∀ key word m, glyphOf s.glyph_sets key word = some m → m.Drawn →
    ((key, word), m.offset_x) ∈ s.bitmap
  size : s.bitmap_size = s.text_bitmap_width * s.text_bitmap_height

/-- A sound atlas also has the glyphs of the texts. -/
structure Sound (lib : FontLibrary) (ts : List Text) (s : Backend) : Prop extends Placed s where
  complete : ∀ t ∈ ts, ∀ word ∈ t.words, ∃ m, s.query t.font t.font_size word = some m ∧
    m.box = lib t.font t.font_size.toInt (IntType.int32.conv word)

/-- The box of a glyph that is drawn for a key and a word. -/
def glyphBox (lib : FontLibrary) (glyph : List Char × ℕ) : Option Box :=
  (splitKey glyph.1).map fun k => lib k.1 k.2 (IntType.int32.conv glyph.2)

namespace Backend
variable (lib : FontLibrary) (loads : List Char → Bool) (s : Backend)

/-- The fonts of all new words load. -/
def FontsLoad : Prop :=
  s.has_new_text_need_build_bitmap = true →
    ∀ textes ∈ s.build_use_textes.entries, textes.2 ≠ [] →
      available loads s.font_map textes.1 = true

instance : Decidable (s.FontsLoad loads) :=
  inferInstanceAs (Decidable (_ = true → ∀ textes ∈ s.build_use_textes.entries, _ ≠ [] → _ = true))

/-- The glyphs that there are and those still to come, by key and word. -/
def coming : List (List Char × ℕ) :=
  (glyphs s.glyph_sets).map (·.1) ++
    (s.build_use_textes.entries.filter fun textes => available loads s.font_map textes.1).flatMap
      fun textes => (textes.2 ++ defaults).map fun word => (textes.1, word)

/-- How wide these are together. -/
def comingWidth : ℤ :=
  ∑ glyph ∈ (s.coming loads).toFinset, (glyphBox lib glyph).elim 0 Box.width

/-- An `int` holds the width and the size of a bitmap for them. -/
def Fits : Prop :=
  s.has_new_text_need_build_bitmap = true →
    s.comingWidth lib loads ≤ IntType.int32.max ∧
      ∀ glyph ∈ s.coming loads,
        s.comingWidth lib loads * (glyphBox lib glyph).elim 0 Box.height ≤ IntType.int32.max

instance : Decidable (s.Fits lib loads) :=
  inferInstanceAs (Decidable (_ = true → _ ≤ _ ∧ ∀ glyph ∈ s.coming loads, _))

end Backend

/-- What every call keeps. -/
structure Inv (lib : FontLibrary) (ts : List Text) (s : Backend) : Prop extends Placed s where
  keys : ∀ textes ∈ s.build_use_textes.entries, (splitKey textes.1).isSome
  box : ∀ key word m, glyphOf s.glyph_sets key word = some m →
    glyphBox lib (key, word) = some m.box ∧ ∃ k, splitKey key = some k ∧ k.1 ∈ s.font_map
  pending : ∀ t ∈ ts, ∀ word ∈ t.words,
    (glyphOf s.glyph_sets (keyOf t.font t.font_size) word).isSome ∨
      ∃ words, (keyOf t.font t.font_size, words) ∈ s.build_use_textes.entries ∧ word ∈ words
  flag : ∀ textes ∈ s.build_use_textes.entries, textes.2 ≠ [] →
    s.has_new_text_need_build_bitmap = true

section
variable {lib : FontLibrary} {loads : List Char → Bool} {ts : List Text} {s : Backend}

theorem inv_initial : Inv lib [] initial where
  inside _ _ _ h := by cases h
  apart _ _ _ _ _ _ h := by cases h
  current _ _ _ h := by cases h
  size := rfl
  keys _ h := by cases h
  box _ _ _ h := by cases h
  pending _ h := by cases h
  flag _ h := by cases h

/-- `add_build_text` keeps the glyphs, and adds the words that have none to what is pending. -/
theorem Inv.addBuildText (h : Inv lib ts s) (t : Text) :
    Inv lib (ts ++ [t]) (s.addBuildText t.words t.font_size t.font) where
  inside key word m hm := h.inside key word m (by rwa [Backend.addBuildText, glyphOf_touch] at hm)
  apart key word m key' word' m' hm hd hm' hd' := by
    rw [Backend.addBuildText, glyphOf_touch] at hm hm'
    exact h.apart key word m key' word' m' hm hd hm' hd'
  current key word m hm := h.current key word m (by rwa [Backend.addBuildText, glyphOf_touch] at hm)
  size := h.size
  keys := by
    rintro ⟨key, words⟩ ht
    rw [OrderedMap.mem_entries, Backend.addBuildText, OrderedMap.find?_alter] at ht
    split at ht
    · rename_i hk
      simp [hk, splitKey_keyOf]
    · exact h.keys _ (OrderedMap.mem_entries.2 ht)
  box key word m hm := h.box key word m (by rwa [Backend.addBuildText, glyphOf_touch] at hm)
  pending := by
    intro t' ht' word hword
    rw [Backend.addBuildText, glyphOf_touch]
    simp only [OrderedMap.mem_entries, OrderedMap.find?_alter]
    rcases List.mem_append.1 ht' with ht' | ht'
    · rcases h.pending t' ht' word hword with hg | ⟨words, hw, hin⟩
      · exact .inl hg
      · rw [OrderedMap.mem_entries] at hw
        refine .inr ?_
        split
        · rename_i hk
          rw [← hk, hw]
          exact ⟨_, rfl, List.mem_append_left _ hin⟩
        · exact ⟨words, hw, hin⟩
    · obtain rfl := List.mem_singleton.1 ht'
      by_cases hg : (glyphOf s.glyph_sets (keyOf t'.font t'.font_size) word).isSome
      · exact .inl hg
      · refine .inr ⟨_, if_pos rfl, List.mem_append_right _ (List.mem_filter.2 ⟨hword, ?_⟩)⟩
        revert hg
        unfold glyphOf
        cases s.glyph_sets.find? (keyOf t'.font t'.font_size) <;> simp
  flag := by
    rintro ⟨key, words⟩ hw hne
    have hold : ∀ words', (key, words') ∈ s.build_use_textes.entries → words' ≠ [] →
        s.has_new_text_need_build_bitmap = true := fun words' hw' => h.flag (key, words') hw'
    rw [OrderedMap.mem_entries, Backend.addBuildText, OrderedMap.find?_alter] at hw
    simp only [Backend.addBuildText, Bool.or_eq_true, Bool.not_eq_true', List.isEmpty_eq_false_iff]
    split at hw
    · rename_i hk
      by_contra hcon
      obtain ⟨hflag, hnew⟩ := not_or.1 hcon
      rw [not_not.1 hnew, List.append_nil, Option.some.injEq] at hw
      cases hfind : s.build_use_textes.find? key with
      | none => exact hne (by rw [← hw, ← hk, hfind, Option.getD_none])
      | some words' =>
        rw [← hk, hfind, Option.getD_some] at hw
        exact hflag (hold words' (OrderedMap.mem_entries.2 hfind) (hw ▸ hne))
    · exact .inl (hold words (OrderedMap.mem_entries.2 hw) hne)

/-! ## A build -/

section
variable {c : Collected} (hc : Collects lib loads s.build_use_textes.entries
  ⟨s.glyph_sets, s.font_map⟩ c)
include hc

/-- The glyphs to come are those there are after the first loop. -/
theorem mem_coming {glyph : List Char × ℕ} :
    glyph ∈ s.coming loads ↔ (glyphOf c.glyph_sets glyph.1 glyph.2).isSome := by
  obtain ⟨key, word⟩ := glyph
  have hknown : (key, word) ∈ (glyphs s.glyph_sets).map (·.1) ↔
      (glyphOf s.glyph_sets key word).isSome := by
    simp [Option.isSome_iff_exists, ← mem_glyphs]
  have hfresh : Wanted loads s.font_map s.build_use_textes.entries key word →
      (fresh lib key word).isSome := fun ⟨havail, _⟩ => by
    unfold available at havail
    unfold fresh
    cases hk : splitKey key <;> simp_all
  have hwanted : (key, word) ∈ (s.build_use_textes.entries.filter fun textes =>
        available loads s.font_map textes.1).flatMap
        (fun textes => (textes.2 ++ defaults).map fun word => (textes.1, word)) ↔
      Wanted loads s.font_map s.build_use_textes.entries key word := by
    simp only [List.mem_flatMap, List.mem_filter, List.mem_map, List.mem_append, Prod.mk.injEq,
      Wanted]
    constructor
    · rintro ⟨textes, ⟨ht, havail⟩, w, hw, rfl, rfl⟩
      exact ⟨havail, textes, ht, rfl, hw⟩
    · rintro ⟨havail, textes, ht, rfl, hw⟩
      exact ⟨textes, ⟨ht, havail⟩, word, hw, rfl, rfl⟩
  rw [Backend.coming, List.mem_append, hknown, hwanted, hc.glyph]
  by_cases hw : Wanted loads s.font_map s.build_use_textes.entries key word
  · simp [hw, hfresh hw]
  · simp [hw]

theorem Inv.box_collected (h : Inv lib ts s) {key : List Char} {word : ℕ} {m : StbWordMeta}
    (hm : glyphOf c.glyph_sets key word = some m) :
    glyphBox lib (key, word) = some m.box ∧ ∃ k, splitKey key = some k ∧ k.1 ∈ c.font_map := by
  rw [hc.glyph, Option.or_eq_some_iff] at hm
  rcases hm with hm | ⟨-, hm⟩
  · obtain ⟨hbox, k, hk, hmem⟩ := h.box key word m hm
    exact ⟨hbox, k, hk, hc.fonts.grow hmem⟩
  · split at hm
    · rename_i hw
      unfold fresh at hm
      obtain ⟨k, hk, rfl⟩ := Option.map_eq_some_iff.1 hm
      exact ⟨by simp [glyphBox, hk], k, hk, hc.loaded key word k hk hw⟩
    · cases hm

/-- The width of a bitmap is that of what was to come. -/
theorem Inv.comingWidth_eq (h : Inv lib ts s) :
    s.comingWidth lib loads = ((glyphs c.glyph_sets).map (·.2.width)).sum := by
  have hset : (s.coming loads).toFinset = ((glyphs c.glyph_sets).map (·.1)).toFinset := by
    ext ⟨key, word⟩
    rw [List.mem_toFinset, List.mem_toFinset, mem_coming hc]
    simp [Option.isSome_iff_exists, ← mem_glyphs]
  rw [Backend.comingWidth, hset, List.sum_toFinset _ (nodup_glyphs _), List.map_map]
  refine congrArg List.sum (List.map_congr_left fun glyph hglyph => ?_)
  obtain ⟨hbox, -⟩ := h.box_collected hc (mem_glyphs.1 hglyph)
  simp [hbox, StbWordMeta.width]

theorem Inv.comingWidth_nonneg (h : Inv lib ts s) : 0 ≤ s.comingWidth lib loads := by
  rw [h.comingWidth_eq hc]
  apply List.sum_nonneg
  intro w hw
  obtain ⟨glyph, -, rfl⟩ := List.mem_map.1 hw
  exact width_nonneg glyph.2

/-- The greatest height of a glyph. -/
def maxHeight (c : Collected) : ℤ := ((glyphs c.glyph_sets).map (·.2.height)).foldl max 0

/-- The second loop. -/
theorem Inv.measure_eq (h : Inv lib ts s) :
    measure c.glyph_sets =
      if s.comingWidth lib loads ≤ IntType.int32.max then
        some (s.comingWidth lib loads, maxHeight c)
      else none := by
  rw [h.comingWidth_eq hc]
  have hmax : (0 : ℤ) ≤ IntType.int32.max := (IntType.max_pos _).le
  simpa [measure, maxHeight] using
    foldlM_measure (glyphs c.glyph_sets) (0, 0) le_rfl hmax

theorem Inv.fits_iff (h : Inv lib ts s) (hflag : s.has_new_text_need_build_bitmap = true) :
    s.Fits lib loads ↔ s.comingWidth lib loads ≤ IntType.int32.max ∧
      s.comingWidth lib loads * maxHeight c ≤ IntType.int32.max := by
  have hheight (glyph : List Char × ℕ) (m : StbWordMeta)
      (hm : glyphOf c.glyph_sets glyph.1 glyph.2 = some m) :
      (glyphBox lib glyph).elim 0 Box.height = m.height := by
    obtain ⟨hbox, -⟩ := h.box_collected hc hm
    rw [hbox]
    rfl
  rw [maxHeight, mul_foldl_max_le (h.comingWidth_nonneg hc), mul_zero,
    and_iff_right (IntType.max_pos _).le]
  simp only [Backend.Fits, hflag, forall_const, List.forall_mem_map]
  refine and_congr_right fun _ => ⟨fun hall glyph hglyph => ?_, fun hall glyph hglyph => ?_⟩
  · have hm := mem_glyphs.1 hglyph
    rw [← hheight glyph.1 glyph.2 hm]
    exact hall glyph.1 ((mem_coming hc).2 (Option.isSome_iff_exists.2 ⟨_, hm⟩))
  · obtain ⟨m, hm⟩ := Option.isSome_iff_exists.1 ((mem_coming hc).1 hglyph)
    rw [hheight glyph m hm]
    exact hall (glyph, m) (mem_glyphs.2 hm)

end

/-- Sets whose glyphs have the same boxes have the same glyphs, but for their offsets. -/
theorem exists_glyphOf {glyph_sets glyph_sets' : OrderedMap (List Char) GlyphMap}
    (h : (glyphs glyph_sets').map (fun glyph => (glyph.1, glyph.2.box)) =
      (glyphs glyph_sets).map fun glyph => (glyph.1, glyph.2.box))
    {key : List Char} {word : ℕ} {m : StbWordMeta} (hm : glyphOf glyph_sets key word = some m) :
    ∃ m', glyphOf glyph_sets' key word = some m' ∧ m'.box = m.box := by
  have hmem : ((key, word), m.box) ∈
      (glyphs glyph_sets').map fun glyph => (glyph.1, glyph.2.box) :=
    h ▸ List.mem_map.2 ⟨_, mem_glyphs.2 hm, rfl⟩
  obtain ⟨⟨glyph, m'⟩, hm', he⟩ := List.mem_map.1 hmem
  obtain ⟨rfl, hbox⟩ := Prod.mk.inj he
  exact ⟨m', mem_glyphs.1 hm', hbox⟩

/-- What was drawn in a row, on a bitmap of the size that was measured. -/
theorem placed_of_draws {c : Collected} (s' : Backend) {pen : Pen}
    (hsame : (glyphs s'.glyph_sets).map (fun glyph => (glyph.1, glyph.2.box)) =
      (glyphs c.glyph_sets).map fun glyph => (glyph.1, glyph.2.box))
    (hdraws : Draws loads ⟨0, [], c.font_map⟩ ((glyphs s'.glyph_sets).filter (·.2.Drawn)) pen)
    (hwidth : s'.text_bitmap_width = ((glyphs c.glyph_sets).map (·.2.width)).sum)
    (hheight : s'.text_bitmap_height = maxHeight c) (hbitmap : s'.bitmap = pen.bitmap)
    (hsize : s'.bitmap_size = s'.text_bitmap_width * s'.text_bitmap_height) : Placed s' where
  inside key word m hm hd := by
    have hmem : ((key, word), m) ∈ (glyphs s'.glyph_sets).filter (·.2.Drawn) :=
      List.mem_filter.2 ⟨mem_glyphs.2 hm, by simpa using hd⟩
    obtain ⟨hstart, hend⟩ := hdraws.row.inside (fun glyph _ => width_nonneg glyph.2) hmem
    have hpen : pen.offset_x ≤ s'.text_bitmap_width := by
      have hall := congrArg (List.map fun glyph : _ × Box => glyph.2.width) hsame
      simp only [List.map_map, Function.comp_def] at hall
      rw [hdraws.row.eq_add_sum, zero_add, hwidth]
      calc (((glyphs s'.glyph_sets).filter (·.2.Drawn)).map (·.2.width)).sum
          ≤ ((glyphs s'.glyph_sets).map (·.2.width)).sum := by
            apply (List.filter_sublist.map _).sum_le_sum
            intro w hw
            obtain ⟨glyph, -, rfl⟩ := List.mem_map.1 hw
            exact width_nonneg glyph.2
        _ = ((glyphs c.glyph_sets).map (·.2.width)).sum := congrArg List.sum hall
    refine ⟨hstart, hend.trans hpen, ?_⟩
    obtain ⟨m₀, hm₀, hbox⟩ := exists_glyphOf hsame.symm hm
    have hle := (foldl_max_le.1 (le_refl (maxHeight c))).2 m₀.height
      (List.mem_map.2 ⟨_, mem_glyphs.2 hm₀, rfl⟩)
    rwa [hheight, StbWordMeta.height, ← hbox]
  apart key word m key' word' m' hm hd hm' hd' hne := by
    have hmem : ∀ key word m, glyphOf s'.glyph_sets key word = some m → m.Drawn →
        ((key, word), m) ∈ (glyphs s'.glyph_sets).filter (·.2.Drawn) := fun key word m hm hd =>
      List.mem_filter.2 ⟨mem_glyphs.2 hm, by simpa using hd⟩
    exact hdraws.row.disjoint (fun glyph _ => width_nonneg glyph.2) (hmem key word m hm hd)
      (hmem key' word' m' hm' hd') fun he => hne (congrArg (·.1) he)
  current key word m hm hd := by
    rw [hbitmap]
    exact hdraws.bitmap ((key, word), m) (List.mem_filter.2 ⟨mem_glyphs.2 hm, by simpa using hd⟩)
  size := hsize

/-- With nothing pending, the texts have their glyphs. -/
theorem Inv.sound (h : Inv lib ts s) (hnone : s.build_use_textes = .empty) : Sound lib ts s where
  toPlaced := h.toPlaced
  complete t ht word hword := by
    rcases h.pending t ht word hword with hg | ⟨words, hwords, -⟩
    · obtain ⟨m, hm⟩ := Option.isSome_iff_exists.1 hg
      obtain ⟨hbox, -⟩ := h.box _ _ _ hm
      rw [glyphBox, splitKey_keyOf] at hbox
      exact ⟨m, hm, (Option.some.inj hbox).symm⟩
    · rw [hnone] at hwords
      cases hwords

/-- A build that has nothing to do. -/
theorem Inv.build_nothing (h : Inv lib ts s) (hflag : s.has_new_text_need_build_bitmap = false) :
    ∃ s', s.buildBitmap lib loads = some s' ∧ Inv lib ts s' ∧ Sound lib ts s' := by
  have hinv : Inv lib ts
      { s with has_new_text_need_build_bitmap := false, build_use_textes := .empty } :=
    { inside := h.inside
      apart := h.apart
      current := h.current
      size := h.size
      keys := fun _ ht => by cases ht
      box := h.box
      pending := fun t ht word hword => by
        rcases h.pending t ht word hword with hg | ⟨words, hwords, hin⟩
        · exact .inl hg
        · have := h.flag _ hwords (List.ne_nil_of_mem hin)
          simp [hflag] at this
      flag := fun _ ht => by cases ht }
  exact ⟨_, by simp [Backend.buildBitmap, hflag], hinv, hinv.sound rfl⟩

/-- What a build that has something to do leaves. -/
def built (loads : List Char → Bool) (c : Collected) (width height : ℤ) : Backend :=
  let r := c.glyph_sets.traverse (drawSet loads) ⟨0, [], c.font_map⟩
  { glyph_sets := r.1
    build_use_textes := .empty
    text_bitmap_width := width
    text_bitmap_height := height
    bitmap_size := width * height
    bitmap := r.2.bitmap
    font_map := r.2.font_map
    has_new_text_need_build_bitmap := false }

/-- What is built keeps the invariant. -/
theorem Inv.built (h : Inv lib ts s) (hflag : s.has_new_text_need_build_bitmap = true)
    (hload : s.FontsLoad loads) {c : Collected}
    (hc : Collects lib loads s.build_use_textes.entries ⟨s.glyph_sets, s.font_map⟩ c) :
    Inv lib ts (built loads c (s.comingWidth lib loads) (maxHeight c)) := by
  obtain ⟨hsame, hdraws⟩ := draws_all loads ⟨0, [], c.font_map⟩ c.glyph_sets
    fun key word m hm => (h.box_collected hc hm).2
  have hplaced := placed_of_draws (StbTrueTypeBackend.built loads c (s.comingWidth lib loads)
    (maxHeight c)) hsame hdraws (h.comingWidth_eq hc) rfl rfl rfl
  refine ⟨hplaced, fun _ ht => (by cases ht), fun key word m hm => ?_,
    fun t ht word hword => .inl ?_, fun _ ht => (by cases ht)⟩
  · obtain ⟨m₀, hm₀, hbox⟩ := exists_glyphOf hsame.symm hm
    obtain ⟨hglyph, k, hk, hmem⟩ := h.box_collected hc hm₀
    exact ⟨hbox ▸ hglyph, k, hk, hdraws.fonts.grow hmem⟩
  · have hsome : (glyphOf c.glyph_sets (keyOf t.font t.font_size) word).isSome := by
      rw [hc.glyph]
      rcases h.pending t ht word hword with hg | ⟨words, hwords, hin⟩
      · simp [hg]
      · have havail := hload hflag _ hwords (List.ne_nil_of_mem hin)
        have hwanted : Wanted loads s.font_map s.build_use_textes.entries
            (keyOf t.font t.font_size) word := ⟨havail, _, hwords, rfl, .inl hin⟩
        simp [hwanted, fresh, splitKey_keyOf]
    obtain ⟨m, hm⟩ := Option.isSome_iff_exists.1 hsome
    obtain ⟨m', hm', -⟩ := exists_glyphOf hsame hm
    exact Option.isSome_iff_exists.2 ⟨m', hm'⟩

/-- **A build**: it has an outcome exactly when the sizes fit, which is a sound atlas where the
fonts load. -/
theorem Inv.build_spec (h : Inv lib ts s) (hload : s.FontsLoad loads) :
    (s.Fits lib loads → ∃ s', s.buildBitmap lib loads = some s' ∧ Inv lib ts s' ∧
      Sound lib ts s') ∧
    (¬s.Fits lib loads → s.buildBitmap lib loads = none) := by
  cases hflag : s.has_new_text_need_build_bitmap with
  | false =>
    refine ⟨fun _ => h.build_nothing hflag, fun hno => (hno fun hcon => ?_).elim⟩
    rw [hflag] at hcon
    cases hcon
  | true =>
    obtain ⟨c, hcollect, hc⟩ := collects lib loads ⟨s.glyph_sets, s.font_map⟩ h.keys
    have hmeasure := h.measure_eq hc
    have hheight : 0 ≤ maxHeight c := (foldl_max_le.1 (le_refl (maxHeight c))).1
    have harith := arith_of_nonneg (mul_nonneg (h.comingWidth_nonneg hc) hheight)
    rw [h.fits_iff hc hflag]
    constructor
    · rintro ⟨hwidth, hsize⟩
      have hinv := h.built hflag hload hc
      rw [if_pos hwidth] at hmeasure
      rw [if_pos hsize] at harith
      refine ⟨_, ?_, hinv, hinv.sound rfl⟩
      simp [Backend.buildBitmap, hflag, hcollect, hmeasure, harith, StbTrueTypeBackend.built]
    · intro hno
      by_cases hwidth : s.comingWidth lib loads ≤ IntType.int32.max
      · rw [if_pos hwidth] at hmeasure
        rw [if_neg fun hsize => hno ⟨hwidth, hsize⟩] at harith
        simp [Backend.buildBitmap, hflag, hcollect, hmeasure, harith]
      · rw [if_neg hwidth] at hmeasure
        simp [Backend.buildBitmap, hflag, hcollect, hmeasure]

/-! ## Runs -/

/-- A build in which the fonts load, or another call. -/
def Call.FontsLoad (s : Backend) : Call → Prop
  | .addBuildText .. => True
  | .buildBitmap loads => s.FontsLoad loads

/-- **A run keeps the invariant**, while the fonts load. -/
theorem inv_of_run {calls : List Call}
    (r : Run (fun s call s' => step lib s call = some s' ∧ call.FontsLoad s) initial calls s) :
    Inv lib (texts calls) s := by
  have key : ∀ {s₀ : Backend} {ts : List Text}, Inv lib ts s₀ → ∀ {calls s},
      Run (fun s call s' => step lib s call = some s' ∧ call.FontsLoad s) s₀ calls s →
      Inv lib (ts ++ texts calls) s := by
    intro s₀ ts h₀ calls s r
    induction r generalizing ts with
    | nil => simpa [texts] using h₀
    | @cons s₀ s₁ s call calls hstep r ih =>
      obtain ⟨hstep, hload⟩ := hstep
      cases call with
      | addBuildText words font_size font =>
        obtain rfl := Option.some.inj hstep
        simpa [texts] using ih (h₀.addBuildText ⟨words, font_size, font⟩)
      | buildBitmap loads =>
        obtain ⟨hfits, hnot⟩ := h₀.build_spec hload
        by_cases hfit : s₀.Fits lib loads
        · obtain ⟨s', hs', hinv, -⟩ := hfits hfit
          obtain rfl := Option.some.inj (hs'.symm.trans hstep)
          simpa [texts] using ih hinv
        · cases (hnot hfit).symm.trans hstep
  simpa using key inv_initial r

/-- **The atlas is sound after a build** in a run in which the fonts load, exactly when the sizes of
what there is to draw fit an `int`. -/
theorem sound_iff {calls : List Call}
    (hrun : Run (fun s call s' => step lib s call = some s' ∧ call.FontsLoad s) initial calls s)
    (hload : s.FontsLoad loads) :
    (∃ s', step lib s (.buildBitmap loads) = some s' ∧ Sound lib (texts calls) s') ↔
      s.Fits lib loads := by
  obtain ⟨hfits, hnot⟩ := (inv_of_run hrun).build_spec hload
  constructor
  · rintro ⟨s', hs', -⟩
    by_contra hno
    cases (hnot hno).symm.trans hs'
  · intro hfit
    obtain ⟨s', hs', -, hsound⟩ := hfits hfit
    exact ⟨s', hs', hsound⟩

end

/-! ## Squares -/

/-- A font whose glyphs are squares, as high as the font. -/
def squares : FontLibrary := fun _ font_size _ =>
  if h : 0 ≤ font_size ∧ font_size ≤ IntType.int32.max then
    ⟨0, 0, font_size, font_size, h.1, h.1, by simpa using h.2, by simpa using h.2⟩
  else ⟨0, 0, 0, 0, le_rfl, le_rfl, (IntType.max_pos _).le, (IntType.max_pos _).le⟩

def fontF : FontName := ⟨['F'], by decide⟩

theorem sound_iff_squares :
    ∃ s, step squares (initial.addBuildText [65] 40 fontF) (.buildBitmap fun _ => true) = some s ∧
      Sound squares [⟨[65], 40, fontF⟩] s :=
  have hrun : Run (fun s call s' => step squares s call = some s' ∧ call.FontsLoad s) initial
      [.addBuildText [65] 40 fontF] (initial.addBuildText [65] 40 fontF) :=
    .cons ⟨rfl, trivial⟩ (.nil _)
  (sound_iff hrun (by decide +kernel)).2 (by decide +kernel)

/-- Glyphs of 50000 pixels overflow the size of their bitmap; and the character of a text is missing
that was added when its font did not load. -/
theorem atlas_unsound :
    ((initial.addBuildText [65] 50000 fontF).buildBitmap squares fun _ => true).isNone = true ∧
      ([Call.addBuildText [65] 40 fontF, .buildBitmap fun _ => false,
          .addBuildText [66] 40 fontF, .buildBitmap fun _ => true].foldlM (step squares) initial).any
        (fun s => (s.query fontF 40 65).isNone && (s.query fontF 40 66).isSome) = true := by
  decide +kernel

end Cvcuda.StbTrueTypeBackend
