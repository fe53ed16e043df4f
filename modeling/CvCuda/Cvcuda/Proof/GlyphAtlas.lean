import CvCuda.Cvcuda.GlyphAtlas
import CvCuda.Lib.Row
import Mathlib.Data.List.TakeWhile
import Mathlib.Tactic

/-! # What building a glyph atlas does

* `splitKey_keyOf`: a key of the maps gives back the font's name and the size.
* `collects`: the first loop of `build_bitmap` as a whole: which words have a glyph after it.
* `foldlM_measure`: the sizes that the second loop comes to.
* `draws_all`: the last loops leave the boxes as they are and put what is drawn in a row.
-/

namespace Cvcuda.StbTrueTypeBackend

open CInt

/-! ## Keys -/

theorem blank_not_mem_decimal (size : ℤ) : ' ' ∉ decimal size := by
  have hdigits : ' ' ∉ Nat.toDigits 10 size.natAbs := fun h => by
    simpa using Nat.isDigit_of_mem_toDigits (by decide) le_rfl h
  unfold decimal
  split <;> simp [hdigits]

theorem zero_not_mem_decimal (size : ℤ) : Char.ofNat 0 ∉ decimal size := by
  have hdigits : Char.ofNat 0 ∉ Nat.toDigits 10 size.natAbs := fun h => by
    simpa using Nat.isDigit_of_mem_toDigits (by decide) le_rfl h
  unfold decimal
  split <;> simp [hdigits]

theorem rfind_append {s t : List Char} {c : Char} (h : c ∉ t) :
    rfind (s ++ c :: t) c = some s.length := by
  have hrev : c ∉ t.reverse := by simpa using h
  unfold rfind
  rw [if_pos (by simp), List.reverse_append, List.reverse_cons, List.append_assoc,
    List.idxOf_append_of_notMem hrev]
  simp

theorem cString_of_not_mem {s : List Char} (h : Char.ofNat 0 ∉ s) : cString s = s := by
  apply List.takeWhile_eq_self_iff.2
  intro c hc
  exact decide_eq_true fun e => h (e ▸ hc)

theorem cString_append {s t : List Char} (h : Char.ofNat 0 ∉ s) :
    cString (s ++ Char.ofNat 0 :: t) = s := by
  have hs : ∀ c ∈ s, decide (c ≠ Char.ofNat 0) = true := fun c hc =>
    decide_eq_true fun e => h (e ▸ hc)
  unfold cString
  rw [List.takeWhile_append_of_pos hs]
  simp

theorem takeWhile_isDigit_toDigits (n : ℕ) :
    (Nat.toDigits 10 n).takeWhile Char.isDigit = Nat.toDigits 10 n :=
  List.takeWhile_eq_self_iff.2 fun _ h => Nat.isDigit_of_mem_toDigits (by decide) le_rfl h

theorem atoi_decimal (size : ℤ) : atoi (decimal size) = size := by
  have hvalue : Nat.ofDigitChars 10 (Nat.toDigits 10 size.natAbs) 0 = size.natAbs :=
    Nat.ofDigitChars_toDigits (by decide) le_rfl
  unfold decimal
  split
  · simp only [atoi, takeWhile_isDigit_toDigits, hvalue]
    omega
  · unfold atoi
    split
    · rename_i s h
      have : '-' ∈ Nat.toDigits 10 size.natAbs := h ▸ List.mem_cons_self
      simpa using Nat.isDigit_of_mem_toDigits (by decide) le_rfl this
    · rw [takeWhile_isDigit_toDigits, hvalue]
      omega

/-- **A key splits** into the name and the size that it was made of. -/
theorem splitKey_keyOf (font : FontName) (font_size : BitVec 32) :
    splitKey (keyOf font font_size) = some (font.1, font_size.toInt) := by
  have hfind := rfind_append (s := font.1) (blank_not_mem_decimal font_size.toInt)
  have hname := cString_append (t := decimal font_size.toInt) font.2
  have hsize := cString_of_not_mem (zero_not_mem_decimal font_size.toInt)
  unfold splitKey keyOf concatFontNameSize
  simp [hfind, hname, hsize, atoi_decimal, List.set_append]

/-! ## The glyphs of the sets -/

/-- The glyph of a word in the set of a key. -/
def glyphOf (glyph_sets : OrderedMap (List Char) GlyphMap) (key : List Char) (word : ℕ) :
    Option StbWordMeta := (glyph_sets.find? key).bind (·.find? word)

section
variable {glyph_sets : OrderedMap (List Char) GlyphMap} {key key' : List Char} {word : ℕ}
  {m : StbWordMeta}

theorem mem_glyphs :
    ((key, word), m) ∈ glyphs glyph_sets ↔ glyphOf glyph_sets key word = some m := by
  simp only [glyphs, List.mem_flatMap, List.mem_map, Prod.mk.injEq, glyphOf,
    Option.bind_eq_some_iff]
  constructor
  · rintro ⟨map, hmap, item, hitem, ⟨rfl, rfl⟩, rfl⟩
    exact ⟨map.2, OrderedMap.mem_entries.1 hmap, OrderedMap.mem_entries.1 hitem⟩
  · rintro ⟨map, hmap, hitem⟩
    exact ⟨(key, map), OrderedMap.mem_entries.2 hmap, (word, m), OrderedMap.mem_entries.2 hitem,
      ⟨rfl, rfl⟩, rfl⟩

theorem nodup_glyphs (glyph_sets : OrderedMap (List Char) GlyphMap) :
    ((glyphs glyph_sets).map (·.1)).Nodup := by
  unfold glyphs
  rw [List.map_flatMap]
  refine List.nodup_flatMap.2 ⟨fun map _ => ?_, ?_⟩
  · have hinj : Function.Injective fun word : ℕ => (map.1, word) := fun _ _ h => congrArg (·.2) h
    simpa [Function.comp_def] using map.2.nodup_keys.map hinj
  · refine glyph_sets.sorted.imp fun {a b} hlt => ?_
    intro p ha hb
    simp only [List.map_map, List.mem_map, Function.comp_apply] at ha hb
    obtain ⟨_, -, rfl⟩ := ha
    obtain ⟨_, -, hp⟩ := hb
    exact hlt.ne (congrArg (·.1) hp).symm

variable (glyph_sets key key' word) in
theorem glyphOf_alter (f : GlyphMap → GlyphMap) :
    glyphOf (glyph_sets.alter key (f <| ·.getD .empty)) key' word =
      if key' = key then (f ((glyph_sets.find? key).getD .empty)).find? word
      else glyphOf glyph_sets key' word := by
  unfold glyphOf
  rw [OrderedMap.find?_alter]
  split <;> rfl

/-- A set that is made where there is none has no glyphs. -/
theorem glyphOf_touch :
    glyphOf (glyph_sets.alter key (·.getD .empty)) key' word = glyphOf glyph_sets key' word := by
  have h := glyphOf_alter glyph_sets key key' word id
  refine h.trans ?_
  split
  · rename_i hk
    subst hk
    unfold glyphOf
    cases glyph_sets.find? key' <;> simp
  · rfl

end

/-! ## Collecting words -/

/-- What is put in a set for a word that it does not have. -/
def fresh (lib : FontLibrary) (key : List Char) (word : ℕ) : Option StbWordMeta :=
  (splitKey key).map fun k => ⟨lib k.1 k.2 (IntType.int32.conv word), 0⟩

/-- A word that the loops over words come to. -/
def Wanted (loads : List Char → Bool) (font_map : List (List Char))
    (pending : List (List Char × List ℕ)) (key : List Char) (word : ℕ) : Prop :=
  available loads font_map key = true ∧
    ∃ textes ∈ pending, textes.1 = key ∧ (word ∈ textes.2 ∨ word ∈ defaults)

instance (loads : List Char → Bool) (font_map : List (List Char))
    (pending : List (List Char × List ℕ)) (key : List Char) (word : ℕ) :
    Decidable (Wanted loads font_map pending key word) :=
  instDecidableAnd

section
variable {lib : FontLibrary} {loads : List Char → Bool} {font_map : List (List Char)}
  {key : List Char} {name : List Char} {size : ℤ} {word : ℕ}

theorem find?_insertWords {words : List ℕ} (glyph_map : GlyphMap) :
    (insertWords lib name size words glyph_map).find? word =
      (glyph_map.find? word).or
        (if word ∈ words then some ⟨lib name size (IntType.int32.conv word), 0⟩ else none) := by
  induction words generalizing glyph_map with
  | nil => simp [insertWords]
  | cons w words ih =>
    have h := ih (glyph_map.insertNew w ⟨lib name size (IntType.int32.conv w), 0⟩)
    rw [OrderedMap.find?_insertNew] at h
    refine h.trans ?_
    by_cases hw : word = w
    · subst hw
      cases glyph_map.find? word <;> simp
    · simp [hw]

/-- The fonts after `get_font` returned one. -/
structure Loaded (loads : List Char → Bool) (font_map : List (List Char))
    (font_map' : List (List Char)) : Prop where
  grow : font_map ⊆ font_map'
  loads : ∀ name ∈ font_map', name ∈ font_map ∨ loads name = true

theorem Loaded.refl : Loaded loads font_map font_map := ⟨List.Subset.refl _, fun _ => .inl⟩

theorem Loaded.trans {font_map' font_map'' : List (List Char)} (h : Loaded loads font_map font_map')
    (h' : Loaded loads font_map' font_map'') : Loaded loads font_map font_map'' :=
  ⟨List.Subset.trans h.grow h'.grow, fun name hname => (h'.loads name hname).elim (h.loads name) .inr⟩

/-- What is loaded does not change what is available. -/
theorem Loaded.available_eq {font_map' : List (List Char)} (h : Loaded loads font_map font_map') :
    available loads font_map' key = available loads font_map key := by
  unfold available
  cases splitKey key with
  | none => rfl
  | some k =>
    have hgrow := @h.grow k.1
    have hloads := h.loads k.1
    rw [Option.any_some, Option.any_some, Bool.eq_iff_iff]
    grind

variable (loads font_map name) in
theorem getFont_spec :
    (name ∈ font_map ∨ loads name = true) ∧
        (∃ font_map', getFont loads font_map name = some font_map' ∧ name ∈ font_map' ∧
          Loaded loads font_map font_map') ∨
      ¬(name ∈ font_map ∨ loads name = true) ∧ getFont loads font_map name = none := by
  unfold getFont
  by_cases hmem : name ∈ font_map
  · exact .inl ⟨.inl hmem, font_map, if_pos hmem, hmem, .refl⟩
  · by_cases hload : loads name = true
    · refine .inl ⟨.inr hload, name :: font_map, by simp [hmem, hload], List.mem_cons_self,
        List.subset_cons_self _ _, ?_⟩
      intro name' hname'
      rcases List.mem_cons.1 hname' with rfl | h
      · exact .inr hload
      · exact .inl h
    · exact .inr ⟨by simp [hmem, hload], by simp [hmem, hload]⟩

end

/-- What the first loop makes of the sets. -/
structure Collects (lib : FontLibrary) (loads : List Char → Bool)
    (pending : List (List Char × List ℕ)) (c c' : Collected) : Prop where
  fonts : Loaded loads c.font_map c'.font_map
  glyph : ∀ key word, glyphOf c'.glyph_sets key word =
    (glyphOf c.glyph_sets key word).or
      (if Wanted loads c.font_map pending key word then fresh lib key word else none)
  loaded : ∀ key word k, splitKey key = some k → Wanted loads c.font_map pending key word →
    k.1 ∈ c'.font_map

section
variable {lib : FontLibrary} {loads : List Char → Bool} {c c' c'' : Collected}
  {textes : List Char × List ℕ} {pending : List (List Char × List ℕ)}

theorem wanted_cons {font_map : List (List Char)} {key : List Char} {word : ℕ} :
    Wanted loads font_map (textes :: pending) key word ↔
      Wanted loads font_map [textes] key word ∨ Wanted loads font_map pending key word := by
  simp only [Wanted, List.exists_mem_cons_iff, List.not_mem_nil, false_and, exists_false, or_false]
  rw [← and_or_left]

theorem collect_of_font {k : List Char × ℤ} {font_map' : List (List Char)}
    (hkey : splitKey textes.1 = some k)
    (hget : getFont loads c.font_map k.1 = some font_map') :
    collect lib loads c textes = some
      { glyph_sets := (c.glyph_sets.alter textes.1 (·.getD .empty)).alter textes.1 fun glyph_map =>
          insertWords lib k.1 k.2 defaults
            (insertWords lib k.1 k.2 textes.2 (glyph_map.getD .empty))
        font_map := font_map' } := by
  simp [collect, hkey, hget]

theorem collect_of_no_font {k : List Char × ℤ} (hkey : splitKey textes.1 = some k)
    (hget : getFont loads c.font_map k.1 = none) :
    collect lib loads c textes =
      some { c with glyph_sets := c.glyph_sets.alter textes.1 (·.getD .empty) } := by
  simp [collect, hkey, hget]

variable (lib loads c) in
/-- **A turn of the first loop**. -/
theorem collect_spec {k : List Char × ℤ} (hkey : splitKey textes.1 = some k) :
    ∃ c', collect lib loads c textes = some c' ∧ Collects lib loads [textes] c c' := by
  have havail (key : List Char) (h : textes.1 = key) :
      available loads c.font_map key = true ↔ (k.1 ∈ c.font_map ∨ loads k.1 = true) := by
    subst h
    simp [available, hkey]
  have hwanted (key : List Char) (word : ℕ) : Wanted loads c.font_map [textes] key word ↔
      key = textes.1 ∧ (k.1 ∈ c.font_map ∨ loads k.1 = true) ∧
        (word ∈ textes.2 ∨ word ∈ defaults) := by
    constructor
    · rintro ⟨h, t, ht, rfl, hword⟩
      obtain rfl := List.mem_singleton.1 ht
      exact ⟨rfl, (havail _ rfl).1 h, hword⟩
    · rintro ⟨rfl, h, hword⟩
      exact ⟨(havail _ rfl).2 h, textes, List.mem_singleton_self _, rfl, hword⟩
  rcases getFont_spec loads c.font_map k.1 with
    ⟨hok, font_map', hget, hmem, hloaded⟩ | ⟨hno, hget⟩
  · refine ⟨_, collect_of_font hkey hget, hloaded, fun key word => ?_,
      fun key word k' hk' hw => ?_⟩
    · rw [glyphOf_alter _ _ _ _ (fun glyph_map => insertWords lib k.1 k.2 defaults
        (insertWords lib k.1 k.2 textes.2 glyph_map)), glyphOf_touch]
      simp only [hwanted]
      split
      · rename_i hk
        subst hk
        have hset : ((c.glyph_sets.alter textes.1 (·.getD .empty)).find? textes.1).getD .empty =
            (c.glyph_sets.find? textes.1).getD .empty := by simp [OrderedMap.find?_alter]
        have hold : ((c.glyph_sets.find? textes.1).getD .empty).find? word =
            glyphOf c.glyph_sets textes.1 word := by
          unfold glyphOf
          cases c.glyph_sets.find? textes.1 <;> rfl
        rw [hset, find?_insertWords, find?_insertWords, hold, fresh, hkey]
        by_cases hword : word ∈ textes.2 <;> by_cases hdefault : word ∈ defaults <;>
          simp [hok, hword, hdefault]
      · rename_i hk
        simp [hk]
    · obtain ⟨rfl, -⟩ := (hwanted _ _).1 hw
      exact Option.some.inj (hkey.symm.trans hk') ▸ hmem
  · refine ⟨_, collect_of_no_font hkey hget, .refl, fun key word => ?_,
      fun key word k' hk' hw => absurd ((hwanted _ _).1 hw).2.1 hno⟩
    rw [glyphOf_touch, if_neg fun hw => hno ((hwanted _ _).1 hw).2.1, Option.or_none]

theorem Wanted.congr {font_map font_map' : List (List Char)} {key : List Char} {word : ℕ}
    (h : Loaded loads font_map font_map') :
    Wanted loads font_map' pending key word ↔ Wanted loads font_map pending key word := by
  rw [Wanted, Wanted, h.available_eq]

theorem Collects.trans (h : Collects lib loads [textes] c c')
    (h' : Collects lib loads pending c' c'') : Collects lib loads (textes :: pending) c c'' where
  fonts := h.fonts.trans h'.fonts
  glyph key word := by
    have hcons : Wanted loads c.font_map (textes :: pending) key word ↔ _ := wanted_cons
    rw [h'.glyph, h.glyph, Option.or_assoc]
    by_cases hw : Wanted loads c.font_map [textes] key word <;>
      by_cases hw' : Wanted loads c.font_map pending key word <;>
      simp [hcons, Wanted.congr h.fonts, hw, hw']
  loaded key word k hk hw := by
    rcases wanted_cons.1 hw with hw | hw
    · exact h'.fonts.grow (h.loaded key word k hk hw)
    · exact h'.loaded key word k hk ((Wanted.congr h.fonts).2 hw)

variable (lib loads c) in
/-- **The first loop**: the words that it comes to have a glyph after it. -/
theorem collects (hkeys : ∀ textes ∈ pending, (splitKey textes.1).isSome) :
    ∃ c', pending.foldlM (collect lib loads) c = some c' ∧ Collects lib loads pending c c' := by
  induction pending generalizing c with
  | nil => exact ⟨c, rfl, .refl, fun key word => by simp [Wanted], fun key word k hk hw => by
      obtain ⟨-, t, ht, -⟩ := hw
      cases ht⟩
  | cons textes pending ih =>
    obtain ⟨k, hk⟩ := Option.isSome_iff_exists.1 (hkeys textes (.head _))
    obtain ⟨c₁, hc₁, h₁⟩ := collect_spec lib loads c hk
    obtain ⟨c', hc', h'⟩ := ih c₁ fun t ht => hkeys t (.tail _ ht)
    exact ⟨c', by simp [hc₁, hc'], h₁.trans h'⟩

end

/-! ## The size of the bitmap -/

theorem width_nonneg (m : StbWordMeta) : 0 ≤ m.width := sub_nonneg.2 m.box.le_x

theorem height_nonneg (m : StbWordMeta) : 0 ≤ m.height := sub_nonneg.2 m.box.le_y

theorem arith_of_nonneg {z : ℤ} (h : 0 ≤ z) :
    IntType.int32.arith z = if z ≤ IntType.int32.max then some z else none := by
  have hmin := IntType.min_nonpos .int32
  simp [IntType.arith, IntType.signed, IntType.Holds, hmin.trans h]

/-- The loop of `measure`. -/
theorem foldlM_measure (l : List ((List Char × ℕ) × StbWordMeta)) (acc : ℤ × ℤ) (h : 0 ≤ acc.1)
    (hmax : acc.1 ≤ IntType.int32.max) :
    l.foldlM (fun acc glyph => do
        some (← IntType.int32.arith (acc.1 + glyph.2.width), max acc.2 glyph.2.height)) acc =
      if acc.1 + (l.map (·.2.width)).sum ≤ IntType.int32.max then
        some (acc.1 + (l.map (·.2.width)).sum, (l.map (·.2.height)).foldl max acc.2)
      else none := by
  induction l generalizing acc with
  | nil => simp [hmax]
  | cons x l ih =>
    have hx := width_nonneg x.2
    have hl : 0 ≤ (l.map (·.2.width)).sum := by
      apply List.sum_nonneg
      intro w hw
      obtain ⟨y, -, rfl⟩ := List.mem_map.1 hw
      exact width_nonneg y.2
    rw [List.foldlM_cons, arith_of_nonneg (by omega)]
    by_cases hfit : acc.1 + x.2.width ≤ IntType.int32.max
    · rw [if_pos hfit]
      have := ih (acc.1 + x.2.width, max acc.2 x.2.height) (by dsimp only; omega) hfit
      simpa [add_assoc] using this
    · rw [if_neg hfit, if_neg (by simp; omega)]
      rfl

theorem foldl_max_le {l : List ℤ} {a z : ℤ} : l.foldl max a ≤ z ↔ a ≤ z ∧ ∀ x ∈ l, x ≤ z := by
  induction l generalizing a with
  | nil => simp
  | cons x l ih => simp [ih, and_assoc]

theorem mul_foldl_max_le {l : List ℤ} {t a z : ℤ} (ht : 0 ≤ t) :
    t * l.foldl max a ≤ z ↔ t * a ≤ z ∧ ∀ x ∈ l, t * x ≤ z := by
  induction l generalizing a with
  | nil => simp
  | cons x l ih => simp [ih, mul_max_of_nonneg _ _ ht, and_assoc]

/-! ## Drawing -/

/-- Entries of the same words with the same boxes. -/
def SameBoxes (l l' : List (ℕ × StbWordMeta)) : Prop :=
  l'.map (fun item => (item.1, item.2.box)) = l.map fun item => (item.1, item.2.box)

/-- The glyphs of a set that are drawn, with its key. -/
def drawn (key : List Char) (l : List (ℕ × StbWordMeta)) : List ((List Char × ℕ) × StbWordMeta) :=
  (l.map fun item => ((key, item.1), item.2)).filter (·.2.Drawn)

/-- Glyphs that stand in a row on a bitmap. -/
abbrev InRow :=
  Row (fun glyph : (List Char × ℕ) × StbWordMeta => glyph.2.offset_x) (·.2.width)

/-- What drawing some of the sets comes to: their drawn glyphs `l`, in a row from where the pen was
to where it is. -/
structure Draws (loads : List Char → Bool) (pen : Pen) (l : List ((List Char × ℕ) × StbWordMeta))
    (pen' : Pen) : Prop where
  row : InRow pen.offset_x l pen'.offset_x
  bitmap : ∀ glyph ∈ l, (glyph.1, glyph.2.offset_x) ∈ pen'.bitmap
  grow : pen.bitmap ⊆ pen'.bitmap
  fonts : Loaded loads pen.font_map pen'.font_map

section
variable {loads : List Char → Bool} {pen pen' pen'' : Pen} {key : List Char}
  {l l' : List ((List Char × ℕ) × StbWordMeta)}

theorem Draws.refl : Draws loads pen [] pen :=
  ⟨rfl, fun _ h => (List.not_mem_nil h).elim, List.Subset.refl _, .refl⟩

theorem Draws.trans (h : Draws loads pen l pen') (h' : Draws loads pen' l' pen'') :
    Draws loads pen (l ++ l') pen'' where
  row := h.row.append h'.row
  bitmap glyph hg := by
    rcases List.mem_append.1 hg with hg | hg
    · exact h'.grow (h.bitmap glyph hg)
    · exact h'.bitmap glyph hg
  grow := List.Subset.trans h.grow h'.grow
  fonts := h.fonts.trans h'.fonts

variable (loads key pen) in
/-- The inner loop. -/
theorem draws_set (entries : List (ℕ × StbWordMeta)) :
    let r := OrderedMap.traverseEntries (drawGlyph key) pen entries
    SameBoxes entries r.1 ∧ Draws loads pen (drawn key r.1) r.2 ∧ r.2.font_map = pen.font_map := by
  induction entries generalizing pen with
  | nil => exact ⟨rfl, .refl, rfl⟩
  | cons item entries ih =>
    obtain ⟨word, glyph⟩ := item
    simp only [OrderedMap.traverseEntries, drawGlyph]
    by_cases hd : glyph.Drawn
    · simp only [if_pos hd]
      obtain ⟨hbox, hdraws, hfont⟩ := ih { pen with
        bitmap := ((key, word), pen.offset_x) :: pen.bitmap
        offset_x := pen.offset_x + glyph.width }
      refine ⟨by simpa [SameBoxes] using hbox, ?_, hfont⟩
      have hd' : StbWordMeta.Drawn { glyph with offset_x := pen.offset_x } := hd
      have hone : Draws loads pen [((key, word), { glyph with offset_x := pen.offset_x })]
          { pen with
            bitmap := ((key, word), pen.offset_x) :: pen.bitmap
            offset_x := pen.offset_x + glyph.width } :=
        ⟨⟨rfl, rfl⟩, by simp, List.subset_cons_self _ _, .refl⟩
      simpa [drawn, hd'] using hone.trans hdraws
    · simp only [if_neg hd]
      obtain ⟨hbox, hdraws, hfont⟩ := ih pen
      refine ⟨by simpa [SameBoxes] using hbox, ?_, hfont⟩
      simpa [drawn, hd] using hdraws

variable (loads) in
/-- What `drawSet` finds of the font of a set. -/
theorem drawSet_spec {map : GlyphMap}
    (hfont : map.entries ≠ [] → ∃ k, splitKey key = some k ∧ k.1 ∈ pen.font_map) :
    SameBoxes map.entries (drawSet loads pen key map).1.entries ∧
      Draws loads pen (drawn key (drawSet loads pen key map).1.entries)
        (drawSet loads pen key map).2 := by
  unfold drawSet
  split
  · rename_i hnone
    by_cases hentries : map.entries = []
    · exact ⟨rfl, by simpa [drawn, hentries] using Draws.refl⟩
    · obtain ⟨k, hk, hmem⟩ := hfont hentries
      simp [hk, getFont, hmem] at hnone
  · rename_i font_map hsome
    obtain ⟨k, -, hget⟩ := Option.bind_eq_some_iff.1 hsome
    have hloaded : Loaded loads pen.font_map font_map := by
      rcases getFont_spec loads pen.font_map k.1 with
        ⟨-, font_map', hget', -, h⟩ | ⟨-, hget'⟩
      · exact Option.some.inj (hget.symm.trans hget') ▸ h
      · cases hget.symm.trans hget'
    obtain ⟨hbox, hdraws, -⟩ := draws_set loads { pen with font_map := font_map } key
      map.entries
    exact ⟨hbox, hdraws.row, hdraws.bitmap, hdraws.grow, hloaded.trans hdraws.fonts⟩

variable (loads pen) in
/-- The outer loop. -/
theorem draws_sets (sets : List (List Char × GlyphMap))
    (hfonts : ∀ set ∈ sets, set.2.entries ≠ [] →
      ∃ k, splitKey set.1 = some k ∧ k.1 ∈ pen.font_map) :
    let r := OrderedMap.traverseEntries (drawSet loads) pen sets
    List.Forall₂ (fun set set' => set'.1 = set.1 ∧ SameBoxes set.2.entries set'.2.entries)
        sets r.1 ∧
      Draws loads pen (r.1.flatMap fun set => drawn set.1 set.2.entries) r.2 := by
  induction sets generalizing pen with
  | nil => exact ⟨.nil, .refl⟩
  | cons set sets ih =>
    obtain ⟨hbox, hdraws⟩ := drawSet_spec loads (hfonts set (.head _))
    obtain ⟨hboxes, hrest⟩ := ih (drawSet loads pen set.1 set.2).2 fun s hs hne => by
      obtain ⟨k, hk, hmem⟩ := hfonts s (.tail _ hs) hne
      exact ⟨k, hk, hdraws.fonts.grow hmem⟩
    exact ⟨.cons ⟨rfl, hbox⟩ hboxes, hdraws.trans hrest⟩

theorem map_box_eq {sets sets' : List (List Char × GlyphMap)}
    (h : List.Forall₂ (fun set set' => set'.1 = set.1 ∧ SameBoxes set.2.entries set'.2.entries)
      sets sets') :
    (sets'.flatMap fun map => map.2.entries.map fun item => ((map.1, item.1), item.2)).map
        (fun glyph => (glyph.1, glyph.2.box)) =
      (sets.flatMap fun map => map.2.entries.map fun item => ((map.1, item.1), item.2)).map
        fun glyph => (glyph.1, glyph.2.box) := by
  induction h with
  | nil => rfl
  | @cons set set' _ _ h _ ih =>
    have hset := congrArg (List.map fun item : ℕ × Box => ((set.1, item.1), item.2)) h.2
    rw [List.flatMap_cons, List.flatMap_cons, List.map_append, List.map_append, ih, h.1]
    simpa [Function.comp_def] using hset

variable (loads pen) in
/-- **The last two loops**: the glyphs keep their boxes, and those that are drawn stand in a row. -/
theorem draws_all (glyph_sets : OrderedMap (List Char) GlyphMap)
    (hfonts : ∀ key word m, glyphOf glyph_sets key word = some m →
      ∃ k, splitKey key = some k ∧ k.1 ∈ pen.font_map) :
    let r := glyph_sets.traverse (drawSet loads) pen
    (glyphs r.1).map (fun glyph => (glyph.1, glyph.2.box)) =
        (glyphs glyph_sets).map (fun glyph => (glyph.1, glyph.2.box)) ∧
      Draws loads pen ((glyphs r.1).filter (·.2.Drawn)) r.2 := by
  obtain ⟨hboxes, hdraws⟩ := draws_sets loads pen glyph_sets.entries
    fun set hset hne => by
      obtain ⟨item, hitem⟩ := List.exists_mem_of_ne_nil _ hne
      refine hfonts set.1 item.1 item.2 (mem_glyphs.1 ?_)
      exact List.mem_flatMap.2 ⟨set, hset, List.mem_map.2 ⟨item, hitem, rfl⟩⟩
  refine ⟨?_, ?_⟩
  · exact map_box_eq hboxes
  · show Draws loads pen ((List.flatMap _ _).filter _) _
    rw [List.filter_flatMap]
    exact hdraws

end

end Cvcuda.StbTrueTypeBackend
