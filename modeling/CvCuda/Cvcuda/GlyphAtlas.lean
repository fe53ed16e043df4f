import CvCuda.Lib.CInt
import CvCuda.Lib.OrderedMap
import Mathlib

/-! # The glyph atlas

`StbTrueTypeBackend` of `priv_musa/legacy/textbackend/stb.cpp`: `add_build_text`, `build_bitmap` and
`query`, with `concat_font_name_size` of `backend.cpp`.

* A byte of a string is the character with its code; a name has none that is 0.
* What the font library says of a glyph is its box. Of the bitmap, its size is modelled, and which
  glyphs were drawn where since it was cleared.
* An `int` that overflows has no outcome; `offset_x` does not get beyond `total_glyph_width`.
* Whether a font can be created does not change during a call.
-/

namespace Cvcuda.StbTrueTypeBackend

open CInt

/-- What `stbtt_GetGlyphBitmapBoxSubpixel` gives: a box with a width and a height. -/
structure Box where
  x0 : ℤ
  y0 : ℤ
  x1 : ℤ
  y1 : ℤ
  le_x : x0 ≤ x1
  le_y : y0 ≤ y1
  width_le : x1 - x0 ≤ IntType.int32.max
  height_le : y1 - y0 ≤ IntType.int32.max

namespace Box
variable (b : Box)

def width : ℤ := b.x1 - b.x0

def height : ℤ := b.y1 - b.y0

end Box

/-- The box of the glyph of a code point, in a font and a size. -/
abbrev FontLibrary := (font_name : List Char) → (font_size codepoint : ℤ) → Box

structure StbWordMeta where
  box : Box
  offset_x : ℤ

namespace StbWordMeta
variable (m : StbWordMeta)

def width : ℤ := m.box.width

def height : ℤ := m.box.height

/-- Not `w < 1 or h < 1`. -/
def Drawn : Prop := 1 ≤ m.width ∧ 1 ≤ m.height

instance : Decidable m.Drawn := instDecidableAnd

end StbWordMeta

/-- A name of a font, without its terminator. -/
abbrev FontName := { name : List Char // Char.ofNat 0 ∉ name }

/-- `ss << size` -/
def decimal (size : ℤ) : List Char :=
  if size < 0 then '-' :: Nat.toDigits 10 size.natAbs else Nat.toDigits 10 size.natAbs

/-- `concat_font_name_size` -/
def concatFontNameSize (name : List Char) (size : ℤ) : List Char := name ++ ' ' :: decimal size

/-- `s.rfind(c)`, where `c` is. -/
def rfind (s : List Char) (c : Char) : Option Nat :=
  if c ∈ s then some (s.length - 1 - s.reverse.idxOf c) else none

/-- The string at a pointer, up to its terminator. -/
def cString (s : List Char) : List Char := s.takeWhile (· ≠ Char.ofNat 0)

/-- `std::atoi` of what begins with a sign or a digit. -/
def atoi : List Char → ℤ
  | '-' :: s => -Nat.ofDigitChars 10 (s.takeWhile Char.isDigit) 0
  | s => Nat.ofDigitChars 10 (s.takeWhile Char.isDigit) 0

/-- `font_name` and `font_size` of a key. -/
def splitKey (key : List Char) : Option (List Char × ℤ) := do
  let p ← rfind key ' '
  let s := key.set p (Char.ofNat 0)
  some (cString s, atoi (cString (s.drop (p + 1))))

/-- `default_words` -/
def defaultWords : List Nat :=
  (List.range' 65 26 ++ List.range' 97 26 ++ List.range' 48 10 ++
    -- :-&./&^%$#@!+=\[];,'"?` and a blank
    [58, 45, 38, 46, 47, 38, 94, 37, 36, 35, 64, 33, 43, 61, 92, 91, 93, 59, 44, 39, 34, 63, 96, 32])

/-- The `word`s of the default characters. -/
def defaults : List Nat := defaultWords.map (· ||| 1 <<< 32)

abbrev GlyphMap := OrderedMap ℕ StbWordMeta

/-- What is drawn on a bitmap: glyphs by their keys and words, with their offsets. -/
abbrev Drawing := List ((List Char × ℕ) × ℤ)

structure Backend where
  glyph_sets : OrderedMap (List Char) GlyphMap
  build_use_textes : OrderedMap (List Char) (List ℕ)
  text_bitmap_width : ℤ
  text_bitmap_height : ℤ
  /-- The size of `text_bitmap`, and what is drawn on it. -/
  bitmap_size : ℤ
  bitmap : Drawing
  /-- The names with a font in `font_map`. -/
  font_map : List (List Char)
  has_new_text_need_build_bitmap : Bool

/-- The constructor. -/
def initial : Backend where
  glyph_sets := .empty
  build_use_textes := .empty
  text_bitmap_width := 0
  text_bitmap_height := 0
  bitmap_size := 0
  bitmap := []
  font_map := []
  has_new_text_need_build_bitmap := false

/-- `font_size` is an `unsigned`, which becomes an `int`. -/
def keyOf (font : FontName) (font_size : BitVec 32) : List Char :=
  concatFontNameSize font font_size.toInt

namespace Backend
variable (lib : FontLibrary) (loads : List Char → Bool) (s : Backend)

/-- `add_build_text` -/
def addBuildText (words : List ℕ) (font_size : BitVec 32) (font : FontName) : Backend :=
  let font_and_size := keyOf font font_size
  let glyph_map := (s.glyph_sets.find? font_and_size).getD .empty
  let new := words.filter fun word => (glyph_map.find? word).isNone
  { s with
    build_use_textes := s.build_use_textes.alter font_and_size (·.getD [] ++ new)
    glyph_sets := s.glyph_sets.alter font_and_size (·.getD .empty)
    has_new_text_need_build_bitmap := s.has_new_text_need_build_bitmap || !new.isEmpty }

/-- `query`, and `query` of what it returns. -/
def query (font : FontName) (font_size : BitVec 32) (word : ℕ) : Option StbWordMeta :=
  (s.glyph_sets.find? (keyOf font font_size)).bind (·.find? word)

end Backend

/-- `get_font`: the fonts that there are after it, unless there is none of the name. -/
def getFont (loads : List Char → Bool) (font_map : List (List Char)) (font_name : List Char) :
    Option (List (List Char)) :=
  if font_name ∈ font_map then some font_map
  else if loads font_name then some (font_name :: font_map)
  else none

/-- There is a font for a key, or `get_font` makes one. -/
def available (loads : List Char → Bool) (font_map : List (List Char)) (key : List Char) : Bool :=
  (splitKey key).any fun k => k.1 ∈ font_map || loads k.1

/-- The loops over words: those that there are no glyphs for. -/
def insertWords (lib : FontLibrary) (font_name : List Char) (font_size : ℤ) (words : List ℕ)
    (glyph_map : GlyphMap) : GlyphMap :=
  words.foldl (fun glyph_map word =>
    -- a code point is an `int`
    glyph_map.insertNew word ⟨lib font_name font_size (IntType.int32.conv word), 0⟩) glyph_map

/-- The sets of glyphs and the fonts, while words are collected. -/
structure Collected where
  glyph_sets : OrderedMap (List Char) GlyphMap
  font_map : List (List Char)

/-- A turn of the first loop of `build_bitmap`. -/
def collect (lib : FontLibrary) (loads : List Char → Bool) (s : Collected)
    (textes : List Char × List ℕ) : Option Collected := do
  let (font_name, font_size) ← splitKey textes.1
  let glyph_sets := s.glyph_sets.alter textes.1 (·.getD .empty)
  match getFont loads s.font_map font_name with
  | none => some { s with glyph_sets := glyph_sets }
  | some font_map =>
    some
      { glyph_sets := glyph_sets.alter textes.1 fun glyph_map =>
          insertWords lib font_name font_size defaults
            (insertWords lib font_name font_size textes.2 (glyph_map.getD .empty))
        font_map := font_map }

/-- The glyphs of all sets with their keys and words, in the order of the loops. -/
def glyphs (glyph_sets : OrderedMap (List Char) GlyphMap) : List ((List Char × ℕ) × StbWordMeta) :=
  glyph_sets.entries.flatMap fun map => map.2.entries.map fun item => ((map.1, item.1), item.2)

/-- `total_glyph_width` and `max_glyph_height` -/
def measure (glyph_sets : OrderedMap (List Char) GlyphMap) : Option (ℤ × ℤ) :=
  (glyphs glyph_sets).foldlM (fun acc glyph => do
    some (← IntType.int32.arith (acc.1 + glyph.2.width), max acc.2 glyph.2.height)) (0, 0)

/-- What goes along while glyphs are drawn. -/
structure Pen where
  offset_x : ℤ
  bitmap : Drawing
  font_map : List (List Char)

/-- A turn of the inner of the last two loops. -/
def drawGlyph (key : List Char) (pen : Pen) (word : ℕ) (glyph : StbWordMeta) : StbWordMeta × Pen :=
  if glyph.Drawn then
    ({ glyph with offset_x := pen.offset_x },
      { pen with
        bitmap := ((key, word), pen.offset_x) :: pen.bitmap
        offset_x := pen.offset_x + glyph.width })
  else (glyph, pen)

/-- A turn of the outer one. A key that does not split is not there (`collect`). -/
def drawSet (loads : List Char → Bool) (pen : Pen) (key : List Char) (map : GlyphMap) :
    GlyphMap × Pen :=
  match (splitKey key).bind fun k => getFont loads pen.font_map k.1 with
  | none => (map, pen)
  | some font_map => map.traverse (drawGlyph key) { pen with font_map := font_map }

namespace Backend
variable (lib : FontLibrary) (loads : List Char → Bool) (s : Backend)

/-- `build_bitmap`, while fonts of some names can be created. -/
def buildBitmap : Option Backend :=
  if !s.has_new_text_need_build_bitmap then
    some { s with has_new_text_need_build_bitmap := false, build_use_textes := .empty }
  else do
    let c ← s.build_use_textes.entries.foldlM (collect lib loads) ⟨s.glyph_sets, s.font_map⟩
    let (total_glyph_width, max_glyph_height) ← measure c.glyph_sets
    let size ← IntType.int32.arith (total_glyph_width * max_glyph_height)
    let (glyph_sets, pen) := c.glyph_sets.traverse (drawSet loads) ⟨0, [], c.font_map⟩
    some
      { glyph_sets
        build_use_textes := .empty
        text_bitmap_width := total_glyph_width
        text_bitmap_height := max_glyph_height
        bitmap_size := size
        bitmap := pen.bitmap
        font_map := pen.font_map
        has_new_text_need_build_bitmap := false }

end Backend

/-- A call. -/
inductive Call where
  | addBuildText (words : List ℕ) (font_size : BitVec 32) (font : FontName)
  | buildBitmap (loads : List Char → Bool)

/-- What a call leaves. -/
def step (lib : FontLibrary) (s : Backend) : Call → Option Backend
  | .addBuildText words font_size font => some (s.addBuildText words font_size font)
  | .buildBitmap loads => s.buildBitmap lib loads

end Cvcuda.StbTrueTypeBackend
