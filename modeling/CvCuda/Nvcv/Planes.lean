import CvCuda.Lib.Outcome
import CvCuda.Nvcv.Image

/-! # The planes of an image format

`planeSwizzle`, `planeFormat` and `FromPlanes` of `nvcv/priv_musa/ImageFormat.cpp`, and
`MakeNVCVSwizzle` and `MergePlaneSwizzles` of `DataLayout.cpp`.

* The getters of a format return values; `ofValue` gives the enumerator of one. A call that hands
  a constructor a value without enumerator has no outcome here.
* A failed assertion and an overrun array have no outcome either.
* What `operator<<` prints for a color spec is an argument, as it is of the constructors.
-/

namespace Nvcv

open Bitfield Outcome

/-! ## Enumerators of values -/

/-- The enumerator that has a value. -/
def enumeratorOf {α : Type} (all : List α) (value : α → BitVec 64) (v : BitVec 64) : Option α :=
  all.find? fun x => value x = v

def Packing.ofValue : BitVec 64 → Option Packing :=
  enumeratorOf ((List.range 63).map Packing.ofNat) Packing.value

def Swizzle.ofValue : BitVec 64 → Option Swizzle :=
  enumeratorOf ((List.range 57).map Swizzle.ofNat) Swizzle.value

def MemLayout.ofValue : BitVec 64 → Option MemLayout :=
  enumeratorOf ((List.range 7).map MemLayout.ofNat) MemLayout.value

def AlphaType.ofValue : BitVec 64 → Option AlphaType :=
  enumeratorOf ((List.range 2).map AlphaType.ofNat) AlphaType.value

/-- The data kinds are told apart by the three bits a format keeps of them: these are all that a
constructor uses. -/
def DataKind.ofValue (v : BitVec 64) : Option DataKind :=
  enumeratorOf ((List.range 5).map DataKind.ofNat) (get ·.value 0 3) (get v 0 3)

def ExtraChannel.ofValue : BitVec 64 → Option ExtraChannel :=
  enumeratorOf ((List.range 3).map ExtraChannel.ofNat) ExtraChannel.value

def ChromaSubsampling.ofValue : BitVec 64 → Option ChromaSubsampling :=
  enumeratorOf ((List.range 8).map ChromaSubsampling.ofNat) ChromaSubsampling.value

def RawPattern.ofValue : BitVec 64 → Option RawPattern :=
  enumeratorOf ((List.range 13).map RawPattern.ofNat) RawPattern.value

def ColorModel.ofValue (v : Nat) : Option ColorModel :=
  ((List.range 8).map ColorModel.ofNat).find? fun m => m.value = v

/-! ## Swizzles -/

namespace Channel

/-- X, Y, Z and W count from 0. -/
def color? : Channel → Option Nat
  | .X => some 0
  | .Y => some 1
  | .Z => some 2
  | .W => some 3
  | .zero | .one => none

/-- `(NVCVChannel)(NVCV_CHANNEL_X + i)`. -/
def ofColor (i : Nat) : Channel := .ofNat (i + 1)

end Channel

/-- `MakeNVCVSwizzle`. -/
def makeSwizzle (channels : List Channel) : Swizzle :=
  (((List.range 56).map Swizzle.ofNat).find? (·.getChannels = channels)).getD .unsupported

namespace Swizzle

/-- `GetSwizzleChannel`; `NVCV_SWIZZLE_UNSUPPORTED` has no channels in the enumeration. -/
def getSwizzleChannel (swizzle : Swizzle) (idx : Nat) : Option Channel := swizzle.getChannels[idx]?

/-- The largest of X, Y, Z and W that a swizzle has, as a number of colors. -/
def maxColor (swizzle : Swizzle) : Nat :=
  (swizzle.getChannels.filterMap Channel.color?).foldl (fun m i => max m (i + 1)) 0

/-- The loop of `MergePlaneSwizzles` that fills `rev`. -/
def reverse (swizzle : Swizzle) : (j : Nat) → List Channel → List Channel → Call (List Channel)
  | _, [], rev => return rev
  | j, ch :: chs, rev => do
    if ch = .one then
      let at1 := swizzle.maxColor + 1
      refuse (5 ≤ at1) (.nvcv .invalidArgument ("When swizzle has W channel, it must not have " ++
        "channel with maximum value (channel '1')"))
      reverse swizzle (j + 1) chs (rev.set at1 .one)
    else reverse swizzle (j + 1) chs (rev.set ch.ctorIdx (.ofColor j))

/-- The loop that writes the channels of a plane to `swResult`. -/
def place (nchannels curch : Nat) (rev : List Channel) : (left j : Nat) → List Channel →
    Call (List Channel)
  | 0, _, swResult => return swResult
  | left + 1, j, swResult =>
    if curch + j < 4 then
      let ch := rev.getD (j + 1) .zero
      place nchannels curch rev left (j + 1)
        (swResult.set (if ch = .one ∧ j = nchannels - 1 then 3 else curch + j) ch)
    else (none : Option (List Channel))

/-- The loop of `MergePlaneSwizzles` over the planes. -/
def mergeLoop : List Swizzle → (curch : Nat) → List Channel → Call (List Channel)
  | [], _, swResult => return swResult
  | sw :: sws, curch, swResult => do
    if sw = .S0000 then return swResult
    if sw = .unsupported then (none : Option Unit)
    let rev ← reverse sw 0 sw.getChannels (.replicate 6 .zero)
    let swResult ← place sw.getNumChannels curch rev sw.getNumChannels 0 swResult
    mergeLoop sws (curch + sw.getNumChannels) swResult

/-- `MergePlaneSwizzles`. -/
def mergePlaneSwizzles (sw0 sw1 sw2 sw3 : Swizzle) : Call Swizzle := do
  if sw1 = .S0000 then
    refuse (¬(sw2 = .S0000 ∧ sw3 = .S0000)) (.nvcv .invalidArgument
      ("When specifying only swizzle for plane #0, swizzle for remaining planes " ++
        "must be 0000"))
    return sw0
  else
    let swResult ← mergeLoop [sw0, sw1, sw2, sw3] 0 (.replicate 4 .zero)
    if [sw0, sw1, sw2, sw3].any fun sw => sw.getSwizzleChannel 3 = some .one then
      if swResult[3]? = some .zero then return makeSwizzle (swResult.set 3 .one)
      else (none : Option Swizzle)
    else return makeSwizzle swResult

/-- The loop of `planeSwizzle`, at channel `i` of those left: its bound grows with each 0. -/
def planeLoop (ch : Nat) : List Channel → (i bound : Nat) → (plsw : List Channel) →
    (empty : Bool) → Option (List Channel × Bool)
  | [], i, bound, plsw, empty => if i < bound then none else some (plsw, empty)
  | c :: cs, i, bound, plsw, empty =>
    if i < bound then
      match c with
      | .zero => planeLoop ch cs (i + 1) (bound + 1) plsw empty
      | .one => planeLoop ch cs (i + 1) bound (plsw.set i .one) false
      | c => planeLoop ch cs (i + 1) bound (plsw.set (c.ctorIdx - 1) (.ofColor (i - ch))) false
    else some (plsw, empty)

/-- The end of `planeSwizzle`, for the plane of `nch` channels after the first `ch`. -/
def ofPlane (tch : List Channel) (ch nch : Nat) : Call Swizzle := do
  let r ← planeLoop ch (tch.drop ch) ch (ch + nch) (.replicate 4 .zero) true
  if r.2 then return makeSwizzle r.1
  else
    refuse ((List.range 4).any fun i => tch[i]? = some .one ∧ r.1[i]? ≠ some .zero)
      (.nvcv .invalidImageFormat ("Plane swizzle is inconsistent, if using '1' channel, " ++
        "it must be set in all planes' swizzles,"))
    return makeSwizzle ((List.range 4).map fun i =>
      if tch[i]? = some .one then .one else r.1.getD i .zero)

end Swizzle

namespace ImageFormat

/-! ## The planes of a format -/

def numChannels (f : ImageFormat) : Nat :=
  match Swizzle.ofValue f.swizzle with
  | some swizzle => swizzle.getNumChannels
  | none => 0

def colorFormat (f : ImageFormat) : Option ColorFormat := do
  let model ← ColorModel.ofValue f.colorModel
  match f.rawPattern with
  | some raw => return { model, cspec := .undefined, raw := ← RawPattern.ofValue raw }
  | none => return { model, cspec := f.colorSpec, raw := .bayerRGGB }

def planeSwizzle (f : ImageFormat) (plane : Nat) : Call Swizzle := do
  if f.numPlanes = 1 then
    if plane = 0 then Swizzle.ofValue f.swizzle else return .S0000
  else
    let ch := ((List.range plane).map f.planeNumChannels).sum
    let swizzle : Swizzle ← Swizzle.ofValue f.swizzle
    Swizzle.ofPlane swizzle.getChannels ch (f.planeNumChannels plane)

/-- The extra channels as the constructors take them. -/
def ExtraChannelFields.info? (e : ExtraChannelFields) : Option ExtraChannelInfo := do
  return {
    numChannels := e.numChannels
    bitsPerPixel := e.bitsPerPixel
    datakind := ← DataKind.ofValue e.datakind
    channelType := ← ExtraChannel.ofValue e.channelType }

def planeFormat (print : ColorSpec → String) (f : ImageFormat) (plane : Nat) :
    Call ImageFormat := do
  if plane < f.numPlanes then
    let colorFormat : ColorFormat ← f.colorFormat
    let css : ChromaSubsampling ← ChromaSubsampling.ofValue f.css
    let memLayout : MemLayout ← MemLayout.ofValue f.memLayout
    let dataKind : DataKind ← DataKind.ofValue f.dataKind
    let swizzle ← f.planeSwizzle plane
    let packing0 : Packing ← Packing.ofValue (f.planePacking plane)
    let alphaType : AlphaType ← AlphaType.ofValue f.alphaType
    let exChannelInfo : ExtraChannelInfo ← f.extraChannelInfo.info?
    ExceptT.mk (some (ofColorFormat print colorFormat (if plane = 0 then .none else css)
      { memLayout, dataKind, swizzle, packing0, packing1 := .zero, packing2 := .zero
        packing3 := .zero, alphaType, exChannelInfo := some exChannelInfo }))
  else return 0#64

/-! ## A format from its planes -/

/-- `operator==` of `colorFormat()`. -/
def SameColorFormat (f g : ImageFormat) : Prop :=
  f.colorModel = g.colorModel ∧
    if f.colorModel = ColorModel.RAW.value then f.rawPattern = g.rawPattern
    else f.colorSpec = g.colorSpec

instance (f g : ImageFormat) : Decidable (SameColorFormat f g) :=
  inferInstanceAs (Decidable (_ ∧ ite _ _ _))

/-- `GetName` of a chroma subsampling. -/
def cssName (css : BitVec 64) : String :=
  match ChromaSubsampling.ofValue css with
  | some c => c.getName
  | none => s!"NVCVChromaSubsampling({css.toNat})"

/-- `GetName` of a data kind. -/
def dataKindName (dataKind : BitVec 64) : String :=
  if dataKind = DataKind.unsigned.value then "NVCV_DATA_KIND_UNSIGNED"
  else if dataKind = DataKind.signed.value then "NVCV_DATA_KIND_SIGNED"
  else if dataKind = DataKind.float.value then "NVCV_DATA_KIND_FLOAT"
  else if dataKind = DataKind.complex.value then "NVCV_DATA_KIND_COMPLEX"
  else s!"NVCVDataKind({dataKind.toNat})"

def invalidPlanes (msg : String) : Exception := .nvcv .invalidArgument msg

/-- The body of the loop of `FromPlanes`, at plane `i` with `rest` after it: the chroma subsampling
and the number of channels so far. -/
def checkPlane (first : ImageFormat) (i : Nat) (fmt : ImageFormat) (rest : List ImageFormat)
    (css : BitVec 64) (totChannels : Nat) : Call (BitVec 64 × Nat) := do
  refuse (fmt.numPlanes ≠ 1) (invalidPlanes s!"Format for plane #{i} must have only one plane")
  refuse (fmt.planePacking 0 = Packing.zero.value)
    (invalidPlanes s!"Format for plane #{i} must have a non-zero packing")
  refuse (fmt.alphaType ≠ first.alphaType)
    (.nvcv .invalidImageFormat "All image planes must have same alphaType")
  if [1, 2, 3].any fun plane => fmt.planePacking plane ≠ Packing.zero.value then
    (none : Option Unit)
  let totChannels := totChannels + fmt.numChannels
  refuse (4 < totChannels) (invalidPlanes
    ("Total number of channels comprised by all valid plane formats must be at most 4, not " ++
      s!"{totChannels + (rest.map numChannels).sum}"))
  if 1 ≤ i then
    refuse (fmt.rawPattern ≠ first.rawPattern)
      (invalidPlanes "Raw pattern of all plane formats must be the same")
    refuse (¬SameColorFormat fmt first)
      (invalidPlanes "Color format of all plane formats must be the same")
    refuse (fmt.memLayout ≠ first.memLayout) (invalidPlanes
      (s!"Memory layout of all plane formats must be the same, but plane #{i}" ++
        s!"'s is {memLayoutName first.memLayout}"))
    refuse (fmt.dataKind ≠ first.dataKind) (invalidPlanes
      (s!"Data type of all plane formats must be the same, but plane #{i}" ++
        s!"'s is {dataKindName first.dataKind}"))
  if css = ChromaSubsampling.none.value then return (fmt.css, totChannels)
  else
    refuse (css ≠ fmt.css) (invalidPlanes
      (s!"Only one chroma-subsampling type must be specified, but plane #{i}" ++
        s!"'s differ from {cssName css}"))
    return (css, totChannels)

/-- The loop of `FromPlanes`. -/
def checkPlanes (first : ImageFormat) : (i : Nat) → List ImageFormat → (css : BitVec 64) →
    (totChannels : Nat) → Call (BitVec 64 × Nat)
  | _, [], css, totChannels => return (css, totChannels)
  | i, fmt :: rest, css, totChannels => do
    let r ← checkPlane first i fmt rest css totChannels
    checkPlanes first (i + 1) rest r.1 r.2

/-- `swPlane[i]` of `FromPlanes`, which is 0000 where there is no plane. -/
def swPlane (fmtPlanes : List ImageFormat) (i : Nat) : Call Swizzle :=
  match fmtPlanes[i]? with
  | some fmt => Swizzle.ofValue fmt.swizzle
  | none => return .S0000

/-- `packPlane[i]` of `FromPlanes`. -/
def packPlane (fmtPlanes : List ImageFormat) (i : Nat) : Call Packing :=
  match fmtPlanes[i]? with
  | some fmt => Packing.ofValue (fmt.planePacking 0)
  | none => return .zero

/-- `FromPlanes`. -/
def fromPlanes (print : ColorSpec → String) (fmtPlanes : List ImageFormat) :
    Call ImageFormat := do
  match fmtPlanes with
  | [] => throw (invalidPlanes "At least one plane must be specified")
  | first :: _ =>
    let (cssValue, totChannels) ←
      checkPlanes first 0 fmtPlanes ChromaSubsampling.none.value 0
    refuse (totChannels = 0) (invalidPlanes "Total number of channels cannot be 0")
    let swizzle ← Swizzle.mergePlaneSwizzles (← swPlane fmtPlanes 0) (← swPlane fmtPlanes 1)
      (← swPlane fmtPlanes 2) (← swPlane fmtPlanes 3)
    let colorFormat : ColorFormat ← first.colorFormat
    let css : ChromaSubsampling ← ChromaSubsampling.ofValue cssValue
    let memLayout : MemLayout ← MemLayout.ofValue first.memLayout
    let dataKind : DataKind ← DataKind.ofValue first.dataKind
    let alphaType : AlphaType ← AlphaType.ofValue first.alphaType
    ExceptT.mk (some (ofColorFormat print colorFormat css
      { memLayout, dataKind, swizzle
        packing0 := ← packPlane fmtPlanes 0, packing1 := ← packPlane fmtPlanes 1
        packing2 := ← packPlane fmtPlanes 2, packing3 := ← packPlane fmtPlanes 3, alphaType }))

/-- The planes of a format, put together again. -/
def mergePlanes (print : ColorSpec → String) (f : ImageFormat) : Call ImageFormat := do
  fromPlanes print (← (List.range f.numPlanes).mapM (f.planeFormat print))

end ImageFormat

end Nvcv
