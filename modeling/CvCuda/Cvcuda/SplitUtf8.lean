import CvCuda.Lib.Unicode

/-! # Text decoding

`StbTrueTypeBackend::split_utf8` of `priv_musa/legacy/textbackend/stb.cpp`, on the bytes of a string
up to and with its terminator. To read a byte after these is an error, `none`.
-/

namespace Cvcuda.SplitUtf8

/-- The bytes of a string before its terminator. -/
abbrev CString := { text : List UInt8 // 0 ∉ text }

/-- `str[i]`, as an `int`. -/
def byte (str : List UInt8) (i : Nat) : Option Nat := str[i]?.map UInt8.toNat

/-- What a turn of the loop comes to: `return {}`, or units for the output and where `str` is. -/
inductive Turn where
  | reject
  | next (units : List Nat) (str : List UInt8)
  deriving DecidableEq

/-- A turn of the loop, on a string that does not begin with the terminator. -/
def turn (str : List UInt8) : Option Turn := do
  let b0 ← byte str 0
  if b0 &&& 0x80 = 0 then some (.next [b0] (str.drop 1))
  else if b0 &&& 0xe0 = 0xc0 then
    if b0 < 0xc2 then some .reject
    else do
      let b1 ← byte str 1
      if b1 &&& 0xc0 ≠ 0x80 then some .reject
      else some (.next [(b0 &&& 0x1f) <<< 6 + (b1 &&& 0x3f)] (str.drop 2))
  else if b0 &&& 0xf0 = 0xe0 then do
    let b1 ← byte str 1
    if b0 = 0xe0 ∧ (b1 < 0xa0 ∨ 0xbf < b1) then some .reject
    else if b0 = 0xed ∧ 0x9f < b1 then some .reject
    else if b1 &&& 0xc0 ≠ 0x80 then some .reject
    else do
      let b2 ← byte str 2
      if b2 &&& 0xc0 ≠ 0x80 then some .reject
      else some (.next [(b0 &&& 0x0f) <<< 12 + (b1 &&& 0x3f) <<< 6 + (b2 &&& 0x3f)] (str.drop 3))
  else if b0 &&& 0xf8 = 0xf0 then
    if 0xf4 < b0 then some .reject
    else do
      let b1 ← byte str 1
      if b0 = 0xf0 ∧ (b1 < 0x90 ∨ 0xbf < b1) then some .reject
      else if b0 = 0xf4 ∧ 0x8f < b1 then some .reject
      else if b1 &&& 0xc0 ≠ 0x80 then some .reject
      else do
        let b2 ← byte str 2
        if b2 &&& 0xc0 ≠ 0x80 then some .reject
        else do
          let b3 ← byte str 3
          if b3 &&& 0xc0 ≠ 0x80 then some .reject
          else
            let c := (b0 &&& 0x07) <<< 18 + (b1 &&& 0x3f) <<< 12 + (b2 &&& 0x3f) <<< 6 + (b3 &&& 0x3f)
            if c &&& 0xFFFFF800 = 0xD800 then some .reject
            else if 0x10000 ≤ c then
              some (.next [0xD800 ||| (0x3ff &&& ((c - 0x10000) >>> 10)),
                0xDC00 ||| (0x3ff &&& (c - 0x10000))] (str.drop 4))
            else some (.next [] (str.drop 4))
  else some .reject

/-- `while (*str)` -/
def loop : (fuel : Nat) → (str : List UInt8) → (output : List Nat) → Option (List Nat)
  | 0, _, _ => none
  | fuel + 1, str, output => do
    let b ← byte str 0
    if b = 0 then some output
    else
      match ← turn str with
      | .reject => some []
      | .next units str => loop fuel str (output ++ units)

/-- `split_utf8`. A turn moves on by a byte at least. -/
def splitUtf8 (text : CString) : Option (List Nat) := loop (text.1.length + 1) (text.1 ++ [0]) []

end Cvcuda.SplitUtf8
