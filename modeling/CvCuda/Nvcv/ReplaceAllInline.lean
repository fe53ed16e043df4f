import CvCuda.Lib.Replace

/-! # Replacing in a buffer

`ReplaceAllInline` of `nvcv/util_musa/String.cpp`. A pointer into the buffer is an index; an access
outside the buffer, and an assertion that fails, have no outcome.
-/

namespace Nvcv

open Replace

/-- A string, without its NUL. -/
abbrev CString := { s : List UInt8 // 0 ∉ s }

/-- `strlen` of what starts at an address. -/
def strlen (mem : List UInt8) : Option Nat := mem.idxOf? 0

/-- `strstr` from an index on. -/
def strstr (buf : List UInt8) (start : Nat) (what : CString) : Option (Option Nat) := do
  let len ← strlen (buf.drop start)
  return (find what.1 ((buf.drop start).take len)).map (start + ·)

/-- What `memmove` reads. -/
def readBytes (mem : List UInt8) (src size : Nat) : Option (List UInt8) :=
  if src + size ≤ mem.length then some ((mem.drop src).take size) else none

/-- What `memmove` writes. -/
def writeBytes (buf : List UInt8) (dst : Nat) (bytes : List UInt8) : Option (List UInt8) :=
  if dst + bytes.length ≤ buf.length then
    some (buf.take dst ++ bytes ++ buf.drop (dst + bytes.length))
  else none

/-- The variables of the loop. A null `writePos` is the start of the buffer: both are below what
they are compared with. -/
structure ReplaceState where
  buf : List UInt8
  searchStart : Nat
  replaceSize : Nat
  writePos : Nat

/-- One round of the loop, at the place that was found. -/
def ReplaceState.replaceAt (endPos : Nat) (what replace : CString) (st : ReplaceState)
    (foundPos : Nat) : Option ReplaceState := do
  -- with nothing to write, `replaceSize - 1` wraps to the place before
  let (buf, writePos, sizeOfRest) ←
    if (foundPos : Int) + (st.replaceSize - 1) < endPos then do
      let restOfString := foundPos + what.1.length
      let writePos := foundPos + st.replaceSize
      let len ← strlen (st.buf.drop restOfString)
      let sizeOfRest := if writePos + len > endPos then endPos - writePos else len
      guard (writePos ≤ endPos)
      guard ((writePos : Int) + (sizeOfRest - 1) ≤ endPos)
      let rest ← readBytes st.buf restOfString sizeOfRest
      let buf ← writeBytes st.buf writePos rest
      some (buf, writePos, sizeOfRest)
    else some (st.buf, st.writePos, 0)
  let replaceSize := if foundPos + st.replaceSize > endPos then endPos - foundPos else st.replaceSize
  guard (foundPos ≤ endPos)
  guard ((foundPos : Int) + (replaceSize - 1) ≤ endPos)
  let token ← readBytes replace.1 0 replaceSize
  let buf ← writeBytes buf foundPos token
  let endOfNewString := max (foundPos + replaceSize) (writePos + sizeOfRest)
  let buf ← writeBytes buf endOfNewString [0]
  return { buf, searchStart := st.searchStart + st.replaceSize, replaceSize, writePos }

/-- The loop, for a number of rounds. -/
def replaceLoop (strSize endPos : Nat) (what replace : CString) :
    Nat → ReplaceState → Option (List UInt8)
  | 0, _ => none
  | fuel + 1, st =>
    if st.searchStart < strSize then do
      match ← strstr st.buf st.searchStart what with
      | none => return st.buf
      | some foundPos =>
        replaceLoop strSize endPos what replace fuel (← st.replaceAt endPos what replace foundPos)
    else return st.buf

/-- `ReplaceAllInline`: what the buffer holds after it. -/
def replaceAllInline (fuel : Nat) (strBuffer : Option (List UInt8)) (bufferSize : Int32)
    (what replace : Option CString) : Option (Option (List UInt8)) :=
  match strBuffer, what, replace with
  | some buf, some what, some replace =>
    if bufferSize ≤ 0 then some (some buf)
    else do
      let strSize ← strlen buf
      let buf ← replaceLoop strSize (bufferSize.toInt.toNat - 1) what replace fuel
        { buf, searchStart := 0, replaceSize := replace.1.length, writePos := 0 }
      return some buf
  | buf, _, _ => some buf

end Nvcv
