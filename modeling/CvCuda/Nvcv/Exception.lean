/-! # Status codes and exceptions

`Status` is the `NVCVStatus` enumeration; `Exception` is what the modelled functions throw: an
`nvcv` exception with its status and message, or one of the standard exceptions the code throws
or lets through. A `Call` returns, throws, or has no outcome, where the language gives it no meaning.
-/

namespace Nvcv

/-- `NVCVStatus`, less `NVCV_SUCCESS`. -/
inductive Status where
  | notImplemented
  | invalidArgument
  | invalidImageFormat
  | invalidOperation
  | device
  | notReady
  | outOfMemory
  | internal
  | notCompatible
  | overflow
  | underflow
  deriving DecidableEq, Repr

/-- What a modelled function throws. -/
inductive Exception where
  | nvcv (code : Status) (msg : String)
  | logicError (msg : String)
  | badAlloc
  deriving DecidableEq, Repr

/-- A call. -/
abbrev Call (α : Type) := ExceptT Exception Option α

end Nvcv
