import PackStream.Text.Utf8
import PackStream.Text.Hex
import PackStream.Value.Basic

/-!
# Why reading stops
-/

set_option autoImplicit false

namespace PackStream

/-- What is wrong with bytes that are no value. -/
inductive DecodeError where
  /-- Fewer bytes are left than the next part needs. -/
  | unexpectedEof (needed remaining : Nat)
  | unknownMarker (marker : UInt8)
  | invalidUtf8 (fault : Utf8.Fault)
  | nonStringKey (kind : Kind)
  | duplicateKey (key : String)
  /-- Bytes are left after the one value asked for. -/
  | trailingBytes (count : Nat)
  deriving DecidableEq

/-- The wording of an error. -/
def DecodeError.message : DecodeError → String
  | unexpectedEof needed remaining => s!"need {needed} bytes but only {remaining} remaining"
  | unknownMarker marker => s!"unknown PackStream marker: 0x{hexByte marker}"
  | invalidUtf8 fault => s!"invalid UTF-8 string: {fault.message}"
  | nonStringKey kind => s!"dict key must be a string, got: {kind.name}"
  | duplicateKey key => s!"duplicate dict key: \"{key}\""
  | trailingBytes count => s!"{count} trailing bytes after value"

end PackStream
