import PackStream.Value.Basic

/-!
# Diagnostic events

What encoders and readers report beside their results.
-/

set_option autoImplicit false

namespace PackStream

/-- How much attention an event asks for. -/
inductive Level where
  | trace
  | debug
  | warn
  deriving DecidableEq

/-- The level's name in logs. -/
def Level.name : Level → String
  | .trace => "TRACE"
  | .debug => "DEBUG"
  | .warn => "WARN"

/-- A diagnostic event. -/
inductive Event where
  /-- Writing a value of a kind stopped for a reason after some bytes. -/
  | encodeAborted (kind : Kind) (reason : String) (emitted : Nat)
  /-- A size of a category was written as one byte. -/
  | lengthTruncated (category : String) (size : Nat) (written : UInt8)
  /-- A reserved marker was met. -/
  | reservedMarker (marker : UInt8)
  deriving DecidableEq

namespace Event

/-- The level an event is reported at. -/
def level : Event → Level
  | encodeAborted .. => .debug
  | lengthTruncated .. => .warn
  | reservedMarker .. => .trace

/-- The wording of an event. -/
def message : Event → String
  | encodeAborted .. => "PackStream encode aborted"
  | lengthTruncated .. => "legacy length encoding truncates size to one byte"
  | reservedMarker .. => "rejecting reserved PackStream marker"

end Event

end PackStream
