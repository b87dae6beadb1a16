import PackStream.Decoding.Reader

/-!
# Decoding byte strings
-/

set_option autoImplicit false

namespace PackStream

namespace Value

/-- Reads a byte string that holds one value and nothing else. -/
def decoded (bs : Bytes) : EStateM.Result Stop Cursor Value :=
  Reader.wholeValue { rest := bs }

/-- The value that a byte string is a form of. -/
def ofBytes (bs : Bytes) : Except Stop Value :=
  match decoded bs with
  | .ok v _ => .ok v
  | .error stop _ => .error stop

end Value

end PackStream
