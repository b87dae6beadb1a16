import PackStream.Encoding.Encoder

/-!
# Encoding to byte strings
-/

set_option autoImplicit false

namespace PackStream

namespace Value

/-- Writes a value to a fresh sink that takes everything. -/
def encoded (options : Options) (v : Value) : EStateM.Result EncodeError Encoder Unit :=
  Encoder.encode v { sink := {}, options }

/-- The encoding of a value as a byte string. -/
def toBytes (options : Options) (v : Value) : Except EncodeError Bytes :=
  match v.encoded options with
  | .ok _ encoder => .ok encoder.sink.bytes.toList
  | .error error _ => .error error

end Value

end PackStream
