/-!
# Writing options

How the wider sizes are written, where a structure's signature stands, and how deep aggregates
may nest.
-/

set_option autoImplicit false

namespace PackStream

/-- How a size of the 16-bit or 32-bit class is written. -/
inductive LengthForm where
  /-- In two or four bytes, most significant first. -/
  | full
  /-- As its low byte alone, which loses sizes above 255. -/
  | lowByte
  deriving DecidableEq

/-- Where the signature of a structure stands. -/
inductive SignaturePlace where
  | afterHeader
  | beforeHeader
  deriving DecidableEq

/-- The options of an encoder. -/
structure Options where
  lengths : LengthForm := .full
  signature : SignaturePlace := .afterHeader
  /-- How deep lists, dictionaries and structures may nest, the outermost counting one. -/
  depthLimit : Option Nat := none
  deriving DecidableEq

namespace Options

/-- The standard format without a depth limit. -/
def standard : Options := {}

/-- The format of legacy peers: low-byte lengths and leading signatures. -/
def legacy : Options := { lengths := .lowByte, signature := .beforeHeader }

end Options

end PackStream
