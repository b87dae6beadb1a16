/-!
# Why writing stops
-/

set_option autoImplicit false

namespace PackStream

/-- What keeps data from being written. -/
inductive EncodeError where
  /-- The data has no counterpart among the values. -/
  | unsupportedType (what : String)
  /-- An integer above or below what a value holds. -/
  | integerOverflow (value max : Int)
  /-- A size that no header of its category can announce. -/
  | lengthOverflow (category : String) (size max : Nat)
  /-- The sink took less than it was given. -/
  | sinkFailure (reason : String)
  | nestingTooDeep (limit : Nat)
  /-- A cause with a wording of its own. -/
  | custom (text : String)
  deriving DecidableEq

namespace EncodeError

/-- The wording of an error. -/
def message : EncodeError → String
  | unsupportedType what => s!"unsupported type: {what}"
  | integerOverflow value max => s!"integer too big: {value}, max integer supported: {max}"
  | lengthOverflow category size max =>
    s!"{category} too long to write: {size} exceeds maximum of {max}"
  | sinkFailure reason => s!"sink write failed: {reason}"
  | nestingTooDeep limit => s!"nesting deeper than {limit} levels"
  | custom text => text

/-- Whether the sink, rather than the data, is the cause. -/
def isSinkFailure : EncodeError → Bool
  | sinkFailure _ => true
  | _ => false

end EncodeError

end PackStream
