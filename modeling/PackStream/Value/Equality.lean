import PackStream.Value.Basic

/-!
# Numeric equality of values

Values are compared shape by shape. Floats compare as numbers, so a value that holds a NaN
anywhere differs from itself, and values that differ only in the sign of a zero are equal.
-/

set_option autoImplicit false

namespace PackStream

mutual

/-- Equality of values with floats compared as numbers. -/
def Value.numericEq : Value → Value → Bool
  | .null, .null => true
  | .boolean a, .boolean b => a == b
  | .integer a, .integer b => a == b
  | .float a, .float b => a.numericEq b
  | .string a, .string b => a == b
  | .list as, .list bs => numericEqItems as bs
  | .dict as, .dict bs => numericEqEntries as bs
  | .struct s as, .struct t bs => s == t && numericEqItems as bs
  | _, _ => false

/-- Item by item; lists of different lengths differ. -/
def Value.numericEqItems : List Value → List Value → Bool
  | [], [] => true
  | a :: as, b :: bs => a.numericEq b && numericEqItems as bs
  | _, _ => false

/-- Entry by entry, keys and values. -/
def Value.numericEqEntries : List (String × Value) → List (String × Value) → Bool
  | [], [] => true
  | (j, a) :: as, (k, b) :: bs => j == k && a.numericEq b && numericEqEntries as bs
  | _, _ => false

end

end PackStream
