/-!
# Hexadecimal bytes
-/

set_option autoImplicit false

namespace PackStream

/-- The two upper-case hexadecimal digits of a byte. -/
def hexByte (b : UInt8) : String :=
  let digit (n : Nat) : Char := (Nat.digitChar n).toUpper
  String.ofList [digit (b.toNat / 16), digit (b.toNat % 16)]

end PackStream
