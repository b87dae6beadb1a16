import PackStream.Number.Binary64

/-!
# Shortest decimal text of a binary64 number

The text of a finite number has the fewest significant digits that read back as the same number.
The reals that round to a number form an interval around it; the coarsest decimal grid
(multiples of a power of ten) with a point in that interval gives the digits. A grid that has a
point in the interval has one next to the number itself, so two candidates a grid are enough; of
two hits the nearer is taken, and of two equally near ones the larger.

The notation is positional throughout, without exponent and without a point when the digits end
before it.
-/

set_option autoImplicit false

namespace PackStream

namespace Binary64

/-- The reals that read back as one positive finite number: those between `lower / scale` and
`upper / scale`, the ends included when `closed`, around the number `middle / scale`. -/
structure Neighbourhood where
  lower : Nat
  middle : Nat
  upper : Nat
  scale : Nat
  closed : Bool

/-- The neighbourhood of the absolute value of a nonzero finite number. The distance to the next
smaller number is halved where the exponent changes. -/
def neighbourhood (x : Binary64) : Neighbourhood :=
  let significand := if x.exponent = 0 then x.fraction else 1 <<< 52 + x.fraction
  -- The number is `significand * 2 ^ (power - 1074)`.
  let power := x.exponent - 1
  let below := if x.fraction = 0 ∧ 1 < x.exponent then 1 else 2
  let grown := 1 <<< power
  { lower := (4 * significand - below) * grown
    middle := 4 * significand * grown
    upper := (4 * significand + 2) * grown
    scale := 1 <<< 1076
    closed := significand % 2 == 0 }

/-- A decimal number `digits * 10 ^ exponent`. -/
structure Decimal where
  digits : Nat
  exponent : Int

namespace Neighbourhood

/-- The same reals measured in units of `10 ^ k`. -/
def inUnits (r : Neighbourhood) (k : Int) : Neighbourhood :=
  match k with
  | .ofNat up => { r with scale := r.scale * Nat.pow 10 up }
  | .negSucc down =>
    let factor := Nat.pow 10 (down + 1)
    { r with lower := r.lower * factor, middle := r.middle * factor, upper := r.upper * factor }

/-- Whether an integer lies in the neighbourhood. -/
def contains (r : Neighbourhood) (d : Nat) : Bool :=
  let point := d * r.scale
  if r.closed then r.lower ≤ point && point ≤ r.upper else r.lower < point && point < r.upper

/-- The integer nearest to the middle among its two neighbours in the neighbourhood, a tie going
up. -/
def nearest? (r : Neighbourhood) : Option Nat :=
  let down := r.middle / r.scale
  let up := down + 1
  match r.contains down, r.contains up with
  | true, true => some (if 2 * (r.middle % r.scale) < r.scale then down else up)
  | true, false => some down
  | false, true => some up
  | false, false => none

/-- Tries grids of `10 ^ k`, `10 ^ (k - 1)`, … until one has a point in the neighbourhood. -/
def coarsest (r : Neighbourhood) : (tries : Nat) → (k : Int) → Decimal
  | 0, k => ⟨(r.inUnits k).middle / (r.inUnits k).scale, k⟩
  | tries + 1, k =>
    match (r.inUnits k).nearest? with
    | some digits => ⟨digits, k⟩
    | none => coarsest r tries (k - 1)

end Neighbourhood

/-- Seventeen significant digits tell all numbers apart, and the first grid tried is at most three
places above the leading digit. -/
def gridTries : Nat := 24

/-- The shortest decimal that reads back as the absolute value of a nonzero finite number. -/
def shortest (x : Binary64) : Decimal :=
  let r := x.neighbourhood
  -- `log2` times a slight overestimate of `log 2 / log 10` bounds the decimal exponent.
  let log2 : Int := (r.middle.log2 : Int) - 1076
  r.coarsest gridTries (log2 * 30103 / 100000 + 2)

namespace Decimal

/-- Positional notation, without a point when the number is whole. -/
def positional (d : Decimal) : String :=
  let digits := Nat.toDigits 10 d.digits
  match d.exponent with
  | .ofNat zeros => String.ofList (digits ++ List.replicate zeros '0')
  | .negSucc down =>
    let places := down + 1
    let padded := List.replicate (places + 1 - digits.length) '0' ++ digits
    let whole := padded.take (padded.length - places)
    let decimals := (padded.drop (padded.length - places)).reverse.dropWhile (· == '0')
    if decimals.isEmpty then String.ofList whole
    else String.ofList (whole ++ '.' :: decimals.reverse)

end Decimal

/-- The text of a number: shortest positional digits, `inf`, `-inf`, and `NaN` for every NaN. -/
def text (x : Binary64) : String :=
  if x.isNaN then "NaN"
  else
    let magnitude :=
      if x.exponent = maxExponent then "inf"
      else if x.isZero then "0"
      else x.shortest.positional
    if x.negative then "-" ++ magnitude else magnitude

end Binary64

end PackStream
