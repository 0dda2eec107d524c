import Storyboard.Number.Binary64

/-!
# How numbers are written

Among the decimals that round to a given positive number, the shortest are the ones with the
fewest significant digits, and of those the nearest is chosen. `Shortest.decimal` finds it on
exact integers: for one digit, two digits and so on up to seventeen it tests the number's two
neighbours on that decimal grid, and the first grid with a neighbour that reads back wins.

Two notations share the shortest digits. In running text a number is positional, without an
exponent and without a fraction that says nothing; of two equally near digit rows the upper one is
taken (`Binary64.text`). In a document a number keeps a point or an exponent, so that it is never
mistaken for an integer; it is positional while its value `0.d₁d₂… · 10 ^ place` has a place from
-4 to 16, and of two equally near digit rows the even one is taken (`Binary64.literal?`).
Infinities and "not a number" have a text but no literal.
-/

set_option autoImplicit false

namespace Storyboard

/-! ## The shortest decimal that reads back

Everything is measured in quarters of a unit, so that the ends of the interval that rounds to the
number, which lie half a step away (a quarter of a step below a power of two), are whole. The ends
belong to the interval when the significand is even, as a half goes to the even neighbour. -/

/-- Which of two equally near decimals is taken: the upper one, or the one with an even last
digit. -/
inductive DecimalTie where
  | upward
  | toEven
deriving DecidableEq, Repr

/-- A positive decimal `digits · 10 ^ exponent`. -/
structure Decimal where
  digits : Nat
  exponent : Int
deriving DecidableEq, Repr

namespace Shortest

/-- The number of quarters of a unit in the number one. -/
def quartersPerOne : Nat :=
  4 * unitsPerOne

/-- The step between a count of units and the next representable count above it. -/
def stepAbove (units : Nat) : Nat :=
  2 ^ spareBits units

/-- Half of the step between a count of units and the next representable count below it, in
quarters of a unit; below a power of two the step is half as long. -/
def halfStepBelow (units : Nat) : Nat :=
  if units = 2 ^ Nat.log2 units ∧ 0 < spareBits units then stepAbove units else 2 * stepAbove units

/-- `decimal < bound`, `decimal = bound` or `decimal > bound`, for a bound in quarters of a
unit. -/
def compareDecimal (decimal : Decimal) (quarters : Nat) : Ordering :=
  if decimal.exponent < 0 then
    compare (decimal.digits * quartersPerOne) (quarters * 10 ^ decimal.exponent.natAbs)
  else compare (decimal.digits * 10 ^ decimal.exponent.natAbs * quartersPerOne) quarters

/-- A decimal rounds to the number with this count of units. -/
def readsBack (units : Nat) (decimal : Decimal) : Bool :=
  let low := 4 * units - halfStepBelow units
  let high := 4 * units + 2 * stepAbove units
  let even := units / stepAbove units % 2 == 0
  let aboveLow := compareDecimal decimal low
  let belowHigh := compareDecimal decimal high
  (aboveLow == .gt || (even && aboveLow == .eq)) && (belowHigh == .lt || (even && belowHigh == .eq))

/-- The number of decimal digits of a natural number. -/
def decimalLength (number : Nat) : Nat :=
  (Nat.toDigits 10 number).length

/-- The place of the first digit: a number is `0.d₁d₂… · 10 ^ place` with `d₁` not zero. -/
def leadingPlace (units : Nat) : Int :=
  if unitsPerOne ≤ units then decimalLength (units / unitsPerOne)
  else 1 - (decimalLength (unitsPerOne / units) : Int)

/-- The greatest multiple of `10 ^ exponent` that is not above the number. -/
def floorOnGrid (units : Nat) (exponent : Int) : Decimal :=
  if exponent < 0 then ⟨units * 10 ^ exponent.natAbs / unitsPerOne, exponent⟩
  else ⟨units / (unitsPerOne * 10 ^ exponent.natAbs), exponent⟩

/-- The next decimal on the same grid. -/
def Decimal.next (decimal : Decimal) : Decimal :=
  ⟨decimal.digits + 1, decimal.exponent⟩

/-- Of a number's two neighbours on a grid, the nearer one. -/
def nearer (tie : DecimalTie) (units : Nat) (below : Decimal) : Decimal :=
  -- The middle of the grid cell, one digit finer than the grid.
  let middle : Decimal := ⟨10 * below.digits + 5, below.exponent - 1⟩
  match compareDecimal middle (4 * units), tie with
  | .gt, _ => below
  | .lt, _ => Decimal.next below
  | .eq, .upward => Decimal.next below
  | .eq, .toEven => if below.digits % 2 = 0 then below else Decimal.next below

/-- The neighbour on the grid of so many digits that reads back, the nearer one if both do. -/
def onGrid? (tie : DecimalTie) (units count : Nat) : Option Decimal :=
  let below := floorOnGrid units (leadingPlace units - count)
  let above := Decimal.next below
  match readsBack units below, readsBack units above with
  | true, true => some (nearer tie units below)
  | true, false => some below
  | false, true => some above
  | false, false => none

/-- Drops the last digit of a decimal that has become a power of ten with one digit too many. -/
def normalize (decimal : Decimal) : Decimal :=
  if decimal.digits = 10 then ⟨1, decimal.exponent + 1⟩ else decimal

/-- The shortest decimal that reads back as the number with this positive count of units. -/
def decimal (tie : DecimalTie) (units : Nat) : Decimal :=
  let shortest := (List.range 17).findSome? fun count => onGrid? tie units (count + 1)
  normalize (shortest.getD (nearer tie units (floorOnGrid units (leadingPlace units - 17))))

end Shortest

/-! ## Notations -/

/-- The digits of a decimal, most significant first. -/
def Decimal.digitRow (decimal : Decimal) : List Digit :=
  (Nat.toDigits 10 decimal.digits).filterMap Digit.ofChar?

/-- Where the point stands: the decimal is `0.d₁d₂… · 10 ^ place`. -/
def Decimal.place (decimal : Decimal) : Int :=
  decimal.digitRow.length + decimal.exponent

/-- A decimal without an exponent: its whole part and the digits after the point. -/
def Decimal.positional (decimal : Decimal) : Nat × List Digit :=
  if 0 ≤ decimal.exponent then (decimal.digits * 10 ^ decimal.exponent.natAbs, [])
  else if decimal.place ≤ 0 then
    (0, List.replicate decimal.place.natAbs Digit.zero ++ decimal.digitRow)
  else
    (decimal.digits / 10 ^ decimal.exponent.natAbs, decimal.digitRow.drop decimal.place.natAbs)

namespace Binary64

/-- The places at which a document writes a number without an exponent. -/
def positionalPlace (place : Int) : Bool :=
  -4 ≤ place && place ≤ 16

/-- The literal of a positive decimal. -/
def literalOf (negative : Bool) (decimal : Decimal) : Literal :=
  if positionalPlace decimal.place then
    let (whole, fraction) := decimal.positional
    ⟨negative, whole, if fraction.isEmpty then [Digit.zero] else fraction, none⟩
  else
    match decimal.digitRow with
    | [] => ⟨negative, 0, [Digit.zero], none⟩
    | first :: rest => ⟨negative, first.val, rest, some (decimal.place - 1)⟩

/-- How a document writes a number; nothing for the values that are not finite. -/
def literal? : Binary64 → Option Literal
  | .nan => none
  | .infinite _ => none
  | .finite negative units _ =>
    if units = 0 then some ⟨negative, 0, [Digit.zero], none⟩
    else some (literalOf negative (Shortest.decimal .toEven units))

/-- How running text writes a positive decimal. -/
def positionalText (decimal : Decimal) : List Char :=
  let (whole, fraction) := decimal.positional
  Nat.toDigits 10 whole ++ Literal.fractionText fraction

/-- How running text writes a number. -/
def text : Binary64 → String
  | .nan => "NaN"
  | .infinite negative => if negative then "-inf" else "inf"
  | .finite negative units _ =>
    let magnitude :=
      if units = 0 then ['0'] else positionalText (Shortest.decimal .upward units)
    String.ofList (if negative then '-' :: magnitude else magnitude)

end Binary64

end Storyboard
