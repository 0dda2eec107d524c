import Storyboard.Number.Notation

/-!
# The numbers of an animation

Times, offsets and numeric style values are all measured in one number type. The library is
written over any type with the operations of `Scalar`: arithmetic, comparison, rounding down, and
the ways in and out of text. A program runs with `Binary64`; statements that read clock values as
exact numbers instantiate the same definitions with the rational numbers.

The order operations are spelled out in terms of `<` and `==`, so that they say what happens to a
value that is not a number: `Scalar.larger` and `Scalar.smaller` pass it over, `Scalar.clampToUnit`
keeps it, and `Scalar.atMost` is false of it.
-/

set_option autoImplicit false

namespace Storyboard

/-- A number type in which an animation can be measured. -/
class Scalar (ν : Type) extends Zero ν, One ν, Add ν, Sub ν, Mul ν, Div ν, LT ν, BEq ν where
  /-- Whether one number is below another can be computed. -/
  decidableBelow : DecidableLT ν
  /-- The number that stands for a count. -/
  ofCount : Nat → ν
  /-- The greatest whole number that is not above. -/
  floor : ν → ν
  /-- The number is not an infinity and is a number at all. -/
  isFinite : ν → Bool
  /-- The number that a numeral writes, if the type has it. -/
  ofNumeral? : Numeral → Option ν
  /-- The number that a document literal writes, if the type has it. -/
  ofLiteral? : Literal → Option ν
  /-- How a document writes the number, if it can. -/
  literal? : ν → Option Literal
  /-- How running text writes the number. -/
  text : ν → String

attribute [reducible, instance] Scalar.decidableBelow

namespace Scalar

variable {ν : Type} [Scalar ν]

/-- The larger of two numbers; the second of two equal ones, and the other one if one is not a
number. -/
def larger (first second : ν) : ν :=
  if second < first then first else if second == second then second else first

/-- The smaller of two numbers; the second of two equal ones, and the other one if one is not a
number. -/
def smaller (first second : ν) : ν :=
  if first < second then first else if second == second then second else first

/-- Below or equal. -/
def atMost (first second : ν) : Bool :=
  first < second || first == second

/-- The nearest number between zero and one. -/
def clampToUnit (number : ν) : ν :=
  if number < 0 then 0 else if 1 < number then 1 else number

end Scalar

/-! ## The numbers a program runs with -/

instance : Scalar Binary64 where
  zero := Binary64.zeroOf false
  one := Binary64.ofNat 1
  add := Binary64.add
  sub := Binary64.sub
  mul := Binary64.mul
  div := Binary64.div
  lt first second := Binary64.less first second = true
  beq := Binary64.equal
  decidableBelow first second := inferInstanceAs (Decidable (Binary64.less first second = true))
  ofCount := Binary64.ofNat
  floor := Binary64.floor
  isFinite := Binary64.isFinite
  ofNumeral? numeral := some (Binary64.ofNumeral numeral)
  ofLiteral? := Binary64.ofLiteral?
  literal? := Binary64.literal?
  text := Binary64.text

/-! ## Exact numbers

Nothing is rounded, and every value is finite. Read with the rational numbers, the clock of a walk
is the clock that the author had in mind, which is how statements about times are made. They have no
infinities, so the words for those write no number. -/

namespace Exact

/-- The number `± digits · 10 ^ exponent`. -/
def scaled (negative : Bool) (digits : Nat) (exponent : Int) : Rat :=
  (if negative then -(digits : Rat) else digits) * (10 : Rat) ^ exponent

/-- The number that a numeral writes. -/
def ofNumeral? : Numeral → Option Rat
  | .finite negative digits exponent => some (scaled negative digits exponent)
  | .infinite _ => none
  | .nan => none

/-- The number that a literal writes. -/
def ofLiteral (literal : Literal) : Rat :=
  let digits := literal.fraction.foldl (fun number digit => 10 * number + digit.val) literal.whole
  scaled literal.negative digits (literal.exponent.getD 0 - literal.fraction.length)

/-- A fraction in lowest terms, without a denominator of one. -/
def text (number : Rat) : String :=
  let magnitude := Nat.toDigits 10 number.num.natAbs ++
    if number.den = 1 then [] else '/' :: Nat.toDigits 10 number.den
  String.ofList (if number < 0 then '-' :: magnitude else magnitude)

/-- The literal of a whole number; other fractions have none. -/
def literal? (number : Rat) : Option Literal :=
  if number.den = 1 then some ⟨number < 0, number.num.natAbs, [], none⟩ else none

end Exact

instance : Scalar Rat where
  zero := 0
  one := 1
  decidableBelow := inferInstance
  ofCount count := count
  floor number := number.floor
  isFinite _ := true
  ofNumeral? := Exact.ofNumeral?
  ofLiteral? literal := some (Exact.ofLiteral literal)
  literal? := Exact.literal?
  text := Exact.text

end Storyboard
