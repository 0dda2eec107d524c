/-!
# Numbers as they are spelled

A numeral is what decimal notation says before any number type has rounded it: a sign, the
digits as one natural number, and the power of ten that scales them; or one of the words for an
infinity or for no number at all. Keeping the notation apart from the value lets one reader serve
every number type (`Storyboard.Scalar`), and lets a statement about timing strings speak of the
number that the author wrote.

A literal is a number as a JSON document spells it. It keeps the spelling's parts (whole digits,
fraction digits, exponent) and not yet a value, for two reasons: whether a number is written as an
integer matters to some fields, and how its digits become a value is the business of the number
type that reads it.
-/

set_option autoImplicit false

namespace Storyboard

/-! ## Decimal numerals

The reader accepts an optional sign, digits with at most one point and at least one digit, and an
optional exponent; or, in any case, `inf`, `infinity` and `nan`. It never skips blanks. -/

/-- A number in decimal notation; `finite negative digits exponent` stands for
`± digits · 10 ^ exponent`. -/
inductive Numeral where
  | finite (negative : Bool) (digits : Nat) (exponent : Int)
  | infinite (negative : Bool)
  | nan
deriving DecidableEq, Repr

namespace Numeral

/-- The number that a row of decimal digits writes, the most significant digit first. -/
def ofDigits (digits : List Char) : Nat :=
  digits.foldl (fun number digit => 10 * number + (digit.toNat - '0'.toNat)) 0

/-- Takes an optional leading sign; the flag says whether it was a minus. -/
def splitSign : List Char → Bool × List Char
  | '-' :: rest => (true, rest)
  | '+' :: rest => (false, rest)
  | rest => (false, rest)

/-- The exponent that follows the digits: none at all, or `e` with a signed whole number. -/
def exponent? : List Char → Option Int
  | [] => some 0
  | mark :: rest =>
    if mark = 'e' ∨ mark = 'E' then
      let (negative, digits) := splitSign rest
      if digits ≠ [] ∧ digits.all Char.isDigit then
        some (if negative then -(ofDigits digits : Int) else ofDigits digits)
      else none
    else none

/-- Splits off the digits after a point, if a point comes next. -/
def splitFraction : List Char → List Char × List Char
  | '.' :: rest => (rest.takeWhile Char.isDigit, rest.dropWhile Char.isDigit)
  | rest => ([], rest)

/-- An unsigned number in digits: at least one digit on either side of the point. -/
def digits? (negative : Bool) (text : List Char) : Option Numeral :=
  let whole := text.takeWhile Char.isDigit
  let (fraction, tail) := splitFraction (text.dropWhile Char.isDigit)
  if whole = [] ∧ fraction = [] then none
  else (exponent? tail).map fun exponent =>
    .finite negative (ofDigits (whole ++ fraction)) (exponent - fraction.length)

/-- The words for the values that have no digits, in any case. -/
def word? (negative : Bool) (text : List Char) : Option Numeral :=
  let word := String.ofList (text.map Char.toLower)
  if word = "nan" then some .nan
  else if word = "inf" ∨ word = "infinity" then some (.infinite negative)
  else none

/-- Reads a whole text as a numeral. -/
def read? (text : List Char) : Option Numeral :=
  let (negative, body) := splitSign text
  (digits? negative body).or (word? negative body)

end Numeral

/-! ## Number literals of a document

The whole part is a natural number, so a literal cannot carry leading zeros; an empty fraction
means that no point is written. -/

/-- A decimal digit. -/
abbrev Digit := Fin 10

namespace Digit

/-- The digit zero. -/
def zero : Digit :=
  ⟨0, by decide⟩

/-- The digit that a character writes. -/
def ofChar? (c : Char) : Option Digit :=
  if h : 48 ≤ c.toNat ∧ c.toNat < 58 then some ⟨c.toNat - 48, by omega⟩ else none

/-- The character that writes a digit. -/
def toChar (digit : Digit) : Char :=
  Char.ofNat (48 + digit.val)

theorem ofChar?_toChar (digit : Digit) : ofChar? (toChar digit) = some digit := by
  revert digit
  decide

end Digit

/-- A number as a document spells it: sign, whole part, fraction digits and exponent. -/
structure Literal where
  negative : Bool
  whole : Nat
  fraction : List Digit
  exponent : Option Int
deriving DecidableEq, Repr

namespace Literal

/-- The literal of a whole number. -/
def ofNat (number : Nat) : Literal :=
  ⟨false, number, [], none⟩

/-- A literal is an integer when neither a point nor an exponent is written. -/
def isInteger (literal : Literal) : Bool :=
  literal.fraction.isEmpty && literal.exponent.isNone

/-- The number in an integer literal without a minus sign. -/
def toNat? (literal : Literal) : Option Nat :=
  if literal.isInteger && !literal.negative then some literal.whole else none

/-- The exponent mark, an explicit sign and the digits without padding. -/
def exponentText : Option Int → List Char
  | none => []
  | some exponent =>
    'e' :: (if exponent < 0 then '-' else '+') :: Nat.toDigits 10 exponent.natAbs

/-- The point and the digits after it, or nothing. -/
def fractionText (fraction : List Digit) : List Char :=
  if fraction.isEmpty then [] else '.' :: fraction.map Digit.toChar

/-- The spelling of a literal. -/
def text (literal : Literal) : List Char :=
  (if literal.negative then ['-'] else []) ++ Nat.toDigits 10 literal.whole ++
    fractionText literal.fraction ++ exponentText literal.exponent

end Literal

end Storyboard
