import Storyboard.Number.Literal
import Storyboard.Number.Rounding

/-!
# Binary64 numbers

The 64-bit binary floating-point numbers, as exact data. Every finite number of the format is a
whole multiple of the smallest positive one, `2 ^ -1074`, so a finite number is stored as its sign
and that count of units, together with the proof that the format holds it. Two finite numbers of
one sign are equal exactly when their counts are, and the two zeros stay apart.

The arithmetic computes the exact result as a ratio of counts and rounds it once to the nearest
number of the format, a half to the even neighbour, with overflow to an infinity. There is one
value for "not a number"; it is unequal to everything, itself included.

A number literal of a document is read in the document format's own way (`ofLiteral?`): its
leading digits that fit into 64 bits are rounded first, and the result is then scaled by one power
of ten. A numeral (`ofNumeral`) is rounded correctly, in one step.
-/

set_option autoImplicit false

namespace Storyboard

/-- How many binary places the unit lies below the number one. -/
def unitPlaces : Nat := 1074

/-- The units in the number one: units are counted in multiples of `2 ^ -1074`. -/
@[irreducible] def unitsPerOne : Nat := 2 ^ unitPlaces

/-- How many binary places the overflow bound lies above the unit. -/
def overflowPlaces : Nat := 2098

/-- The first count of units that no finite number reaches. -/
@[irreducible] def overflowUnits : Nat := 2 ^ overflowPlaces

theorem unitsPerOne_pos : 0 < unitsPerOne := by
  unfold unitsPerOne
  exact Nat.two_pow_pos unitPlaces

theorem overflowUnits_pos : 0 < overflowUnits := by
  unfold overflowUnits
  exact Nat.two_pow_pos overflowPlaces

/-- The counts of units that the format holds. -/
def Representable (units : Nat) : Prop :=
  Precise units ∧ units < overflowUnits

instance (units : Nat) : Decidable (Representable units) :=
  inferInstanceAs (Decidable (_ ∧ _))

/-- A 64-bit binary floating-point number; `finite negative units` stands for
`± units · 2 ^ -1074`. -/
inductive Binary64 where
  | nan
  | infinite (negative : Bool)
  | finite (negative : Bool) (units : Nat) (held : Representable units)
deriving DecidableEq

namespace Binary64

/-! ## Rounding into the format -/

/-- The number nearest to a ratio of units. -/
def round (negative : Bool) (numerator denominator : Nat) : Binary64 :=
  if small : roundRatio numerator denominator < overflowUnits then
    .finite negative (roundRatio numerator denominator)
      ⟨precise_roundRatio numerator denominator, small⟩
  else .infinite negative

/-- A count of units that the format holds rounds to itself. -/
theorem round_of_representable {units : Nat} (negative : Bool) (held : Representable units) :
    round negative units 1 = .finite negative units held := by
  have same : roundRatio units 1 = units := roundRatio_of_precise held.1
  have small : roundRatio units 1 < overflowUnits := same.symm ▸ held.2
  unfold round
  rw [dif_pos small]
  simp only [same]

/-- The zero of either sign. -/
def zeroOf (negative : Bool) : Binary64 :=
  .finite negative 0 ⟨by decide, overflowUnits_pos⟩

/-- The number nearest to a natural number. -/
def ofNat (number : Nat) : Binary64 :=
  round false (number * unitsPerOne) 1

/-- A signed count of units, negative for a negative number. -/
def signed (negative : Bool) (units : Nat) : Int :=
  if negative then -(units : Int) else units

/-- The number nearest to a signed count of units; the flag is the sign of a zero. -/
def ofSigned (zeroNegative : Bool) (units : Int) : Binary64 :=
  if units = 0 then zeroOf zeroNegative else round (units < 0) units.natAbs 1

/-! ## Arithmetic -/

/-- The number with the other sign. -/
def neg : Binary64 → Binary64
  | .nan => .nan
  | .infinite negative => .infinite (!negative)
  | .finite negative units held => .finite (!negative) units held

/-- The sum, rounded once; a zero sum is negative only when both summands are. -/
def add : Binary64 → Binary64 → Binary64
  | .nan, _ => .nan
  | _, .nan => .nan
  | .infinite a, .infinite b => if a = b then .infinite a else .nan
  | .infinite a, .finite .. => .infinite a
  | .finite .., .infinite b => .infinite b
  | .finite a m _, .finite b n _ => ofSigned (a && b) (signed a m + signed b n)

/-- The difference is the sum with the opposite. -/
def sub (x y : Binary64) : Binary64 :=
  add x (neg y)

/-- The product, rounded once. -/
def mul : Binary64 → Binary64 → Binary64
  | .nan, _ => .nan
  | _, .nan => .nan
  | .infinite a, .infinite b => .infinite (xor a b)
  | .infinite a, .finite b n _ => if n = 0 then .nan else .infinite (xor a b)
  | .finite a m _, .infinite b => if m = 0 then .nan else .infinite (xor a b)
  | .finite a m _, .finite b n _ => round (xor a b) (m * n) unitsPerOne

/-- The quotient, rounded once. -/
def div : Binary64 → Binary64 → Binary64
  | .nan, _ => .nan
  | _, .nan => .nan
  | .infinite _, .infinite _ => .nan
  | .infinite a, .finite b _ _ => .infinite (xor a b)
  | .finite a _ _, .infinite b => zeroOf (xor a b)
  | .finite a m _, .finite b n _ =>
    if n = 0 then if m = 0 then .nan else .infinite (xor a b)
    else round (xor a b) (m * unitsPerOne) n

/-- The greatest whole number that is not above; the sign of a zero stays. -/
def floor : Binary64 → Binary64
  | .nan => .nan
  | .infinite negative => .infinite negative
  | .finite false units _ => round false (units / unitsPerOne * unitsPerOne) 1
  | .finite true units _ =>
    round true ((units + (unitsPerOne - 1)) / unitsPerOne * unitsPerOne) 1

/-! ## Comparison -/

/-- Strictly below; false as soon as one side is not a number, and the zeros are level. -/
def less : Binary64 → Binary64 → Bool
  | .nan, _ => false
  | _, .nan => false
  | .infinite a, .infinite b => a && !b
  | .infinite a, .finite .. => a
  | .finite .., .infinite b => !b
  | .finite a m _, .finite b n _ => signed a m < signed b n

/-- Equal as numbers; false as soon as one side is not a number, and the zeros are equal. -/
def equal : Binary64 → Binary64 → Bool
  | .nan, _ => false
  | _, .nan => false
  | .infinite a, .infinite b => a == b
  | .infinite _, .finite .. => false
  | .finite .., .infinite _ => false
  | .finite a m _, .finite b n _ => signed a m == signed b n

/-- Neither an infinity nor "not a number". -/
def isFinite : Binary64 → Bool
  | .finite .. => true
  | _ => false

/-! ## Reading -/

/-- The number nearest to `digits · 10 ^ exponent`. An exponent that makes the result overflow or
vanish whatever the digits are is not raised to a power. -/
def scaled (negative : Bool) (digits : Nat) (exponent : Int) : Binary64 :=
  if digits = 0 then zeroOf negative
  else if 400 < exponent then .infinite negative
  else if exponent + (Nat.log2 digits + 1) < -400 then zeroOf negative
  else if exponent < 0 then
    round negative (digits * unitsPerOne) (10 ^ exponent.natAbs)
  else round negative (digits * 10 ^ exponent.natAbs * unitsPerOne) 1

/-- The number nearest to a numeral. -/
def ofNumeral : Numeral → Binary64
  | .nan => .nan
  | .infinite negative => .infinite negative
  | .finite negative digits exponent => scaled negative digits exponent

/-- The first number that does not fit into an unsigned 64-bit word. -/
def wordBound : Nat := 2 ^ (64 : Nat)

/-- Takes digits, most significant first, as long as the number fits into 64 bits; the second
part counts the digits left out. -/
def leadingDigits (number : Nat) : List Digit → Nat × Nat
  | [] => (number, 0)
  | digit :: rest =>
    if 10 * number + digit.val < wordBound then leadingDigits (10 * number + digit.val) rest
    else (number, rest.length + 1)

/-- Scales by a power of ten with one product or quotient; below the range of the powers of ten,
with one quotient by `10 ^ 308` per 308 places. An overflow gives nothing. -/
def scaleOnce : Nat → Binary64 → Int → Option Binary64
  | rounds, number, exponent =>
    if exponent.natAbs ≤ 308 then
      let power := ofNat (10 ^ exponent.natAbs)
      if exponent < 0 then some (div number power)
      else
        let product := mul number power
        if product.isFinite then some product else none
    else if equal number (zeroOf false) then some number
    else if 0 ≤ exponent then none
    else match rounds with
      | 0 => some (zeroOf false)
      | rounds + 1 => scaleOnce rounds (div number (ofNat (10 ^ (308 : Nat)))) (exponent + 308)

/-- Reads a literal: the leading digits that fit into 64 bits, rounded, then scaled by a power of
ten; nothing when the result overflows. -/
def ofLiteral? (literal : Literal) : Option Binary64 :=
  let wholeDigits := (Nat.toDigits 10 literal.whole).filterMap Digit.ofChar?
  let (number, omitted) := leadingDigits 0 wholeDigits
  let (significand, ignored) := leadingDigits number literal.fraction
  let exponent : Int :=
    omitted - (literal.fraction.length - ignored : Nat) + literal.exponent.getD 0
  (scaleOnce 3 (ofNat significand) exponent).map fun magnitude =>
    if literal.negative then neg magnitude else magnitude

end Binary64

end Storyboard
