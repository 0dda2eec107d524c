import Storyboard.Number.Scalar
import Storyboard.OrderedMap
import Storyboard.Text

/-!
# Style values

A style property has a number or a text. The text `*` is a value of its own: it asks the player
to take the computed style of the element when the animation plays. A text that spells a number
counts as that number where a number is wanted.

Style maps and parameter scopes are ordered maps of such values. Two names are reserved in a style
map: `offset` holds the position of a keyframe, `easing` the easing of the segment that a keyframe
starts.
-/

set_option autoImplicit false

namespace Storyboard

/-- The value of a style property or of a parameter. -/
inductive Value (ν : Type) where
  | number (amount : ν)
  | text (words : String)
deriving DecidableEq

/-- The declared properties of a style or keyframe, in order. -/
abbrev Styles (ν : Type) := OrderedMap (Value ν)

/-- The named values that placeholders stand for, in order. -/
abbrev Params (ν : Type) := OrderedMap (Value ν)

/-- The reserved name of a keyframe's position. -/
def offsetKey : String := "offset"

/-- The reserved name of the easing of the segment that a keyframe starts. -/
def easingKey : String := "easing"

namespace Value

variable {ν : Type}

/-- The value that leaves a property to the computed style of the element. -/
def automatic : Value ν :=
  .text "*"

/-- The value is the one that leaves a property to the computed style. -/
def isAutomatic : Value ν → Bool
  | .text words => words == "*"
  | .number _ => false

/-- The text of a text value. -/
def asText? : Value ν → Option String
  | .text words => some words
  | .number _ => none

variable [Scalar ν]

/-- The number of a value: its own, or the one that its text spells between blanks. -/
def asNumber? : Value ν → Option ν
  | .number amount => some amount
  | .text words => (Numeral.read? (trimBlanks words.toList)).bind Scalar.ofNumeral?

/-- How a value reads inside a text; a zero has no sign there. -/
def display : Value ν → String
  | .number amount => if amount == 0 then "0" else Scalar.text amount
  | .text words => words

/-- Equal as values of one form; a number that is not a number is unequal to itself. -/
def equal : Value ν → Value ν → Bool
  | .number first, .number second => first == second
  | .text first, .text second => first == second
  | _, _ => false

instance : BEq (Value ν) := ⟨equal⟩

end Value

/-- The position that the reserved entry of a style map declares, if it holds a number. -/
def Styles.offset? {ν : Type} [Scalar ν] (map : Styles ν) : Option ν :=
  (map.get? offsetKey).bind Value.asNumber?

end Storyboard
