import Storyboard.Template
import Storyboard.Text

/-!
# Timings

How long a step lasts, how long it waits, and how it eases. A timing is authored as a number of
milliseconds, as a timing expression, or as timings that are resolved already. Amounts in an
expression are rounded down to whole milliseconds.

A timing expression is a duration, optionally a delay, and optionally an easing, with blanks
between them: `1s 100ms ease-out`. Durations and delays are digits with at most a point and the
unit `s` or `ms` in any case; no unit means milliseconds. An easing is a word of letters and
hyphens, optionally with arguments in parentheses that end the expression:
`cubic-bezier(0.1, 0.7, 1.0, 0.1)`.

Resolving never fails: an expression that does not follow the grammar, or has an amount that is no
finite number, is reported and counts as no time at all, and a negative amount is reported and
counts as zero. Placeholders are filled first (`Timing.resolve`).
-/

set_option autoImplicit false

namespace Storyboard

/-! ## Timing expressions

Reading gives the parts as they are written (`TimingParts.read?`). Whether the digits of an amount
are a number is decided when it is resolved. -/

/-- An amount of time as written: its digits, and whether its unit is the second. -/
structure Quantity where
  digits : List Char
  inSeconds : Bool
deriving DecidableEq, Repr

/-- The parts of a timing expression as written. -/
structure TimingParts where
  duration : Quantity
  delay : Option Quantity
  easing : Option (List Char)
deriving DecidableEq, Repr

namespace TimingParts

/-- A digit or a point. -/
def isAmountChar (c : Char) : Bool :=
  c.isDigit || c == '.'

/-- The letter s in either case, or the long s, which is the same letter when case is ignored. -/
def isLetterS (c : Char) : Bool :=
  c == 's' || c == 'S' || c.toNat == 0x17F

/-- A hyphen or a letter of an easing word; the long s and the Kelvin sign are the letters s and k
when case is ignored. -/
def isEasingChar (c : Char) : Bool :=
  c == '-' || c.isAlpha || c.toNat == 0x17F || c.toNat == 0x212A

/-- Splits off an optional minus sign. -/
def splitMinus : List Char → List Char × List Char
  | '-' :: rest => (['-'], rest)
  | rest => ([], rest)

/-- Splits off an optional unit. The flag says that it is the second, which only the letter s
itself names. -/
def splitUnit : List Char → Bool × List Char
  | [] => (false, [])
  | c :: rest =>
    if isLetterS c then (c.toNat != 0x17F, rest)
    else match rest with
      | next :: after =>
        if (c == 'm' || c == 'M') && isLetterS next then (false, after) else (false, c :: rest)
      | [] => (false, [c])

/-- Splits off an amount with its unit. -/
def quantity? (text : List Char) : Option (Quantity × List Char) :=
  let (minus, body) := splitMinus text
  let digits := body.takeWhile isAmountChar
  if digits = [] then none
  else
    let (inSeconds, rest) := splitUnit (body.dropWhile isAmountChar)
    some (⟨minus ++ digits, inSeconds⟩, rest)

/-- The arguments of an easing: not empty, on one line, and closed at the very end. -/
def closesArguments (text : List Char) : Bool :=
  text.getLast? == some ')' && !text.dropLast.isEmpty && !text.dropLast.contains '\n'

/-- The text is an easing as a whole. -/
def isEasing (text : List Char) : Bool :=
  !(text.takeWhile isEasingChar).isEmpty &&
    match text.dropWhile isEasingChar with
    | [] => true
    | c :: rest => c == '(' && closesArguments rest

/-- The easing that ends an expression: nothing, or blanks and an easing. -/
def easing? : List Char → Option (Option (List Char))
  | [] => some none
  | c :: rest =>
    let word := skipBlanks rest
    if isBlank c && isEasing word then some (some word) else none

/-- What follows the duration: an optional delay and an optional easing. -/
def delayAndEasing? : List Char → Option (Option Quantity × Option (List Char))
  | [] => some (none, none)
  | c :: rest =>
    if isBlank c then
      match quantity? (skipBlanks rest) with
      | some (delay, after) => (easing? after).map fun easing => (some delay, easing)
      | none => (easing? (c :: rest)).map fun easing => (none, easing)
    else none

/-- Reads a text without outer blanks as a timing expression. -/
def read? (text : List Char) : Option TimingParts := do
  let (duration, rest) ← quantity? text
  let (delay, easing) ← delayAndEasing? rest
  return ⟨duration, delay, easing⟩

end TimingParts

/-! ## Timings -/

/-- Duration and delay in milliseconds, and the easing. -/
structure Timings (ν : Type) where
  duration : ν
  delay : ν
  easing : Option String
deriving DecidableEq

/-- The timing of a step as authored. -/
inductive Timing (ν : Type) where
  | millis (duration : ν)
  | expression (source : String)
  | resolved (timings : Timings ν)
deriving DecidableEq

/-! ### Resolving -/

namespace Timings

variable {ν : Type} [Scalar ν]

/-- No time at all. -/
def none : Timings ν :=
  ⟨0, 0, Option.none⟩

/-- The time that a step takes: its duration and its delay. -/
def total (timings : Timings ν) : ν :=
  timings.duration + timings.delay

/-- Replaces negative amounts by zero and reports them, the duration first. -/
def checked (timings : Timings ν) : Timings ν × List (Problem ν) :=
  let duration := if timings.duration < 0 then 0 else timings.duration
  let delay := if timings.delay < 0 then 0 else timings.delay
  (⟨duration, delay, timings.easing⟩,
    (if timings.duration < 0 then [.negativeDuration] else []) ++
      (if timings.delay < 0 then [.negativeDelay] else []))

end Timings

namespace Quantity

variable {ν : Type} [Scalar ν]

/-- The whole milliseconds of an amount, if its digits are a finite number. -/
def millis? (quantity : Quantity) : Option ν := do
  let numeral ← Numeral.read? quantity.digits
  let amount ← Scalar.ofNumeral? numeral
  if Scalar.isFinite amount then
    some (Scalar.floor (if quantity.inSeconds then amount * Scalar.ofCount 1000 else amount))
  else Option.none

end Quantity

namespace TimingParts

variable {ν : Type} [Scalar ν]

/-- The amounts of an expression in milliseconds; an absent delay is zero. -/
def timings? (parts : TimingParts) : Option (Timings ν) := do
  let duration ← parts.duration.millis?
  let delay ← match parts.delay with
    | some quantity => quantity.millis?
    | none => some 0
  return ⟨duration, delay, parts.easing.map String.ofList⟩

end TimingParts

namespace Timing

variable {ν : Type} [Scalar ν]

/-- Resolves a timing expression without placeholders. -/
def resolveText (source : String) : Timings ν × List (Problem ν) :=
  match (TimingParts.read? (trimBlanks source.toList)).bind TimingParts.timings? with
  | some timings => timings.checked
  | none => (Timings.none, [.invalidTiming source])

/-- Resolves a timing without looking for placeholders. -/
def resolveLiteral : Timing ν → Timings ν × List (Problem ν)
  | .millis duration => Timings.checked ⟨duration, 0, none⟩
  | .expression source => resolveText source
  | .resolved timings => timings.checked

/-- Resolves a timing in a scope. A missing parameter is reported once, and the step then takes no
time; the text with the gap is not read as an expression. -/
def resolve (scope : Params ν) : Timing ν → Timings ν × List (Problem ν)
  | .expression source =>
    if Template.hasPlaceholder source then
      let (filled, problems) := Template.fill scope source
      if problems.isEmpty then resolveText filled else (Timings.none, problems)
    else resolveText source
  | timing => resolveLiteral timing

end Timing

end Storyboard
