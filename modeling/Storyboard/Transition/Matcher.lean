import Storyboard.Problem
import Storyboard.Style.Value
import Storyboard.Text

/-!
# Transition expressions

Which changes of state a transition answers to. An expression is a comma list of alternatives.
An alternative is `from => to` or `from -> to`, where each side is a state name or `*` for any
state; with `<` in front of the arrow it holds in both directions. The aliases `:enter` and
`:leave` stand for the changes from and to the state `void`; `:increment` and `:decrement` hold
when both states are numbers and the number grows or shrinks.

State names consist of word characters and hyphens, so the hyphen of an arrow may touch the name
before it. The name is then taken as long as an arrow still follows it.

The names `true` and `1`, and the names `false` and `0`, stand for one state each.
-/

set_option autoImplicit false

namespace Storyboard

/-- The name for any state. -/
def anyState : String := "*"

/-- The state of an element that is not attached. -/
def voidState : String := "void"

/-- One alternative of a transition expression. -/
inductive Matcher where
  | states (source target : String)
  | increment
  | decrement
deriving DecidableEq, Repr

namespace Matcher

/-! ## Matching a change of state -/

/-- The two names stand for one boolean state. -/
def sameBoolean (first second : String) : Bool :=
  (["true", "1"].contains first && ["true", "1"].contains second) ||
    (["false", "0"].contains first && ["false", "0"].contains second)

/-- A name in an alternative covers a state. -/
def covers (name state : String) : Bool :=
  name == anyState || name == state || sameBoolean name state

/-- The number that a state is, if it is one. -/
def stateNumber? (ν : Type) [Scalar ν] (state : String) : Option ν :=
  (Numeral.read? (trimBlanks state.toList)).bind Scalar.ofNumeral?

/-- An alternative admits a change from one state to another. -/
def admits (ν : Type) [Scalar ν] (source target : String) : Matcher → Bool
  | .states fromName toName => covers fromName source && covers toName target
  | .increment =>
    match stateNumber? ν source, stateNumber? ν target with
    | some before, some after => before < after
    | _, _ => false
  | .decrement =>
    match stateNumber? ν source, stateNumber? ν target with
    | some before, some after => after < before
    | _, _ => false

/-! ## Reading an expression -/

/-- A character of a state name. -/
def isNameChar (c : Char) : Bool :=
  c == '-' || isWordChar c

/-- What follows an arrow, and whether the arrow points both ways. -/
def arrow? : List Char → Option (Bool × List Char)
  | '<' :: '=' :: '>' :: rest => some (true, rest)
  | '<' :: '-' :: '>' :: rest => some (true, rest)
  | '=' :: '>' :: rest => some (false, rest)
  | '-' :: '>' :: rest => some (false, rest)
  | _ => none

/-- The longest name that blanks and an arrow follow, with the direction and the rest. -/
def nameThenArrow? : List Char → Option (List Char × Bool × List Char)
  | [] => none
  | c :: rest =>
    if isNameChar c then
      match nameThenArrow? rest with
      | some (name, after) => some (c :: name, after)
      | none => (arrow? (skipBlanks rest)).map fun after => ([c], after)
    else none

/-- The left side of an alternative, with the direction of its arrow and the rest. -/
def leftSide? : List Char → Option (List Char × Bool × List Char)
  | '*' :: rest => (arrow? (skipBlanks rest)).map fun after => (['*'], after)
  | text => nameThenArrow? text

/-- The text is a state name or the name for any state. -/
def isRightSide (text : List Char) : Bool :=
  text == ['*'] || (!text.isEmpty && text.all isNameChar)

/-- The matchers of one alternative in arrow form. -/
def ofArrow? (text : List Char) : Option (List Matcher) := do
  let (left, bothWays, rest) ← leftSide? text
  let right := skipBlanks rest
  if isRightSide right then
    let source := String.ofList left
    let target := String.ofList right
    if bothWays && !(source == anyState && target == anyState) then
      return [.states source target, .states target source]
    else
      return [.states source target]
  else none

/-- The matchers of an alternative in arrow form, or the problem that it is none. -/
def ofArrow {ν : Type} (source : String) : List Matcher × List (Problem ν) :=
  match ofArrow? source.toList with
  | some matchers => (matchers, [])
  | none => ([], [.invalidTransition source])

/-- The matchers of one alternative. An unknown alias is reported and admits any change. -/
def ofPart {ν : Type} (part : String) : List Matcher × List (Problem ν) :=
  match part.toList with
  | ':' :: _ =>
    if part = ":enter" then ofArrow "void => *"
    else if part = ":leave" then ofArrow "* => void"
    else if part = ":increment" then ([.increment], [])
    else if part = ":decrement" then ([.decrement], [])
    else
      let (matchers, problems) := ofArrow "* => *"
      (matchers, .unknownAlias part :: problems)
  | _ => ofArrow part

/-- The matchers of an expression, in order, and the problems with its parts. -/
def ofExpression {ν : Type} (expression : String) : List Matcher × List (Problem ν) :=
  let parts := (commaList expression).map fun part => ofPart (String.ofList part)
  (parts.flatMap Prod.fst, parts.flatMap Prod.snd)

end Matcher

end Storyboard
