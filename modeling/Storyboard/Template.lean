import Storyboard.Problem
import Storyboard.Style.Value

/-!
# Templates

A text may contain placeholders `{{ name }}`. Filling a text replaces every placeholder whose name
a scope binds by the display of the bound value; a placeholder without a binding stays as it is
and is reported. The replacement is inserted once and never read again.

A placeholder opens with two braces, may have blanks around its name, and closes with the first
two braces that follow. The name has at least one character and no line feed. As many of the
blanks in front as possible are passed over; if that leaves no name, the last blank that can be
one is the name, which is how `{{ }}` names the blank.

`Template.segments` cuts a text into plain characters and placeholders, `Template.fill` renders
the segments in a scope, and `Value.fill` fills a style value: a text that is nothing but one
bound placeholder becomes the bound value itself, so that a number stays a number.
-/

set_option autoImplicit false

namespace Storyboard

namespace Template

/-- A piece of a template: a character that stands for itself, or a placeholder with its name and
its full spelling. -/
inductive Segment where
  | plain (c : Char)
  | placeholder (name : String) (source : List Char)
deriving DecidableEq

/-! ## Recognising a placeholder -/

/-- The text in front of the first two closing braces, and what follows them. -/
def untilClosing? : List Char → Option (List Char × List Char)
  | '}' :: '}' :: after => some ([], after)
  | c :: rest => (untilClosing? rest).map fun (inner, after) => (c :: inner, after)
  | [] => none

/-- The name at the start of a text, and what follows its closing braces. The first character
belongs to the name even if it is a brace itself, and the blanks in front of the closing braces do
not. -/
def name? : List Char → Option (List Char × List Char)
  | [] => none
  | c :: rest =>
    match untilClosing? rest with
    | some (inner, after) =>
      let name := c :: dropBlanksBehind inner
      if name.contains '\n' then none else some (name, after)
    | none => none

/-- The name when nothing but blanks stands between the braces: the last of them that can be a
name, and what follows the closing braces. -/
def blankName? (blanks : List Char) : List Char → Option (List Char × List Char)
  | '}' :: '}' :: after =>
    (blanks.filter (· != '\n')).getLast?.map fun blank => ([blank], after)
  | _ => none

/-- The name behind the opening braces, and what follows the closing ones. -/
def interior? (text : List Char) : Option (List Char × List Char) :=
  let body := skipBlanks text
  (name? body).or (blankName? (text.takeWhile isBlank) body)

/-- The name of the placeholder at the start of a text, and what follows the placeholder. -/
def placeholder? : List Char → Option (List Char × List Char)
  | '{' :: '{' :: body => interior? body
  | _ => none

/-- Cuts a text into segments from left to right. The count says how many characters still belong
to the placeholder recognised last. -/
def segmentsAfter : Nat → List Char → List Segment
  | _, [] => []
  | passed + 1, _ :: rest => segmentsAfter passed rest
  | 0, c :: rest =>
    match placeholder? (c :: rest) with
    | some (name, after) =>
      let length := (c :: rest).length - after.length
      .placeholder (String.ofList name) ((c :: rest).take length) ::
        segmentsAfter (length - 1) rest
    | none => .plain c :: segmentsAfter 0 rest

/-- The segments of a text. -/
def segments (text : List Char) : List Segment :=
  segmentsAfter 0 text

/-- The segment is a placeholder. -/
def Segment.isPlaceholder : Segment → Bool
  | .placeholder .. => true
  | .plain _ => false

/-- The text has at least one placeholder. -/
def hasPlaceholder (text : String) : Bool :=
  (segments text.toList).any Segment.isPlaceholder

/-! ## Filling -/

variable {ν : Type} [Scalar ν]

/-- The characters that a segment stands for in a scope. -/
def Segment.render (scope : Params ν) : Segment → List Char
  | .plain c => [c]
  | .placeholder name source =>
    match scope.get? name with
    | some value => value.display.toList
    | none => source

/-- A segment is a problem in a scope when it is a placeholder without a binding. -/
def Segment.problems (scope : Params ν) : Segment → List (Problem ν)
  | .plain _ => []
  | .placeholder name _ => if scope.contains name then [] else [.missingParam name]

/-- Fills the placeholders of a text and reports those without a binding. -/
def fill (scope : Params ν) (text : String) : String × List (Problem ν) :=
  let pieces := segments text.toList
  (String.ofList (pieces.flatMap (Segment.render scope)),
    pieces.flatMap (Segment.problems scope))

/-- The value that a text takes over whole: the text is one bound placeholder between blanks. -/
def wholeValue? (scope : Params ν) (text : String) : Option (Value ν) :=
  match segments (trimBlanks text.toList) with
  | [.placeholder name _] => scope.get? name
  | _ => none

end Template

/-- Fills the placeholders of a style value. -/
def Value.fill {ν : Type} [Scalar ν] (scope : Params ν) :
    Value ν → Value ν × List (Problem ν)
  | .number amount => (.number amount, [])
  | .text words =>
    if Template.hasPlaceholder words then
      match Template.wholeValue? scope words with
      | some value => (value, [])
      | none =>
        let (filled, problems) := Template.fill scope words
        (.text filled, problems)
    else (.text words, [])

end Storyboard
