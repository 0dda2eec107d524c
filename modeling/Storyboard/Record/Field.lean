import Storyboard.Json
import Storyboard.Style.Value

/-!
# Records in documents

A record with named fields is stored as an object, or as an array of its fields in their order.
In an object every field may stand anywhere, no field may stand twice, and unknown names are
ignored. In an array the fields without a default must all be there, and nothing may follow the
last field (`Json.fields?`).

The simple field types are here too: numbers, texts, style values and style maps, and the two ways
to leave a field out. Some records are held to the limits of a document as a whole, in the parts
that they ignore as well (`Json.document?`).
-/

set_option autoImplicit false

namespace Storyboard

namespace Json

/-- The value of the one member with a name; nothing inside if there is none, nothing at all if
there are several. -/
def field? (members : List (String × Json)) (name : String) : Option (Option Json) :=
  match members.filter fun member => member.1 == name with
  | [] => some none
  | [member] => some (some member.2)
  | _ => none

/-- The fields of a record in order, each with its value if it is there. An array must hold at
least so many of them. -/
def fields? (names : List String) (least : Nat) : Json → Option (List (Option Json))
  | .object members => names.mapM (field? members)
  | .array elements =>
    if least ≤ elements.length ∧ elements.length ≤ names.length then
      some (elements.map some ++ List.replicate (names.length - elements.length) none)
    else none
  | _ => none

/-- The text of a string. -/
def asText? : Json → Option String
  | .string text => some text
  | _ => none

/-- A truth value. -/
def asBool? : Json → Option Bool
  | .bool value => some value
  | _ => none

/-- The elements of an array. -/
def asArray? : Json → Option (List Json)
  | .array elements => some elements
  | _ => none

/-- A field that may be missing or `null`. -/
def nullable? {α : Type} (read : Json → Option α) : Option Json → Option (Option α)
  | none => some none
  | some .null => some none
  | some value => (read value).map some

/-- A field with a default; `null` is no value of it. -/
def orDefault? {α : Type} (read : Json → Option α) (default : α) : Option Json → Option α
  | none => some default
  | some value => read value

/-- A field that must be there. -/
def required? {α : Type} (read : Json → Option α) (field : Option Json) : Option α :=
  field.bind read

/-- An array whose elements are all of one type. -/
def list? {α : Type} (read : Json → Option α) (json : Json) : Option (List α) :=
  json.asArray?.bind fun elements => elements.mapM read

variable {ν : Type} [Scalar ν]

/-- The number of a number literal in range. -/
def asScalar? : Json → Option ν
  | .number literal => Scalar.ofLiteral? literal
  | _ => none

/-- How many arrays and objects a document may nest. -/
def documentDepth : Nat := 127

/-- Reads a whole document, unless it nests too deep or holds a number out of range or a string
that is no text, if only in a part that the reader ignores. -/
def document? (ν : Type) [Scalar ν] {α : Type} (read : Json → Option α) (json : Json) : Option α :=
  if json.depth ≤ documentDepth && json.isReadable ν then read json else none

/-- How a number is stored; the values that have no literal are stored as `null`. -/
def ofScalar (number : ν) : Json :=
  match Scalar.literal? number with
  | some literal => .number literal
  | none => .null

/-- How a text that may be missing is stored. -/
def ofText? : Option String → Json
  | some text => .string text
  | none => .null

end Json

variable {ν : Type} [Scalar ν]

/-- A style value from a document: a number or a string. -/
def Value.ofJson? : Json → Option (Value ν)
  | .number literal => (Scalar.ofLiteral? literal).map .number
  | .string words => some (.text words)
  | _ => none

/-- How a style value is stored. -/
def Value.toJson : Value ν → Json
  | .number amount => Json.ofScalar amount
  | .text words => .string words

/-- A map of style values from a document; a repeated name keeps its first place and its last
value. -/
def Styles.ofJson? : Json → Option (Styles ν)
  | .object members =>
    (members.mapM fun member => (Value.ofJson? member.2).map fun value => (member.1, value)).map
      OrderedMap.ofList
  | _ => none

/-- How a map of style values is stored. -/
def Styles.toJson (map : Styles ν) : Json :=
  .object (map.entries.map fun entry => (entry.1, entry.2.toJson))

end Storyboard
