import Storyboard.Record.Settings

/-!
# Trees in documents

How an animation tree is stored and loaded. Every node is a record with its kind under the name
`type`; in an array the kind is the first element. Inside of another node the kind may also be
given by its index among the kinds. Style steps of states and keyframe lists carry no kind.

Storing (`Tree.toJson`, `Tree.text`) writes every field. Loading (`Tree.ofDocument?`, `Tree.read?`)
refuses a document that nests more than 127 arrays and objects, that holds a number out of range
or a string that is no text, even where it would be ignored, or in which some record does not
follow its form. The same limits hold for a document that lists several trees
(`Tree.listOfDocument?`), as a whole.
-/

set_option autoImplicit false

namespace Storyboard

variable {ν : Type} [Scalar ν]

/-- The name under which a record stores its kind. -/
def kindKey : String := "type"

/-! ## Style steps -/

namespace StyleStep

/-- How a style step is stored, without a kind. -/
def members (step : StyleStep ν) : List (String × Json) :=
  [("styles", .array (step.maps.map Styles.toJson)),
    ("offset", match step.position with
      | some position => Json.ofScalar position
      | none => .null)]

/-- How a style step is stored as a record of its own. -/
def toJson (step : StyleStep ν) : Json :=
  .object step.members

/-- A style step from a record. -/
def ofJson? (json : Json) : Option (StyleStep ν) :=
  match json.fields? ["styles", "offset"] 1 with
  | some [maps, position] => do
    let maps ← Json.required? (Json.list? Styles.ofJson?) maps
    let position ← Json.nullable? Json.asScalar? position
    return ⟨maps, position⟩
  | _ => none

end StyleStep

/-! ## Kinds in records -/

/-- Splits a record into the value of its kind and its other fields. -/
def splitKind? : Json → Option (Json × Json)
  | .object members => do
    let kind ← Json.field? members kindKey
    let kind ← kind
    return (kind, .object (members.filter fun member => member.1 != kindKey))
  | .array (kind :: rest) => some (kind, .array rest)
  | _ => none

/-- A record of a kind. -/
def tagged (tag : String) (members : List (String × Json)) : Json :=
  .object ((kindKey, .string tag) :: members)

/-- The kind of a node: its tag, or inside of another node also its index. -/
def NodeKind.ofJson? (nested : Bool) : Json → Option NodeKind
  | .string tag => NodeKind.ofTag? tag
  | .number literal =>
    if nested then literal.toNat?.bind fun index => NodeKind.all[index]? else none
  | _ => none

namespace Payload

/-- How a payload is stored. -/
def toJson : Payload ν → Json
  | .style step => tagged NodeKind.style.tag step.members
  | .keyframes steps =>
    tagged NodeKind.keyframes.tag [("steps", .array (steps.map StyleStep.toJson))]

/-- The two kinds of payloads, by tag or index. -/
def isKeyframes? : Json → Option Bool
  | .string tag =>
    if tag = NodeKind.style.tag then some false
    else if tag = NodeKind.keyframes.tag then some true
    else none
  | .number literal =>
    match literal.toNat? with
    | some 0 => some false
    | some 1 => some true
    | _ => none
  | _ => none

/-- A payload from a record. -/
def ofJson? (json : Json) : Option (Payload ν) := do
  let (kind, record) ← splitKind? json
  if ← isKeyframes? kind then
    match record.fields? ["steps"] 1 with
    | some [steps] => (Json.required? (Json.list? StyleStep.ofJson?) steps).map .keyframes
    | _ => none
  else
    (StyleStep.ofJson? record).map .style

end Payload

/-! ## Storing trees -/

namespace Tree

mutual

/-- How a tree is stored. -/
def toJson : Tree ν → Json
  | .state name styles =>
    tagged "state" [("name", .string name), ("styles", styles.toJson)]
  | .transition expression animation params =>
    tagged "transition" [("expr", .string expression), ("animation", animation.toJson),
      ("options", Params.toJson params)]
  | .sequence steps => tagged "sequence" [("steps", .array (listToJson steps))]
  | .group steps => tagged "group" [("steps", .array (listToJson steps))]
  | .animate timing payload =>
    tagged "animate" [("timings", timing.toJson),
      ("styles", match payload with
        | some payload => payload.toJson
        | none => .null)]
  | .keyframes steps => tagged "keyframes" [("steps", .array (steps.map StyleStep.toJson))]
  | .style step => tagged "style" step.members
  | .trigger name definitions =>
    tagged "trigger" [("name", .string name), ("definitions", .array (listToJson definitions))]
  | .reference animation defaults =>
    tagged "reference" [("animation", animation.toJson), ("options", Params.toJson defaults)]
  | .animateChild params => tagged "animateChild" [("options", Params.toJson params)]
  | .animateRef animation defaults overrides =>
    tagged "animateRef"
      [("animation",
          .object [("animation", animation.toJson), ("options", Params.toJson defaults)]),
        ("options", Params.toJson overrides)]
  | .query selector animation optional limit =>
    tagged "query" [("selector", .string selector), ("animation", animation.toJson),
      ("optional", .bool optional),
      ("limit", match limit with
        | some limit => .number (Literal.ofNat limit.toNat)
        | none => .null)]
  | .stagger timing animation =>
    tagged "stagger" [("timings", timing.toJson), ("animation", animation.toJson)]

/-- How a list of trees is stored, element by element. -/
def listToJson : List (Tree ν) → List Json
  | [] => []
  | tree :: rest => tree.toJson :: listToJson rest

end

/-- The document of a tree. -/
def text (tree : Tree ν) : String :=
  tree.toJson.text false

/-! ## Loading trees -/

/-- A whole number that fits into 64 bits. -/
def limitOfJson? : Json → Option UInt64
  | .number literal =>
    literal.toNat?.bind fun limit =>
      if limit < UInt64.size then some (UInt64.ofNat limit) else none
  | _ => none

/-- A reusable animation and its default parameters, from a record without a kind. -/
def referenceOfJson? (readTree : Json → Option (Tree ν)) (json : Json) :
    Option (Tree ν × Params ν) :=
  match json.fields? ["animation", "options"] 1 with
  | some [animation, defaults] => do
    let animation ← Json.required? readTree animation
    let defaults ← Json.orDefault? Params.ofJson? ∅ defaults
    return (animation, defaults)
  | _ => none

/-- A node of a kind from its other fields, with a reader for the nodes inside of it. -/
def ofRecord? (readTree : Json → Option (Tree ν)) (kind : NodeKind) (record : Json) :
    Option (Tree ν) :=
  match kind with
  | .state =>
    match record.fields? ["name", "styles"] 2 with
    | some [name, styles] => do
      let name ← Json.required? Json.asText? name
      let styles ← Json.required? StyleStep.ofJson? styles
      return .state name styles
    | _ => none
  | .transition =>
    match record.fields? ["expr", "animation", "options"] 2 with
    | some [expression, animation, params] => do
      let expression ← Json.required? Json.asText? expression
      let animation ← Json.required? readTree animation
      let params ← Json.orDefault? Params.ofJson? ∅ params
      return .transition expression animation params
    | _ => none
  | .sequence =>
    match record.fields? ["steps"] 1 with
    | some [steps] => (Json.required? (Json.list? readTree) steps).map .sequence
    | _ => none
  | .group =>
    match record.fields? ["steps"] 1 with
    | some [steps] => (Json.required? (Json.list? readTree) steps).map .group
    | _ => none
  | .animate =>
    match record.fields? ["timings", "styles"] 1 with
    | some [timing, payload] => do
      let timing ← Json.required? Timing.ofJson? timing
      let payload ← Json.nullable? Payload.ofJson? payload
      return .animate timing payload
    | _ => none
  | .keyframes =>
    match record.fields? ["steps"] 1 with
    | some [steps] => (Json.required? (Json.list? StyleStep.ofJson?) steps).map .keyframes
    | _ => none
  | .style => (StyleStep.ofJson? record).map .style
  | .trigger =>
    match record.fields? ["name", "definitions"] 2 with
    | some [name, definitions] => do
      let name ← Json.required? Json.asText? name
      let definitions ← Json.required? (Json.list? readTree) definitions
      return .trigger name definitions
    | _ => none
  | .reference => do
    let (animation, defaults) ← referenceOfJson? readTree record
    return .reference animation defaults
  | .animateChild =>
    match record.fields? ["options"] 0 with
    | some [params] => (Json.orDefault? Params.ofJson? ∅ params).map .animateChild
    | _ => none
  | .animateRef =>
    match record.fields? ["animation", "options"] 1 with
    | some [reusable, overrides] => do
      let (animation, defaults) ← Json.required? (referenceOfJson? readTree) reusable
      let overrides ← Json.orDefault? Params.ofJson? ∅ overrides
      return .animateRef animation defaults overrides
    | _ => none
  | .query =>
    match record.fields? ["selector", "animation", "optional", "limit"] 2 with
    | some [selector, animation, optional, limit] => do
      let selector ← Json.required? Json.asText? selector
      let animation ← Json.required? readTree animation
      let optional ← Json.orDefault? Json.asBool? false optional
      let limit ← Json.nullable? limitOfJson? limit
      return .query selector animation optional limit
    | _ => none
  | .stagger =>
    match record.fields? ["timings", "animation"] 2 with
    | some [timing, animation] => do
      let timing ← Json.required? Timing.ofJson? timing
      let animation ← Json.required? readTree animation
      return .stagger timing animation
    | _ => none

/-- A tree from a record, if its nodes are nested no deeper than the count. -/
def ofNested? : Nat → Bool → Json → Option (Tree ν)
  | 0, _, _ => none
  | count + 1, nested, json => do
    let (kind, record) ← splitKind? json
    let kind ← NodeKind.ofJson? nested kind
    ofRecord? (ofNested? count true) kind record

/-- A tree from its record. Every node takes a level of the document, so the number of levels that
a document may have bounds the nesting of nodes. -/
def ofJson? (json : Json) : Option (Tree ν) :=
  ofNested? Json.documentDepth false json

/-- The tree of a document. -/
def ofDocument? (json : Json) : Option (Tree ν) :=
  json.document? ν ofJson?

/-- The trees that a document lists. -/
def listOfDocument? (json : Json) : Option (List (Tree ν)) :=
  json.document? ν (Json.list? ofJson?)

/-- A tree from the text of its document. -/
def read? (text : String) : Option (Tree ν) :=
  (Json.read? text).bind ofDocument?

end Tree

end Storyboard
