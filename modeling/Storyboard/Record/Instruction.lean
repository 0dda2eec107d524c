import Storyboard.Instruction
import Storyboard.Record.Field

/-!
# Instructions in documents

How instructions are stored and loaded. Either kind of instruction may carry either name of a
kind; the name is kept as it was loaded. A name may also be spelled as an object with the name as
its only member and `null` as its value. What a record ignores is not looked at, however deeply it
nests and whatever numbers it holds.
-/

set_option autoImplicit false

namespace Storyboard

variable {ν : Type} [Scalar ν]

/-- A kind of instruction from a document. -/
def InstructionKind.ofJson? : Json → Option InstructionKind
  | .string name => ofName? name
  | .object [(name, .null)] => ofName? name
  | _ => none

namespace Instruction

/-- How a timeline instruction is stored. -/
def toJson (instruction : Instruction ν) : Json :=
  .object [("type", .string instruction.kind.name),
    ("keyframes", .array (instruction.keyframes.map Styles.toJson)),
    ("duration", Json.ofScalar instruction.duration),
    ("delay", Json.ofScalar instruction.delay),
    ("easing", Json.ofText? instruction.easing)]

/-- A timeline instruction from a record; in an array its easing must be there. -/
def ofJson? (json : Json) : Option (Instruction ν) :=
  match json.fields? ["type", "keyframes", "duration", "delay", "easing"] 5 with
  | some [kind, keyframes, duration, delay, easing] => do
    let kind ← Json.required? InstructionKind.ofJson? kind
    let keyframes ← Json.required? (Json.list? Styles.ofJson?) keyframes
    let duration ← Json.required? Json.asScalar? duration
    let delay ← Json.required? Json.asScalar? delay
    let easing ← Json.nullable? Json.asText? easing
    return ⟨kind, keyframes, duration, delay, easing⟩
  | _ => none

/-- The document of a list of timeline instructions. -/
def listText (instructions : List (Instruction ν)) : String :=
  (Json.array (instructions.map toJson)).text false

/-- The document of a timeline instruction. -/
def text (instruction : Instruction ν) : String :=
  instruction.toJson.text false

/-- A timeline instruction from the text of its document. -/
def read? (text : String) : Option (Instruction ν) :=
  (Json.read? text).bind ofJson?

end Instruction

namespace TransitionInstruction

/-- How a transition instruction is stored. -/
def toJson (instruction : TransitionInstruction ν) : Json :=
  .object [("type", .string instruction.kind.name),
    ("triggerName", .string instruction.triggerName),
    ("isRemovalTransition", .bool instruction.isRemoval),
    ("fromState", .string instruction.fromState),
    ("fromStyles", Styles.toJson instruction.fromStyles),
    ("toState", .string instruction.toState),
    ("toStyles", Styles.toJson instruction.toStyles),
    ("timelines", .array (instruction.timelines.map Instruction.toJson))]

/-- A transition instruction from a record. -/
def ofJson? (json : Json) : Option (TransitionInstruction ν) :=
  match json.fields? ["type", "triggerName", "isRemovalTransition", "fromState", "fromStyles",
      "toState", "toStyles", "timelines"] 8 with
  | some [kind, triggerName, isRemoval, fromState, fromStyles, toState, toStyles, timelines] => do
    let kind ← Json.required? InstructionKind.ofJson? kind
    let triggerName ← Json.required? Json.asText? triggerName
    let isRemoval ← Json.required? Json.asBool? isRemoval
    let fromState ← Json.required? Json.asText? fromState
    let fromStyles ← Json.required? Styles.ofJson? fromStyles
    let toState ← Json.required? Json.asText? toState
    let toStyles ← Json.required? Styles.ofJson? toStyles
    let timelines ← Json.required? (Json.list? Instruction.ofJson?) timelines
    return ⟨kind, triggerName, isRemoval, fromState, fromStyles, toState, toStyles, timelines⟩
  | _ => none

/-- The document of a transition instruction. -/
def text (instruction : TransitionInstruction ν) : String :=
  instruction.toJson.text false

/-- A transition instruction from the text of its document. -/
def read? (text : String) : Option (TransitionInstruction ν) :=
  (Json.read? text).bind ofJson?

end TransitionInstruction

end Storyboard
