import Storyboard.Compilation
import Storyboard.Record.Field

/-!
# Timings, parameters and settings in documents

The small records of a document. A timing is stored as it was authored: as a number, as an
expression, or as a record of timings that are resolved already. Parameters are the only field of a
record of options, and in the settings of a compilation every field has a default.

A timing may be a document of its own (`Timing.ofDocument?`), and is then held to the limits of a
document.
-/

set_option autoImplicit false

namespace Storyboard

variable {ν : Type} [Scalar ν]

namespace Timings

/-- How resolved timings are stored. -/
def toJson (timings : Timings ν) : Json :=
  .object [("duration", Json.ofScalar timings.duration), ("delay", Json.ofScalar timings.delay),
    ("easing", Json.ofText? timings.easing)]

/-- Resolved timings from a record. -/
def ofJson? (json : Json) : Option (Timings ν) :=
  match json.fields? ["duration", "delay", "easing"] 2 with
  | some [duration, delay, easing] => do
    let duration ← Json.required? Json.asScalar? duration
    let delay ← Json.required? Json.asScalar? delay
    let easing ← Json.nullable? Json.asText? easing
    return ⟨duration, delay, easing⟩
  | _ => Option.none

end Timings

namespace Timing

/-- How a timing is stored: a number, a string or a record. -/
def toJson : Timing ν → Json
  | .millis duration => Json.ofScalar duration
  | .expression source => .string source
  | .resolved timings => timings.toJson

/-- A timing from a document. -/
def ofJson? : Json → Option (Timing ν)
  | .number literal => (Scalar.ofLiteral? literal).map .millis
  | .string source => some (.expression source)
  | json => (Timings.ofJson? json).map .resolved

/-- A timing that is a document of its own. -/
def ofDocument? (json : Json) : Option (Timing ν) :=
  json.document? ν ofJson?

end Timing

namespace Params

/-- How parameters are stored: as the only field of a record of options. -/
def toJson (params : Params ν) : Json :=
  .object [("params", Styles.toJson params)]

/-- Parameters from a record of options. -/
def ofJson? (json : Json) : Option (Params ν) :=
  match json.fields? ["params"] 0 with
  | some [params] => Json.orDefault? Styles.ofJson? ∅ params
  | _ => none

end Params

/-- Settings from a record; a missing frame length is the standard one. -/
def Settings.ofJson? (json : Json) : Option (Settings ν) :=
  match json.fields? ["frame_ms"] 0 with
  | some [frameLength] =>
    (Json.orDefault? Json.asScalar? Settings.standard.frameLength frameLength).map Settings.mk
  | _ => none

end Storyboard
