import Storyboard.Proofs.Record.Fields
import Storyboard.Record.Tree

/-!
# Parts of nodes that are read as they were stored

Style steps, timings, parameters and payloads are read back from their documents, and the documents
are within the limits, when all of their numbers are read back. A record with a kind is split into
its kind and its other members as they were stored (`splitKind?_tagged`).
-/

set_option autoImplicit false

namespace Storyboard

variable {ν : Type} [Scalar ν]

/-! ## The numbers of parts -/

/-- The numbers of a style step: those of its maps, and its position. -/
def StyleStep.numbers (step : StyleStep ν) : List ν :=
  step.maps.flatMap Styles.numbers ++ step.position.toList

/-- The numbers of a timing. -/
def Timing.numbers : Timing ν → List ν
  | .millis duration => [duration]
  | .expression _ => []
  | .resolved timings => [timings.duration, timings.delay]

/-- The numbers of a payload. -/
def Payload.numbers : Payload ν → List ν
  | .style step => step.numbers
  | .keyframes steps => steps.flatMap StyleStep.numbers

/-! ## Style steps, timings and parameters -/

theorem StyleStep.ofJson?_members {step : StyleStep ν} (back : AllReadBack step.numbers) :
    StyleStep.ofJson? (.object step.members) = some step := by
  obtain ⟨backMaps, backPosition⟩ := allReadBack_append.1 back
  have here : ∀ position ∈ step.position, Scalar.ReadsBack position := fun position same =>
    backPosition position (Option.mem_toList.2 same)
  have readMaps : Json.list? Styles.ofJson? (.array (step.maps.map Styles.toJson)) =
      some step.maps :=
    Json.list?_map fun map member => Styles.ofJson?_toJson (backMaps.of_mem member)
  have readPosition : Json.nullable? Json.asScalar?
      (some (Json.orNull Json.ofScalar step.position)) = some step.position :=
    Json.nullable?_orNull (fun position same => Json.ofScalar_ne_null (here position same))
      fun position same => Json.asScalar?_ofScalar (here position same)
  have fields : (Json.object step.members).fields? ["styles", "offset"] 1 =
      some [some (.array (step.maps.map Styles.toJson)),
        some (Json.orNull Json.ofScalar step.position)] :=
    Json.fields?_zip _ [_, _] 1 (by decide) rfl
  simp only [ofJson?, fields, Json.required?, Option.bind_some, readMaps, readPosition]
  rfl

theorem StyleStep.membersReadable_members {step : StyleStep ν} (back : AllReadBack step.numbers) :
    Json.membersReadable ν step.members = true := by
  obtain ⟨backMaps, backPosition⟩ := allReadBack_append.1 back
  have maps : Json.isReadable ν (.array (step.maps.map Styles.toJson)) = true :=
    Json.isReadable_array fun map member => Styles.isReadable_toJson (backMaps.of_mem member)
  have position : Json.isReadable ν (Json.orNull Json.ofScalar step.position) = true :=
    Json.isReadable_orNull fun position same =>
      Json.isReadable_ofScalar (backPosition position (Option.mem_toList.2 same))
  have stored : step.members = [("styles", .array (step.maps.map Styles.toJson)),
      ("offset", Json.orNull Json.ofScalar step.position)] := rfl
  simp only [stored, Json.membersReadable, maps, position, Bool.and_self]

/-- Style steps are read back one by one. -/
theorem StyleStep.list?_toJson {steps : List (StyleStep ν)}
    (back : AllReadBack (steps.flatMap StyleStep.numbers)) :
    Json.list? StyleStep.ofJson? (.array (steps.map StyleStep.toJson)) = some steps :=
  Json.list?_map fun _ member => StyleStep.ofJson?_members (back.of_mem member)

theorem StyleStep.isReadable_list {steps : List (StyleStep ν)}
    (back : AllReadBack (steps.flatMap StyleStep.numbers)) :
    Json.isReadable ν (.array (steps.map StyleStep.toJson)) = true :=
  Json.isReadable_array fun _ member => StyleStep.membersReadable_members (back.of_mem member)

theorem Timings.ofJson?_toJson {timings : Timings ν}
    (back : AllReadBack [timings.duration, timings.delay]) :
    Timings.ofJson? timings.toJson = some timings := by
  obtain ⟨duration, delay, easing⟩ := timings
  have readDuration := Json.asScalar?_ofScalar (back duration (by simp))
  have readDelay := Json.asScalar?_ofScalar (back delay (by simp))
  have readEasing : Json.nullable? Json.asText? (some (Json.ofText? easing)) = some easing := by
    cases easing <;> rfl
  have fields : (toJson ⟨duration, delay, easing⟩).fields? ["duration", "delay", "easing"] 2 =
      some [some (Json.ofScalar duration), some (Json.ofScalar delay),
        some (Json.ofText? easing)] :=
    Json.fields?_zip _ [_, _, _] 2 (by decide) rfl
  simp only [ofJson?, fields, Json.required?, Option.bind_some, readDuration, readDelay,
    readEasing]
  rfl

theorem Timing.ofJson?_toJson {timing : Timing ν} (back : AllReadBack timing.numbers) :
    Timing.ofJson? timing.toJson = some timing := by
  cases timing with
  | millis duration =>
    obtain ⟨literal, written, read⟩ :=
      (back duration (List.mem_singleton_self duration)).ofScalar_eq
    rw [toJson, written, ofJson?, read, Option.map_some]
  | expression source => rfl
  | resolved timings =>
    have record := Timings.ofJson?_toJson back
    exact congrArg (Option.map Timing.resolved) record

theorem Timing.isReadable_toJson {timing : Timing ν} (back : AllReadBack timing.numbers) :
    timing.toJson.isReadable ν = true := by
  cases timing with
  | millis duration => exact Json.isReadable_ofScalar (back duration (by simp [numbers]))
  | expression source => rfl
  | resolved timings =>
    have duration := Json.isReadable_ofScalar (back timings.duration (by simp [numbers]))
    have delay := Json.isReadable_ofScalar (back timings.delay (by simp [numbers]))
    simp only [toJson, Timings.toJson, Json.isReadable, Json.membersReadable, duration, delay,
      Json.isReadable_ofText?, Bool.and_self]

theorem Params.ofJson?_toJson {params : Params ν} (back : AllReadBack (Styles.numbers params)) :
    Params.ofJson? (Params.toJson params) = some params := by
  have fields := Json.fields?_singleton "params" (Styles.toJson params) 0
  simp only [ofJson?, toJson, fields, Json.orDefault?]
  exact Styles.ofJson?_toJson back

theorem Params.isReadable_toJson {params : Params ν} (back : AllReadBack (Styles.numbers params)) :
    (Params.toJson params).isReadable ν = true := by
  simp only [toJson, Json.isReadable, Json.membersReadable, Styles.isReadable_toJson back,
    Bool.and_self]

/-! ## Records with a kind -/

/-- The kind of a record is split off, and its other members stay. -/
theorem splitKind?_tagged (tag : String) {members : List (String × Json)}
    (absent : ∀ member ∈ members, member.1 ≠ kindKey) :
    splitKind? (tagged tag members) = some (.string tag, .object members) := by
  have others : members.filter (fun member => member.1 == kindKey) = [] := by
    rw [List.filter_eq_nil_iff]
    exact fun member there same => absent member there (beq_iff_eq.1 same)
  have kept : members.filter (fun member => member.1 != kindKey) = members := by
    rw [List.filter_eq_self]
    exact fun member there => bne_iff_ne.2 (absent member there)
  have kind : Json.field? ((kindKey, .string tag) :: members) kindKey =
      some (some (.string tag)) := by
    rw [Json.field?, List.filter_cons, if_pos (beq_self_eq_true kindKey), others]
  have rest : ((kindKey, Json.string tag) :: members).filter (fun member => member.1 != kindKey) =
      members := by
    rw [List.filter_cons, if_neg (by simp), kept]
  simp only [tagged, splitKind?, kind, rest, Option.bind_eq_bind, Option.bind_some]
  rfl

theorem isReadable_tagged (tag : String) (members : List (String × Json)) :
    (tagged tag members).isReadable ν = Json.membersReadable ν members := by
  have kind : Json.isReadable ν (.string tag) = true := rfl
  rw [tagged, Json.isReadable, Json.membersReadable, kind, Bool.true_and]

theorem StyleStep.members_names (step : StyleStep ν) :
    ∀ member ∈ step.members, member.1 ≠ kindKey := by
  simp [members, kindKey]

theorem Payload.ofJson?_toJson {payload : Payload ν} (back : AllReadBack payload.numbers) :
    Payload.ofJson? payload.toJson = some payload := by
  cases payload with
  | style step =>
    have split := splitKind?_tagged NodeKind.style.tag step.members_names
    have read := StyleStep.ofJson?_members back
    simp only [toJson, ofJson?, split, Option.bind_eq_bind, Option.bind_some, read]
    rfl
  | keyframes steps =>
    have split : splitKind? (tagged NodeKind.keyframes.tag
        [("steps", .array (steps.map StyleStep.toJson))]) = some (.string NodeKind.keyframes.tag,
          .object [("steps", .array (steps.map StyleStep.toJson))]) :=
      splitKind?_tagged _ (by simp [kindKey])
    have kind : isKeyframes? (.string NodeKind.keyframes.tag) = some true := rfl
    have fields := Json.fields?_singleton "steps" (.array (steps.map StyleStep.toJson)) 1
    have read := StyleStep.list?_toJson back
    simp only [toJson, ofJson?, split, kind, fields, Json.required?, Option.bind_eq_bind,
      Option.bind_some, if_true, read, Option.map_some]

theorem Payload.isReadable_toJson {payload : Payload ν} (back : AllReadBack payload.numbers) :
    payload.toJson.isReadable ν = true := by
  cases payload with
  | style step =>
    rw [toJson, isReadable_tagged]
    exact StyleStep.membersReadable_members back
  | keyframes steps =>
    rw [toJson, isReadable_tagged, Json.membersReadable, StyleStep.isReadable_list back]
    rfl

end Storyboard
