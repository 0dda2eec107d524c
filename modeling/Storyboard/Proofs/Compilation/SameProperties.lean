import Storyboard.Proofs.Compilation.Upkeep
import Storyboard.Proofs.Timeline.Emission

/-!
# All keyframes of an instruction define the same properties

A keyframe shows a property by an entry of its own or by the backfill. So all keyframes of an
instruction define the same properties as soon as every property that some keyframe of the timeline
has of its own is backfilled (`Timeline.Strand.Backfilled`). Folding one timeline into another
would break this at the next write, since it marks properties as written that have no backfill;
but a timeline into which something was folded is never written on again, which is what the upkeep
of a walk is about.

The easing of a segment is put on a single keyframe and is left aside. Nothing is assumed about
the tree, the numbers, or the length of a frame (`Tree.compile_same_properties`).
-/

set_option autoImplicit false

namespace Storyboard

variable {ν : Type}

namespace Timeline.Strand

/-- Where a keyframe has the property of its own, the property is backfilled. -/
def Backfilled (strand : Strand ν) : Prop :=
  ∀ frame ∈ strand.frames, frame.2.isSome → strand.backfill.isSome

/-- Where the property was written, it is backfilled too. -/
structure Covered (strand : Strand ν) : Prop where
  frames : strand.Backfilled
  written : strand.written.isSome → strand.backfill.isSome

namespace Covered

variable {strand : Strand ν}

/-- Editing with a value that was there, or was written, keeps a strand covered. -/
theorem edit (covered : strand.Covered) {change : Option (Value ν) → Option (Value ν)}
    (known : ∀ own, (change own).isSome → own.isSome ∨ strand.backfill.isSome) :
    (strand.edit change).Covered where
  frames := by
    intro frame member shows
    rcases strand.mem_frames_edit member with same | ⟨before, earlier, rfl⟩
    · exact covered.frames frame same shows
    · rcases known before.2 shows with own | backfilled
      · exact covered.frames before earlier own
      · exact backfilled
  written := covered.written

/-- Capturing backfills the property. -/
theorem capture (covered : strand.Covered) (known : Option (Value ν)) :
    (strand.capture known).Covered ∧ (strand.capture known).backfill.isSome := by
  unfold Strand.capture
  split
  · next standing =>
    refine ⟨covered, ?_⟩
    rcases Bool.or_eq_true_iff.1 standing with written | backfilled
    · exact covered.written written
    · exact backfilled
  · exact ⟨⟨fun _ _ _ => rfl, fun _ => rfl⟩, rfl⟩

theorem write (covered : strand.Covered) (value : Value ν) (known : Option (Value ν)) :
    (strand.write value known).Covered := by
  obtain ⟨captured, backfilled⟩ := covered.capture known
  have recorded : ({ strand.capture known with written := some value } : Strand ν).Covered :=
    ⟨captured.frames, fun _ => backfilled⟩
  exact recorded.edit fun _ _ => .inr backfilled

theorem carry (covered : strand.Covered) : strand.carry.Covered := by
  refine covered.edit fun own shows => ?_
  cases own with
  | some value => exact .inl rfl
  | none => exact .inr (covered.written shows)

theorem snapshot (covered : strand.Covered) : strand.snapshot.Covered := by
  refine covered.edit fun own shows => ?_
  cases written : strand.written with
  | some value => exact .inr (covered.written (by rw [written]; rfl))
  | none =>
    rw [written] at shows
    exact .inl shows

theorem emptyStep (covered : strand.Covered) (known : Option (Value ν)) :
    (strand.emptyStep known).Covered := by
  cases known with
  | none => exact covered
  | some value =>
    obtain ⟨captured, backfilled⟩ := covered.capture (some value)
    show ((strand.capture (some value)).edit fun _ => some Value.automatic).Covered
    exact captured.edit fun _ _ => .inr backfilled

variable [Scalar ν]

theorem seek (covered : strand.Covered) (time : ν) : (strand.seek time).Covered := by
  unfold Strand.seek
  split
  · exact ⟨covered.frames, covered.written⟩
  · refine ⟨?_, covered.written⟩
    intro frame member shows
    rcases List.mem_append.1 member with earlier | opened
    · exact covered.frames frame earlier shows
    · rw [List.mem_singleton.1 opened] at shows
      exact absurd shows Bool.false_ne_true

end Covered

end Timeline.Strand

variable [Scalar ν]

/-- On every timeline the property is backfilled where a keyframe has it. -/
def Upkeep.backfilled : Upkeep ν where
  left _ _ strand := strand.Backfilled
  ready _ _ strand := strand.Covered
  moved _ _ strand := strand.Covered
  onward _ _ := True
  admits _ := True

theorem Upkeep.lawful_backfilled (settings : Settings ν) :
    (Upkeep.backfilled : Upkeep ν).Lawful settings where
  left_of_ready covered := covered.frames
  moved_of_ready covered := covered
  left_of_shown same backfilled := by
    have frames := congrArg Timeline.Strand.frames same
    have backfill := congrArg Timeline.Strand.backfill same
    intro frame member shows
    exact backfill ▸ backfilled frame (frames ▸ member) shows
  left_append _ backfilled := backfilled
  blank _ _ _ := by
    refine ⟨fun frame member shows => ?_, fun written => absurd written Bool.false_ne_true⟩
    rw [List.mem_singleton.1 member] at shows
    exact absurd shows Bool.false_ne_true
  seek covered _ := covered.seek _
  write value covered := covered.write value _
  carry covered := covered.carry
  snapshot covered := covered.snapshot
  emptyStep _ _ covered := covered.emptyStep _
  frame _ := trivial
  delay _ _ _ := trivial
  duration _ _ _ := trivial
  keyframes _ _ _ _ := (List.pairwise_of_forall fun _ _ => trivial).isChain

/-- A timeline whose strand is backfilled shows the property on all keyframes or on none. -/
theorem Timeline.contains_keyframe {timeline : Timeline ν} {property : String}
    (free : property ≠ offsetKey) (backfilled : (timeline.strand property).Backfilled)
    {keyframe : Styles ν} (emitted : keyframe ∈ timeline.instruction.keyframes) :
    keyframe.contains property = (timeline.backfill.get? property).isSome := by
  obtain ⟨styles, offset, rfl, origin⟩ := timeline.emitted_of_keyframe emitted
  rw [OrderedMap.contains, timeline.get?_emit styles offset free, Option.isSome_or]
  cases own : styles.get? property with
  | none => rfl
  | some value =>
    rcases origin with rfl | ⟨frame, member, rfl⟩
    · exact absurd own.symm (Option.some_ne_none value)
    · have shown : (frame.time, frame.styles.get? property) ∈ (timeline.strand property).frames :=
        List.mem_map_of_mem member
      have backfill : (timeline.backfill.get? property).isSome :=
        backfilled _ shown (by rw [own]; rfl)
      rw [backfill]
      rfl

/-- **All keyframes of an instruction define the same properties**, the easing of segments left
aside. -/
theorem Tree.compile_same_properties (tree : Tree ν) (settings : Settings ν)
    (starting destination : Styles ν) (scope : Params ν) :
    ∀ instruction ∈ (tree.compile settings starting destination scope).1,
      ∀ first ∈ instruction.keyframes, ∀ second ∈ instruction.keyframes,
        ∀ property, property ≠ easingKey → first.contains property = second.contains property := by
  intro instruction emitted first early second late property unreserved
  rcases tree.timeline_of_instruction emitted with noop | ⟨id, opened, _, frozen⟩
  · rw [noop] at early
    exact absurd early List.not_mem_nil
  · rw [frozen] at early late
    by_cases free : property = offsetKey
    · -- Every emitted keyframe has an offset, whether or not the timeline knows the name.
      obtain ⟨styles, offset, rfl, _⟩ := Timeline.emitted_of_keyframe _ early
      obtain ⟨others, position, rfl, _⟩ := Timeline.emitted_of_keyframe _ late
      rw [free, OrderedMap.contains, OrderedMap.contains, Timeline.get?_emit_offset,
        Timeline.get?_emit_offset]
      rfl
    · have walked := tree.tended_walk (Upkeep.lawful_backfilled settings) free unreserved
        (fun _ _ => trivial) starting scope
      have rested := walked.land (Upkeep.lawful_backfilled settings) free
        (tree.complete_walk settings starting scope) destination
      have backfilled := rested.left id opened
      rw [Timeline.contains_keyframe free backfilled early,
        Timeline.contains_keyframe free backfilled late]

/-- A branch that goes on behind a keyframe list with an empty step, beside one that writes the
property with which the first one begins. -/
def unevenBranches : Tree Binary64 :=
  .group
    [.sequence
      [.animateTo (.millis (.ofNat 100)) (.ofEntries [("color", .text "red")]),
        .animateThrough (.millis (.ofNat 50)) [.ofEntries [("width", .text "5px")],
          .ofEntries [("height", .text "5px")]],
        .animateEmpty (.millis (.ofNat 20)),
        .animateTo (.millis (.ofNat 50)) (.ofEntries [("opacity", .number (.ofNat 1))])],
    .animateTo (.millis (.ofNat 70)) (.ofEntries [("color", .text "blue")])]

theorem same_properties_of_unevenBranches :
    ∃ instruction first second,
      (unevenBranches.compile Settings.standard ∅ ∅ ∅).1[2]? = some instruction ∧
        instruction.keyframes[0]? = some first ∧ instruction.keyframes[2]? = some second ∧
          first.keys = ["color", "width", "height", "opacity", "offset"] ∧
            second.keys = ["opacity", "color", "width", "height", "offset"] ∧
              first.contains "width" = second.contains "width" := by
  have shape : ((unevenBranches.compile Settings.standard ∅ ∅ ∅).1[2]?.bind fun instruction =>
      instruction.keyframes[0]?.bind fun first => instruction.keyframes[2]?.map fun second =>
        (first.keys, second.keys)) =
      some (["color", "width", "height", "opacity", "offset"],
        ["opacity", "color", "width", "height", "offset"]) := by decide +kernel
  obtain ⟨instruction, emitted, shape⟩ := Option.bind_eq_some_iff.1 shape
  obtain ⟨first, early, shape⟩ := Option.bind_eq_some_iff.1 shape
  obtain ⟨second, late, shape⟩ := Option.map_eq_some_iff.1 shape
  obtain ⟨before, behind⟩ := Prod.mk.inj shape
  exact ⟨instruction, first, second, emitted, early, late, before, behind,
    unevenBranches.compile_same_properties Settings.standard ∅ ∅ ∅ instruction
      (List.mem_of_getElem? emitted) first (List.mem_of_getElem? early) second
        (List.mem_of_getElem? late) "width" (by decide)⟩

end Storyboard
