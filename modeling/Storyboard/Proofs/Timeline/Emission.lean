import Mathlib.Data.List.Forall2
import Storyboard.Proofs.OrderedMap.Lookup
import Storyboard.Proofs.Timeline.WellTimed

/-!
# What a timeline emits

An instruction is normalized when its keyframes carry numeric offsets that rise strictly from zero
to one, its duration and delay are not negative, and it takes no time only as one keyframe shown
at both ends (`Instruction.Normalized`).

The keyframes of an instruction are those of the timeline by time, and each offset is the time
divided by the last of them. On a well-timed timeline the times by order rise strictly from zero
(`Timeline.risingTimes`), so the instruction is normalized (`Timeline.normalized_instruction`).

An emitted keyframe shows its own entries and, where it has none, the backfill
(`Timeline.get?_emit`). On a well-timed timeline each of them stems from one keyframe of the
timeline, whose time is the offset taken of the length (`Timeline.frame_of_keyframe`).

In absolute time a keyframe stands its part of the duration behind the delay. Where a well-timed
timeline has a length, the keyframes of its instruction stand where the timeline has its own, one at
each time (`Timeline.placedAt_instruction`).
-/

set_option autoImplicit false

namespace Storyboard

/-- The offsets rise strictly from zero to one over at least two keyframes, no time is negative,
and an instruction without length shows one keyframe at both ends. -/
structure Instruction.Normalized (instruction : Instruction Rat) : Prop where
  offsets : ∃ offsets : List Rat,
    instruction.keyframes.map (fun keyframe => keyframe.get? offsetKey) =
        offsets.map (fun offset => some (.number offset)) ∧
      2 ≤ offsets.length ∧ offsets.head? = some 0 ∧ offsets.getLast? = some 1 ∧
        offsets.Pairwise (· < ·)
  duration_nonneg : 0 ≤ instruction.duration
  delay_nonneg : 0 ≤ instruction.delay
  instant : instruction.duration = 0 → ∃ styles : Styles Rat,
    instruction.keyframes =
      [styles.insert offsetKey (.number 0), styles.insert offsetKey (.number 1)]

/-! ## Keyframes in absolute time -/

namespace Instruction

/-- A keyframe stands at an absolute time: its part of the duration behind the delay. -/
def StandsAt (instruction : Instruction Rat) (keyframe : Styles Rat) (time : Rat) : Prop :=
  ∃ offset, keyframe.get? offsetKey = some (.number offset) ∧
    instruction.delay + offset * instruction.duration = time

/-- The keyframes stand at the absolute times of a kind by order, one at each of them. -/
def PlacedAt (instruction : Instruction Rat) (holds : Rat → Prop) : Prop :=
  ∃ times : List Rat, times.Pairwise (· < ·) ∧ (∀ time, time ∈ times ↔ holds time) ∧
    List.Forall₂ (fun time keyframe => instruction.StandsAt keyframe time) times
      instruction.keyframes

/-- At each of the times stands a keyframe. -/
theorem PlacedAt.exists_keyframe {instruction : Instruction Rat} {holds : Rat → Prop}
    (placed : instruction.PlacedAt holds) {time : Rat} (there : holds time) :
    ∃ keyframe ∈ instruction.keyframes, instruction.StandsAt keyframe time := by
  obtain ⟨times, _, exact, stand⟩ := placed
  obtain ⟨index, bound, rfl⟩ := List.mem_iff_getElem.1 ((exact time).2 there)
  have within := stand.length_eq ▸ bound
  exact ⟨_, List.getElem_mem within, stand.get bound within⟩

end Instruction

/-! ## Emitted keyframes -/

section Shown

variable {ν : Type} (timeline : Timeline ν)

namespace Timeline

/-- An emitted keyframe carries its offset. -/
theorem get?_emit_offset (styles : Styles ν) (offset : ν) :
    (timeline.emit styles offset).get? offsetKey = some (.number offset) := by
  rw [emit, OrderedMap.get?_insert, if_pos rfl]

/-- An emitted keyframe shows its own entries and, where it has none, the backfill. -/
theorem get?_emit (styles : Styles ν) (offset : ν) {property : String}
    (free : property ≠ offsetKey) :
    (timeline.emit styles offset).get? property =
      (styles.get? property).or (timeline.backfill.get? property) := by
  rw [emit, OrderedMap.get?_insert, if_neg free.symm, resolve, OrderedMap.get?_fillFrom]

/-- An emitted keyframe has the entries of one keyframe of the timeline, or none of its own. -/
theorem emitted_of_keyframe [Scalar ν] {keyframe : Styles ν}
    (emitted : keyframe ∈ timeline.instruction.keyframes) :
    ∃ styles offset, keyframe = timeline.emit styles offset ∧
      (styles = ∅ ∨ ∃ frame ∈ timeline.frames, styles = frame.styles) := by
  have current : timeline.currentStyles = ∅ ∨
      ∃ frame ∈ timeline.frames, timeline.currentStyles = frame.styles := by
    unfold currentStyles
    split
    · next frame found => exact .inr ⟨frame, List.mem_of_getElem? found, rfl⟩
    · exact .inl rfl
  simp only [instruction] at emitted
  split at emitted
  · rcases List.mem_cons.1 emitted with first | rest
    · exact ⟨_, _, first, current⟩
    · exact ⟨_, _, List.mem_singleton.1 rest, current⟩
  · obtain ⟨frame, member, rfl⟩ := List.mem_map.1 emitted
    exact ⟨_, _, rfl,
      .inr ⟨frame, (Keyframe.perm_sortByTime timeline.frames).mem_iff.1 member, rfl⟩⟩

end Timeline

end Shown

namespace Timeline

variable {timeline : Timeline Rat}

/-- The first keyframe of a well-timed timeline by order stands at zero. -/
theorem head?_risingTimes (timed : timeline.skeleton.WellTimed) :
    timeline.risingTimes.head? = some 0 := by
  have opened := (mem_risingTimes timeline 0).2 timed.opened
  have rising := pairwise_risingTimes timed.settled
  have nonneg : ∀ time ∈ timeline.risingTimes, 0 ≤ time := fun time member =>
    timed.times_nonneg time ((mem_risingTimes timeline time).1 member)
  cases order : timeline.risingTimes with
  | nil => simp [order] at opened
  | cons first rest =>
    rw [order] at opened rising nonneg
    rcases List.mem_cons.1 opened with first_zero | later
    · rw [List.head?_cons, first_zero]
    · have below : first < 0 := (List.pairwise_cons.1 rising).1 0 later
      exact absurd (nonneg first List.mem_cons_self) (not_le.2 below)

theorem length_nonneg (timed : timeline.skeleton.WellTimed) : 0 ≤ timeline.length :=
  timed.times_nonneg _ (length_mem_times timed.settled)

/-- No keyframe of a well-timed timeline is later than its end. -/
theorem time_le_length (timed : timeline.skeleton.WellTimed) {time : Rat}
    (opened : time ∈ timeline.times) : time ≤ timeline.length :=
  Scalar.atMost_exact.1 (time_atMost_length timed.settled opened)

/-- The keyframe under the cursor of a well-timed timeline. -/
theorem frame_underCursor (timed : timeline.skeleton.WellTimed) :
    ∃ frame ∈ timeline.frames, timeline.frames[timeline.current]? = some frame ∧
      frame.time = timeline.cursor ∧ timeline.currentStyles = frame.styles := by
  have under : (timeline.frames.map Keyframe.time)[timeline.current]? = some timeline.cursor :=
    timed.underCursor
  rw [List.getElem?_map] at under
  obtain ⟨frame, found, time⟩ := Option.map_eq_some_iff.1 under
  refine ⟨frame, List.mem_of_getElem? found, found, time, ?_⟩
  rw [currentStyles, found]

/-- A span with a length emits its keyframes by time. -/
theorem keyframes_of_length_ne (extended : timeline.length ≠ 0) :
    timeline.instruction.keyframes =
      (Keyframe.sortByTime timeline.frames).map fun frame =>
        timeline.emit frame.styles (frame.time / timeline.length) :=
  keyframes_of_extended (beq_eq_false_iff_ne.2 extended)

/-- An emitted keyframe of a well-timed timeline stems from one keyframe of the timeline, which
stands at the offset taken of the length. -/
theorem frame_of_keyframe (timed : timeline.skeleton.WellTimed) {keyframe : Styles Rat}
    (emitted : keyframe ∈ timeline.instruction.keyframes) :
    ∃ frame ∈ timeline.frames, ∃ offset, keyframe = timeline.emit frame.styles offset ∧
      frame.time = offset * timeline.length := by
  by_cases instant : timeline.length = 0
  · obtain ⟨frame, member, _, time, current⟩ := frame_underCursor timed
    have opened : frame.time ∈ timeline.times := List.mem_map_of_mem member
    have atStart : frame.time = 0 :=
      le_antisymm (instant ▸ time_le_length timed opened) (timed.times_nonneg _ opened)
    have keyframes : timeline.instruction.keyframes =
        [timeline.emit frame.styles 0, timeline.emit frame.styles 1] := by
      simp [instruction, instant, current]
    rw [keyframes] at emitted
    rcases List.mem_cons.1 emitted with first | rest
    · exact ⟨frame, member, 0, first, by rw [atStart, zero_mul]⟩
    · exact ⟨frame, member, 1, List.mem_singleton.1 rest, by rw [atStart, instant, mul_zero]⟩
  · rw [keyframes_of_length_ne instant] at emitted
    obtain ⟨frame, sorted, rfl⟩ := List.mem_map.1 emitted
    have member := (Keyframe.perm_sortByTime timeline.frames).mem_iff.1 sorted
    exact ⟨frame, member, _, rfl, (div_mul_cancel₀ _ instant).symm⟩

/-- A keyframe behind the start is emitted, at the offset that its time makes of the length. -/
theorem emit_mem_keyframes (timed : timeline.skeleton.WellTimed)
    {frame : Keyframe Rat} (member : frame ∈ timeline.frames) (extended : 0 < frame.time) :
    ∃ offset, timeline.emit frame.styles offset ∈ timeline.instruction.keyframes ∧
      offset * timeline.length = frame.time := by
  have lasting : timeline.length ≠ 0 :=
    (extended.trans_le (time_le_length timed (List.mem_map_of_mem member))).ne'
  refine ⟨frame.time / timeline.length, ?_, div_mul_cancel₀ _ lasting⟩
  rw [keyframes_of_length_ne lasting]
  exact List.mem_map.2 ⟨frame, (Keyframe.perm_sortByTime _).mem_iff.2 member, rfl⟩

/-- The keyframes of an instruction stand where its timeline has its own. -/
theorem placedAt_instruction (timed : timeline.skeleton.WellTimed)
    (extended : timeline.length ≠ 0) {holds : Rat → Prop}
    (opened : ∀ time, holds time ↔ ∃ since ∈ timeline.times, time = timeline.start + since) :
    timeline.instruction.PlacedAt holds := by
  refine ⟨timeline.risingTimes.map (timeline.start + ·), ?_, fun time => ?_, ?_⟩
  · exact (pairwise_risingTimes timed.settled).map _ fun _ _ earlier => add_lt_add_right earlier _
  · simp only [List.mem_map, mem_risingTimes, opened, eq_comm]
  · rw [keyframes_of_length_ne extended, risingTimes, List.map_map, List.forall₂_map_left_iff,
      List.forall₂_map_right_iff, List.forall₂_same]
    intro shown _
    refine ⟨_, get?_emit_offset _ _ _, ?_⟩
    exact congrArg (timeline.start + ·) (div_mul_cancel₀ _ extended)

/-- **A well-timed timeline emits a normalized instruction.** -/
theorem normalized_instruction (timed : timeline.skeleton.WellTimed) :
    timeline.instruction.Normalized := by
  have start := head?_risingTimes timed
  have final := getLast?_risingTimes timed.settled
  have rising := pairwise_risingTimes timed.settled
  by_cases instant : timeline.length = 0
  · have keyframes : timeline.instruction.keyframes =
        [timeline.emit timeline.currentStyles 0, timeline.emit timeline.currentStyles 1] := by
      simp [instruction, instant]
    refine {
      offsets := ⟨[0, 1], ?_, le_refl 2, rfl, rfl, by simp⟩
      duration_nonneg := length_nonneg timed
      delay_nonneg := timed.start_nonneg
      instant := fun _ => ⟨timeline.resolve timeline.currentStyles, keyframes⟩ }
    simp only [keyframes, List.map_cons, List.map_nil, get?_emit_offset]
  · have positive : 0 < timeline.length :=
      lt_of_le_of_ne (length_nonneg timed) (Ne.symm instant)
    have keyframes := keyframes_of_length_ne instant
    refine {
      offsets := ⟨timeline.risingTimes.map (· / timeline.length), ?_, ?_, ?_, ?_, ?_⟩
      duration_nonneg := length_nonneg timed
      delay_nonneg := timed.start_nonneg
      instant := fun zero => absurd zero instant }
    · rw [keyframes, risingTimes, List.map_map, List.map_map, List.map_map]
      exact List.map_congr_left fun frame _ => get?_emit_offset timeline frame.styles _
    · -- The first time is zero and the last is not, so there are two of them.
      rw [List.length_map]
      exact one_lt_length_of_mem (List.mem_of_getLast? final) (List.mem_of_head? start) instant
    · rw [List.head?_map, start, Option.map_some, zero_div]
    · rw [List.getLast?_map, final, Option.map_some, div_self instant]
    · exact rising.map _ fun _ _ earlier => div_lt_div_of_pos_right earlier positive

/-! ## The end of a timeline -/

/-- Where no keyframe is behind the cursor, the timeline ends at the cursor. -/
theorem length_eq_cursor (timed : timeline.skeleton.WellTimed)
    (foremost : ∀ time ∈ timeline.times, time ≤ timeline.cursor) :
    timeline.length = timeline.cursor := by
  have ends := List.mem_of_getLast? (getLast?_risingTimes timed.settled)
  have stands : timeline.cursor ∈ timeline.times := List.mem_of_getElem? timed.underCursor
  exact le_antisymm (foremost _ ((mem_risingTimes timeline _).1 ends)) (time_le_length timed stands)

/-- Where no keyframe is behind the cursor, the last one emitted is the one under the cursor. -/
theorem getLast?_keyframes (timed : timeline.skeleton.WellTimed)
    (foremost : ∀ time ∈ timeline.times, time ≤ timeline.cursor) :
    timeline.instruction.keyframes.getLast? = some (timeline.emit timeline.currentStyles 1) := by
  by_cases instant : timeline.length = 0
  · simp [instruction, instant]
  · have final := getLast?_risingTimes timed.settled
    rw [risingTimes, List.getLast?_map] at final
    obtain ⟨last, sorted, time⟩ := Option.map_eq_some_iff.1 final
    obtain ⟨frame, member, _, stands, current⟩ := frame_underCursor timed
    have same : last = frame := by
      refine List.inj_on_of_nodup_map timed.distinct ?_ member ?_
      · exact (Keyframe.perm_sortByTime timeline.frames).mem_iff.1 (List.mem_of_getLast? sorted)
      · rw [time, stands, length_eq_cursor timed foremost]
    rw [keyframes_of_length_ne instant, List.getLast?_map, sorted, Option.map_some, time,
      div_self instant, same, current]

/-- An instruction has something to play where its timeline has a length, or has landed. -/
theorem hasStyling_of_landed (timed : timeline.skeleton.WellTimed)
    (landed : timeline.landed = true) : timeline.hasStyling = true := by
  by_cases stands : timeline.cursor = 0
  · simp [hasStyling, landed, stands]
  · exact hasStyling_of_time timed.settled (List.mem_of_getElem? timed.underCursor) stands

end Timeline

end Storyboard
