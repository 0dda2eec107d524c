import Storyboard.Proofs.Timeline.Emission
import Storyboard.Proofs.Timeline.Strand

/-!
# Easings on keyframes

A keyframe is marked with the easing of the segment that it starts. The mark is put on after the
cursor has moved to the end of the segment, on the keyframe that it has left. That is the same as
marking the keyframe under the cursor before the cursor moves (`Timeline.easeSegment_seek`).

So the keyframes of a timeline are marked as a function of time says (`Timeline.Strand.Marked`),
which changes at the cursor only (`Timeline.marked_mark`). A move that takes no time leaves
the cursor where it is, and then the keyframe that it marks is also the one on which it ends.
-/

set_option autoImplicit false

namespace Storyboard

variable {ν : Type} [Scalar ν]

namespace Timeline

/-- Easing the segment that a move opens is marking the keyframe from which the cursor moves. -/
theorem easeSegment_seek {timeline : Timeline ν}
    (bound : timeline.current < timeline.frames.length) (time : ν) (easing : String) :
    (timeline.seek time).easeSegment easing =
      (timeline.editCurrent fun styles => styles.insert easingKey (.text easing)).seek time := by
  have found (searched : Timeline ν) :
      (searched.frames.findIdx? fun frame => frame.time == time) =
        searched.times.findIdx? fun opened => opened == time := by
    rw [times, List.findIdx?_map]
    rfl
  have same : ((timeline.editCurrent fun styles =>
      styles.insert easingKey (.text easing)).frames.findIdx? fun frame => frame.time == time) =
        timeline.frames.findIdx? fun frame => frame.time == time := by
    rw [found, found, editCurrent, times_editFrame]
  unfold seek
  rw [same]
  cases timeline.frames.findIdx? fun frame => frame.time == time with
  | some index => rfl
  | none =>
    simp only [easeSegment, editCurrent, editFrame, Option.getD_some, List.length_modify,
      Timeline.mk.injEq, and_true, true_and]
    apply List.ext_getElem?
    intro index
    rw [List.getElem?_modify, List.getElem?_append, List.getElem?_append, List.length_modify,
      List.getElem?_modify]
    by_cases here : timeline.current = index
    · rw [if_pos (here ▸ bound), if_pos (here ▸ bound)]
    · simp only [here, if_false, id_map']

namespace Strand

/-- The keyframes are marked with easings as a function of time says, which has none where no
keyframe stands. -/
structure Marked (marks : ν → Option String) (strand : Strand ν) : Prop where
  frames : ∀ frame ∈ strand.frames, frame.2 = (marks frame.1).map Value.text
  elsewhere : ∀ time, Scalar.Settled time → time ∉ strand.times → marks time = none
  written : strand.written = none
  backfill : strand.backfill = none

namespace Marked

variable {marks : ν → Option String} {strand : Strand ν}

theorem blank (start : ν) : (Strand.blank start none).Marked fun _ => none where
  frames frame member := by
    rw [List.mem_singleton.1 member]
    rfl
  elsewhere _ _ _ := rfl
  written := rfl
  backfill := rfl

/-- A keyframe that is opened has no mark yet. -/
theorem seek (marked : strand.Marked marks) {time : ν} (there : Scalar.Settled time)
    (proper : (time == time) = true) : (strand.seek time).Marked marks := by
  unfold Strand.seek
  split
  · exact { marked with }
  · next absent =>
    have unequal := List.findIdx?_eq_none_iff.1 absent
    have fresh : time ∉ strand.times := by
      intro standing
      obtain ⟨frame, opened, rfl⟩ := List.mem_map.1 standing
      cases proper.symm.trans (unequal frame opened)
    refine { marked with
      frames := fun frame member => ?_, elsewhere := fun other settled unopened => ?_ }
    · rcases List.mem_append.1 member with earlier | last
      · exact marked.frames frame earlier
      · rw [List.mem_singleton.1 last, marked.elsewhere time there fresh]
        rfl
    · refine marked.elsewhere other settled fun standing => unopened ?_
      rw [times, List.map_append]
      exact List.mem_append_left _ standing

omit [Scalar ν] in
/-- An edit that keeps every value keeps the keyframes. -/
theorem frames_edit_of_kept {change : Option (Value ν) → Option (Value ν)}
    (kept : ∀ own, change own = own) : (strand.edit change).frames = strand.frames := by
  have same : change = id := funext kept
  rw [edit, same]
  exact List.modify_id _ _

/-- Carrying along what was written elsewhere carries no marks. -/
theorem edit_of_kept (marked : strand.Marked marks)
    {change : Option (Value ν) → Option (Value ν)} (kept : ∀ own, change own = own) :
    (strand.edit change).Marked marks := by
  refine { marked with
    frames := fun frame member => ?_, elsewhere := fun time settled unopened => ?_ }
  · exact marked.frames frame (frames_edit_of_kept kept ▸ member)
  · rw [times_edit] at unopened
    exact marked.elsewhere time settled unopened

theorem carry (marked : strand.Marked marks) : strand.carry.Marked marks :=
  marked.edit_of_kept fun own => by rw [marked.written, Option.or_none]

theorem snapshot (marked : strand.Marked marks) : strand.snapshot.Marked marks :=
  marked.edit_of_kept fun own => by rw [marked.written, Option.none_or]

end Marked

end Strand

/-- A mark is put on the keyframe under the cursor, in place of one that it may have. -/
theorem marked_mark [LawfulSums ν] {timeline : Timeline ν} (settled : timeline.skeleton.Settled)
    {marks : ν → Option String} (marked : (timeline.strand easingKey).Marked marks)
    (easing : String) :
    ((timeline.strand easingKey).edit fun _ => some (.text easing)).Marked fun time =>
      if timeline.cursor == time then some easing else marks time := by
  have proper : (timeline.cursor == timeline.cursor) = true :=
    (Scalar.proper_of_atMost settled.cursor_nonneg).2
  have placed {index : Nat} {frame : ν × Option (Value ν)}
      (found : (timeline.strand easingKey).frames[index]? = some frame) :
      timeline.times[index]? = some frame.1 := by
    rw [← timeline.times_strand easingKey, Strand.times, List.getElem?_map, found]
    rfl
  refine { marked with
    frames := fun frame member => ?_, elsewhere := fun time there unopened => ?_ }
  · obtain ⟨index, found⟩ := List.mem_iff_getElem?.1 member
    rw [Strand.getElem?_frames_edit] at found
    split at found
    · next current =>
      obtain ⟨before, stood, rfl⟩ := Option.map_eq_some_iff.1 found
      have here : before.1 = timeline.cursor := (settled.eq_cursor_iff (placed stood)).2 current
      rw [here, if_pos proper]
      rfl
    · next apart =>
      have opened : frame.1 ∈ timeline.times := List.mem_of_getElem? (placed found)
      have unequal : ¬(timeline.cursor == frame.1) = true := fun same =>
        apart ((settled.eq_cursor_iff (placed found)).1
          (settled.eq_of_beq (settled.settled _ opened) settled.cursor_mem same).symm)
      rw [if_neg unequal]
      exact marked.frames frame (List.mem_of_getElem? found)
  · rw [Strand.times_edit, times_strand] at unopened
    have unequal : ¬(timeline.cursor == time) = true := fun same =>
      unopened (settled.eq_of_beq there settled.cursor_mem same ▸ settled.cursor_mem)
    rw [if_neg unequal]
    exact marked.elsewhere time there (times_strand timeline easingKey ▸ unopened)

/-- An instruction shows the marks of its timeline by time, at the offsets taken of the length. -/
theorem forall₂_keyframes {timeline : Timeline ν} {marks : ν → Option String}
    (marked : (timeline.strand easingKey).Marked marks)
    (extended : (timeline.length == 0) = false) :
    List.Forall₂ (fun time keyframe =>
        keyframe.get? offsetKey = some (.number (time / timeline.instruction.duration)) ∧
          keyframe.get? easingKey = (marks time).map Value.text)
      timeline.risingTimes timeline.instruction.keyframes := by
  rw [keyframes_of_extended extended, risingTimes, List.forall₂_map_left_iff,
    List.forall₂_map_right_iff, List.forall₂_same]
  intro frame sorted
  have member := (Keyframe.perm_sortByTime timeline.frames).mem_iff.1 sorted
  have shown : frame.styles.get? easingKey = (marks frame.time).map Value.text :=
    marked.frames (frame.time, frame.styles.get? easingKey) (List.mem_map_of_mem member)
  have backfill : timeline.backfill.get? easingKey = none := marked.backfill
  refine ⟨get?_emit_offset _ _ _, ?_⟩
  rw [get?_emit _ _ _ (by decide), backfill, Option.or_none, shown]

end Timeline

end Storyboard
