import Storyboard.Proofs.Compilation.Emitted
import Storyboard.Proofs.Compilation.Upkeep
import Storyboard.Proofs.Timeline.Emission
import Storyboard.Proofs.Timeline.Marks

/-!
# Morphing

An animated step without a payload leads from the starting styles to the destination. That is how a
trigger goes from one state to the next. `Tree.compile_animate_morphs` says what it shows: the
starting side up to the end of the delay, the destination at the end of the step, and beside the
values of one side the computed style for what only the other side has (`Styles.Shows`, `Morphs`).

No property is written by another, so the walk is followed one property at a time. Up to the move a
property rests on its starting value (`Timeline.Strand.resting`). The move marks it as computed on
one more keyframe (`Timeline.Strand.moved`), where the destination then overwrites the mark
(`Timeline.Strand.Morphed`). The lemmas on stages say the same of all properties at once
(`Stage.Rests`, `Stage.Moved`, `Stage.Arrives`).

The move needs a keyframe of its own, so the duration has to move the clock on. Of exact numbers
every positive duration does. In rounded arithmetic a duration can be too small for the delay in
front of it: the clock absorbs it, the keyframe at the end of the delay is also the last one, and
the destination is shown there (`lateFade_fades_early`).
-/

set_option autoImplicit false

namespace Storyboard

variable {ν : Type}

/-! ## What a morph shows -/

section Statement

variable [Scalar ν]

/-- A keyframe shows the values of one side, and leaves the properties that only the other side has
to the computed style. Beside them it has its offset, and maybe an easing. -/
def Styles.Shows (keyframe own other : Styles ν) (easing : Option String) (offset : ν) : Prop :=
  ∀ property, keyframe.get? property =
    if property = offsetKey then some (.number offset)
    else if property = easingKey then easing.map Value.text
    else (own.get? property).or ((other.get? property).map fun _ => Value.automatic)

/-- The keyframes that lead from one side to the other in a timing. With a delay the starting side
is held from one keyframe to the next, and the easing is on the one from which the move sets out. -/
inductive Morphs (timings : Timings ν) (starting destination : Styles ν) :
    List (Styles ν) → Prop where
  | atOnce {opening closing : Styles ν} (instant : ¬0 < timings.delay)
      (opens : opening.Shows starting destination timings.easing 0)
      (closes : closing.Shows destination starting none
        ((timings.delay + timings.duration) / (timings.delay + timings.duration))) :
      Morphs timings starting destination [opening, closing]
  | delayed {first opening closing : Styles ν} (waits : 0 < timings.delay)
      (holds : first.Shows starting destination none 0)
      (opens : opening.Shows starting destination timings.easing
        (timings.delay / (timings.delay + timings.duration)))
      (closes : closing.Shows destination starting none
        ((timings.delay + timings.duration) / (timings.delay + timings.duration))) :
      Morphs timings starting destination [first, opening, closing]

/-- The instruction shows nothing but a morph: it begins with the animation, takes the delay and the
duration of the timing, and has no easing of its own. -/
structure Instruction.RunsMorph (timings : Timings ν) (starting destination : Styles ν)
    (instruction : Instruction ν) : Prop where
  kind : instruction.kind = .timelineAnimation
  delay : instruction.delay = 0
  duration : instruction.duration = timings.delay + timings.duration
  easing : instruction.easing = none
  keyframes : Morphs timings starting destination instruction.keyframes

end Statement

/-! ## One property in a morph -/

namespace Timeline.Strand

section Frames

variable {earlier : List ν} {time later : ν} {own opening closing : Option (Value ν)}

/-- Before the move the property has its starting value at every keyframe up to the cursor. -/
def resting [Scalar ν] (earlier : List ν) (time : ν) (own : Option (Value ν)) : Strand ν where
  start := 0
  cursor := time
  frames := earlier.map (fun opened => (opened, own)) ++ [(time, own)]
  current := earlier.length
  written := own
  inherited := none
  backfill := own.map fun _ => Value.automatic

/-- Behind the move there is one more keyframe, which is under the cursor. -/
def moved [Scalar ν] (earlier : List ν) (time later : ν) (own opening closing : Option (Value ν)) :
    Strand ν where
  start := 0
  cursor := later
  frames := earlier.map (fun opened => (opened, own)) ++ [(time, opening)] ++ [(later, closing)]
  current := earlier.length + 1
  written := own
  inherited := none
  backfill := own.map fun _ => Value.automatic

variable [Scalar ν]

/-- Where no keyframe stands, moving the cursor opens one. -/
theorem seek_of_absent {strand : Strand ν} {time : ν}
    (absent : ∀ frame ∈ strand.frames, (frame.1 == time) = false) :
    strand.seek time =
      { strand with
        cursor := time
        frames := strand.frames ++ [(time, none)]
        current := strand.frames.length } := by
  have none : (strand.frames.findIdx? fun frame => frame.1 == time) = none :=
    List.findIdx?_eq_none_iff.2 absent
  rw [seek, none]

/-- The delay in front of a move is one more keyframe with the starting value. -/
theorem snapshot_seek_resting (absent : ((0 : ν) == time) = false) :
    ((resting [] 0 own).seek time).snapshot = resting [0] time own := by
  have opened : ∀ frame ∈ (resting ([] : List ν) 0 own).frames, (frame.1 == time) = false :=
    List.forall_mem_singleton.2 absent
  rw [seek_of_absent opened]
  simp [snapshot, edit, resting]

omit [Scalar ν] in
theorem edit_id (strand : Strand ν) : strand.edit id = strand := by
  have kept : strand.frames.modify strand.current (fun frame => (frame.1, id frame.2)) =
      strand.frames := List.modify_id _ _
  rw [edit, kept]

/-- Marking the keyframe under the cursor and moving on. -/
theorem seek_edit_resting (change : Option (Value ν) → Option (Value ν))
    (absent : ∀ opened ∈ earlier ++ [time], (opened == later) = false) :
    ((resting earlier time own).edit change).seek later =
      moved earlier time later own (change own) none := by
  have marked : (resting earlier time own).edit change =
      { resting earlier time own with
        frames := earlier.map (fun opened => (opened, own)) ++ [(time, change own)] } := by
    have last : (earlier.map (fun opened => (opened, own)) ++ [(time, own)]).modify
        (earlier.map fun opened => (opened, own)).length
          (fun frame => (frame.1, change frame.2)) =
        earlier.map (fun opened => (opened, own)) ++ [(time, change own)] :=
      modify_concat _ _
    rw [List.length_map] at last
    simp only [edit, resting, last]
  have opened : ∀ frame ∈ ((resting earlier time own).edit change).frames,
      (frame.1 == later) = false := by
    rw [marked]
    intro frame member
    refine absent frame.1 ?_
    rcases List.mem_append.1 member with before | last
    · obtain ⟨time, listed, rfl⟩ := List.mem_map.1 before
      exact List.mem_append_left _ listed
    · rw [List.mem_singleton.1 last]
      exact List.mem_append_right _ List.mem_cons_self
  rw [seek_of_absent opened, marked]
  simp [resting, moved]

/-- Changing the keyframe behind a move. -/
theorem edit_moved (change : Option (Value ν) → Option (Value ν)) :
    (moved earlier time later own opening closing).edit change =
      moved earlier time later own opening (change closing) := by
  have last : (earlier.map (fun opened => (opened, own)) ++ [(time, opening)] ++
      [(later, closing)]).modify
        (earlier.map (fun opened => (opened, own)) ++ [(time, opening)]).length
          (fun frame => (frame.1, change frame.2)) =
      earlier.map (fun opened => (opened, own)) ++ [(time, opening)] ++ [(later, change closing)] :=
    modify_concat _ _
  rw [List.length_append, List.length_map, List.length_singleton] at last
  simp only [edit, moved, last]

/-- Ending the step leaves what the starting side has to the computed style. -/
theorem emptyStep_moved :
    (moved earlier time later own opening none).emptyStep own =
      moved earlier time later own opening (own.map fun _ => Value.automatic) := by
  cases own with
  | none => rfl
  | some value => exact edit_moved fun _ => some Value.automatic

/-- The destination has been written behind a move: where it has a value that is shown, and the
value from before is the computed style wherever it was captured. -/
structure Morphed (earlier : List ν) (time later : ν) (own opening destination : Option (Value ν))
    (strand : Strand ν) : Prop where
  start : strand.start = 0
  frames : strand.frames = earlier.map (fun opened => (opened, own)) ++ [(time, opening)] ++
    [(later, destination.or (own.map fun _ => Value.automatic))]
  backfill : strand.backfill = (own.or destination).map fun _ => Value.automatic

theorem morphed_moved : (moved earlier time later own opening
    (own.map fun _ => Value.automatic)).Morphed earlier time later own opening none :=
  ⟨rfl, rfl, by rw [Option.or_none]; rfl⟩

/-- What was written before is on the last keyframe already. -/
theorem morphed_carry : (moved earlier time later own opening
    (own.map fun _ => Value.automatic)).carry.Morphed earlier time later own opening none := by
  have carried : (moved earlier time later own opening
      (own.map fun _ => Value.automatic)).carry =
        moved earlier time later own opening (own.map fun _ => Value.automatic) := by
    refine (edit_moved _).trans ?_
    cases own <;> rfl
  rw [carried]
  exact morphed_moved

theorem morphed_write (value : Value ν) : ((moved earlier time later own opening
    (own.map fun _ => Value.automatic)).write value own).Morphed earlier time later own opening
      (some value) := by
  have frames : ((moved earlier time later own opening
      (own.map fun _ => Value.automatic)).write value own).frames =
        ((moved earlier time later own opening (own.map fun _ => Value.automatic)).edit fun _ =>
          some value).frames := by
    cases own <;> rfl
  refine ⟨?_, ?_, ?_⟩
  · cases own <;> rfl
  · rw [frames, edit_moved]
    rfl
  · cases own <;> rfl

end Frames

end Timeline.Strand

/-! ## The timeline of a morph -/

namespace Stage

variable [Scalar ν] {starting : Styles ν} {earlier : List ν} {time later : ν} {stage : Stage ν}

/-- There is one timeline, with given strands and without an easing of its own, and the starting
styles are shared. -/
structure Strung (starting : Styles ν) (strands : String → Timeline.Strand ν) (stage : Stage ν) :
    Prop where
  size : stage.size = 1
  easing : (stage.timeline 0).easing = none
  shared : ∀ property, property ≠ offsetKey →
    stage.shared.get? property = starting.get? property
  strand : ∀ property, property ≠ offsetKey → stage.strand property 0 = strands property

theorem Strung.opened {strands : String → Timeline.Strand ν}
    (strung : stage.Strung starting strands) : 0 < stage.size := by
  rw [strung.size]
  exact Nat.one_pos

/-- Every property has its starting value up to the cursor. -/
def Rests (starting : Styles ν) (earlier : List ν) (time : ν) (stage : Stage ν) : Prop :=
  stage.Strung starting fun property => .resting earlier time (starting.get? property)

namespace Rests

theorem cursor (rests : stage.Rests starting earlier time) : (stage.timeline 0).cursor = time :=
  congrArg Timeline.Strand.cursor (rests.strand easingKey (by decide))

/-- The cursor is on a keyframe. -/
theorem current_lt (rests : stage.Rests starting earlier time) :
    (stage.timeline 0).current < (stage.timeline 0).frames.length := by
  have resting := rests.strand easingKey (by decide)
  have current := congrArg Timeline.Strand.current resting
  have frames := congrArg (fun strand => strand.frames.length) resting
  simp only [strand, Timeline.strand, Timeline.Strand.resting, List.length_map, List.length_append,
    List.length_singleton] at current frames
  omega

/-- A compilation begins with the starting styles at zero. -/
theorem start (starting : Styles ν) : (Traversal.start starting).stage.Rests starting [] 0 := by
  have opened : 0 < (Stage.empty.create (0 : ν)).size := Nat.one_pos
  refine ⟨?_, ?_, fun property free => ?_, fun property free => ?_⟩
  · exact size_eq_of_skeletons (skeletons_write (Stage.empty.create (0 : ν)) 0 starting none)
  · exact congrArg Prod.fst (header_write (Stage.empty.create (0 : ν)) 0 0 starting none)
  · have written := congrArg Holding.shared (holding_write opened free starting none)
    refine written.trans ?_
    cases starting.get? property <;> rfl
  · refine (strand_write opened free starting (.inr rfl)).trans ?_
    cases starting.get? property <;> rfl

variable [LawfulScalar ν]

/-- During a delay the starting side rests. -/
theorem delay {delay : ν} (rests : stage.Rests starting [] 0) (waits : 0 < delay) :
    ((stage.modify 0 fun timeline => timeline.forwardTo (timeline.cursor + delay)).modify 0
      Timeline.snapshot).Rests starting [0] delay := by
  have reached : Scalar.larger ((stage.timeline 0).cursor + delay) 0 = delay := by
    rw [rests.cursor, LawfulScalar.zero_add_of_pos waits]
    exact if_pos waits
  rw [modify_modify]
  refine ⟨(size_modify _ _ _).trans rests.size, ?_, rests.shared, fun property free => ?_⟩
  · have kept : ((stage.modify 0 fun timeline =>
        (timeline.forwardTo (timeline.cursor + delay)).snapshot).timeline 0).header =
          (stage.timeline 0).header :=
      stage.header_modify 0 0 fun timeline => timeline.header_seek _
    exact (congrArg Prod.fst kept).trans rests.easing
  · rw [strand_modify rests.opened, Timeline.strand_snapshot, Timeline.forwardTo,
      Timeline.strand_seek, reached]
    have resting : (stage.timeline 0).strand property = _ := rests.strand property free
    rw [resting]
    exact Timeline.Strand.snapshot_seek_resting (Scalar.beq_eq_false_of_lt waits)

end Rests

/-- What the keyframe shows from which a move sets out. -/
def setOut (starting : Styles ν) (easing : Option String) (property : String) : Option (Value ν) :=
  if property = easingKey then easing.map Value.text else starting.get? property

omit [Scalar ν] in
/-- The keyframe shows the starting side but for the easing. -/
theorem setOut_of_unmarked {easing : Option String} {property : String}
    (bare : starting.get? easingKey = none) (unmarked : property ≠ easingKey ∨ easing = none) :
    setOut starting easing property = starting.get? property := by
  unfold setOut
  split
  · next reserved =>
    obtain rfl := unmarked.resolve_left fun apart => apart reserved
    rw [reserved, bare]
    rfl
  · rfl

/-- Behind a move every property of the starting side is left to the computed style. -/
def Moved (starting : Styles ν) (earlier : List ν) (time later : ν) (easing : Option String)
    (stage : Stage ν) : Prop :=
  stage.Strung starting fun property =>
    .moved earlier time later (starting.get? property) (setOut starting easing property)
      ((starting.get? property).map fun _ => Value.automatic)

/-- The easing is put on the keyframe from which the move sets out. -/
theorem Rests.strand_eased (rests : stage.Rests starting earlier time)
    (bare : starting.get? easingKey = none) {duration : ν}
    (reached : Scalar.larger (time + duration) 0 = later)
    (absent : ∀ opened ∈ earlier ++ [time], (opened == later) = false) (easing : Option String)
    {property : String} (free : property ≠ offsetKey) :
    ((stage.modify 0 fun timeline => timeline.forwardTo (timeline.cursor + duration)).easeSegment 0
      easing).strand property 0 =
        .moved earlier time later (starting.get? property) (setOut starting easing property)
          none := by
  have opened : 0 < (stage.modify 0 fun timeline =>
      timeline.forwardTo (timeline.cursor + duration)).size := by
    rw [size_modify]
    exact rests.opened
  have moved : (stage.modify 0 fun timeline =>
      timeline.forwardTo (timeline.cursor + duration)).timeline 0 =
        (stage.timeline 0).seek later := by
    rw [timeline_modify rests.opened, if_pos rfl, Timeline.forwardTo, rests.cursor, reached]
  have resting : (stage.timeline 0).strand property = _ := rests.strand property free
  by_cases marked : property = easingKey ∧ easing ≠ none
  · obtain ⟨rfl, some⟩ := marked
    obtain ⟨word, rfl⟩ := Option.ne_none_iff_exists'.1 some
    refine (strand_modify opened fun timeline => timeline.easeSegment word).trans ?_
    rw [moved, Timeline.easeSegment_seek rests.current_lt, Timeline.strand_seek,
      Timeline.strand_editCurrent, resting]
    · exact Timeline.Strand.seek_edit_resting (fun _ => Option.some (Value.text word)) absent
    · intro styles
      rw [OrderedMap.get?_insert, if_pos rfl]
  · have unreserved : property ≠ easingKey ∨ easing = none := by
      by_cases same : property = easingKey
      · exact .inr (Classical.not_not.1 fun some => marked ⟨same, some⟩)
      · exact .inl same
    have same := setOut_of_unmarked bare unreserved
    have edited : ((Timeline.Strand.resting earlier time (starting.get? property)).edit id).seek
        later = .moved earlier time later (starting.get? property) (starting.get? property) none :=
      Timeline.Strand.seek_edit_resting id absent
    rw [strand_easeSegment opened unreserved, strand, moved, Timeline.strand_seek, resting, same,
      ← edited, Timeline.Strand.edit_id]

/-- The move ends without writing. -/
theorem Rests.move (rests : stage.Rests starting earlier time)
    (bare : starting.get? easingKey = none) {duration : ν}
    (reached : Scalar.larger (time + duration) 0 = later)
    (absent : ∀ opened ∈ earlier ++ [time], (opened == later) = false) (easing : Option String) :
    ((stage.modify 0 fun timeline => timeline.forwardTo (timeline.cursor + duration)).writeEmptyStep
      0 easing).Moved starting earlier time later easing := by
  have size : ((stage.modify 0 fun timeline =>
      timeline.forwardTo (timeline.cursor + duration)).easeSegment 0 easing).size = 1 :=
    (size_eq_of_skeletons (skeletons_easeSegment _ 0 easing)).trans
      ((size_modify _ _ _).trans rests.size)
  have shared : ((stage.modify 0 fun timeline =>
      timeline.forwardTo (timeline.cursor + duration)).easeSegment 0 easing).shared =
        stage.shared := by
    cases easing <;> rfl
  have unmarked : (stage.modify 0 fun timeline =>
      timeline.forwardTo (timeline.cursor + duration)).writeEmptyStep 0 easing =
        ((stage.modify 0 fun timeline =>
          timeline.forwardTo (timeline.cursor + duration)).easeSegment 0 easing).writeEmptyStep 0
            none := by
    cases easing <;> rfl
  refine ⟨?_, ?_, fun property free => ?_, fun property free => ?_⟩
  · rw [unmarked]
    exact (size_eq_of_skeletons (skeletons_writeEmptyStep _ 0 none)).trans size
  · have moved : ((stage.modify 0 fun timeline =>
        timeline.forwardTo (timeline.cursor + duration)).timeline 0).header =
          (stage.timeline 0).header :=
      stage.header_modify 0 0 fun timeline => timeline.header_seek _
    have kept := (header_writeEmptyStep _ 0 0 easing).trans moved
    exact (congrArg Prod.fst kept).trans rests.easing
  · refine Eq.trans ?_ (rests.shared property free)
    cases easing <;> rfl
  · have opened := Nat.lt_of_lt_of_eq Nat.one_pos size.symm
    rw [unmarked, strand_writeEmptyStep opened (.inr rfl),
      rests.strand_eased bare reached absent easing free, shared, rests.shared property free]
    exact Timeline.Strand.emptyStep_moved

/-- There is one timeline, without an easing of its own, on which the destination has been written
behind a move. -/
structure Arrives (starting destination : Styles ν) (earlier : List ν) (time later : ν)
    (mark : Option String) (stage : Stage ν) : Prop where
  size : stage.size = 1
  easing : (stage.timeline 0).easing = none
  strand : ∀ property, property ≠ offsetKey → (stage.strand property 0).Morphed earlier time later
    (starting.get? property) (setOut starting mark property) (destination.get? property)

/-- The destination is landed behind the move. -/
theorem Moved.arrives {easing : Option String}
    (moved : stage.Moved starting earlier time later easing) (destination : Styles ν) :
    (if destination.isEmpty then stage else stage.land 0 destination).Arrives starting destination
      earlier time later easing := by
  split
  · next empty =>
    refine ⟨moved.size, moved.easing, fun property free => ?_⟩
    rw [moved.strand property free, OrderedMap.get?_of_isEmpty empty]
    exact Timeline.Strand.morphed_moved
  · have landed := timeline_land moved.opened destination
    refine ⟨?_, ?_, fun property free => ?_⟩
    · exact (size_eq_of_skeletons (skeletons_land _ 0 _)).trans moved.size
    · have kept := congrArg Prod.fst (stage.header_write 0 0 destination none)
      rw [landed]
      exact kept.trans moved.easing
    · have written := strand_write moved.opened free destination (.inr rfl)
      rw [moved.strand property free, moved.shared property free] at written
      have same := congrArg (fun timeline => timeline.strand property) landed
      have strand : (stage.land 0 destination).strand property 0 = _ := same.trans written
      rw [strand]
      cases destination.get? property with
      | none => exact Timeline.Strand.morphed_carry
      | some value => exact Timeline.Strand.morphed_write value

end Stage

/-! ## The instruction of a morph -/

namespace Timeline

/-- The strands say when the keyframes of a timeline stand and what they have. -/
theorem frames_of_strands {timeline : Timeline ν} {rows : List (ν × (String → Option (Value ν)))}
    (strands : ∀ property, property ≠ offsetKey →
      (timeline.strand property).frames = rows.map fun row => (row.1, row.2 property)) :
    List.Forall₂ (fun (frame : Keyframe ν) row => frame.time = row.1 ∧
      ∀ property, property ≠ offsetKey → frame.styles.get? property = row.2 property)
      timeline.frames rows := by
  have reserved : easingKey ≠ offsetKey := by decide
  simp only [strand] at strands
  generalize timeline.frames = frames at strands ⊢
  induction frames generalizing rows with
  | nil =>
    obtain rfl : rows = [] := List.map_eq_nil_iff.1 (strands easingKey reserved).symm
    exact .nil
  | cons frame rest ih =>
    cases rows with
    | nil => exact absurd (strands easingKey reserved) (List.cons_ne_nil _ _)
    | cons row others =>
      have heads : ∀ property, property ≠ offsetKey →
          frame.time = row.1 ∧ frame.styles.get? property = row.2 property := by
        intro property free
        exact Prod.mk.inj (List.cons.inj (strands property free)).1
      refine .cons ⟨(heads easingKey reserved).1, fun property free => (heads property free).2⟩ ?_
      exact ih fun property free => (List.cons.inj (strands property free)).2

/-- An emitted keyframe shows its own entries beside the backfill. -/
theorem shows_emit (timeline : Timeline ν) {styles own other : Styles ν} {easing : Option String}
    (shown : ∀ property, property ≠ offsetKey →
      (styles.get? property).or (timeline.backfill.get? property) =
        if property = easingKey then easing.map Value.text
        else (own.get? property).or ((other.get? property).map fun _ => Value.automatic))
    (offset : ν) : (timeline.emit styles offset).Shows own other easing offset := by
  intro property
  by_cases reserved : property = offsetKey
  · rw [if_pos reserved, reserved]
    exact timeline.get?_emit_offset styles offset
  · rw [if_neg reserved, timeline.get?_emit styles offset reserved]
    exact shown property reserved

variable [Scalar ν] [LawfulScalar ν]

/-- Where the keyframes rise, they are emitted as they stand, and the last one ends the timeline. -/
theorem instruction_of_rising {timeline : Timeline ν} {last : Keyframe ν}
    (ends : timeline.frames.getLast? = some last)
    (rising : timeline.frames.Pairwise fun first second => first.time < second.time)
    (positive : 0 < last.time) :
    timeline.instruction.duration = last.time ∧
      timeline.instruction.keyframes = timeline.frames.map fun frame =>
        timeline.emit frame.styles (frame.time / last.time) := by
  have sorted : Keyframe.sortByTime timeline.frames = timeline.frames :=
    Keyframe.sortByTime_of_rising rising
  have length : timeline.length = last.time := by
    rw [Timeline.length, sorted, ends]
    exact if_pos positive
  have extended : (timeline.length == 0) = false := by
    rw [length]
    exact Scalar.beq_eq_false_of_gt positive
  refine ⟨length, ?_⟩
  rw [keyframes_of_extended extended, sorted, length]

end Timeline

namespace Stage.Arrives

variable [Scalar ν] {starting destination : Styles ν} {earlier : List ν} {time later : ν}
  {easing : Option String} {stage : Stage ν}

/-- The keyframes up to the move, and the one behind it. -/
theorem frames (arrives : stage.Arrives starting destination earlier time later easing) :
    List.Forall₂ (fun (frame : Keyframe ν) row => frame.time = row.1 ∧
      ∀ property, property ≠ offsetKey → frame.styles.get? property = row.2 property)
      (stage.timeline 0).frames
      (earlier.map (fun opened => (opened, fun property => starting.get? property)) ++
        [(time, setOut starting easing),
          (later, fun property => (destination.get? property).or
            ((starting.get? property).map fun _ => Value.automatic))]) := by
  refine Timeline.frames_of_strands fun property free => ?_
  have frames := (arrives.strand property free).frames
  refine frames.trans ?_
  simp [List.map_map, Function.comp_def]

section Shown

variable (arrives : stage.Arrives starting destination earlier time later easing)
  (bare : starting.get? easingKey = none) (plain : destination.get? easingKey = none)
include arrives bare plain

/-- A keyframe up to the move shows the starting side. -/
theorem shows_starting {styles : Styles ν} {mark : Option String}
    (own : ∀ property, property ≠ offsetKey → styles.get? property = setOut starting mark property)
    (offset : ν) :
    ((stage.timeline 0).emit styles offset).Shows starting destination mark offset := by
  refine Timeline.shows_emit _ (fun property free => ?_) offset
  have backfill : (stage.timeline 0).backfill.get? property = _ :=
    (arrives.strand property free).backfill
  rw [own property free, backfill, setOut]
  by_cases reserved : property = easingKey
  · rw [if_pos reserved, if_pos reserved, reserved, bare, plain]
    exact Option.or_none
  · rw [if_neg reserved, if_neg reserved]
    cases starting.get? property <;> rfl

/-- The last keyframe shows the destination. -/
theorem shows_destination {styles : Styles ν}
    (own : ∀ property, property ≠ offsetKey → styles.get? property =
      (destination.get? property).or ((starting.get? property).map fun _ => Value.automatic))
    (offset : ν) :
    ((stage.timeline 0).emit styles offset).Shows destination starting none offset := by
  refine Timeline.shows_emit _ (fun property free => ?_) offset
  have backfill : (stage.timeline 0).backfill.get? property = _ :=
    (arrives.strand property free).backfill
  rw [own property free, backfill]
  by_cases reserved : property = easingKey
  · rw [if_pos reserved, reserved, bare, plain]
    rfl
  · rw [if_neg reserved]
    cases starting.get? property <;> cases destination.get? property <;> rfl

end Shown

/-- A timeline with more than one keyframe is emitted. -/
theorem instructions (arrives : stage.Arrives starting destination earlier time later easing)
    (long : 1 < (stage.timeline 0).frames.length) :
    stage.instructions = [(stage.timeline 0).instruction] := by
  have styled : (stage.timeline 0).hasStyling = true := by simp [Timeline.hasStyling, long]
  rw [Stage.instructions_of_sole arrives.size, if_pos styled]

/-- What the instruction of the timeline has beside its keyframes. -/
theorem runsMorph {timings : Timings ν}
    (arrives : stage.Arrives starting destination earlier time later easing)
    (duration : (stage.timeline 0).instruction.duration = timings.delay + timings.duration)
    (keyframes : Morphs timings starting destination (stage.timeline 0).instruction.keyframes) :
    (stage.timeline 0).instruction.RunsMorph timings starting destination :=
  ⟨rfl, (arrives.strand easingKey (by decide)).start, duration, arrives.easing, keyframes⟩

section Instruction

variable [LawfulScalar ν] {timings : Timings ν} (bare : starting.get? easingKey = none)
  (plain : destination.get? easingKey = none)
include bare plain

/-- Without a delay there is a keyframe at either end of the move. -/
theorem runs_atOnce (instant : ¬0 < timings.delay)
    (positive : 0 < timings.delay + timings.duration)
    (arrives : stage.Arrives starting destination [] 0 (timings.delay + timings.duration)
      timings.easing) :
    ∃ instruction, stage.instructions = [instruction] ∧
      instruction.RunsMorph timings starting destination := by
  obtain ⟨opening, _, ⟨opens, shown⟩, rest, frames⟩ :=
    List.forall₂_cons_right_iff.1 arrives.frames
  obtain ⟨closing, _, ⟨closes, ended⟩, last, rfl⟩ := List.forall₂_cons_right_iff.1 rest
  obtain rfl := List.forall₂_nil_right_iff.1 last
  have rising : (stage.timeline 0).frames.Pairwise fun first second =>
      first.time < second.time := by
    simp [frames, opens, closes, positive]
  have ends : (stage.timeline 0).frames.getLast? = some closing := congrArg List.getLast? frames
  obtain ⟨duration, keyframes⟩ :=
    Timeline.instruction_of_rising ends rising (closes ▸ positive)
  have emitted : (stage.timeline 0).instruction.keyframes =
      [(stage.timeline 0).emit opening.styles 0,
        (stage.timeline 0).emit closing.styles
          ((timings.delay + timings.duration) / (timings.delay + timings.duration))] := by
    simp only [keyframes, frames, List.map_cons, List.map_nil, opens, closes,
      LawfulScalar.zero_div_of_pos positive]
  refine ⟨_, arrives.instructions (by simp [frames]),
    arrives.runsMorph (duration.trans closes) ?_⟩
  rw [emitted]
  exact .atOnce instant (arrives.shows_starting bare plain shown 0)
    (arrives.shows_destination bare plain ended _)

/-- Behind a delay the keyframe at its end comes between them. -/
theorem runs_delayed (waits : 0 < timings.delay)
    (moves : timings.delay < timings.delay + timings.duration)
    (arrives : stage.Arrives starting destination [0] timings.delay
      (timings.delay + timings.duration) timings.easing) :
    ∃ instruction, stage.instructions = [instruction] ∧
      instruction.RunsMorph timings starting destination := by
  have positive := LawfulScalar.lt_trans waits moves
  obtain ⟨first, _, ⟨begins, held⟩, others, frames⟩ :=
    List.forall₂_cons_right_iff.1 arrives.frames
  obtain ⟨opening, _, ⟨opens, shown⟩, rest, rfl⟩ := List.forall₂_cons_right_iff.1 others
  obtain ⟨closing, _, ⟨closes, ended⟩, last, rfl⟩ := List.forall₂_cons_right_iff.1 rest
  obtain rfl := List.forall₂_nil_right_iff.1 last
  have rising : (stage.timeline 0).frames.Pairwise fun first second =>
      first.time < second.time := by
    simp [frames, begins, opens, closes, waits, moves, positive]
  have ends : (stage.timeline 0).frames.getLast? = some closing := congrArg List.getLast? frames
  obtain ⟨duration, keyframes⟩ :=
    Timeline.instruction_of_rising ends rising (closes ▸ positive)
  have emitted : (stage.timeline 0).instruction.keyframes =
      [(stage.timeline 0).emit first.styles 0,
        (stage.timeline 0).emit opening.styles
          (timings.delay / (timings.delay + timings.duration)),
        (stage.timeline 0).emit closing.styles
          ((timings.delay + timings.duration) / (timings.delay + timings.duration))] := by
    simp only [keyframes, frames, List.map_cons, List.map_nil, begins, opens, closes,
      LawfulScalar.zero_div_of_pos positive]
  have unmarked : ∀ property, property ≠ offsetKey →
      first.styles.get? property = setOut starting none property :=
    fun property free => (held property free).trans (setOut_of_unmarked bare (.inr rfl)).symm
  refine ⟨_, arrives.instructions (by simp [frames]),
    arrives.runsMorph (duration.trans closes) ?_⟩
  rw [emitted]
  exact .delayed waits (arrives.shows_starting bare plain unmarked 0)
    (arrives.shows_starting bare plain shown _) (arrives.shows_destination bare plain ended _)

end Instruction

end Stage.Arrives

/-! ## The walk along a morph -/

namespace Traversal

variable [Scalar ν] {starting : Styles ν}

section Waiting

variable (scope : Params ν) (timing : Timing ν) (starting : Styles ν)

theorem rests_awaitPayload_of_instant (instant : ¬0 < (timing.resolve scope).1.delay) :
    ((start starting).awaitPayload scope timing).stage.Rests starting [] 0 := by
  rw [awaitPayload, wait, if_neg instant]
  exact Stage.Rests.start starting

theorem rests_awaitPayload_of_delay [LawfulScalar ν]
    (waits : 0 < (timing.resolve scope).1.delay) :
    ((start starting).awaitPayload scope timing).stage.Rests starting [0]
      (timing.resolve scope).1.delay := by
  rw [awaitPayload, wait, if_pos waits]
  exact (Stage.Rests.start starting).delay waits

end Waiting

variable {walk : Traversal ν} {timings : Timings ν}

/-- Ending the step and landing on the destination runs the move. -/
theorem arrives_runEmpty {earlier : List ν} {time later : ν} (current : walk.current = 0)
    (complete : walk.Complete) (rests : walk.stage.Rests starting earlier time) (bare : starting.get? easingKey = none)
    (reached : Scalar.larger (time + timings.duration) 0 = later)
    (absent : ∀ opened ∈ earlier ++ [time], (opened == later) = false) (destination : Styles ν) :
    ((walk.runEmpty timings).land destination).Arrives starting destination earlier time later
      timings.easing := by
  have moved := (rests.move bare reached absent timings.easing).arrives destination
  rw [← current] at moved
  rw [(complete.runEmpty timings).land_eq]
  exact moved

variable {destination : Styles ν} (bare : starting.get? easingKey = none)
  (plain : destination.get? easingKey = none)
include bare plain

/-- Where the starting side rests behind a delay, the rest of the step is a morph. -/
theorem runs_of_delay [LawfulScalar ν] (waits : 0 < timings.delay)
    (moves : timings.delay < timings.delay + timings.duration) (current : walk.current = 0)
    (complete : walk.Complete) (rests : walk.stage.Rests starting [0] timings.delay) :
    ∃ instruction, ((walk.runEmpty timings).land destination).instructions = [instruction] ∧
      instruction.RunsMorph timings starting destination := by
  have positive := LawfulScalar.lt_trans waits moves
  have reached : Scalar.larger (timings.delay + timings.duration) 0 =
      timings.delay + timings.duration := if_pos positive
  have absent : ∀ opened ∈ [0] ++ [timings.delay],
      (opened == timings.delay + timings.duration) = false :=
    List.forall_mem_cons.2 ⟨Scalar.beq_eq_false_of_lt positive,
      List.forall_mem_singleton.2 (Scalar.beq_eq_false_of_lt moves)⟩
  exact (arrives_runEmpty current complete rests bare reached absent destination).runs_delayed bare plain
    waits moves

/-- So it is where there is no delay, and adding the delay changes nothing. -/
theorem runs_of_instant [LawfulScalar ν] (instant : ¬0 < timings.delay)
    (lasts : 0 < timings.duration) (total : timings.delay + timings.duration = timings.duration)
    (current : walk.current = 0) (complete : walk.Complete)
    (rests : walk.stage.Rests starting [] 0) :
    ∃ instruction, ((walk.runEmpty timings).land destination).instructions = [instruction] ∧
      instruction.RunsMorph timings starting destination := by
  have positive : 0 < timings.delay + timings.duration := total.symm ▸ lasts
  have reached : Scalar.larger (0 + timings.duration) 0 =
      timings.delay + timings.duration := by
    rw [LawfulScalar.zero_add_of_pos lasts, total]
    exact if_pos lasts
  have absent : ∀ opened ∈ [] ++ [(0 : ν)],
      (opened == timings.delay + timings.duration) = false :=
    List.forall_mem_singleton.2 (Scalar.beq_eq_false_of_lt positive)
  exact (arrives_runEmpty current complete rests bare reached absent destination).runs_atOnce bare plain
    instant positive

end Traversal

/-- **A step without a payload morphs one side into the other.** Styles without an easing of their
own are led into each other by one instruction, which begins with the animation and takes the delay
and the duration of the step. Up to the end of the delay it shows the starting side, at its end the
destination, and the properties of only one side come from and go to the computed style. It is
enough that the duration moves the clock on. -/
theorem Tree.compile_animate_morphs [Scalar ν] [LawfulClock ν]
    [Std.Commutative fun first second : ν => first + second] (settings : Settings ν)
    (scope : Params ν) (timing : Timing ν) (starting destination : Styles ν)
    (bare : starting.get? easingKey = none) (plain : destination.get? easingKey = none)
    (lasts : 0 < (timing.resolve scope).1.duration)
    (forward : Scalar.atMost 0 (timing.resolve scope).1.delay = true)
    (moves : (timing.resolve scope).1.delay <
      (timing.resolve scope).1.delay + (timing.resolve scope).1.duration) :
    ∃ instruction,
      (Tree.animate timing none).compile settings starting destination scope =
        ([instruction], (timing.resolve scope).2) ∧
      instruction.RunsMorph (timing.resolve scope).1 starting destination := by
  have current : ((Traversal.start starting).awaitPayload scope timing).current = 0 :=
    Traversal.current_awaitPayload scope timing (.start starting)
  have complete := (Traversal.complete_start starting).awaitPayload scope timing
  have problems : ((Traversal.start starting).awaitPayload scope timing).problems =
      (timing.resolve scope).2 := Traversal.problems_awaitPayload scope timing (.start starting)
  have compiled : (Tree.animate timing none).compile settings starting destination scope =
      (((((Traversal.start starting).awaitPayload scope timing).runEmpty
        (timing.resolve scope).1).land destination).instructions, (timing.resolve scope).2) := by
    rw [← problems]
    rfl
  have runs : ∃ instruction,
      ((((Traversal.start starting).awaitPayload scope timing).runEmpty
        (timing.resolve scope).1).land destination).instructions = [instruction] ∧
      instruction.RunsMorph (timing.resolve scope).1 starting destination := by
    by_cases waits : 0 < (timing.resolve scope).1.delay
    · have rests := Traversal.rests_awaitPayload_of_delay scope timing starting waits
      exact Traversal.runs_of_delay bare plain waits moves current complete rests
    · have rests := Traversal.rests_awaitPayload_of_instant scope timing starting waits
      have level : ((timing.resolve scope).1.delay == 0) = true :=
        LawfulScalar.beq_symm ((Scalar.atMost_iff.1 forward).resolve_left waits)
      have total : (timing.resolve scope).1.delay + (timing.resolve scope).1.duration =
          (timing.resolve scope).1.duration :=
        calc (timing.resolve scope).1.delay + (timing.resolve scope).1.duration
          _ = (timing.resolve scope).1.duration + (timing.resolve scope).1.delay :=
            Std.Commutative.comm _ _
          -- The delay may be a negative zero, and only on the right is every zero neutral.
          _ = (timing.resolve scope).1.duration :=
            LawfulClock.add_of_zero (LawfulScalar.zero_add_of_pos lasts) level
      exact Traversal.runs_of_instant bare plain waits lasts total current complete rests
  obtain ⟨instruction, emitted, shown⟩ := runs
  exact ⟨instruction, compiled.trans (congrArg (fun shown => (shown, _)) emitted), shown⟩

/-- A closed card: transparent and narrow. -/
def closedCard : Styles Binary64 :=
  .ofList [("opacity", .number 0), ("width", .number (.ofNat 10))]

/-- An open card: opaque and red. -/
def openCard : Styles Binary64 :=
  .ofList [("opacity", .number 1), ("color", .text "red")]

/-- The card opens slowly at first, behind a pause. -/
def slowOpening : Timings Binary64 :=
  ⟨.ofNat 150, .ofNat 50, some "ease-in"⟩

/-- The card opens: its opacity stays until the end of the pause, and its width is left to the
computed style in the end. -/
theorem morphs_openingCard :
    closedCard.get? easingKey = none ∧ openCard.get? easingKey = none ∧
      0 < slowOpening.duration ∧ Scalar.atMost 0 slowOpening.delay = true ∧
      slowOpening.delay < slowOpening.delay + slowOpening.duration ∧
      ∃ instruction,
        (Tree.animate (.resolved slowOpening) none).compile Settings.standard closedCard openCard
          ∅ = ([instruction], []) ∧
        instruction.RunsMorph slowOpening closedCard openCard := by
  have bare : closedCard.get? easingKey = none := by decide
  have plain : openCard.get? easingKey = none := by decide
  have lasts : 0 < slowOpening.duration := by decide +kernel
  have forward : Scalar.atMost 0 slowOpening.delay = true := by decide +kernel
  have moves : slowOpening.delay < slowOpening.delay + slowOpening.duration := by decide +kernel
  have resolved : (Timing.resolved slowOpening).resolve ∅ = (slowOpening, []) := by decide +kernel
  have morphs := Tree.compile_animate_morphs Settings.standard ∅ (.resolved slowOpening) closedCard
    openCard bare plain
  rw [resolved] at morphs
  exact ⟨bare, plain, lasts, forward, moves, morphs lasts forward moves⟩

/-- A card fades in for one millisecond behind a delay of two to the power of fifty-three. -/
def lateFade : Timings Binary64 :=
  ⟨1, .ofNat (2 ^ 53), none⟩

/-- What the fade compiles to: the keyframe at the end of the delay is that of the destination. -/
def lateFaded : Instruction Binary64 where
  kind := .timelineAnimation
  keyframes :=
    [.ofList [("opacity", .number 0), ("offset", .number 0)],
      .ofList [("opacity", .number 1), ("offset", .number 1)]]
  duration := .ofNat (2 ^ 53)
  delay := 0
  easing := none

/-- A duration that the clock absorbs leaves no keyframe on which the starting side is held: the
card fades in during the delay. -/
theorem lateFade_fades_early :
    0 < lateFade.duration ∧ Scalar.atMost 0 lateFade.delay = true ∧
      lateFade.delay + lateFade.duration = lateFade.delay ∧
      (Tree.animate (.resolved lateFade) none).compile Settings.standard
        (.ofList [("opacity", .number 0)]) (.ofList [("opacity", .number 1)]) ∅ =
          ([lateFaded], []) ∧
      ¬lateFaded.RunsMorph lateFade (.ofList [("opacity", .number 0)])
        (.ofList [("opacity", .number 1)]) := by
  have waits : 0 < lateFade.delay := by decide +kernel
  refine ⟨by decide +kernel, by decide +kernel, by decide +kernel, by decide +kernel, ?_⟩
  intro runs
  cases runs.keyframes with
  | atOnce instant _ _ => exact instant waits

end Storyboard
