import Storyboard.Proofs.Compilation.Holdings
import Storyboard.Proofs.OrderedMap.Lookup

/-!
# One property of a timeline

What a timeline knows of a single property is a strand (`Timeline.Strand`): the times of its
keyframes with the value that each of them has of its own, and the value in each of its tables.
Every operation of a timeline acts on the strand of a property as if there were no other property,
and writing other properties does not touch it.

So one write of styles is one step of the strand (`Stage.strand_write`): the value of the property
is written if the styles have one, and otherwise what was written before is carried along. Folding
a timeline into another one changes nothing on a strand but what counts as written
(`Stage.shown_strand_absorb`).

Strands leave the easing of segments aside. Where an easing may be put on a keyframe, the
statements are about properties other than the reserved `easing`.
-/

set_option autoImplicit false

namespace Storyboard

variable {ν : Type}

namespace Timeline

/-- What a timeline knows of one property. -/
structure Strand (ν : Type) where
  start : ν
  cursor : ν
  /-- The times of the keyframes, each with the value that the keyframe itself has. -/
  frames : List (ν × Option (Value ν))
  /-- The index of the keyframe under the cursor. -/
  current : Nat
  written : Option (Value ν)
  inherited : Option (Value ν)
  backfill : Option (Value ν)

/-- The times of the keyframes. -/
def Strand.times (strand : Strand ν) : List ν :=
  strand.frames.map Prod.fst

/-- The strand of a property. -/
def strand (timeline : Timeline ν) (property : String) : Strand ν where
  start := timeline.start
  cursor := timeline.cursor
  frames := timeline.frames.map fun frame => (frame.time, frame.styles.get? property)
  current := timeline.current
  written := timeline.written.get? property
  inherited := timeline.inherited.get? property
  backfill := timeline.backfill.get? property

theorem times_strand (timeline : Timeline ν) (property : String) :
    (timeline.strand property).times = timeline.times :=
  List.map_map

/-! ## Operations on a strand -/

namespace Strand

/-- Changes the value of the keyframe under the cursor. -/
def edit (strand : Strand ν) (change : Option (Value ν) → Option (Value ν)) : Strand ν :=
  { strand with
    frames := strand.frames.modify strand.current fun frame => (frame.1, change frame.2) }

/-- Captures the value from before the first write. -/
def capture (strand : Strand ν) (known : Option (Value ν)) : Strand ν :=
  if strand.written.isSome || strand.backfill.isSome then strand
  else { strand with backfill := some ((strand.inherited.or known).getD Value.automatic) }

/-- Writes a value at the cursor. -/
def write (strand : Strand ν) (value : Value ν) (known : Option (Value ν)) : Strand ν :=
  { strand.capture known with written := some value }.edit fun _ => some value

/-- Carries along what was written where the keyframe has no value. -/
def carry (strand : Strand ν) : Strand ν :=
  strand.edit fun own => own.or strand.written

/-- Carries along what was written. -/
def snapshot (strand : Strand ν) : Strand ν :=
  strand.edit fun own => strand.written.or own

/-- Marks the property as computed at the cursor. -/
def blankOut (strand : Strand ν) (known : Value ν) : Strand ν :=
  (strand.capture (some known)).edit fun _ => some Value.automatic

/-- Ends a step without a value: a property that is shared at all is marked as computed. -/
def emptyStep (strand : Strand ν) (known : Option (Value ν)) : Strand ν :=
  match known with
  | some known => strand.blankOut known
  | none => strand

/-- The strand without the record of what was written: what shows in an instruction. -/
def shown (strand : Strand ν) : Strand ν :=
  { strand with written := none }

variable [Scalar ν]

/-- The strand of a timeline that was just opened. -/
def blank (start : ν) (inherited : Option (Value ν)) : Strand ν :=
  ⟨start, 0, [(0, none)], 0, none, inherited, none⟩

/-- The absolute time of the cursor. -/
def now (strand : Strand ν) : ν :=
  strand.start + strand.cursor

/-- Moves the cursor to a time, opening a keyframe there unless there is one. -/
def seek (strand : Strand ν) (time : ν) : Strand ν :=
  match strand.frames.findIdx? fun frame => frame.1 == time with
  | some index => { strand with cursor := time, current := index }
  | none =>
    { strand with
      cursor := time
      frames := strand.frames ++ [(time, none)]
      current := strand.frames.length }

end Strand

/-! ## The strand of a timeline after an operation -/

section Operations

variable (timeline : Timeline ν) (property : String)

/-- Editing a keyframe without the property leaves the strand alone. -/
theorem strand_editFrame_of_kept (index : Nat) {edit : Styles ν → Styles ν}
    (kept : ∀ styles, (edit styles).get? property = styles.get? property) :
    (timeline.editFrame index edit).strand property = timeline.strand property := by
  simp only [strand, editFrame, Strand.mk.injEq, and_true, true_and]
  refine map_modify_of_kept _ (fun frame => ?_) index timeline.frames
  rw [kept]

theorem strand_editCurrent {edit : Styles ν → Styles ν}
    {change : Option (Value ν) → Option (Value ν)}
    (changed : ∀ styles, (edit styles).get? property = change (styles.get? property)) :
    (timeline.editCurrent edit).strand property = (timeline.strand property).edit change := by
  simp only [strand, editCurrent, editFrame, Strand.edit, Strand.mk.injEq, and_true, true_and]
  refine map_modify _ (fun frame => ?_) timeline.current timeline.frames
  rw [changed]

theorem strand_easeSegment {property : String} (unreserved : property ≠ easingKey)
    (easing : String) :
    (timeline.easeSegment easing).strand property = timeline.strand property :=
  timeline.strand_editFrame_of_kept property _ fun styles => by
    rw [OrderedMap.get?_insert, if_neg unreserved.symm]

theorem strand_snapshot :
    timeline.snapshot.strand property = (timeline.strand property).snapshot :=
  timeline.strand_editCurrent property fun styles => styles.get?_overlay timeline.written property

theorem strand_carryWritten :
    timeline.carryWritten.strand property = (timeline.strand property).carry :=
  timeline.strand_editCurrent property fun styles => styles.get?_fillFrom timeline.written property

theorem strand_capture (name : String) (known : Option (Value ν)) :
    (timeline.capture name known).strand property =
      if name = property then (timeline.strand property).capture known
      else timeline.strand property := by
  by_cases same : name = property
  · subst same
    rw [if_pos rfl]
    unfold capture Strand.capture OrderedMap.contains
    by_cases standing : ((timeline.written.get? name).isSome ||
        (timeline.backfill.get? name).isSome) = true
    · rw [if_pos standing]
      exact (if_pos standing).symm
    · rw [if_neg standing]
      refine Eq.trans ?_ (if_neg standing).symm
      simp only [strand, OrderedMap.get?_insert, if_true]
  · rw [if_neg same]
    unfold capture
    split
    · rfl
    · simp only [strand, OrderedMap.get?_insert, same, if_false]

theorem strand_adopt (name : String) (stamped : Stamped ν) :
    (timeline.adopt name stamped).strand property =
      if name = property then { timeline.strand property with written := some stamped.value }
      else timeline.strand property := by
  simp only [strand, adopt, OrderedMap.get?_insert]
  split <;> rfl

theorem strand_blankOut (name : String) (known : Value ν) :
    (timeline.blankOut name known).strand property =
      if name = property then (timeline.strand property).blankOut known
      else timeline.strand property := by
  have captured := timeline.strand_capture property name (some known)
  unfold blankOut
  by_cases same : name = property
  · rw [if_pos same] at captured ⊢
    rw [strand_editCurrent _ property fun styles => ?_, captured]
    · rfl
    · rw [OrderedMap.get?_insert, if_pos same]
  · rw [if_neg same] at captured ⊢
    refine Eq.trans ?_ captured
    refine strand_editFrame_of_kept _ property _ fun styles => ?_
    rw [OrderedMap.get?_insert, if_neg same]

/-- What the keyframe under the cursor shows of its own. -/
theorem get?_currentStyles :
    timeline.currentStyles.get? property =
      ((timeline.strand property).frames[(timeline.strand property).current]?).bind Prod.snd := by
  simp only [strand, List.getElem?_map, currentStyles]
  cases timeline.frames[timeline.current]? <;> rfl

variable [Scalar ν]

theorem strand_write (name : String) (value : Value ν) (known : Option (Value ν)) :
    (timeline.write name value known).strand property =
      if name = property then (timeline.strand property).write value known
      else timeline.strand property := by
  have captured := timeline.strand_capture property name known
  have adopted := (timeline.capture name known).strand_adopt property name ⟨timeline.now, value⟩
  unfold write
  by_cases same : name = property
  · rw [if_pos same] at captured adopted ⊢
    rw [strand_editCurrent _ property fun styles => ?_, adopted, captured]
    · rfl
    · rw [OrderedMap.get?_insert, if_pos same]
  · rw [if_neg same] at captured adopted ⊢
    refine Eq.trans ?_ (adopted.trans captured)
    refine strand_editFrame_of_kept _ property _ fun styles => ?_
    rw [OrderedMap.get?_insert, if_neg same]

theorem strand_seek (time : ν) :
    (timeline.seek time).strand property = (timeline.strand property).seek time := by
  have found : ((timeline.strand property).frames.findIdx? fun frame => frame.1 == time) =
      timeline.frames.findIdx? fun frame => frame.time == time := by
    rw [strand, List.findIdx?_map]
    rfl
  unfold seek Strand.seek
  rw [found]
  cases timeline.frames.findIdx? fun frame => frame.time == time with
  | some index => rfl
  | none =>
    simp only [strand, List.map_append, List.map_cons, List.map_nil, List.length_map]
    rfl

omit timeline in
theorem strand_blank (start : ν) (inherited : Styles ν) :
    (blank start inherited).strand property = Strand.blank start (inherited.get? property) :=
  rfl

end Operations

namespace Strand

/-! ### What an operation on a strand leaves alone -/

variable (strand : Strand ν) (value : Value ν) (known : Option (Value ν))

@[simp] theorem start_capture : (strand.capture known).start = strand.start := by
  unfold capture
  split <;> rfl

@[simp] theorem cursor_capture : (strand.capture known).cursor = strand.cursor := by
  unfold capture
  split <;> rfl

@[simp] theorem frames_capture : (strand.capture known).frames = strand.frames := by
  unfold capture
  split <;> rfl

@[simp] theorem current_capture : (strand.capture known).current = strand.current := by
  unfold capture
  split <;> rfl

@[simp] theorem inherited_capture : (strand.capture known).inherited = strand.inherited := by
  unfold capture
  split <;> rfl

theorem getElem?_frames_edit (change : Option (Value ν) → Option (Value ν)) (index : Nat) :
    (strand.edit change).frames[index]? =
      if strand.current = index then
        strand.frames[index]?.map fun frame => (frame.1, change frame.2)
      else strand.frames[index]? := by
  rw [edit, List.getElem?_modify]
  split
  · rfl
  · exact congrFun Option.map_id _

/-- Editing a keyframe keeps the times. -/
@[simp] theorem times_edit (change : Option (Value ν) → Option (Value ν)) :
    (strand.edit change).times = strand.times := by
  apply List.ext_getElem?
  intro index
  rw [times, times, List.getElem?_map, List.getElem?_map, getElem?_frames_edit]
  split
  · rw [Option.map_map]
    rfl
  · rfl

/-- After an edit a keyframe is as it was, or it is the changed one. -/
theorem mem_frames_edit {change : Option (Value ν) → Option (Value ν)}
    {frame : ν × Option (Value ν)} (member : frame ∈ (strand.edit change).frames) :
    frame ∈ strand.frames ∨
      ∃ before ∈ strand.frames, frame = (before.1, change before.2) :=
  mem_or_changed_of_mem_modify member

/-- Carrying along changes nothing where a value was just written. -/
theorem carry_write : (strand.write value known).carry = strand.write value known := by
  simp only [carry, write, edit, Strand.mk.injEq, and_true, true_and, List.modify_modify_eq]
  rfl

/-- A value that was just written is shown at the cursor. -/
theorem shown_write (bound : strand.current < strand.frames.length) :
    ((strand.write value known).frames[(strand.write value known).current]?).bind Prod.snd =
      some value := by
  have current : (strand.write value known).current = strand.current := strand.current_capture known
  rw [current, write, getElem?_frames_edit]
  simp only [current_capture, frames_capture, if_true, List.getElem?_eq_getElem bound]
  rfl

/-! ### The keyframe under the cursor -/

/-- The keyframes stand at distinct times, one of them under the cursor. -/
structure Standing (strand : Strand Rat) : Prop where
  distinct : strand.times.Nodup
  underCursor : strand.times[strand.current]? = some strand.cursor

namespace Standing

variable {strand : Strand Rat} {index : Nat} {frame : Rat × Option (Value Rat)}

/-- The keyframe under the cursor is the one that stands there. -/
theorem time_eq_cursor_iff (standing : strand.Standing)
    (found : strand.frames[index]? = some frame) :
    frame.1 = strand.cursor ↔ strand.current = index := by
  have there : strand.times[index]? = some frame.1 := by
    rw [times, List.getElem?_map, found]
    rfl
  have under := standing.underCursor
  constructor
  · intro same
    obtain ⟨bound, _⟩ := List.getElem?_eq_some_iff.1 under
    rw [← same, ← there] at under
    exact (List.getElem?_inj bound standing.distinct).1 under
  · intro same
    rw [same, there] at under
    exact Option.some.inj under

end Standing

end Strand

end Timeline

/-! ## The strands of a stage -/

namespace Stage

/-! ### Other timelines -/

section Others

variable [Scalar ν] (stage : Stage ν) {id other : Nat} (apart : other ≠ id)
include apart

/-- Changing one timeline leaves the others alone. -/
theorem timeline_modify_of_ne (change : Timeline ν → Timeline ν) :
    (stage.modify id change).timeline other = stage.timeline other := by
  have different : ¬id = other := fun same => apart same.symm
  simp only [timeline, get?, modify, List.getElem?_modify, different, if_false]
  cases stage.timelines[other]? <;> rfl

theorem timeline_easeSegment_of_ne (easing : Option String) :
    (stage.easeSegment id easing).timeline other = stage.timeline other := by
  cases easing with
  | none => rfl
  | some easing => exact stage.timeline_modify_of_ne apart _

theorem timeline_write_of_ne (styles : Styles ν) (easing : Option String) :
    (stage.write id styles easing).timeline other = stage.timeline other := by
  have entry : ∀ (written : Stage ν) entry,
      (written.writeEntry id entry).timeline other = written.timeline other := by
    intro written entry
    unfold writeEntry
    split
    · rfl
    · exact written.timeline_modify_of_ne apart _
  rw [write, timeline_modify_of_ne _ apart]
  exact (foldl_keeps (fun written : Stage ν => written.timeline other) entry styles.entries _).trans
    (stage.timeline_easeSegment_of_ne apart easing)

theorem timeline_writeEmptyStep_of_ne (easing : Option String) :
    (stage.writeEmptyStep id easing).timeline other = stage.timeline other :=
  (timeline_modify_of_ne _ apart _).trans (stage.timeline_easeSegment_of_ne apart easing)

end Others

variable [Scalar ν]

/-- The strand of a property on the timeline with a number. -/
def strand (stage : Stage ν) (property : String) (id : Nat) : Timeline.Strand ν :=
  (stage.timeline id).strand property

theorem strand_push (stage : Stage ν) (timeline : Timeline ν) (property : String) (id : Nat) :
    (stage.push timeline).strand property id =
      if id = stage.size then timeline.strand property else stage.strand property id := by
  rw [strand, timeline_push]
  split <;> rfl

/-! ### The timeline that is written on -/

section Operations

variable {stage : Stage ν} {id : Nat} (opened : id < stage.size) {property : String}
include opened

theorem strand_modify (change : Timeline ν → Timeline ν) :
    (stage.modify id change).strand property id = (change (stage.timeline id)).strand property := by
  rw [strand, timeline_modify opened, if_pos rfl]

theorem strand_easeSegment {easing : Option String}
    (unreserved : property ≠ easingKey ∨ easing = none) :
    (stage.easeSegment id easing).strand property id = stage.strand property id := by
  cases easing with
  | none => rfl
  | some easing =>
    have kept : property ≠ easingKey := unreserved.resolve_right (Option.some_ne_none easing)
    refine (strand_modify opened fun timeline => timeline.easeSegment easing).trans ?_
    exact (stage.timeline id).strand_easeSegment kept easing

theorem strand_writeEntry (free : property ≠ offsetKey) (entry : String × Value ν) :
    (stage.writeEntry id entry).strand property id =
      if entry.1 = property then
        (stage.strand property id).write entry.2 (stage.shared.get? property)
      else stage.strand property id := by
  unfold writeEntry
  split
  · next reserved =>
    have apart : entry.1 ≠ property := fun same => free (same ▸ reserved)
    rw [if_neg apart]
  · refine (strand_modify opened fun timeline => timeline.write entry.1 entry.2
      (stage.shared.get? entry.1)).trans ?_
    rw [Timeline.strand_write]
    by_cases same : entry.1 = property
    · simp only [same, if_true]
      rfl
    · simp only [same, if_false]
      rfl

/-- **Writing styles is one step of a strand**: the value of the property is written, or what was
written before is carried along. -/
theorem strand_write (free : property ≠ offsetKey) (styles : Styles ν) {easing : Option String}
    (unreserved : property ≠ easingKey ∨ easing = none) :
    (stage.write id styles easing).strand property id =
      match styles.get? property with
      | some value => (stage.strand property id).write value (stage.shared.get? property)
      | none => (stage.strand property id).carry := by
  have eased := strand_easeSegment opened unreserved
  have size : (stage.easeSegment id easing).size = stage.size :=
    size_eq_of_skeletons (stage.skeletons_easeSegment id easing)
  have shared : (stage.easeSegment id easing).shared = stage.shared := by
    cases easing <;> rfl
  -- The shared value belongs to the view, because the write of the property reads it.
  have entries := OrderedMap.foldl_distinct
    (fun (written : Stage ν) entry => written.writeEntry id entry)
    (fun written => (written.strand property id, written.shared.get? property))
    (fun view value => (view.1.write value view.2, some value))
    (fun written => id < written.size) property
    (fun written value opened => by
      rw [strand_writeEntry opened free, if_pos rfl, writeEntry, if_neg free]
      simp only [OrderedMap.get?_insert, if_true])
    (fun written entry opened apart => by
      rw [strand_writeEntry opened free, if_neg apart]
      unfold writeEntry
      split
      · rfl
      · simp only [OrderedMap.get?_insert, apart, if_false])
    (fun written entry opened =>
      (size_eq_of_skeletons (written.skeletons_writeEntry id entry)).symm ▸ opened)
    styles.entries styles.distinct (stage.easeSegment id easing) (size ▸ opened)
  have looked : OrderedMap.lookupEntry property styles.entries = styles.get? property := rfl
  have wide : id < (styles.entries.foldl (fun written entry => written.writeEntry id entry)
      (stage.easeSegment id easing)).size := by
    have kept := foldl_keeps skeletons
      (fun written entry => written.skeletons_writeEntry id entry) styles.entries
      (stage.easeSegment id easing)
    rw [size_eq_of_skeletons kept, size]
    exact opened
  rw [write, strand_modify wide, Timeline.strand_carryWritten]
  rw [looked, eased, shared] at entries
  refine (congrArg (fun view => view.1.carry) entries).trans ?_
  cases styles.get? property with
  | some value => exact Timeline.Strand.carry_write _ _ _
  | none => rfl

theorem strand_writeEmptyStep {easing : Option String}
    (unreserved : property ≠ easingKey ∨ easing = none) :
    (stage.writeEmptyStep id easing).strand property id =
      (stage.strand property id).emptyStep (stage.shared.get? property) := by
  have size : (stage.easeSegment id easing).size = stage.size :=
    size_eq_of_skeletons (stage.skeletons_easeSegment id easing)
  have marked := OrderedMap.foldl_distinct
    (fun (timeline : Timeline ν) entry => timeline.blankOut entry.1 entry.2)
    (fun timeline => timeline.strand property) (fun strand known => strand.blankOut known)
    (fun _ => True) property
    (fun timeline known _ => by rw [Timeline.strand_blankOut, if_pos rfl])
    (fun timeline entry _ apart => by rw [Timeline.strand_blankOut, if_neg apart])
    (fun _ _ _ => trivial) stage.shared.entries stage.shared.distinct
    ((stage.easeSegment id easing).timeline id) trivial
  have looked : OrderedMap.lookupEntry property stage.shared.entries =
    stage.shared.get? property := rfl
  have eased := strand_easeSegment opened unreserved
  rw [strand] at eased
  rw [looked, eased] at marked
  rw [writeEmptyStep, strand_modify (size ▸ opened)]
  refine marked.trans ?_
  cases stage.shared.get? property <;> rfl

end Operations

/-! ### Folding one timeline into another -/

/-- Folding changes nothing on a strand but what counts as written. -/
theorem shown_strand_absorb (stage : Stage ν) (target source : Nat) (property : String)
    (id : Nat) :
    ((stage.absorb target source).strand property id).shown =
      (stage.strand property id).shown := by
  refine foldl_keeps (fun merged : Stage ν => (merged.strand property id).shown) ?_ _ stage
  intro merged entry
  by_cases apart : id = target
  · subst apart
    simp only [adoptEntry, strand, timeline, get?, modify, List.getElem?_modify, if_true]
    cases merged.timelines[id]? with
    | none => rfl
    | some timeline =>
      show ((timeline.adopt entry.1 entry.2).strand property).shown = _
      rw [Timeline.strand_adopt]
      split <;> rfl
  · exact congrArg (fun timeline => (timeline.strand property).shown)
      (merged.timeline_modify_of_ne apart fun timeline => timeline.adopt entry.1 entry.2)

end Stage

end Storyboard
