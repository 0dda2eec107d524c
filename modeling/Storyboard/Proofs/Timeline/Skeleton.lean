import Storyboard.Timeline.Stage

/-!
# What writing leaves alone

The skeleton of a timeline is everything about it that has to do with time: when the span starts,
where the cursor stands, the times of the keyframes, and which keyframes are and were under the
cursor. Only moving the cursor changes a skeleton. Writing styles, marking a property as computed,
taking a snapshot, putting an easing on a segment and taking over values of another timeline leave
every skeleton of a stage as it is (`Stage.skeletons_write`, `Stage.skeletons_writeEmptyStep`,
`Stage.skeletons_absorb`).

Statements about time are therefore statements about skeletons, and they survive every write.

The header of a timeline is what concerns the span as a whole: its easing, and whether it has landed.
Neither moving the cursor nor writing changes it (`Stage.header_write`).
-/

set_option autoImplicit false

namespace Storyboard

variable {ν : Type}

/-! ## Lists -/

/-- A fold whose every step keeps a view of the state keeps that view. -/
theorem foldl_keeps {α σ β : Type} (view : σ → β) {step : σ → α → σ}
    (kept : ∀ state item, view (step state item) = view state) (items : List α) (state : σ) :
    view (items.foldl step state) = view state := by
  refine List.foldlRecOn (motive := fun reached => view reached = view state) items step rfl ?_
  intro reached same item _
  exact (kept reached item).trans same

section Lists

variable {α β : Type} {change : α → α}

/-- Changing one item changes its view alone. -/
theorem map_modify (view : α → β) {changed : β → β}
    (commutes : ∀ item, view (change item) = changed (view item)) (index : Nat) (items : List α) :
    (items.modify index change).map view = (items.map view).modify index changed := by
  apply List.ext_getElem?
  intro position
  simp only [List.getElem?_map, List.getElem?_modify]
  cases items[position]? with
  | none => rfl
  | some item =>
    by_cases here : index = position
    · simp [here, commutes]
    · simp [here]

/-- Changing the last item. -/
theorem modify_concat (items : List α) (last : α) :
    (items ++ [last]).modify items.length change = items ++ [change last] :=
  List.modifyTailIdx_add (List.modifyHead change) 0 items [last]

/-- A view in which the change does not show is the same of all items. -/
theorem map_modify_of_kept (view : α → β) (kept : ∀ item, view (change item) = view item)
    (index : Nat) (items : List α) : (items.modify index change).map view = items.map view :=
  (map_modify view kept index items).trans (List.modify_id index _)

/-- An item of the changed list stood there before, or was made from one that did. -/
theorem mem_or_changed_of_mem_modify {index : Nat} {items : List α} {item : α}
    (member : item ∈ items.modify index change) :
    item ∈ items ∨ ∃ before ∈ items, item = change before := by
  obtain ⟨position, found⟩ := List.mem_iff_getElem?.1 member
  rw [List.getElem?_modify] at found
  obtain ⟨before, here, rfl⟩ := Option.map_eq_some_iff.1 found
  have stood := List.mem_of_getElem? here
  split
  · exact .inr ⟨before, stood, rfl⟩
  · exact .inl stood

/-- What a change keeps holds of all items of the changed list. -/
theorem forall_mem_modify {holds : α → Prop} {items : List α} (all : ∀ item ∈ items, holds item)
    (index : Nat) (kept : ∀ item, holds item → holds (change item)) :
    ∀ item ∈ items.modify index change, holds item := by
  intro item member
  rcases mem_or_changed_of_mem_modify member with stood | ⟨before, stood, rfl⟩
  · exact all item stood
  · exact kept before (all before stood)

end Lists

/-! ## Timelines -/

namespace Timeline

/-- The parts of a timeline that have to do with time. -/
structure Skeleton (ν : Type) where
  start : ν
  cursor : ν
  times : List ν
  current : Nat
  previous : Option Nat

/-- The times of the keyframes, in the order in which they were opened. -/
def times (timeline : Timeline ν) : List ν :=
  timeline.frames.map Keyframe.time

/-- Moves the cursor to a time, opening a keyframe there unless there is one. -/
def Skeleton.seek [Scalar ν] (skeleton : Skeleton ν) (time : ν) : Skeleton ν :=
  let moved := { skeleton with cursor := time, previous := some skeleton.current }
  match skeleton.times.findIdx? fun opened => opened == time with
  | some index => { moved with current := index }
  | none =>
    { moved with times := skeleton.times ++ [time], current := skeleton.times.length }

theorem Skeleton.start_seek [Scalar ν] (skeleton : Skeleton ν) (time : ν) :
    (skeleton.seek time).start = skeleton.start := by
  unfold seek
  split <;> rfl

theorem Skeleton.cursor_seek [Scalar ν] (skeleton : Skeleton ν) (time : ν) :
    (skeleton.seek time).cursor = time := by
  unfold seek
  split <;> rfl

/-- Moving the cursor opens one keyframe at most, at the time that it moves to. -/
theorem Skeleton.times_seek [Scalar ν] (skeleton : Skeleton ν) (time : ν) :
    ∃ added, (skeleton.seek time).times = skeleton.times ++ added ∧
      ∀ opened ∈ added, opened = time := by
  unfold seek
  split
  · exact ⟨[], (List.append_nil _).symm, fun _ member => absurd member List.not_mem_nil⟩
  · exact ⟨[time], rfl, fun opened member => List.mem_singleton.1 member⟩

section Seek

variable [Scalar ν] {skeleton : Skeleton ν}

/-- What holds of all keyframes and of the time that the cursor moves to holds behind the move. -/
theorem Skeleton.forall_times_seek {holds : ν → Prop} (all : ∀ opened ∈ skeleton.times, holds opened)
    {time : ν} (there : holds time) : ∀ opened ∈ (skeleton.seek time).times, holds opened := by
  obtain ⟨added, times, single⟩ := skeleton.times_seek time
  rw [times]
  exact List.forall_mem_append.2 ⟨all, fun opened member => single opened member ▸ there⟩

theorem Skeleton.mem_times_seek_of_mem {opened : ν} (stands : opened ∈ skeleton.times) (time : ν) :
    opened ∈ (skeleton.seek time).times := by
  obtain ⟨added, times, _⟩ := skeleton.times_seek time
  rw [times]
  exact List.mem_append_left _ stands

/-- Moving the cursor opens no second keyframe at a time. -/
theorem Skeleton.distinct_seek
    (distinct : skeleton.times.Pairwise fun first second => (first == second) = false) (time : ν) :
    (skeleton.seek time).times.Pairwise fun first second => (first == second) = false := by
  unfold seek
  split
  · exact distinct
  · next absent =>
    have fresh := List.findIdx?_eq_none_iff.1 absent
    refine List.pairwise_append.2 ⟨distinct, List.pairwise_singleton _ _, ?_⟩
    intro opened member last single
    rw [List.mem_singleton.1 single]
    exact fresh opened member

/-- Behind a move the cursor is on a keyframe at the time that it moved to. -/
theorem Skeleton.underCursor_seek (skeleton : Skeleton ν) {time : ν}
    (proper : (time == time) = true) :
    ∃ opened, (skeleton.seek time).times[(skeleton.seek time).current]? = some opened ∧
      (opened == time) = true := by
  unfold seek
  split
  · next index found =>
    obtain ⟨bound, here, _⟩ := List.findIdx?_eq_some_iff_getElem.1 found
    exact ⟨_, List.getElem?_eq_getElem bound, here⟩
  · refine ⟨time, ?_, proper⟩
    rw [List.getElem?_append_right (Nat.le_refl _), Nat.sub_self]
    rfl

end Seek

/-- The skeleton of a timeline. -/
def skeleton (timeline : Timeline ν) : Skeleton ν :=
  ⟨timeline.start, timeline.cursor, timeline.times, timeline.current, timeline.previous⟩

@[simp] theorem times_editFrame (timeline : Timeline ν) (index : Nat)
    (edit : Styles ν → Styles ν) : (timeline.editFrame index edit).times = timeline.times := by
  refine map_modify_of_kept Keyframe.time (fun frame => ?_) index timeline.frames
  rfl

@[simp] theorem skeleton_editFrame (timeline : Timeline ν) (index : Nat)
    (edit : Styles ν → Styles ν) :
    (timeline.editFrame index edit).skeleton = timeline.skeleton := by
  simp only [skeleton, times_editFrame]
  rfl

@[simp] theorem skeleton_editCurrent (timeline : Timeline ν) (edit : Styles ν → Styles ν) :
    (timeline.editCurrent edit).skeleton = timeline.skeleton :=
  skeleton_editFrame timeline timeline.current edit

@[simp] theorem skeleton_snapshot (timeline : Timeline ν) :
    timeline.snapshot.skeleton = timeline.skeleton :=
  skeleton_editCurrent timeline _

@[simp] theorem skeleton_easeSegment (timeline : Timeline ν) (easing : String) :
    (timeline.easeSegment easing).skeleton = timeline.skeleton :=
  skeleton_editFrame timeline _ _

@[simp] theorem skeleton_carryWritten (timeline : Timeline ν) :
    timeline.carryWritten.skeleton = timeline.skeleton :=
  skeleton_editCurrent timeline _

@[simp] theorem skeleton_capture (timeline : Timeline ν) (property : String)
    (known : Option (Value ν)) : (timeline.capture property known).skeleton = timeline.skeleton := by
  unfold capture
  split <;> rfl

@[simp] theorem skeleton_blankOut (timeline : Timeline ν) (property : String) (known : Value ν) :
    (timeline.blankOut property known).skeleton = timeline.skeleton := by
  simp only [blankOut, skeleton_editCurrent, skeleton_capture]

@[simp] theorem skeleton_adopt (timeline : Timeline ν) (property : String)
    (stamped : Stamped ν) : (timeline.adopt property stamped).skeleton = timeline.skeleton :=
  rfl

@[simp] theorem skeleton_write [Scalar ν] (timeline : Timeline ν) (property : String)
    (value : Value ν) (known : Option (Value ν)) :
    (timeline.write property value known).skeleton = timeline.skeleton := by
  simp only [write, skeleton_editCurrent, skeleton_adopt, skeleton_capture]

theorem now_seek [Scalar ν] (timeline : Timeline ν) (time : ν) :
    (timeline.seek time).now = timeline.start + time := by
  unfold seek
  split <;> rfl

/-- Moving the cursor of a timeline moves that of its skeleton. -/
theorem skeleton_seek [Scalar ν] (timeline : Timeline ν) (time : ν) :
    (timeline.seek time).skeleton = timeline.skeleton.seek time := by
  have found : (timeline.times.findIdx? fun opened => opened == time) =
      timeline.frames.findIdx? fun frame => frame.time == time := by
    rw [times, List.findIdx?_map]
    rfl
  simp only [seek, Skeleton.seek, skeleton, found]
  cases timeline.frames.findIdx? fun frame => frame.time == time with
  | some index => rfl
  | none => simp only [times, List.map_append, List.map_cons, List.map_nil, List.length_map]

end Timeline

/-! ## Stages -/

namespace Stage

/-- The skeletons of the timelines, in the order of their numbers. -/
def skeletons (stage : Stage ν) : List (Timeline.Skeleton ν) :=
  stage.timelines.map Timeline.skeleton

@[simp] theorem length_skeletons (stage : Stage ν) : stage.skeletons.length = stage.size :=
  List.length_map _

/-- A change that keeps the skeleton of a timeline keeps those of the stage. -/
theorem skeletons_modify (stage : Stage ν) (id : Nat) {change : Timeline ν → Timeline ν}
    (kept : ∀ timeline, (change timeline).skeleton = timeline.skeleton) :
    (stage.modify id change).skeletons = stage.skeletons :=
  map_modify_of_kept Timeline.skeleton kept id stage.timelines

@[simp] theorem skeletons_push (stage : Stage ν) (timeline : Timeline ν) :
    (stage.push timeline).skeletons = stage.skeletons ++ [timeline.skeleton] := by
  simp only [skeletons, push, List.map_append, List.map_cons, List.map_nil]

@[simp] theorem skeletons_easeSegment (stage : Stage ν) (id : Nat) (easing : Option String) :
    (stage.easeSegment id easing).skeletons = stage.skeletons := by
  cases easing with
  | none => rfl
  | some easing => exact stage.skeletons_modify id fun timeline => timeline.skeleton_easeSegment easing

@[simp] theorem skeletons_writeEmptyStep (stage : Stage ν) (id : Nat) (easing : Option String) :
    (stage.writeEmptyStep id easing).skeletons = stage.skeletons := by
  refine (skeletons_modify _ _ fun timeline => ?_).trans (stage.skeletons_easeSegment id easing)
  refine foldl_keeps Timeline.skeleton ?_ _ timeline
  intro marked entry
  exact marked.skeleton_blankOut entry.1 entry.2

@[simp] theorem skeletons_adoptEntry (stage : Stage ν) (id : Nat) (entry : String × Stamped ν) :
    (stage.adoptEntry id entry).skeletons = stage.skeletons :=
  stage.skeletons_modify id fun timeline => timeline.skeleton_adopt entry.1 entry.2

variable [Scalar ν]

/-- The skeleton of the timeline with a number. -/
def skeleton (stage : Stage ν) (id : Nat) : Timeline.Skeleton ν :=
  (stage.timeline id).skeleton

theorem skeleton_eq_getElem? (stage : Stage ν) (id : Nat) :
    stage.skeleton id = (stage.skeletons[id]?).getD (Timeline.blank 0 ∅).skeleton := by
  simp only [skeleton, timeline, get?, skeletons, List.getElem?_map]
  cases stage.timelines[id]? <;> rfl

/-- Where no skeleton changes, no timeline changes its skeleton. -/
theorem skeleton_eq_of_skeletons {first second : Stage ν}
    (same : first.skeletons = second.skeletons) (id : Nat) :
    first.skeleton id = second.skeleton id := by
  rw [skeleton_eq_getElem?, skeleton_eq_getElem?, same]

@[simp] theorem skeletons_writeEntry (stage : Stage ν) (id : Nat) (entry : String × Value ν) :
    (stage.writeEntry id entry).skeletons = stage.skeletons := by
  unfold writeEntry
  split
  · rfl
  · exact stage.skeletons_modify id fun timeline => timeline.skeleton_write entry.1 entry.2 _

@[simp] theorem skeletons_write (stage : Stage ν) (id : Nat) (styles : Styles ν)
    (easing : Option String) : (stage.write id styles easing).skeletons = stage.skeletons := by
  have entries := foldl_keeps skeletons (fun written entry => written.skeletons_writeEntry id entry)
    styles.entries (stage.easeSegment id easing)
  rw [write, skeletons_modify _ _ Timeline.skeleton_carryWritten, entries, skeletons_easeSegment]

@[simp] theorem skeletons_land (stage : Stage ν) (id : Nat) (styles : Styles ν) :
    (stage.land id styles).skeletons = stage.skeletons := by
  refine Eq.trans ?_ (stage.skeletons_write id styles none)
  exact skeletons_modify _ id fun _ => rfl

@[simp] theorem skeletons_absorb (stage : Stage ν) (target source : Nat) :
    (stage.absorb target source).skeletons = stage.skeletons :=
  foldl_keeps skeletons (fun merged entry => merged.skeletons_adoptEntry target entry) _ stage

end Stage

/-! ## Headers -/

section Headers

variable [Scalar ν]

/-- The easing of the whole span, and whether it has landed. -/
def Timeline.header (timeline : Timeline ν) : Option String × Bool :=
  (timeline.easing, timeline.landed)

theorem Timeline.header_seek (timeline : Timeline ν) (time : ν) :
    (timeline.seek time).header = timeline.header := by
  unfold seek
  split <;> rfl

theorem Timeline.header_write (timeline : Timeline ν) (property : String) (value : Value ν)
    (known : Option (Value ν)) :
    (timeline.write property value known).header = timeline.header := by
  unfold write capture
  split <;> rfl

namespace Stage

/-- A change that keeps the header of a timeline keeps those of all timelines. -/
theorem header_modify (stage : Stage ν) (id other : Nat) {change : Timeline ν → Timeline ν}
    (kept : ∀ timeline, (change timeline).header = timeline.header) :
    ((stage.modify id change).timeline other).header = (stage.timeline other).header := by
  simp only [timeline, get?, modify, List.getElem?_modify]
  cases stage.timelines[other]? with
  | none => rfl
  | some timeline =>
    by_cases here : id = other
    · simpa [here] using kept timeline
    · simp [here]

theorem header_easeSegment (stage : Stage ν) (id other : Nat) (easing : Option String) :
    ((stage.easeSegment id easing).timeline other).header = (stage.timeline other).header := by
  cases easing with
  | none => rfl
  | some easing => exact stage.header_modify id other fun _ => rfl

/-- Writing styles changes no header. -/
theorem header_write (stage : Stage ν) (id other : Nat) (styles : Styles ν)
    (easing : Option String) :
    ((stage.write id styles easing).timeline other).header = (stage.timeline other).header := by
  have entered : ∀ (written : Stage ν) entry,
      ((written.writeEntry id entry).timeline other).header = (written.timeline other).header := by
    intro written entry
    unfold writeEntry
    split
    · rfl
    · exact written.header_modify id other fun timeline => timeline.header_write entry.1 entry.2 _
  have entries := foldl_keeps (fun written : Stage ν => (written.timeline other).header) entered
    styles.entries (stage.easeSegment id easing)
  have carried := (styles.entries.foldl (fun written entry => written.writeEntry id entry)
    (stage.easeSegment id easing)).header_modify id other fun timeline =>
      (rfl : timeline.carryWritten.header = timeline.header)
  exact carried.trans (entries.trans (stage.header_easeSegment id other easing))

/-- Nor does a step without styles. -/
theorem header_writeEmptyStep (stage : Stage ν) (id other : Nat) (easing : Option String) :
    ((stage.writeEmptyStep id easing).timeline other).header = (stage.timeline other).header := by
  have marked : ∀ timeline : Timeline ν,
      (stage.shared.entries.foldl (fun marked entry => marked.blankOut entry.1 entry.2)
        timeline).header = timeline.header := by
    refine foldl_keeps Timeline.header (fun timeline entry => ?_) _
    unfold Timeline.blankOut Timeline.capture
    split <;> rfl
  exact (header_modify _ id other marked).trans (stage.header_easeSegment id other easing)

end Stage

end Headers

end Storyboard
