import Storyboard.Proofs.Compilation.Ledger

/-!
# The keyframe under the cursor

The cursor moves in many places: through delays and durations, a frame on in front of a style or a
sequence, along the steps of a keyframe list, and to timelines that are opened. A keyframe that is
opened on the way has no entries yet, so for a moment properties that were written earlier are
missing at the cursor. What follows a move brings them back: a snapshot, a write, which carries
along what was written before, or a step without payload, which marks every shared property.

So two conditions are kept up on the timeline that the walk is on. `Stage.Shares` holds at any
time: the cursor stands on a keyframe, and what the timeline has written is shared. `Stage.Complete`
holds between two visits: what it has written has an entry in that keyframe. The timeline into
which others are folded takes up their writes without showing them, but the walk leaves it at once
for a blank one.

`Traversal.complete_visit` says that the visit of a tree keeps the second condition, and
`Timeline.completeDestination_of_complete` that nothing is left to complete when the destination
styles are landed.
-/

set_option autoImplicit false

namespace Storyboard

variable {ν : Type}

/-! ## Timelines -/

namespace Timeline

/-- The cursor stands on a keyframe. -/
def Stands (timeline : Timeline ν) : Prop :=
  timeline.current < timeline.frames.length

/-- What the timeline has written has an entry in the keyframe under the cursor. -/
structure Complete (timeline : Timeline ν) : Prop where
  stands : timeline.Stands
  carried : ∀ property, timeline.written.contains property = true →
    timeline.currentStyles.contains property = true

variable {timeline : Timeline ν}

/-- Whether the cursor stands on a keyframe shows in the skeleton. -/
theorem Stands.of_skeleton {changed : Timeline ν} (stands : timeline.Stands)
    (same : changed.skeleton = timeline.skeleton) : changed.Stands := by
  have current : changed.current = timeline.current := congrArg Skeleton.current same
  have times : changed.times = timeline.times := congrArg Skeleton.times same
  have frames : changed.frames.length = timeline.frames.length := by
    simpa only [Timeline.times, List.length_map] using congrArg List.length times
  unfold Stands at stands ⊢
  rw [current, frames]
  exact stands

/-- Wherever the cursor moves, it comes to stand on a keyframe. -/
theorem stands_seek [Scalar ν] (timeline : Timeline ν) (time : ν) :
    (timeline.seek time).Stands := by
  unfold seek
  split
  · next index found =>
    obtain ⟨bound, _⟩ := List.findIdx?_eq_some_iff_getElem.1 found
    exact bound
  · simp [Stands]

theorem written_seek [Scalar ν] (timeline : Timeline ν) (time : ν) :
    (timeline.seek time).written = timeline.written := by
  unfold seek
  split <;> rfl

theorem written_capture (timeline : Timeline ν) (property : String) (known : Option (Value ν)) :
    (timeline.capture property known).written = timeline.written := by
  unfold capture
  split <;> rfl

theorem written_blankOut (timeline : Timeline ν) (property : String) (known : Value ν) :
    (timeline.blankOut property known).written = timeline.written :=
  timeline.written_capture property (some known)

theorem currentStyles_capture (timeline : Timeline ν) (property : String)
    (known : Option (Value ν)) :
    (timeline.capture property known).currentStyles = timeline.currentStyles := by
  unfold capture
  split <;> rfl

theorem currentStyles_editCurrent (stands : timeline.Stands) (edit : Styles ν → Styles ν) :
    (timeline.editCurrent edit).currentStyles = edit timeline.currentStyles := by
  have found : timeline.frames[timeline.current]? = some timeline.frames[timeline.current] :=
    List.getElem?_eq_getElem stands
  simp [editCurrent, editFrame, currentStyles, found]

/-- A blank timeline has written nothing. -/
theorem complete_blank [Scalar ν] (start : ν) (inherited : Styles ν) :
    (blank start inherited).Complete := by
  refine ⟨Nat.one_pos, ?_⟩
  intro property written
  exact absurd written (OrderedMap.not_contains_empty property)

/-- A snapshot brings back what was written. -/
theorem Stands.complete_snapshot (stands : timeline.Stands) : timeline.snapshot.Complete := by
  refine ⟨stands.of_skeleton timeline.skeleton_snapshot, ?_⟩
  intro property (written : timeline.written.contains property = true)
  unfold OrderedMap.contains at written
  rw [snapshot, currentStyles_editCurrent stands, OrderedMap.contains, OrderedMap.get?_overlay,
    Option.isSome_or, written, Bool.true_or]

/-- So does carrying along what the keyframe lacks. -/
theorem Stands.complete_carryWritten (stands : timeline.Stands) :
    timeline.carryWritten.Complete := by
  refine ⟨stands.of_skeleton timeline.skeleton_carryWritten, ?_⟩
  intro property (written : timeline.written.contains property = true)
  unfold OrderedMap.contains at written
  rw [carryWritten, currentStyles_editCurrent stands, OrderedMap.contains,
    OrderedMap.get?_fillFrom, Option.isSome_or, written, Bool.or_true]

/-- Marking a property as computed gives it an entry at the cursor, and takes none away. -/
theorem contains_currentStyles_blankOut (stands : timeline.Stands) (property other : String)
    (known : Value ν) :
    (timeline.blankOut property known).currentStyles.contains other =
      (decide (property = other) || timeline.currentStyles.contains other) := by
  have captured : (timeline.capture property (some known)).Stands :=
    stands.of_skeleton (timeline.skeleton_capture property (some known))
  rw [blankOut, currentStyles_editCurrent captured, currentStyles_capture, OrderedMap.contains,
    OrderedMap.get?_insert]
  by_cases same : property = other
  · simp [same]
  · simp [same, OrderedMap.contains]

/-- Behind marks for a list of entries, every property of the list has an entry at the cursor. -/
theorem contains_currentStyles_foldl_blankOut (other : String) :
    ∀ (entries : List (String × Value ν)) {timeline : Timeline ν}, timeline.Stands →
      timeline.currentStyles.contains other = true ∨ other ∈ entries.map Prod.fst →
        (entries.foldl (fun marked entry => marked.blankOut entry.1 entry.2)
          timeline).currentStyles.contains other = true
  | [], _, _, shown => shown.resolve_right List.not_mem_nil
  | entry :: rest, timeline, stands, shown => by
    have marked := contains_currentStyles_blankOut stands entry.1 other entry.2
    refine contains_currentStyles_foldl_blankOut other rest
      (stands.of_skeleton (timeline.skeleton_blankOut entry.1 entry.2)) ?_
    rw [List.map_cons, List.mem_cons] at shown
    rw [marked]
    rcases shown with before | here | later
    · exact .inl (by rw [before, Bool.or_true])
    · exact .inl (by rw [decide_eq_true here.symm, Bool.true_or])
    · exact .inr later

/-- Where nothing is missing, the destination styles are complete as they are. -/
theorem Complete.completeDestination_eq (complete : timeline.Complete) (destination : Styles ν) :
    timeline.completeDestination destination = destination := by
  have nothing : (timeline.written.keys.filter fun property =>
      !timeline.currentStyles.contains property && !destination.contains property) = [] := by
    apply List.filter_eq_nil_iff.2
    intro property listed
    have written := (OrderedMap.contains_iff_mem_keys timeline.written property).2 listed
    simp [complete.carried property written]
  rw [completeDestination, nothing, List.foldl_nil]

end Timeline

variable [Scalar ν]

/-! ## Stages -/

namespace Stage

/-- On a timeline of the stage the cursor stands on a keyframe, and what it has written is
shared. -/
structure Shares (stage : Stage ν) (id : Nat) : Prop where
  opened : id < stage.size
  stands : (stage.timeline id).Stands
  shared : ∀ property, (stage.timeline id).written.contains property = true →
    stage.shared.contains property = true

/-- Moreover nothing that it has written is missing at the cursor. -/
structure Complete (stage : Stage ν) (id : Nat) : Prop extends Shares stage id where
  complete : (stage.timeline id).Complete

variable {stage : Stage ν} {id : Nat}

/-- A change of the timeline that writes nothing, and leaves the cursor on a keyframe. -/
theorem Shares.modify (shares : stage.Shares id) {change : Timeline ν → Timeline ν}
    (stands : (change (stage.timeline id)).Stands)
    (kept : (change (stage.timeline id)).written = (stage.timeline id).written) :
    (stage.modify id change).Shares id := by
  have changed : (stage.modify id change).timeline id = change (stage.timeline id) :=
    (timeline_modify shares.opened change id).trans (if_pos rfl)
  refine ⟨(size_modify stage id change).symm ▸ shares.opened, changed.symm ▸ stands, ?_⟩
  intro property written
  rw [changed, kept] at written
  exact shares.shared property written

/-- If that change brings back everything written, nothing is missing behind it. -/
theorem Shares.complete_modify (shares : stage.Shares id) {change : Timeline ν → Timeline ν}
    (complete : (change (stage.timeline id)).Complete)
    (kept : (change (stage.timeline id)).written = (stage.timeline id).written) :
    (stage.modify id change).Complete id := by
  refine ⟨shares.modify complete.stands kept, ?_⟩
  rw [timeline_modify shares.opened, if_pos rfl]
  exact complete

theorem Shares.seek (shares : stage.Shares id) (time : Timeline ν → ν) :
    (stage.modify id fun timeline => timeline.seek (time timeline)).Shares id :=
  shares.modify (Timeline.stands_seek _ _) (Timeline.written_seek _ _)

theorem Shares.easeSegment (shares : stage.Shares id) (easing : Option String) :
    (stage.easeSegment id easing).Shares id := by
  cases easing with
  | none => exact shares
  | some easing =>
    exact shares.modify (shares.stands.of_skeleton (Timeline.skeleton_easeSegment _ easing)) rfl

/-- A write is shared. -/
theorem Shares.writeEntry (shares : stage.Shares id) (entry : String × Value ν) :
    (stage.writeEntry id entry).Shares id := by
  unfold Stage.writeEntry
  split
  · exact shares
  · have changed := (timeline_modify shares.opened (fun timeline =>
      timeline.write entry.1 entry.2 (stage.shared.get? entry.1)) id).trans (if_pos rfl)
    refine ⟨(size_modify stage id _).symm ▸ shares.opened, ?_, ?_⟩
    · exact changed.symm ▸ shares.stands.of_skeleton (Timeline.skeleton_write _ _ _ _)
    · intro property written
      change ((stage.modify id _).timeline id).written.contains property = true at written
      rw [changed] at written
      change (((stage.timeline id).capture entry.1 _).written.insert entry.1 entry.2).contains
        property = true at written
      rw [Timeline.written_capture, OrderedMap.contains, OrderedMap.get?_insert] at written
      rw [OrderedMap.contains, OrderedMap.get?_insert]
      split at written
      · next same => rw [if_pos same, Option.isSome_some]
      · next apart =>
        rw [if_neg apart]
        exact shares.shared property written

/-- Behind a write nothing is missing. -/
theorem Shares.complete_write (shares : stage.Shares id) (styles : Styles ν)
    (easing : Option String) : (stage.write id styles easing).Complete id := by
  have entered : (styles.entries.foldl (fun written entry => written.writeEntry id entry)
      (stage.easeSegment id easing)).Shares id := by
    refine List.foldlRecOn (motive := fun written : Stage ν => written.Shares id) styles.entries _
      (shares.easeSegment easing) ?_
    intro written kept entry _
    exact kept.writeEntry entry
  exact entered.complete_modify entered.stands.complete_carryWritten rfl

/-- Nor behind a step without payload, because what was written is shared. -/
theorem Shares.complete_writeEmptyStep (shares : stage.Shares id) (easing : Option String) :
    (stage.writeEmptyStep id easing).Complete id := by
  have eased := shares.easeSegment easing
  have common : (stage.easeSegment id easing).shared = stage.shared := by
    cases easing <;> rfl
  have kept : (stage.shared.entries.foldl (fun marked entry => marked.blankOut entry.1 entry.2)
      ((stage.easeSegment id easing).timeline id)).written =
        ((stage.easeSegment id easing).timeline id).written :=
    foldl_keeps Timeline.written
      (fun marked (entry : String × Value ν) => marked.written_blankOut entry.1 entry.2) _ _
  have skeleton := foldl_keeps Timeline.skeleton
    (fun marked (entry : String × Value ν) => marked.skeleton_blankOut entry.1 entry.2)
    stage.shared.entries ((stage.easeSegment id easing).timeline id)
  refine eased.complete_modify ⟨eased.stands.of_skeleton skeleton, ?_⟩ kept
  intro property written
  rw [kept] at written
  have listed := eased.shared property written
  rw [common] at listed
  exact Timeline.contains_currentStyles_foldl_blankOut property _ eased.stands
    (.inr ((OrderedMap.contains_iff_mem_keys stage.shared property).1 listed))

/-- A timeline that was just opened is blank. -/
theorem complete_fork (stage : Stage ν) (parent : Nat) (start : Option ν) (inherits : Bool) :
    (stage.fork parent start inherits).Complete stage.size := by
  have blank : (stage.fork parent start inherits).timeline stage.size = Timeline.blank _ _ :=
    (timeline_push stage _ stage.size).trans (if_pos rfl)
  have complete := blank ▸ Timeline.complete_blank _ _
  refine ⟨⟨(size_push stage _).symm ▸ Nat.lt_succ_self _, complete.stands, ?_⟩, complete⟩
  intro property written
  rw [blank] at written
  exact absurd written (OrderedMap.not_contains_empty property)

end Stage

/-! ## Walks -/

namespace Traversal

/-- On the timeline that the walk is on, the cursor stands on a keyframe, and what was written
there is shared. -/
abbrev Shares (walk : Traversal ν) : Prop :=
  walk.stage.Shares walk.current

/-- Moreover nothing that was written there is missing at the cursor. -/
abbrev Complete (walk : Traversal ν) : Prop :=
  walk.stage.Complete walk.current

variable {walk : Traversal ν}

theorem shares_pass (shares : walk.Shares) (time : ν) : (walk.pass time).Shares :=
  Stage.Shares.seek shares fun timeline => Scalar.larger (timeline.cursor + time) 0

theorem complete_writeStyle (shares : walk.Shares) (scope : Params ν) (step : StyleStep ν)
    (easing : Option String) : (walk.writeStyle scope step easing).Complete :=
  Stage.Shares.complete_write shares _ _

/-- A walk that goes on with a new timeline begins on a blank one. -/
theorem complete_continueAt (walk : Traversal ν) (time : Option ν) :
    (walk.continueAt time).Complete :=
  walk.stage.complete_fork walk.current time false

/-- So does one that enters a branch of a group. -/
theorem complete_enterBranch (entry walk : Traversal ν) : (entry.enterBranch walk).Complete :=
  walk.stage.complete_fork entry.current none true

theorem complete_start (starting : Styles ν) : (start starting).Complete := by
  have created : (Stage.empty.create (0 : ν)).Complete 0 :=
    { opened := Nat.one_pos
      stands := Nat.one_pos
      shared := fun property written => absurd written (OrderedMap.not_contains_empty property)
      complete := Timeline.complete_blank 0 ∅ }
  exact created.toShares.complete_write starting none

theorem Complete.awaitPayload (complete : walk.Complete) (scope : Params ν) (timing : Timing ν) :
    (walk.awaitPayload scope timing).Complete := by
  unfold Traversal.awaitPayload wait
  split
  · have passed : ((walk.report (timing.resolve scope).2).pass
        (timing.resolve scope).1.delay).Shares := shares_pass complete.toShares _
    exact Stage.Shares.complete_modify passed passed.stands.complete_snapshot rfl
  · exact complete

theorem Complete.runEmpty (complete : walk.Complete) (timings : Timings ν) :
    (walk.runEmpty timings).Complete :=
  (shares_pass complete.toShares _).complete_writeEmptyStep timings.easing

theorem Complete.runAnimate (complete : walk.Complete) (scope : Params ν) (timing : Timing ν)
    (payload : Option (Payload ν)) : (walk.runAnimate scope timing payload).Complete := by
  have waited := complete.awaitPayload scope timing
  cases payload with
  | none =>
    rw [runAnimate_empty]
    exact waited.runEmpty _
  | some payload =>
    cases payload with
    | style step =>
      rw [runAnimate_style]
      exact complete_writeStyle (shares_pass waited.toShares _) scope step _
    | keyframes steps =>
      -- Its writes are on a timeline of its own, and the walk leaves the one that takes them up.
      rw [runAnimate_keyframes]
      exact complete_continueAt _ _

theorem Complete.writeBareStyle (complete : walk.Complete) (settings : Settings ν)
    (scope : Params ν) (step : StyleStep ν) :
    (walk.writeBareStyle settings scope step).Complete := by
  unfold Traversal.writeBareStyle
  split
  · have moved : (walk.modifyCurrent fun timeline =>
        timeline.forwardFrame settings.frameLength).Shares := complete.toShares.seek _
    exact complete_writeStyle moved scope step none
  · exact complete_writeStyle complete.toShares scope step none

theorem Complete.enterSequence (complete : walk.Complete) (settings : Settings ν) :
    (walk.enterSequence settings).Complete := by
  unfold Traversal.enterSequence
  split
  · refine complete.toShares.complete_modify ?_ ?_
    · exact (Timeline.stands_seek _ _).complete_snapshot
    · exact Timeline.written_seek _ _
  · exact complete

/-- Behind a group the walk begins on a blank timeline. -/
theorem complete_visitBranches (settings : Settings ν) (scope : Params ν) (entry : Traversal ν) :
    ∀ (branches : List (Tree ν)) (ends : List Nat) (furthest : ν) (walk : Traversal ν),
      (visitBranches settings scope entry branches ends furthest walk).Complete
  | [], _, _, _ => complete_continueAt _ _
  | branch :: rest, ends, furthest, walk => by
    rw [visitBranches_cons]
    exact complete_visitBranches settings scope entry rest _ _ _

mutual

/-- **The visit of a tree that finds nothing missing at the cursor leaves nothing missing there.** -/
theorem complete_visit (settings : Settings ν) :
    ∀ (tree : Tree ν) (scope : Params ν) {walk : Traversal ν}, walk.Complete →
      (visit settings scope tree walk).Complete
  | .sequence steps, scope, walk, complete => by
    have visited := complete_visitSteps settings steps scope (complete.enterSequence settings)
    simp only [visit, after]
    split
    · exact complete_continueAt _ none
    · exact visited
  | .group branches, scope, walk, _ => by
    simp only [visit, after]
    exact complete_visitBranches settings scope walk branches [] walk.now walk
  | .animate timing payload, scope, _, complete => complete.runAnimate scope timing payload
  | .style step, scope, _, complete => complete.writeBareStyle settings scope step
  | .reference animation defaults, scope, _, complete => by
    simp only [visit, after]
    exact complete_visit settings animation _ complete
  | .animateRef animation defaults overrides, scope, _, complete => by
    simp only [visit, after]
    exact complete_visit settings animation _ complete
  | .state .., _, _, complete => complete
  | .transition .., _, _, complete => complete
  | .keyframes .., _, _, complete => complete
  | .trigger .., _, _, complete => complete
  | .animateChild .., _, _, complete => complete
  | .query .., _, _, complete => complete
  | .stagger .., _, _, complete => complete

theorem complete_visitSteps (settings : Settings ν) :
    ∀ (steps : List (Tree ν)) (scope : Params ν) {walk : Traversal ν}, walk.Complete →
      (visitSteps settings scope steps walk).Complete
  | [], _, _, complete => complete
  | step :: rest, scope, walk, complete => by
    rw [visitSteps]
    exact complete_visitSteps settings rest scope (complete_visit settings step scope complete)

end

/-- At the end of a walk that leaves nothing missing, the destination styles are landed as they
are. -/
theorem Complete.land_eq (complete : walk.Complete) (destination : Styles ν) :
    walk.land destination =
      if destination.isEmpty then walk.stage else walk.stage.land walk.current destination := by
  simp only [land, complete.complete.completeDestination_eq]

end Traversal

/-- Nothing is missing at the cursor when a walk from starting styles has ended. -/
theorem Tree.complete_walk (tree : Tree ν) (settings : Settings ν) (starting : Styles ν)
    (scope : Params ν) :
    (Traversal.visit settings scope tree (.start starting)).Complete :=
  Traversal.complete_visit settings tree scope (Traversal.complete_start starting)

end Storyboard
