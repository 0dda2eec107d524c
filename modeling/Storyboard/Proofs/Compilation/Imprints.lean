import Storyboard.Proofs.Compilation.Replay
import Storyboard.Proofs.Compilation.Slots
import Storyboard.Proofs.Timeline.Imprints

/-!
# The imprints of a compilation

Along a walk everything that is put into a keyframe is noted: the styles that bare styles, animated
steps and keyframe lists write, and the marks of steps without payload. Together with the starting
and the destination styles these are the imprints of a compilation (`Tree.imprints`).

Every timeline of the emitted stage keeps its imprints (`Tree.keeps_landedStage`). A keyframe could
lose one only to a snapshot, which overwrites it with what the timeline has written. So on the
timeline that the walk is on, what was put in last at the cursor is on record as written
(`Traversal.Retains`); this holds because cursors do not go back there. In a keyframe list they may,
but no snapshot is taken on its fork, and no walk comes back to a timeline that it has left.
-/

set_option autoImplicit false

namespace Storyboard

/-! ## The imprints of a walk -/

namespace Traversal

variable {ν : Type} [Scalar ν]

/-- What is put in at the cursor of the walk. -/
def imprint (styles : Option (Styles ν)) (walk : Traversal ν) : Imprint ν :=
  ⟨walk.current, walk.now, (walk.stage.timeline walk.current).cursor, styles⟩

/-- The imprints of the steps of a keyframe list. -/
def keyframeImprints (scope : Params ν) (duration : ν) :
    List (StyleStep ν × ν) → Traversal ν → List (Imprint ν)
  | [], _ => []
  | (step, offset) :: rest, walk =>
    let moved := walk.modifyCurrent fun timeline => timeline.forwardTo (offset * duration)
    moved.imprint (some (step.fill scope).styles) ::
      keyframeImprints scope duration rest (moved.writeStyle scope step none)

/-- The imprints of an animated step. -/
def animateImprints (scope : Params ν) (timing : Timing ν) (payload : Option (Payload ν))
    (walk : Traversal ν) : List (Imprint ν) :=
  let timings := (timing.resolve scope).1
  let waited := walk.awaitPayload scope timing
  match payload with
  | some (.keyframes steps) =>
    (waited.forkKeyframes timings).keyframeImprints scope timings.duration
      (steps.zip (keyframeOffsets steps))
  | some (.style step) => [(waited.pass timings.duration).imprint (some (step.fill scope).styles)]
  | none => [(waited.pass timings.duration).imprint none]

mutual

/-- The imprints that the visit of a tree makes, in order. -/
def imprints (settings : Settings ν) (scope : Params ν) : Tree ν → Traversal ν → List (Imprint ν)
  | .sequence steps, walk => stepImprints settings scope steps (walk.enterSequence settings)
  | .group branches, walk => branchImprints settings scope walk branches walk
  | .animate timing payload, walk => walk.animateImprints scope timing payload
  | .style step, walk => [(walk.approachStyle settings).imprint (some (step.fill scope).styles)]
  | .reference animation defaults, walk =>
    imprints settings (referenceScope defaults scope) animation walk
  | .animateRef animation defaults overrides, walk =>
    imprints settings (invocationScope defaults scope overrides) animation walk
  | _, _ => []

/-- The imprints of steps that run one after the other. -/
def stepImprints (settings : Settings ν) (scope : Params ν) :
    List (Tree ν) → Traversal ν → List (Imprint ν)
  | [], _ => []
  | step :: rest, walk =>
    imprints settings scope step walk ++
      stepImprints settings scope rest (visit settings scope step walk)

/-- The imprints of the branches of a group, one branch after the other. -/
def branchImprints (settings : Settings ν) (scope : Params ν) (entry : Traversal ν) :
    List (Tree ν) → Traversal ν → List (Imprint ν)
  | [], _ => []
  | branch :: rest, walk =>
    imprints settings scope branch (entry.enterBranch walk) ++
      branchImprints settings scope entry rest
        (visit settings scope branch (entry.enterBranch walk))

end

end Traversal

/-- All imprints of a compilation: of the starting styles, along the walk, and of the destination
styles. -/
def Tree.imprints {ν : Type} [Scalar ν] (tree : Tree ν) (settings : Settings ν)
    (starting destination : Styles ν) (scope : Params ν) : List (Imprint ν) :=
  Traversal.beginning.imprint (some starting) ::
    Traversal.imprints settings scope tree (.start starting) ++
      [(Traversal.visit settings scope tree (.start starting)).imprint (some destination)]

/-! ## Stages that keep their imprints -/

/-- Every timeline of the stage keeps its imprints. -/
structure Stage.Keeps (property : String) (log : List (Imprint Rat)) (stage : Stage Rat) :
    Prop where
  opened : ∀ imprint ∈ log, imprint.timeline < stage.size
  strands : ∀ id < stage.size, (stage.strand property id).Keeps log property id

namespace Stage.Keeps

variable {property : String} {log made : List (Imprint Rat)} {stage after : Stage Rat} {id : Nat}

/-- What happens on one timeline leaves the others as they are. -/
theorem step (keeps : stage.Keeps property log) (bound : id < stage.size)
    (size : after.size = stage.size)
    (others : ∀ other ≠ id, after.timeline other = stage.timeline other)
    (own : ∀ imprint ∈ made, imprint.timeline = id)
    (here : (after.strand property id).Keeps (log ++ made) property id) :
    after.Keeps property (log ++ made) where
  opened := by
    intro imprint member
    rw [size]
    rcases List.mem_append.1 member with earlier | later
    · exact keeps.opened imprint earlier
    · exact own imprint later ▸ bound
  strands := by
    intro other opened
    by_cases same : other = id
    · exact same ▸ here
    · have unmoved : after.strand property other = stage.strand property other :=
        congrArg (fun timeline => timeline.strand property) (others other same)
      rw [unmoved]
      exact (keeps.strands other (size ▸ opened)).append fun imprint member there =>
        same (there.symm.trans (own imprint member))

/-- Changing one timeline without putting anything in. -/
theorem modify (keeps : stage.Keeps property log) (bound : id < stage.size)
    {change : Timeline Rat → Timeline Rat}
    (here : ((change (stage.timeline id)).strand property).Keeps log property id) :
    (stage.modify id change).Keeps property log := by
  rw [← List.append_nil log] at here ⊢
  refine keeps.step bound (size_modify _ _ _)
    (fun other apart => stage.timeline_modify_of_ne apart change)
    (fun imprint member => absurd member List.not_mem_nil) ?_
  rwa [strand_modify bound]

theorem seek (keeps : stage.Keeps property log) (bound : id < stage.size)
    (time : Timeline Rat → Rat) :
    (stage.modify id fun timeline => timeline.seek (time timeline)).Keeps property log := by
  refine keeps.modify bound ?_
  rw [Timeline.strand_seek]
  exact (keeps.strands id bound).seek _

/-- Writing styles is put in. -/
theorem write (keeps : stage.Keeps property log) (timed : stage.WellTimed)
    (bound : id < stage.size) (free : property ≠ offsetKey) {easing : Option String}
    (unreserved : property ≠ easingKey ∨ easing = none) (styles : Styles Rat) :
    (stage.write id styles easing).Keeps property
      (log ++ [(stage.strand property id).imprint id (some styles)]) := by
  refine keeps.step bound (size_eq_of_skeletons (skeletons_write _ _ _ _))
    (fun other apart => stage.timeline_write_of_ne apart styles easing)
    (fun imprint member => by rw [List.mem_singleton.1 member]; rfl) ?_
  have wrote := (keeps.strands id bound).write
    (Timeline.standing_strand (timed.timeline id) property) styles (stage.shared.get? property)
  rw [strand_write bound free styles unreserved]
  revert wrote
  cases styles.get? property <;> exact fun wrote => wrote

theorem writeEmptyStep (keeps : stage.Keeps property log) (timed : stage.WellTimed)
    (bound : id < stage.size) (unreserved : property ≠ easingKey) (easing : Option String) :
    (stage.writeEmptyStep id easing).Keeps property
      (log ++ [(stage.strand property id).imprint id none]) := by
  refine keeps.step bound (size_eq_of_skeletons (skeletons_writeEmptyStep _ _ _))
    (fun other apart => stage.timeline_writeEmptyStep_of_ne apart easing)
    (fun imprint member => by rw [List.mem_singleton.1 member]; rfl) ?_
  rw [strand_writeEmptyStep bound (.inl unreserved)]
  exact (keeps.strands id bound).emptyStep (Timeline.standing_strand (timed.timeline id) property) _

theorem absorb (keeps : stage.Keeps property log) (target source : Nat) :
    (stage.absorb target source).Keeps property log := by
  have size : (stage.absorb target source).size = stage.size :=
    size_eq_of_skeletons (skeletons_absorb stage target source)
  refine ⟨fun imprint member => size ▸ keeps.opened imprint member, fun id bound => ?_⟩
  exact (keeps.strands id (size ▸ bound)).of_shown
    (stage.shown_strand_absorb target source property id)

theorem absorbAll (keeps : stage.Keeps property log) (target : Nat) (sources : List Nat) :
    (sources.foldl (fun stage source => stage.absorb target source) stage).Keeps property log :=
  List.foldlRecOn sources _ keeps fun _ kept source _ => kept.absorb target source

theorem push (keeps : stage.Keeps property log) (start : Rat) (inherited : Styles Rat) :
    (stage.push (Timeline.blank start inherited)).Keeps property log := by
  refine ⟨fun imprint member => ?_, fun id bound => ?_⟩
  · rw [size_push]
    exact Nat.lt_succ_of_lt (keeps.opened imprint member)
  · rw [size_push] at bound
    rw [strand_push]
    split
    · next last =>
      refine .of_unopened (fun imprint member => ?_) _
      exact last ▸ Nat.ne_of_lt (keeps.opened imprint member)
    · next apart => exact keeps.strands id (by omega)

end Stage.Keeps

/-! ## The walk -/

/-- All timelines keep their imprints. On the current one nothing was put in behind the cursor, and
what was put in last at the cursor is on record as written. -/
structure Traversal.Retains (property : String) (log : List (Imprint Rat)) (walk : Traversal Rat) :
    Prop where
  keeps : walk.stage.Keeps property log
  past : ∀ imprint ∈ log, imprint.timeline = walk.current →
    imprint.cursor ≤ (walk.stage.timeline walk.current).cursor
  recent : ∀ value, imprinted log property walk.current
      (walk.stage.timeline walk.current).cursor = some value →
    (walk.stage.strand property walk.current).written = some value

namespace Traversal

section Operations

variable {settings : Settings Rat} {property : String} {log made : List (Imprint Rat)}
  {walk after : Traversal Rat}

/-- It makes no difference which kind of node is remembered. -/
theorem Retains.remember (retains : walk.Retains property log) (kind : NodeKind) :
    (walk.after kind).Retains property log :=
  ⟨retains.keeps, retains.past, retains.recent⟩

/-- Nothing is put in where a node is passed by. -/
theorem Retains.passBy (retains : walk.Retains property log) (kind : NodeKind) :
    (walk.after kind).Retains property (log ++ []) := by
  rw [List.append_nil]
  exact retains.remember kind

/-- A timeline that was just opened holds no imprints. -/
theorem retains_of_push {base : Stage Rat} (keeps : base.Keeps property log) {start : Rat}
    {inherited : Styles Rat} (pushed : walk.stage = base.push (Timeline.blank start inherited))
    (current : walk.current = base.size) : walk.Retains property log := by
  have unopened : ∀ imprint ∈ log, imprint.timeline ≠ walk.current :=
    fun imprint member => current ▸ Nat.ne_of_lt (keeps.opened imprint member)
  refine ⟨pushed ▸ keeps.push start inherited, fun imprint member there => ?_,
    fun value given => ?_⟩
  · exact absurd there (unopened imprint member)
  · obtain ⟨imprint, member, there, _⟩ := exists_of_imprinted given
    exact absurd there (unopened imprint member)

/-- A group is left on a blank timeline. -/
theorem retains_leaveGroup (keeps : walk.stage.Keeps property log) (entry : Traversal Rat)
    (ends : List Nat) (furthest : Rat) :
    (entry.leaveGroup ends furthest walk).Retains property log :=
  retains_of_push (keeps.absorbAll entry.current ends) rfl rfl

theorem retains_seek (retains : walk.Retains property log) (placed : walk.Placed)
    {time : Timeline Rat → Rat}
    (onward : (walk.stage.timeline walk.current).cursor ≤ time (walk.stage.timeline walk.current)) :
    (walk.modifyCurrent fun timeline => timeline.seek (time timeline)).Retains property log := by
  have moved : (walk.modifyCurrent fun timeline => timeline.seek (time timeline)).stage.timeline
      walk.current = (walk.stage.timeline walk.current).seek (time _) :=
    timeline_modifyCurrent placed fun timeline => timeline.seek (time timeline)
  have cursor : ((walk.modifyCurrent fun timeline => timeline.seek (time timeline)).stage.timeline
      walk.current).cursor = time (walk.stage.timeline walk.current) := by
    rw [moved]
    unfold Timeline.seek
    split <;> rfl
  have written : ((walk.modifyCurrent fun timeline => timeline.seek (time timeline)).stage.strand
      property walk.current).written = (walk.stage.strand property walk.current).written := by
    rw [Stage.strand, moved, Timeline.strand_seek]
    unfold Timeline.Strand.seek
    split <;> rfl
  refine ⟨retains.keeps.seek placed time, fun imprint member there => ?_, fun value given => ?_⟩
  · exact (retains.past imprint member there).trans (onward.trans_eq cursor.symm)
  · refine written.trans (retains.recent value ?_)
    -- Had something been put in where the cursor goes, then the cursor would stay where it is.
    obtain ⟨imprint, member, there, stands⟩ := exists_of_imprinted given
    have same := le_antisymm onward
      (cursor.symm.trans_le (stands.symm.trans_le (retains.past imprint member there)))
    rwa [same, ← cursor]

theorem retains_snapshot (retains : walk.Retains property log) (leads : walk.Leads) :
    (walk.modifyCurrent Timeline.snapshot).Retains property log := by
  have moved := timeline_modifyCurrent leads.placed Timeline.snapshot
  have standing := Timeline.standing_strand (leads.timed.timeline walk.current) property
  have keeps : ((walk.stage.timeline walk.current).snapshot.strand property).Keeps log property
      walk.current := by
    rw [Timeline.strand_snapshot]
    exact (retains.keeps.strands _ leads.placed).snapshot standing retains.recent
  refine ⟨retains.keeps.modify leads.placed keeps, fun imprint member there => ?_,
    fun value given => ?_⟩
  · refine (retains.past imprint member there).trans_eq ?_
    exact (congrArg Timeline.cursor moved).symm
  · have given : imprinted log property walk.current
        ((walk.modifyCurrent Timeline.snapshot).stage.timeline walk.current).cursor =
          some value := given
    rw [moved] at given
    refine Eq.trans ?_ (retains.recent value given)
    exact congrArg (fun timeline => timeline.written.get? property) moved

/-- What is put in at the cursor is the last imprint there, and nothing is behind it. -/
theorem Retains.concat (retains : walk.Retains property log) {styles : Option (Styles Rat)}
    (keeps : after.stage.Keeps property (log ++ [walk.imprint styles]))
    (stays : after.current = walk.current)
    (same : after.stage.skeletons = walk.stage.skeletons)
    (recent : ∀ value, imprinted (log ++ [walk.imprint styles]) property walk.current
        (walk.stage.timeline walk.current).cursor = some value →
      (after.stage.strand property walk.current).written = some value) :
    after.Retains property (log ++ [walk.imprint styles]) := by
  have cursor : (after.stage.timeline after.current).cursor =
      (walk.stage.timeline walk.current).cursor := by
    rw [stays]
    exact congrArg Timeline.Skeleton.cursor (Stage.skeleton_eq_of_skeletons same walk.current)
  refine ⟨keeps, fun imprint member there => ?_, fun value given => ?_⟩
  · rw [cursor]
    rcases List.mem_append.1 member with earlier | last
    · exact retains.past imprint earlier (there.trans stays)
    · rw [List.mem_singleton.1 last]
      exact le_refl _
  · rw [cursor, stays] at given
    rw [stays]
    exact recent value given

theorem retains_write (retains : walk.Retains property log) (leads : walk.Leads)
    (free : property ≠ offsetKey) (styles : Styles Rat) {easing : Option String}
    (unreserved : property ≠ easingKey ∨ easing = none) :
    (walk.write styles easing).Retains property (log ++ [walk.imprint (some styles)]) := by
  have keeps := retains.keeps.write leads.timed leads.placed free unreserved styles
  refine retains.concat keeps rfl (Stage.skeletons_write _ _ _ _) fun value given => ?_
  have strand : (walk.write styles easing).stage.strand property walk.current = _ :=
    Stage.strand_write leads.placed free styles unreserved
  have counts : imprinted (log ++ [walk.imprint (some styles)]) property walk.current
      (walk.stage.timeline walk.current).cursor = (styles.get? property).or _ :=
    imprinted_write _ _ _ _ _ _
  rw [counts] at given
  rw [strand]
  cases written : styles.get? property with
  | some put => rwa [written] at given
  | none =>
    rw [written, Option.none_or] at given
    exact retains.recent value given

theorem retains_emptyStep (retains : walk.Retains property log) (leads : walk.Leads)
    (unreserved : property ≠ easingKey) (easing : Option String) :
    ({ walk with stage := walk.stage.writeEmptyStep walk.current easing } :
      Traversal Rat).Retains property (log ++ [walk.imprint none]) := by
  have keeps := retains.keeps.writeEmptyStep leads.timed leads.placed unreserved easing
  refine retains.concat keeps rfl (Stage.skeletons_writeEmptyStep _ _ _) fun value given => ?_
  have marked : imprinted (log ++ [walk.imprint none]) property walk.current
      (walk.stage.timeline walk.current).cursor = none := imprinted_mark _ _ _ _ _
  exact nomatch marked.symm.trans given

theorem retains_writeStyle (retains : walk.Retains property log) (leads : walk.Leads)
    (free : property ≠ offsetKey) (unreserved : property ≠ easingKey) (scope : Params Rat)
    (step : StyleStep Rat) (easing : Option String) :
    (walk.writeStyle scope step easing).Retains property
      (log ++ [walk.imprint (some (step.fill scope).styles)]) := by
  have wrote : (walk.write (step.fill scope).styles (easing.or (step.fill scope).easing)).Retains
      property _ := retains_write retains leads free _ (.inl unreserved)
  exact ⟨wrote.keeps, wrote.past, wrote.recent⟩

theorem retains_pass (retains : walk.Retains property log) (placed : walk.Placed) {time : Rat}
    (nonneg : 0 ≤ time) : (walk.pass time).Retains property log :=
  retains_seek retains placed (Scalar.le_larger_add _ nonneg)

theorem retains_approachStyle (frame : 0 ≤ settings.frameLength)
    (retains : walk.Retains property log) (placed : walk.Placed) :
    (walk.approachStyle settings).Retains property log := by
  unfold approachStyle
  split
  · exact retains_seek retains placed (le_add_of_nonneg_right frame)
  · exact retains

theorem retains_enterSequence (frame : 0 ≤ settings.frameLength)
    (retains : walk.Retains property log) (leads : walk.Leads) :
    (walk.enterSequence settings).Retains property log := by
  unfold enterSequence
  split
  · have moved : (walk.modifyCurrent fun timeline =>
        timeline.seek (timeline.cursor + settings.frameLength)).Retains property log :=
      retains_seek retains leads.placed (le_add_of_nonneg_right frame)
    have snapped := retains_snapshot moved (slot_frame frame leads).leads
    have both : ((walk.modifyCurrent fun timeline => timeline.seek
        (timeline.cursor + settings.frameLength)).modifyCurrent Timeline.snapshot) =
          walk.modifyCurrent fun timeline =>
            (timeline.forwardFrame settings.frameLength).snapshot :=
      congrArg (fun stage => ({ walk with stage := stage } : Traversal Rat))
        (Stage.modify_modify walk.stage walk.current _ _)
    rw [both] at snapped
    exact ⟨snapped.keeps, snapped.past, snapped.recent⟩
  · exact retains

theorem retains_awaitPayload (retains : walk.Retains property log) (leads : walk.Leads)
    (scope : Params Rat) (timing : Timing Rat) :
    (walk.awaitPayload scope timing).Retains property log := by
  have reported : (walk.report (timing.resolve scope).2).Retains property log :=
    ⟨retains.keeps, retains.past, retains.recent⟩
  have still : Slot walk (walk.report (timing.resolve scope).2) := slot_still leads rfl rfl
  have ready := still.leads
  have delay := (timing.nonnegative_resolve scope).delay
  unfold awaitPayload wait
  split
  · exact retains_snapshot (retains_pass reported ready.placed delay) (slot_pass ready delay).leads
  · exact reported

/-- The steps of a keyframe list are put in, also where it goes back. -/
theorem keeps_writeKeyframes (free : property ≠ offsetKey) (unreserved : property ≠ easingKey)
    (scope : Params Rat) (duration : Rat) :
    ∀ (steps : List (StyleStep Rat × Rat)) {log : List (Imprint Rat)} {walk : Traversal Rat},
      walk.stage.Keeps property log → walk.stage.WellTimed → walk.Placed →
        (writeKeyframes scope duration steps walk).stage.Keeps property
          (log ++ walk.keyframeImprints scope duration steps)
  | [], log, _, keeps, _, _ => by
    rw [keyframeImprints, List.append_nil]
    exact keeps
  | (step, offset) :: rest, log, walk, keeps, timed, placed => by
    have moved := keeps.seek placed fun _ => Scalar.larger (offset * duration) 0
    have forward : (walk.stage.modify walk.current fun timeline =>
        timeline.forwardTo (offset * duration)).WellTimed :=
      timed.modify _ fun timeline before => Timeline.wellTimed_forwardTo before _
    have bound := placed.trans_eq (Stage.size_modify walk.stage walk.current fun timeline =>
      timeline.forwardTo (offset * duration)).symm
    have wrote : (walk.writeKeyframe scope duration (step, offset)).stage.Keeps property _ :=
      moved.write forward bound free (.inl unreserved) _
    have later : (walk.writeKeyframe scope duration (step, offset)).stage.WellTimed := by
      rw [writeKeyframe, writeStyle, Stage.WellTimed, Stage.skeletons_write]
      exact forward
    have others := keeps_writeKeyframes free unreserved scope duration rest wrote later
      (placed_writeKeyframe placed scope duration _)
    rw [List.append_assoc] at others
    exact others

/-- A keyframe list is put in on its fork, and the walk goes on behind it. -/
theorem retains_runKeyframes (frame : 0 ≤ settings.frameLength)
    (keeps : walk.stage.Keeps property log) (leads : walk.Leads) (free : property ≠ offsetKey)
    (unreserved : property ≠ easingKey) (scope : Params Rat) (steps : List (StyleStep Rat))
    (timings : Timings Rat) :
    (walk.runKeyframes scope steps timings).Retains property
      (log ++ (walk.forkKeyframes timings).keyframeImprints scope timings.duration
        (steps.zip (keyframeOffsets steps))) := by
  have invariant := Stage.wellTimed_invariant frame
  have branched : walk.branch.stage.Keeps property log := keeps.push _ _
  have bound : walk.stage.size < walk.branch.stage.size := by
    have grown : walk.branch.stage.size = walk.stage.size + 1 := Stage.size_push _ _
    omega
  have forked : (walk.forkKeyframes timings).stage.Keeps property log := by
    refine branched.modify bound ?_
    exact (branched.strands _ bound).of_frames rfl rfl
  have timed : (walk.forkKeyframes timings).stage.WellTimed :=
    invariant.ease _ _ _ (branch_invariant invariant leads.timed)
  have ran := keeps_writeKeyframes free unreserved scope timings.duration
    (steps.zip (keyframeOffsets steps)) forked timed (placed_forkKeyframes walk timings)
  exact retains_of_push (ran.absorb walk.current _) rfl rfl

theorem retains_runAnimate (frame : 0 ≤ settings.frameLength) (retains : walk.Retains property log)
    (leads : walk.Leads) (free : property ≠ offsetKey) (unreserved : property ≠ easingKey)
    (scope : Params Rat) (timing : Timing Rat) (payload : Option (Payload Rat)) :
    (walk.runAnimate scope timing payload).Retains property
      (log ++ walk.animateImprints scope timing payload) := by
  have nonneg := (timing.nonnegative_resolve scope).duration
  have waited := retains_awaitPayload retains leads scope timing
  have ready := (slot_awaitPayload leads scope timing).leads
  have passed := retains_pass waited ready.placed nonneg
  have reached := (slot_pass ready nonneg).leads
  match payload with
  | none =>
    rw [runAnimate_empty]
    exact retains_emptyStep passed reached unreserved _
  | some (.keyframes steps) =>
    rw [runAnimate_keyframes]
    exact retains_runKeyframes frame waited.keeps ready free unreserved scope steps _
  | some (.style step) =>
    rw [runAnimate_style]
    exact retains_writeStyle passed reached free unreserved scope step _

end Operations

section Visits

variable {settings : Settings Rat} {property : String}

mutual

/-- **Every visit keeps all imprints.** -/
theorem retains_visit (frame : 0 ≤ settings.frameLength) (free : property ≠ offsetKey)
    (unreserved : property ≠ easingKey) :
    ∀ (tree : Tree Rat) (scope : Params Rat) {log : List (Imprint Rat)} {walk : Traversal Rat},
      walk.Retains property log → walk.Leads →
        (visit settings scope tree walk).Retains property (log ++ imprints settings scope tree walk)
  | .sequence steps, scope, log, walk, retains, leads => by
    have entered := retains_enterSequence frame retains leads
    have visited := retains_visitSteps frame free unreserved steps scope entered
      (slot_enterSequence frame leads).leads
    simp only [visit, imprints]
    split
    · have opened : (Traversal.continueAt _ none).Retains property _ :=
        retains_of_push visited.keeps rfl rfl
      exact opened.remember .sequence
    · exact visited.remember .sequence
  | .group branches, scope, log, walk, retains, leads => by
    obtain ⟨reached, left⟩ := visitBranches_eq_leaveGroup property settings scope walk branches []
      walk.now walk
    have through := keeps_throughBranches frame free unreserved branches scope (.refl leads)
      retains.keeps
    simp only [visit, imprints]
    rw [left]
    exact (retains_leaveGroup through walk _ reached).remember .group
  | .animate timing payload, scope, _, _, retains, leads =>
    (retains_runAnimate frame retains leads free unreserved scope timing payload).remember .animate
  | .style step, scope, _, _, retains, leads =>
    (retains_writeStyle (retains_approachStyle frame retains leads.placed)
      (slot_approachStyle frame leads).leads free unreserved scope step none).remember .style
  | .reference animation defaults, scope, _, _, retains, leads => by
    have visited := retains_visit frame free unreserved animation (referenceScope defaults scope)
      retains leads
    simp only [visit, imprints]
    exact visited.remember .reference
  | .animateRef animation defaults overrides, scope, _, _, retains, leads => by
    have visited := retains_visit frame free unreserved animation
      (invocationScope defaults scope overrides) retains leads
    simp only [visit, imprints]
    exact visited.remember .animateRef
  | .state .., _, _, _, retains, _ => retains.passBy .state
  | .transition .., _, _, _, retains, _ => retains.passBy .transition
  | .keyframes .., _, _, _, retains, _ => retains.passBy .keyframes
  | .trigger .., _, _, _, retains, _ => retains.passBy .trigger
  | .animateChild .., _, _, _, retains, _ => retains.passBy .animateChild
  | .query .., _, _, _, retains, _ => retains.passBy .query
  | .stagger .., _, _, _, retains, _ => retains.passBy .stagger

theorem retains_visitSteps (frame : 0 ≤ settings.frameLength) (free : property ≠ offsetKey)
    (unreserved : property ≠ easingKey) :
    ∀ (steps : List (Tree Rat)) (scope : Params Rat) {log : List (Imprint Rat)}
      {walk : Traversal Rat}, walk.Retains property log → walk.Leads →
        (visitSteps settings scope steps walk).Retains property
          (log ++ stepImprints settings scope steps walk)
  | [], _, log, _, retains, _ => by
    rw [stepImprints, List.append_nil]
    exact retains
  | step :: rest, scope, log, walk, retains, leads => by
    have visited := retains_visit frame free unreserved step scope retains leads
    have further := retains_visitSteps frame free unreserved rest scope visited
      (slot_visit frame step scope leads).leads
    rw [List.append_assoc] at further
    rw [visitSteps, stepImprints]
    exact further

/-- Passing through branches keeps all imprints. -/
theorem keeps_throughBranches (frame : 0 ≤ settings.frameLength) (free : property ≠ offsetKey)
    (unreserved : property ≠ easingKey) :
    ∀ (branches : List (Tree Rat)) (scope : Params Rat) {log : List (Imprint Rat)}
      {entry walk : Traversal Rat} {furthest : Rat}, Underway entry furthest walk.stage →
        walk.stage.Keeps property log →
          (throughBranches settings scope entry branches walk).stage.Keeps property
            (log ++ branchImprints settings scope entry branches walk)
  | [], _, log, _, _, _, _, keeps => by
    rw [branchImprints, List.append_nil]
    exact keeps
  | branch :: rest, scope, log, entry, walk, furthest, underway, keeps => by
    have forked : (entry.enterBranch walk).Retains property log := retains_of_push keeps rfl rfl
    have leads := underway.leads_enterBranch.1
    have visited := retains_visit frame free unreserved branch scope forked leads
    have further := keeps_throughBranches frame free unreserved rest scope
      (underway.visitBranch (slot_visit frame branch scope leads)) visited.keeps
    rw [List.append_assoc] at further
    exact further

end

end Visits

end Traversal

/-! ## Compilations -/

section Compilations

variable {settings : Settings Rat} {property : String} {log : List (Imprint Rat)}

theorem Traversal.retains_start (free : property ≠ offsetKey) (starting : Styles Rat) :
    (start starting).Retains property [beginning.imprint (some starting)] := by
  have empty : (Stage.empty : Stage Rat).Keeps property [] :=
    ⟨fun _ member => absurd member List.not_mem_nil,
      fun _ bound => absurd bound (Nat.not_lt_zero _)⟩
  have bare : (Stage.empty : Stage Rat).WellTimed := fun _ member => absurd member List.not_mem_nil
  have pushed : (beginning : Traversal Rat).stage =
      Stage.empty.push (Timeline.blank (0 : Rat) ∅) := rfl
  exact retains_write (retains_of_push empty pushed rfl)
    (Underway.leads_of_push bare (le_refl 0) pushed rfl).1 free starting (.inr rfl)

/-- The destination styles are put in. -/
theorem Stage.Keeps.land {walk : Traversal Rat} (keeps : walk.stage.Keeps property log)
    (leads : walk.Leads) (complete : walk.Complete) (free : property ≠ offsetKey)
    (destination : Styles Rat) :
    (walk.land destination).Keeps property (log ++ [walk.imprint (some destination)]) := by
  rw [complete.land_eq]
  split
  · next empty =>
    have standing := Timeline.standing_strand (leads.timed.timeline walk.current) property
    refine keeps.step leads.placed rfl (fun _ _ => rfl)
      (fun imprint member => by rw [List.mem_singleton.1 member]; rfl)
      ((keeps.strands _ leads.placed).stay standing ?_)
    intro value given
    rwa [Timeline.Strand.imprint, imprinted_write, OrderedMap.get?_of_isEmpty empty,
      Option.none_or] at given
  · have wrote := keeps.write leads.timed leads.placed free (.inr rfl) destination
    have bound := leads.placed.trans_eq (Stage.size_eq_of_skeletons
      (Stage.skeletons_write walk.stage walk.current destination none)).symm
    exact wrote.modify bound ((wrote.strands _ bound).of_frames rfl rfl)

/-- **A compilation keeps all imprints.** -/
theorem Tree.keeps_landedStage (tree : Tree Rat) (frame : 0 ≤ settings.frameLength)
    (starting destination : Styles Rat) (scope : Params Rat) (free : property ≠ offsetKey)
    (unreserved : property ≠ easingKey) :
    (tree.landedStage settings starting destination scope).Keeps property
      (tree.imprints settings starting destination scope) := by
  have leads := (Traversal.leads_start starting).1
  have walked := Traversal.retains_visit frame free unreserved tree scope
    (Traversal.retains_start free starting) leads
  exact walked.keeps.land (Traversal.slot_visit frame tree scope leads).leads
    (tree.complete_walk settings starting scope) free destination

end Compilations

end Storyboard
