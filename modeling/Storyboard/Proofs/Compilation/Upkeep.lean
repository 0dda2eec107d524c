import Storyboard.Proofs.Compilation.Completeness
import Storyboard.Proofs.Compilation.Emitted
import Storyboard.Proofs.Timeline.Strand
import Storyboard.Proofs.Tree.Nodes

/-!
# What a walk keeps up on every timeline

Statements about one property of all timelines of an animation follow one pattern. While the walk
is on a timeline, something is true of that timeline between two steps, and something weaker while
the cursor has just moved. The walk leaves a timeline only between two steps, and never comes back:
a timeline that was left is at most marked with values carried over from others, which do not show
on it. So what holds of a timeline when it is left, holds of it in the end.

`Upkeep` names the conditions, in view of the entries made so far, and `Upkeep.Lawful` says what
is to be proved about single operations on a strand. From this `Traversal.tended_visit` concludes,
by one induction over trees, that the visit of a tree keeps the conditions up on every timeline.
-/

set_option autoImplicit false

namespace Storyboard

variable {ν : Type}

/-! ## Conditions on a property -/

/-- Conditions on one property of a timeline, in view of the entries made so far. -/
structure Upkeep (ν : Type) where
  /-- On a timeline that the walk has left. -/
  left : List (LedgerEntry ν) → Nat → Timeline.Strand ν → Prop
  /-- On the timeline that the walk is on, between two steps. -/
  ready : List (LedgerEntry ν) → Nat → Timeline.Strand ν → Prop
  /-- On that timeline while the cursor has moved and nothing was written there yet. -/
  moved : List (LedgerEntry ν) → Nat → Timeline.Strand ν → Prop
  /-- The cursor may move from one local time to another. -/
  onward : ν → ν → Prop
  /-- The nodes that a tree may have. -/
  admits : Tree ν → Prop

/-- Every single operation of a walk keeps the conditions up. -/
structure Upkeep.Lawful [Scalar ν] (upkeep : Upkeep ν) (settings : Settings ν) : Prop where
  left_of_ready : ∀ {ledger id strand}, upkeep.ready ledger id strand → upkeep.left ledger id strand
  moved_of_ready : ∀ {ledger id strand},
    upkeep.ready ledger id strand → upkeep.moved ledger id strand
  left_of_shown : ∀ {ledger id first second}, first.shown = second.shown →
    upkeep.left ledger id first → upkeep.left ledger id second
  left_append : ∀ {ledger id strand more}, (∀ entry ∈ more, entry.timeline = id → entry.carried) →
    upkeep.left ledger id strand → upkeep.left (ledger ++ more) id strand
  blank : ∀ {ledger id} start inherited, (∀ entry ∈ ledger, entry.timeline ≠ id) →
    upkeep.ready ledger id (.blank start inherited)
  seek : ∀ {ledger id strand time}, upkeep.ready ledger id strand →
    upkeep.onward strand.cursor time → upkeep.moved ledger id (strand.seek time)
  write : ∀ {ledger id strand} value, upkeep.moved ledger id strand →
    upkeep.ready (ledger ++ [⟨id, ⟨strand.now, value⟩, false⟩]) id
      (strand.write value (sharedValue ledger))
  carry : ∀ {ledger id strand}, upkeep.moved ledger id strand → upkeep.ready ledger id strand.carry
  snapshot : ∀ {ledger id strand}, upkeep.moved ledger id strand →
    upkeep.ready ledger id strand.snapshot
  emptyStep : ∀ {ledger id strand} timing, upkeep.admits (.animate timing none) →
    upkeep.moved ledger id strand → upkeep.ready ledger id (strand.emptyStep (sharedValue ledger))
  frame : ∀ cursor, upkeep.onward cursor (cursor + settings.frameLength)
  delay : ∀ cursor (timing : Timing ν) scope,
    upkeep.onward cursor (Scalar.larger (cursor + (timing.resolve scope).1.delay) 0)
  duration : ∀ cursor (timing : Timing ν) scope,
    upkeep.onward cursor (Scalar.larger (cursor + (timing.resolve scope).1.duration) 0)
  keyframes : ∀ (timing : Timing ν) steps scope,
    upkeep.admits (.animate timing (some (.keyframes steps))) →
      List.IsChain upkeep.onward (0 :: (keyframeOffsets steps).map fun offset =>
        Scalar.larger (offset * (timing.resolve scope).1.duration) 0)

variable [Scalar ν]

/-! ## Stages and walks in which the conditions are kept up -/

/-- All entries made so far concern timelines of the stage, and the last one gives the shared
value. -/
structure Stage.Accounted (property : String) (ledger : List (LedgerEntry ν)) (stage : Stage ν) :
    Prop where
  shared : stage.shared.get? property = sharedValue ledger
  opened : ∀ entry ∈ ledger, entry.timeline < stage.size

/-- Every timeline of the stage may be left. -/
structure Stage.Rested (upkeep : Upkeep ν) (property : String) (ledger : List (LedgerEntry ν))
    (stage : Stage ν) : Prop where
  accounted : stage.Accounted property ledger
  left : ∀ id < stage.size, upkeep.left ledger id (stage.strand property id)

/-- All timelines but the current one may be left, and a condition holds of the current one. -/
structure Traversal.Tended (upkeep : Upkeep ν)
    (condition : List (LedgerEntry ν) → Nat → Timeline.Strand ν → Prop) (property : String)
    (ledger : List (LedgerEntry ν)) (walk : Traversal ν) : Prop where
  placed : walk.Placed
  accounted : walk.stage.Accounted property ledger
  left : ∀ id < walk.stage.size, id ≠ walk.current →
    upkeep.left ledger id (walk.stage.strand property id)
  here : condition ledger walk.current (walk.stage.strand property walk.current)

theorem Stage.Accounted.course {property : String} {before after : Stage ν}
    {ledger made : List (LedgerEntry ν)} {origin destination : Nat}
    (accounted : before.Accounted property ledger)
    (course : Stage.Course property before origin made after destination) :
    after.Accounted property (ledger ++ made) where
  shared := by
    have posted : after.shared.get? property =
        ((before.holding property).post made).shared := congrArg Holding.shared course.holding
    have before : (before.holding property).shared = sharedValue ledger := accounted.shared
    rw [posted, Holding.shared_post, before, sharedValue_append]
  opened := by
    intro entry member
    rcases List.mem_append.1 member with earlier | later
    · exact Nat.lt_of_lt_of_le (accounted.opened entry earlier) course.grows
    · exact (course.inside entry later).2

namespace Stage.Rested

variable {upkeep : Upkeep ν} {settings : Settings ν} {property : String}
  {ledger : List (LedgerEntry ν)} {stage : Stage ν}

/-- Folding one timeline into another shows on neither of them. -/
theorem absorb (lawful : upkeep.Lawful settings) (rested : stage.Rested upkeep property ledger)
    {target : Nat} (opened : target < stage.size) (source : Nat) :
    (stage.absorb target source).Rested upkeep property
      (ledger ++ (stage.holding property).carry target source) where
  accounted := rested.accounted.course (.absorb opened source)
  left := by
    intro id bound
    have size : (stage.absorb target source).size = stage.size :=
      size_eq_of_skeletons (skeletons_absorb stage target source)
    refine lawful.left_append (fun entry member _ => Holding.carried_of_mem_carry entry member) ?_
    exact lawful.left_of_shown (stage.shown_strand_absorb target source property id).symm
      (rested.left id (size ▸ bound))

theorem absorbAll (lawful : upkeep.Lawful settings) {target : Nat} :
    ∀ (sources : List Nat) {ledger : List (LedgerEntry ν)} {stage : Stage ν},
      stage.Rested upkeep property ledger → target < stage.size →
        (sources.foldl (fun stage source => stage.absorb target source) stage).Rested upkeep property
          (ledger ++ (stage.holding property).carryAll target sources)
  | [], ledger, _, rested, _ => by
    rw [Holding.carryAll, List.append_nil]
    exact rested
  | source :: rest, ledger, stage, rested, opened => by
    have first : Stage.Course property stage target ((stage.holding property).carry target source)
        (stage.absorb target source) target := .absorb opened source
    have others := absorbAll lawful rest (rested.absorb lawful opened source) first.placed
    rw [first.holding, List.append_assoc] at others
    exact others

/-- A walk that goes over to a new timeline finds it ready. -/
theorem opens (lawful : upkeep.Lawful settings) (rested : stage.Rested upkeep property ledger)
    {walk : Traversal ν} {start : ν} {inherited : Styles ν}
    (pushed : walk.stage = stage.push (Timeline.blank start inherited))
    (current : walk.current = stage.size) : walk.Tended upkeep upkeep.ready property ledger where
  placed := by
    rw [Traversal.Placed, pushed, current, size_push]
    exact Nat.lt_succ_self _
  accounted := by
    rw [pushed]
    refine ⟨rested.accounted.shared, fun entry member => ?_⟩
    rw [size_push]
    exact Nat.lt_succ_of_lt (rested.accounted.opened entry member)
  left := by
    intro id bound apart
    rw [pushed, size_push] at bound
    rw [current] at apart
    rw [pushed, strand_push, if_neg apart]
    exact rested.left id (by omega)
  here := by
    rw [pushed, current, strand_push, if_pos rfl, Timeline.strand_blank]
    refine lawful.blank start _ fun entry member => ?_
    exact Nat.ne_of_lt (rested.accounted.opened entry member)

end Stage.Rested

/-! ## The operations of a walk -/

namespace Traversal

section Operations

variable {upkeep : Upkeep ν} {settings : Settings ν} {property : String}
  {ledger : List (LedgerEntry ν)} {walk : Traversal ν}
  {condition next : List (LedgerEntry ν) → Nat → Timeline.Strand ν → Prop}

theorem Tended.rested (lawful : upkeep.Lawful settings)
    (tended : walk.Tended upkeep upkeep.ready property ledger) :
    walk.stage.Rested upkeep property ledger where
  accounted := tended.accounted
  left := by
    intro id bound
    by_cases here : id = walk.current
    · subst here
      exact lawful.left_of_ready tended.here
    · exact tended.left id bound here

theorem Tended.weaken (lawful : upkeep.Lawful settings)
    (tended : walk.Tended upkeep upkeep.ready property ledger) :
    walk.Tended upkeep upkeep.moved property ledger :=
  { tended with here := lawful.moved_of_ready tended.here }

/-- It makes no difference which kind of node is remembered. -/
theorem Tended.remember (tended : walk.Tended upkeep condition property ledger) (kind : NodeKind) :
    (walk.after kind).Tended upkeep condition property ledger :=
  ⟨tended.placed, tended.accounted, tended.left, tended.here⟩

/-- Nothing is entered where a node is passed by. -/
theorem Tended.passBy (tended : walk.Tended upkeep condition property ledger) (kind : NodeKind) :
    (walk.after kind).Tended upkeep condition property (ledger ++ []) := by
  rw [List.append_nil]
  exact tended.remember kind

/-- What happens on the current timeline alone leaves the others as they are. -/
theorem Tended.step (lawful : upkeep.Lawful settings)
    (tended : walk.Tended upkeep condition property ledger) {made : List (LedgerEntry ν)}
    {after : Traversal ν} (course : Course property walk made after)
    (stays : after.current = walk.current) (size : after.stage.size = walk.stage.size)
    (others : ∀ id ≠ walk.current, after.stage.timeline id = walk.stage.timeline id)
    (own : ∀ entry ∈ made, entry.timeline = walk.current)
    (here : next (ledger ++ made) walk.current (after.stage.strand property walk.current)) :
    after.Tended upkeep next property (ledger ++ made) where
  placed := course.placed
  accounted := tended.accounted.course course
  left := by
    intro id bound apart
    rw [stays] at apart
    have unmoved : after.stage.strand property id = walk.stage.strand property id :=
      congrArg (fun timeline => timeline.strand property) (others id apart)
    rw [unmoved]
    refine lawful.left_append (fun entry member same => ?_) (tended.left id (size ▸ bound) apart)
    exact absurd (same.symm.trans (own entry member)) apart
  here := by
    rw [stays]
    exact here

/-- Changing the current timeline without writing. -/
theorem Tended.modify (lawful : upkeep.Lawful settings)
    (tended : walk.Tended upkeep condition property ledger) {change : Timeline ν → Timeline ν}
    (kept : ∀ timeline, (change timeline).summary = timeline.summary)
    (here : next ledger walk.current
      ((change (walk.stage.timeline walk.current)).strand property)) :
    (walk.modifyCurrent change).Tended upkeep next property ledger := by
  have course : Course property walk [] (walk.modifyCurrent change) :=
    .modify tended.placed _ _ kept
  rw [← List.append_nil ledger]
  refine tended.step lawful course rfl (Stage.size_modify _ _ _)
    (fun id apart => walk.stage.timeline_modify_of_ne apart change)
    (fun entry member => absurd member List.not_mem_nil) ?_
  have changed : (walk.modifyCurrent change).stage.strand property walk.current =
      (change (walk.stage.timeline walk.current)).strand property :=
    Stage.strand_modify tended.placed change
  rw [changed, List.append_nil]
  exact here

theorem tended_seek (lawful : upkeep.Lawful settings)
    (tended : walk.Tended upkeep upkeep.ready property ledger) (time : Timeline ν → ν)
    (onward : upkeep.onward (walk.stage.strand property walk.current).cursor
      (time (walk.stage.timeline walk.current))) :
    (walk.modifyCurrent fun timeline => timeline.seek (time timeline)).Tended upkeep upkeep.moved
      property ledger := by
  refine tended.modify lawful (fun timeline => ?_) ?_
  · unfold Timeline.seek
    split <;> rfl
  · rw [Timeline.strand_seek]
    exact lawful.seek tended.here onward

theorem tended_snapshot (lawful : upkeep.Lawful settings)
    (tended : walk.Tended upkeep upkeep.moved property ledger) :
    (walk.modifyCurrent Timeline.snapshot).Tended upkeep upkeep.ready property ledger := by
  refine tended.modify lawful (fun _ => rfl) ?_
  rw [Timeline.strand_snapshot]
  exact lawful.snapshot tended.here

theorem tended_write (lawful : upkeep.Lawful settings) (free : property ≠ offsetKey)
    (tended : walk.Tended upkeep upkeep.moved property ledger) (styles : Styles ν)
    {easing : Option String} (unreserved : property ≠ easingKey ∨ easing = none) :
    (walk.write styles easing).Tended upkeep upkeep.ready property
      (ledger ++ walk.writeLedger property styles) := by
  have skeletons : (walk.write styles easing).stage.skeletons = walk.stage.skeletons :=
    Stage.skeletons_write _ _ _ _
  have written : (walk.write styles easing).stage.strand property walk.current = _ :=
    Stage.strand_write tended.placed free styles unreserved
  refine tended.step lawful (course_write free tended.placed styles easing) rfl
    (Stage.size_eq_of_skeletons skeletons)
    (fun id apart => walk.stage.timeline_write_of_ne apart _ _)
    (fun entry member => (own_writeLedger entry member).1) ?_
  rw [written, tended.accounted.shared]
  unfold writeLedger
  cases styles.get? property with
  | some value => exact lawful.write value tended.here
  | none =>
    rw [List.append_nil]
    exact lawful.carry tended.here

theorem tended_writeStyle (lawful : upkeep.Lawful settings) (free : property ≠ offsetKey)
    (unreserved : property ≠ easingKey)
    (tended : walk.Tended upkeep upkeep.moved property ledger) (scope : Params ν)
    (step : StyleStep ν) (easing : Option String) :
    (walk.writeStyle scope step easing).Tended upkeep upkeep.ready property
      (ledger ++ walk.writeLedger property (step.fill scope).styles) := by
  have wrote : (walk.write (step.fill scope).styles (easing.or (step.fill scope).easing)).Tended
      upkeep upkeep.ready property (ledger ++ walk.writeLedger property (step.fill scope).styles) :=
    tended_write lawful free tended _ (.inl unreserved)
  exact ⟨wrote.placed, wrote.accounted, wrote.left, wrote.here⟩

theorem tended_runEmpty (lawful : upkeep.Lawful settings) (unreserved : property ≠ easingKey)
    (tended : walk.Tended upkeep upkeep.moved property ledger) {timing : Timing ν}
    (admitted : upkeep.admits (.animate timing none)) (easing : Option String) :
    ({ walk with stage := walk.stage.writeEmptyStep walk.current easing } :
      Traversal ν).Tended upkeep upkeep.ready property ledger := by
  have course : Stage.Course property walk.stage walk.current []
      (walk.stage.writeEmptyStep walk.current easing) walk.current :=
    .writeEmptyStep tended.placed _ _
  rw [← List.append_nil ledger]
  refine tended.step lawful course rfl
    (Stage.size_eq_of_skeletons (Stage.skeletons_writeEmptyStep _ _ _))
    (fun id apart => walk.stage.timeline_writeEmptyStep_of_ne apart easing)
    (fun entry member => absurd member List.not_mem_nil) ?_
  rw [List.append_nil, Stage.strand_writeEmptyStep tended.placed (.inl unreserved),
    tended.accounted.shared]
  exact lawful.emptyStep timing admitted tended.here

theorem tended_approachStyle (lawful : upkeep.Lawful settings)
    (tended : walk.Tended upkeep upkeep.ready property ledger) :
    (walk.approachStyle settings).Tended upkeep upkeep.moved property ledger := by
  unfold approachStyle
  split
  · exact tended_seek lawful tended _ (lawful.frame _)
  · exact tended.weaken lawful

theorem tended_enterSequence (lawful : upkeep.Lawful settings)
    (tended : walk.Tended upkeep upkeep.ready property ledger) :
    (walk.enterSequence settings).Tended upkeep upkeep.ready property ledger := by
  unfold enterSequence
  split
  · have moved := tended_seek lawful tended
      (fun timeline => timeline.cursor + settings.frameLength) (lawful.frame _)
    have snapped := tended_snapshot lawful moved
    have both : ((walk.modifyCurrent fun timeline => timeline.seek
        (timeline.cursor + settings.frameLength)).modifyCurrent Timeline.snapshot) =
          walk.modifyCurrent fun timeline =>
            (timeline.forwardFrame settings.frameLength).snapshot :=
      congrArg (fun stage => ({ walk with stage := stage } : Traversal ν))
        (Stage.modify_modify walk.stage walk.current _ _)
    rw [both] at snapped
    exact ⟨snapped.placed, snapped.accounted, snapped.left, snapped.here⟩
  · exact tended

theorem tended_awaitPayload (lawful : upkeep.Lawful settings)
    (tended : walk.Tended upkeep upkeep.ready property ledger) (scope : Params ν)
    (timing : Timing ν) :
    (walk.awaitPayload scope timing).Tended upkeep upkeep.ready property ledger := by
  have reported : (walk.report (timing.resolve scope).2).Tended upkeep upkeep.ready property
      ledger := ⟨tended.placed, tended.accounted, tended.left, tended.here⟩
  unfold awaitPayload wait
  split
  · exact tended_snapshot lawful
      (tended_seek lawful reported _ (lawful.delay _ timing scope))
  · exact reported

/-- The cursor has moved past the duration of a step when its styles are written. -/
theorem tended_pass (lawful : upkeep.Lawful settings)
    (tended : walk.Tended upkeep upkeep.ready property ledger) (scope : Params ν)
    (timing : Timing ν) :
    (walk.pass (timing.resolve scope).1.duration).Tended upkeep upkeep.moved property ledger :=
  tended_seek lawful tended _ (lawful.duration _ timing scope)

theorem tended_writeKeyframes (lawful : upkeep.Lawful settings) (free : property ≠ offsetKey)
    (unreserved : property ≠ easingKey) (scope : Params ν) (duration : ν) :
    ∀ (steps : List (StyleStep ν × ν)) {cursor : ν} {ledger : List (LedgerEntry ν)}
      {walk : Traversal ν}, walk.Tended upkeep upkeep.ready property ledger →
        (walk.stage.skeleton walk.current).cursor = cursor →
          List.IsChain upkeep.onward
            (cursor :: (steps.map Prod.snd).map fun offset => Scalar.larger (offset * duration) 0) →
            (writeKeyframes scope duration steps walk).Tended upkeep upkeep.ready property
              (ledger ++ walk.stepsLedger property scope duration steps)
  | [], _, ledger, walk, tended, _, _ => by
    rw [stepsLedger, List.append_nil]
    exact tended
  | (step, offset) :: rest, cursor, ledger, walk, tended, standing, chain => by
    obtain ⟨onward, further⟩ := List.isChain_cons_cons.1 chain
    subst standing
    have moved := tended_seek lawful tended (fun _ => Scalar.larger (offset * duration) 0) onward
    have wrote := tended_writeStyle lawful free unreserved moved scope step none
    -- Writing leaves the cursor where it was moved to, so the rest of the chain starts there.
    have reached : ((walk.writeKeyframe scope duration (step, offset)).stage.skeleton
        walk.current).cursor = Scalar.larger (offset * duration) 0 := by
      rw [skeleton_writeKeyframe tended.placed, if_pos rfl, Timeline.Skeleton.cursor_seek]
    have others := tended_writeKeyframes lawful free unreserved scope duration rest wrote reached
      further
    rw [List.append_assoc] at others
    exact others

/-- A keyframe list runs on a fork, and the walk goes on with a timeline behind it. -/
theorem tended_runKeyframes (lawful : upkeep.Lawful settings) (free : property ≠ offsetKey)
    (unreserved : property ≠ easingKey)
    (tended : walk.Tended upkeep upkeep.ready property ledger) (scope : Params ν)
    (timing : Timing ν) (steps : List (StyleStep ν))
    (admitted : upkeep.admits (.animate timing (some (.keyframes steps)))) :
    (walk.runKeyframes scope steps (timing.resolve scope).1).Tended upkeep upkeep.ready property
      (ledger ++ walk.keyframesLedger property scope steps (timing.resolve scope).1) := by
  have branched : walk.branch.Tended upkeep upkeep.ready property ledger :=
    (tended.rested lawful).opens lawful rfl rfl
  have forked : (walk.forkKeyframes (timing.resolve scope).1).Tended upkeep upkeep.ready property
      ledger := branched.modify lawful (fun _ => rfl) branched.here
  have beginning : ((walk.forkKeyframes (timing.resolve scope).1).stage.skeleton
      walk.stage.size).cursor = 0 :=
    congrArg Timeline.Skeleton.cursor (skeleton_forked walk (timing.resolve scope).1)
  have chain := lawful.keyframes timing steps scope admitted
  rw [← map_snd_zip_keyframeOffsets steps] at chain
  have ran := tended_writeKeyframes lawful free unreserved scope (timing.resolve scope).1.duration
    (steps.zip (keyframeOffsets steps)) forked beginning chain
  have opened : walk.current < (writeKeyframes scope (timing.resolve scope).1.duration
      (steps.zip (keyframeOffsets steps)) (walk.forkKeyframes (timing.resolve scope).1)).stage.size :=
    (course_ranKeyframes free tended.placed scope _ (timing.resolve scope).1).placed
  have absorbed := (ran.rested lawful).absorb lawful opened (writeKeyframes scope
    (timing.resolve scope).1.duration (steps.zip (keyframeOffsets steps))
      (walk.forkKeyframes (timing.resolve scope).1)).current
  rw [List.append_assoc] at absorbed
  exact absorbed.opens lawful rfl rfl

theorem tended_runAnimate (lawful : upkeep.Lawful settings) (free : property ≠ offsetKey)
    (unreserved : property ≠ easingKey)
    (tended : walk.Tended upkeep upkeep.ready property ledger) (scope : Params ν)
    (timing : Timing ν) (payload : Option (Payload ν))
    (admitted : upkeep.admits (.animate timing payload)) :
    (walk.runAnimate scope timing payload).Tended upkeep upkeep.ready property
      (ledger ++ walk.animateLedger property scope timing payload) := by
  have waited := tended_awaitPayload lawful tended scope timing
  match payload with
  | none =>
    rw [runAnimate_empty, animateLedger, List.append_nil]
    exact tended_runEmpty lawful unreserved (tended_pass lawful waited scope timing) admitted _
  | some (.keyframes steps) =>
    rw [runAnimate_keyframes]
    exact tended_runKeyframes lawful free unreserved waited scope timing steps admitted
  | some (.style step) =>
    rw [runAnimate_style]
    exact tended_writeStyle lawful free unreserved (tended_pass lawful waited scope timing) scope
      step _

end Operations

section Visits

variable {upkeep : Upkeep ν} {settings : Settings ν} {property : String}

mutual

/-- **The visit of a tree keeps the conditions up on every timeline.** -/
theorem tended_visit (lawful : upkeep.Lawful settings) (free : property ≠ offsetKey)
    (unreserved : property ≠ easingKey) :
    ∀ (tree : Tree ν), (∀ node ∈ tree.nodes, upkeep.admits node) → ∀ (scope : Params ν)
      {ledger : List (LedgerEntry ν)} {walk : Traversal ν},
        walk.Tended upkeep upkeep.ready property ledger →
          (visit settings scope tree walk).Tended upkeep upkeep.ready property
            (ledger ++ Traversal.ledger property settings scope tree walk)
  | .sequence steps, admitted, scope, ledger, walk, tended => by
    have entered := tended_enterSequence lawful tended
    have visited := tended_visitSteps lawful free unreserved steps
      (List.forall_mem_cons.1 admitted).2 scope entered
    simp only [visit, Traversal.ledger]
    split
    · have opened : Tended upkeep upkeep.ready property _ (Traversal.continueAt _ none) :=
        (visited.rested lawful).opens lawful rfl rfl
      exact opened.remember .sequence
    · exact visited.remember .sequence
  | .group branches, admitted, scope, ledger, walk, tended => by
    obtain ⟨reached, left⟩ := visitBranches_eq_leaveGroup property settings scope walk branches []
      walk.now walk
    have course := course_throughBranches free settings branches scope tended.placed
    have through := rested_throughBranches lawful free unreserved branches
      (List.forall_mem_cons.1 admitted).2 scope (tended.rested lawful) tended.placed
    have absorbed := through.absorbAll lawful
      ((branchRuns property settings scope walk branches walk).map BranchRun.last) course.placed
    rw [course.holding, List.append_assoc] at absorbed
    simp only [visit, Traversal.ledger]
    rw [left]
    have opened : Tended upkeep upkeep.ready property _ (leaveGroup walk
        ([] ++ (branchRuns property settings scope walk branches walk).map BranchRun.last) reached
          (throughBranches settings scope walk branches walk)) :=
      absorbed.opens lawful rfl rfl
    exact opened.remember .group
  | .animate timing payload, admitted, scope, ledger, walk, tended => by
    have animated := tended_runAnimate lawful free unreserved tended scope timing payload
      (admitted _ List.mem_cons_self)
    exact animated.remember .animate
  | .style step, admitted, scope, ledger, walk, tended => by
    have wrote := tended_writeStyle lawful free unreserved (tended_approachStyle lawful tended)
      scope step none
    exact wrote.remember .style
  | .reference animation defaults, admitted, scope, ledger, walk, tended => by
    have visited := tended_visit lawful free unreserved animation
      (List.forall_mem_cons.1 admitted).2 (referenceScope defaults scope) tended
    simp only [visit, Traversal.ledger]
    exact visited.remember .reference
  | .animateRef animation defaults overrides, admitted, scope, ledger, walk, tended => by
    have visited := tended_visit lawful free unreserved animation
      (List.forall_mem_cons.1 admitted).2 (invocationScope defaults scope overrides) tended
    simp only [visit, Traversal.ledger]
    exact visited.remember .animateRef
  | .state .., _, _, _, _, tended => tended.passBy .state
  | .transition .., _, _, _, _, tended => tended.passBy .transition
  | .keyframes .., _, _, _, _, tended => tended.passBy .keyframes
  | .trigger .., _, _, _, _, tended => tended.passBy .trigger
  | .animateChild .., _, _, _, _, tended => tended.passBy .animateChild
  | .query .., _, _, _, _, tended => tended.passBy .query
  | .stagger .., _, _, _, _, tended => tended.passBy .stagger

theorem tended_visitSteps (lawful : upkeep.Lawful settings) (free : property ≠ offsetKey)
    (unreserved : property ≠ easingKey) :
    ∀ (steps : List (Tree ν)), (∀ node ∈ Tree.allNodes steps, upkeep.admits node) →
      ∀ (scope : Params ν) {ledger : List (LedgerEntry ν)} {walk : Traversal ν},
        walk.Tended upkeep upkeep.ready property ledger →
          (visitSteps settings scope steps walk).Tended upkeep upkeep.ready property
            (ledger ++ sequenceLedger property settings scope steps walk)
  | [], _, _, ledger, _, tended => by
    rw [sequenceLedger, List.append_nil]
    exact tended
  | step :: rest, admitted, scope, ledger, walk, tended => by
    obtain ⟨first, others⟩ := Tree.forall_mem_allNodes_cons.1 admitted
    have visited := tended_visit lawful free unreserved step first scope tended
    have further := tended_visitSteps lawful free unreserved rest others scope visited
    rw [List.append_assoc] at further
    rw [visitSteps, sequenceLedger]
    exact further

theorem rested_throughBranches (lawful : upkeep.Lawful settings) (free : property ≠ offsetKey)
    (unreserved : property ≠ easingKey) :
    ∀ (branches : List (Tree ν)), (∀ node ∈ Tree.allNodes branches, upkeep.admits node) →
      ∀ (scope : Params ν) {entry walk : Traversal ν} {ledger : List (LedgerEntry ν)},
        walk.stage.Rested upkeep property ledger → entry.current < walk.stage.size →
          (throughBranches settings scope entry branches walk).stage.Rested upkeep property
            (ledger ++
              (branchRuns property settings scope entry branches walk).flatMap BranchRun.ledger)
  | [], _, _, _, _, ledger, rested, _ => by
    rw [branchRuns, List.flatMap_nil, List.append_nil]
    exact rested
  | branch :: rest, admitted, scope, entry, walk, ledger, rested, opened => by
    obtain ⟨first, others⟩ := Tree.forall_mem_allNodes_cons.1 admitted
    have forked : (entry.enterBranch walk).Tended upkeep upkeep.ready property ledger :=
      rested.opens lawful rfl rfl
    have visited := tended_visit lawful free unreserved branch first scope forked
    have course := (course_enterBranch property entry walk).silent_trans
      (course_visit free settings branch scope forked.placed)
    have further := rested_throughBranches lawful free unreserved rest others scope
      (visited.rested lawful) (Nat.lt_of_lt_of_le opened course.grows)
    rw [List.append_assoc] at further
    rw [throughBranches, branchRuns, List.flatMap_cons]
    exact further

end

end Visits

end Traversal

/-! ## Compilations -/

section Compilations

variable {upkeep : Upkeep ν} {settings : Settings ν} {property : String}

theorem Traversal.tended_start (lawful : upkeep.Lawful settings) (free : property ≠ offsetKey)
    (starting : Styles ν) :
    (start starting).Tended upkeep upkeep.ready property
      (beginning.writeLedger property starting) := by
  have empty : (Stage.empty : Stage ν).Rested upkeep property [] :=
    ⟨⟨rfl, fun _ member => absurd member List.not_mem_nil⟩,
      fun _ bound => absurd bound (Nat.not_lt_zero _)⟩
  have opened : (beginning : Traversal ν).Tended upkeep upkeep.ready property [] :=
    empty.opens lawful rfl rfl
  exact tended_write lawful free (opened.weaken lawful) starting (.inr rfl)

/-- Landing the destination styles is one more write, unless there is nothing to land. -/
theorem Traversal.Tended.land (lawful : upkeep.Lawful settings) (free : property ≠ offsetKey)
    {walk : Traversal ν} {ledger : List (LedgerEntry ν)}
    (tended : walk.Tended upkeep upkeep.ready property ledger) (complete : walk.Complete)
    (destination : Styles ν) :
    (walk.land destination).Rested upkeep property
      (ledger ++ walk.writeLedger property destination) := by
  rw [complete.land_eq]
  split
  · next empty =>
    have absent : walk.writeLedger property destination = [] := by
      rw [writeLedger, OrderedMap.get?_of_isEmpty empty]
    rw [absent, List.append_nil]
    exact tended.rested lawful
  · have wrote := tended_write lawful free (tended.weaken lawful) destination (.inr rfl)
    have landed : (Traversal.modifyCurrent _ fun timeline =>
        { timeline with landed := true }).Tended upkeep upkeep.ready property _ :=
      wrote.modify lawful (fun _ => rfl) wrote.here
    exact landed.rested lawful

/-- The entries of a compilation up to the destination styles. -/
def Tree.walkLedger (property : String) (tree : Tree ν) (settings : Settings ν)
    (starting : Styles ν) (scope : Params ν) : List (LedgerEntry ν) :=
  Traversal.beginning.writeLedger property starting ++
    Traversal.ledger property settings scope tree (.start starting)

/-- **A compilation keeps the conditions up until the destination styles are written.** -/
theorem Tree.tended_walk (lawful : upkeep.Lawful settings) (free : property ≠ offsetKey)
    (unreserved : property ≠ easingKey) (tree : Tree ν)
    (admitted : ∀ node ∈ tree.nodes, upkeep.admits node) (starting : Styles ν)
    (scope : Params ν) :
    (Traversal.visit settings scope tree (.start starting)).Tended upkeep upkeep.ready property
      (tree.walkLedger property settings starting scope) :=
  Traversal.tended_visit lawful free unreserved tree admitted scope
    (Traversal.tended_start lawful free starting)

end Compilations

end Storyboard
