import Storyboard.Proofs.Compilation.Upkeep
import Storyboard.Proofs.Timeline.Explicit
import Storyboard.Proofs.Tree.Nodes

/-!
# Known properties stay known

A property that has an explicit value at the start keeps one. Four things could leave it to the
computed style: the first write on a timeline captures what was there before, an empty step marks
every shared property as computed, a fork takes over what its parent knows, and the destination
styles are completed by what the last keyframe lacks. The first finds the value that the
animation shares, which is explicit from the start on; the second needs an animated step without
a payload; a fork inherits values that were written; and the last keyframe lacks nothing that was
written on its timeline.

Unlike the conditions that are kept up for every value that is written, this one depends on the
values. So the walk is followed once more, with the invariant that the shared value and all that
was written are explicit, that every timeline that the walk has left is at rest, and that the
current one is settled (`Traversal.Knows`). Nothing is asked of the numbers or of the frame length
(`Tree.compile_keeps_known`).
-/

set_option autoImplicit false

namespace Storyboard

variable {ν : Type}

/-! ## What a stage holds -/

/-- A value is shared, and it is explicit like everything that was written. -/
structure Holding.Explicit (holding : Holding ν) : Prop where
  shared : ∃ value, holding.shared = some value ∧ Storyboard.Explicit (some value)
  summary : ∀ id stamped, holding.summary id = some stamped →
    Storyboard.Explicit (some stamped.value)

namespace Holding.Explicit

variable {holding : Holding ν}

theorem post (explicit : holding.Explicit) {ledger : List (LedgerEntry ν)}
    (entered : ∀ entry ∈ ledger, Storyboard.Explicit (some entry.stamped.value)) :
    (holding.post ledger).Explicit := by
  refine List.foldlRecOn (motive := Holding.Explicit) _ _ explicit ?_
  intro reached kept entry member
  refine ⟨⟨_, rfl, entered entry member⟩, fun id stamped found => ?_⟩
  simp only [Holding.enter] at found
  split at found
  · cases found
    exact entered entry member
  · exact kept.summary id stamped found

theorem carry [Scalar ν] (explicit : holding.Explicit) (target source : Nat) :
    ∀ entry ∈ holding.carry target source, Storyboard.Explicit (some entry.stamped.value) := by
  intro entry member
  unfold Holding.carry at member
  split at member
  · exact absurd member List.not_mem_nil
  · next stamped found =>
    split at member
    · rw [List.mem_singleton.1 member]
      exact explicit.summary source stamped found
    · exact absurd member List.not_mem_nil

end Holding.Explicit

variable [Scalar ν]

/-- Every timeline of the stage is at rest, and what the stage holds of the property is explicit. -/
structure Stage.Knows (property : String) (stage : Stage ν) : Prop where
  holding : (stage.holding property).Explicit
  resting : ∀ id, (stage.strand property id).Resting

/-- All timelines but the current one are at rest, and a condition holds of the current one. -/
structure Traversal.Knows (condition : Timeline.Strand ν → Prop) (property : String)
    (walk : Traversal ν) : Prop where
  placed : walk.Placed
  holding : (walk.stage.holding property).Explicit
  others : ∀ id, id ≠ walk.current → (walk.stage.strand property id).Resting
  here : condition (walk.stage.strand property walk.current)

namespace Stage.Knows

variable {property : String} {stage : Stage ν}

/-- Folding a timeline into another one records only what was written. -/
theorem written_absorb (knows : stage.Knows property) (target source id : Nat) :
    Explicit ((stage.absorb target source).strand property id).written := by
  refine List.foldlRecOn
    (motive := fun merged : Stage ν => Explicit (merged.strand property id).written) _ _
      (knows.resting id).written ?_
  intro merged kept entry member
  have taken : entry ∈ (stage.timeline source).summary.entries := (List.mem_filter.1 member).1
  have found := OrderedMap.get?_of_mem taken
  by_cases apart : id = target
  · subst apart
    simp only [strand, timeline, get?, adoptEntry, modify, List.getElem?_modify, if_true]
      at kept ⊢
    cases stands : merged.timelines[id]? with
    | none => exact explicit_none
    | some timeline =>
      rw [stands] at kept
      show Explicit ((timeline.adopt entry.1 entry.2).strand property).written
      rw [Timeline.strand_adopt]
      split
      · next same => exact knows.holding.summary source entry.2 (same ▸ found)
      · exact kept
  · have other := merged.timeline_modify_of_ne apart fun timeline => timeline.adopt entry.1 entry.2
    show Explicit (((merged.modify target _).timeline id).strand property).written
    rw [other]
    exact kept

theorem absorb (knows : stage.Knows property) {target : Nat} (opened : target < stage.size)
    (source : Nat) : (stage.absorb target source).Knows property where
  holding := by
    rw [Stage.holding_absorb opened]
    exact knows.holding.post (knows.holding.carry target source)
  resting id := by
    have same := stage.shown_strand_absorb target source property id
    have frames := congrArg Timeline.Strand.frames same
    have current := congrArg Timeline.Strand.current same
    have backfill := congrArg Timeline.Strand.backfill same
    have inherited := congrArg Timeline.Strand.inherited same
    simp only [Timeline.Strand.shown] at frames current backfill inherited
    have rested := knows.resting id
    refine ⟨?_, knows.written_absorb target source id, ?_, ?_⟩
    · rw [current, frames]
      exact rested.bound
    · rw [inherited]
      exact rested.inherited
    · rw [frames, backfill]
      exact rested.shown

theorem absorbAll {target : Nat} : ∀ (sources : List Nat) {stage : Stage ν},
    stage.Knows property → target < stage.size →
      (sources.foldl (fun stage source => stage.absorb target source) stage).Knows property
  | [], _, knows, _ => knows
  | source :: rest, stage, knows, opened => by
    have size : (stage.absorb target source).size = stage.size :=
      size_eq_of_skeletons (skeletons_absorb stage target source)
    exact absorbAll rest (knows.absorb opened source) (size.symm ▸ opened)

/-- A fork inherits what was written or inherited before, so it is settled. -/
theorem opens (knows : stage.Knows property) {walk : Traversal ν} {parent : Nat}
    {start : Option ν} {inherits : Bool} (forked : walk.stage = stage.fork parent start inherits)
    (current : walk.current = stage.size) :
    walk.Knows Timeline.Strand.Settled property := by
  have effective : Explicit ((stage.timeline parent).effective.get? property) := by
    rw [Timeline.effective, OrderedMap.get?_overlay]
    exact (knows.resting parent).written.or (knows.resting parent).inherited
  have inherited : Explicit
      ((if inherits then (stage.timeline parent).effective else ∅).get? property) := by
    split
    · exact effective
    · exact explicit_none
  refine ⟨?_, ?_, fun id apart => ?_, ?_⟩
  · rw [Traversal.Placed, forked, current, fork, size_push]
    exact Nat.lt_succ_self _
  · rw [forked, holding_fork]
    exact knows.holding
  · rw [current] at apart
    rw [forked, fork, strand_push, if_neg apart]
    exact knows.resting id
  · rw [forked, current, fork, strand_push, if_pos rfl, Timeline.strand_blank]
    exact Timeline.Strand.settled_blank _ inherited

end Stage.Knows

/-! ## The operations of a walk -/

namespace Traversal

open Timeline.Strand (Settled Arrived)

section Operations

variable {property : String} {walk : Traversal ν} {condition next : Timeline.Strand ν → Prop}

theorem Knows.rested (knows : walk.Knows Settled property) : walk.stage.Knows property where
  holding := knows.holding
  resting id := by
    by_cases here : id = walk.current
    · rw [here]
      exact knows.here.toResting
    · exact knows.others id here

/-- It makes no difference which kind of node is remembered. -/
theorem Knows.remember (knows : walk.Knows condition property) (kind : NodeKind) :
    (walk.after kind).Knows condition property :=
  ⟨knows.placed, knows.holding, knows.others, knows.here⟩

theorem Knows.arrived (knows : walk.Knows Settled property) : walk.Knows Arrived property :=
  { knows with here := knows.here.arrived }

/-- Changing the current timeline without writing. -/
theorem Knows.modify (knows : walk.Knows condition property) {change : Timeline ν → Timeline ν}
    (kept : ∀ timeline, (change timeline).summary = timeline.summary)
    (here : next ((change (walk.stage.timeline walk.current)).strand property)) :
    (walk.modifyCurrent change).Knows next property where
  placed := Nat.lt_of_lt_of_eq knows.placed (Stage.size_modify _ _ _).symm
  holding := by
    have same := walk.stage.holding_modify walk.current change kept property
    exact same.symm ▸ knows.holding
  others id apart := by
    have same := walk.stage.timeline_modify_of_ne apart change
    have rested := knows.others id apart
    rw [Stage.strand, ← same] at rested
    exact rested
  here := by
    have changed : (walk.modifyCurrent change).stage.strand property walk.current = _ :=
      Stage.strand_modify knows.placed change
    exact changed.symm ▸ here

theorem knows_seek (knows : walk.Knows Settled property) (time : Timeline ν → ν) :
    (walk.modifyCurrent fun timeline => timeline.seek (time timeline)).Knows Arrived property := by
  refine knows.modify (fun timeline => ?_) ?_
  · unfold Timeline.seek
    split <;> rfl
  · rw [Timeline.strand_seek]
    exact knows.here.seek _

theorem knows_snapshot (knows : walk.Knows Arrived property) :
    (walk.modifyCurrent Timeline.snapshot).Knows Settled property := by
  refine knows.modify (fun _ => rfl) ?_
  rw [Timeline.strand_snapshot]
  exact knows.here.snapshot

/-- Writing styles keeps the property known if they have an explicit value for it, if any. -/
theorem knows_write (free : property ≠ offsetKey) (knows : walk.Knows Arrived property)
    {styles : Styles ν} (explicit : Explicit (styles.get? property)) {easing : Option String}
    (unreserved : property ≠ easingKey ∨ easing = none) :
    (walk.write styles easing).Knows Settled property where
  placed := (course_write free knows.placed styles easing).placed
  holding := by
    rw [(course_write free knows.placed styles easing).holding]
    refine knows.holding.post fun entry member => ?_
    unfold writeLedger at member
    split at member
    · next value found =>
      rw [List.mem_singleton.1 member]
      exact found ▸ explicit
    · exact absurd member List.not_mem_nil
  others id apart := by
    have same := walk.stage.timeline_write_of_ne apart styles easing
    have rested := knows.others id apart
    rw [Stage.strand, ← same] at rested
    exact rested
  here := by
    have written : (walk.write styles easing).stage.strand property walk.current = _ :=
      Stage.strand_write knows.placed free styles unreserved
    obtain ⟨known, shared, given⟩ := knows.holding.shared
    have shares : walk.stage.shared.get? property = some known := shared
    show ((walk.write styles easing).stage.strand property walk.current).Settled
    rw [written, shares]
    cases found : styles.get? property with
    | some value => exact knows.here.write (found ▸ explicit) given
    | none => exact knows.here.carry

theorem knows_writeStyle (free : property ≠ offsetKey) (unreserved : property ≠ easingKey)
    (knows : walk.Knows Arrived property) {scope : Params ν} {step : StyleStep ν}
    (explicit : Explicit ((step.fill scope).styles.get? property)) (easing : Option String) :
    (walk.writeStyle scope step easing).Knows Settled property := by
  have wrote : (walk.write (step.fill scope).styles (easing.or (step.fill scope).easing)).Knows
      Settled property := knows_write free knows explicit (.inl unreserved)
  exact ⟨wrote.placed, wrote.holding, wrote.others, wrote.here⟩

theorem knows_approachStyle (knows : walk.Knows Settled property) (settings : Settings ν) :
    (walk.approachStyle settings).Knows Arrived property := by
  unfold approachStyle
  split
  · exact knows_seek knows fun timeline => timeline.cursor + settings.frameLength
  · exact knows.arrived

theorem knows_enterSequence (knows : walk.Knows Settled property) (settings : Settings ν) :
    (walk.enterSequence settings).Knows Settled property := by
  unfold enterSequence
  split
  · have snapped := knows_snapshot
      (knows_seek knows fun timeline => timeline.cursor + settings.frameLength)
    have both := Stage.modify_modify walk.stage walk.current
      (fun timeline => timeline.seek (timeline.cursor + settings.frameLength)) Timeline.snapshot
    have here := snapped.here
    have holding := snapped.holding
    have others := snapped.others
    simp only [modifyCurrent, both] at here holding others
    exact ⟨Nat.lt_of_lt_of_eq knows.placed (Stage.size_modify _ _ _).symm, holding, others, here⟩
  · exact knows

theorem knows_awaitPayload (knows : walk.Knows Settled property) (scope : Params ν)
    (timing : Timing ν) : (walk.awaitPayload scope timing).Knows Settled property := by
  have reported : (walk.report (timing.resolve scope).2).Knows Settled property :=
    ⟨knows.placed, knows.holding, knows.others, knows.here⟩
  unfold awaitPayload wait
  split
  · exact knows_snapshot (knows_seek reported fun timeline =>
      Scalar.larger (timeline.cursor + (timing.resolve scope).1.delay) 0)
  · exact reported

theorem knows_pass (knows : walk.Knows Settled property) (time : ν) :
    (walk.pass time).Knows Arrived property :=
  knows_seek knows fun timeline => Scalar.larger (timeline.cursor + time) 0

theorem knows_writeKeyframes (free : property ≠ offsetKey) (unreserved : property ≠ easingKey)
    {scope : Params ν} (duration : ν) :
    ∀ (steps : List (StyleStep ν × ν)) {walk : Traversal ν}, walk.Knows Settled property →
      (∀ step ∈ steps.map Prod.fst, Explicit ((step.fill scope).styles.get? property)) →
        (writeKeyframes scope duration steps walk).Knows Settled property
  | [], _, knows, _ => knows
  | (step, offset) :: rest, walk, knows, explicit => by
    obtain ⟨first, others⟩ := List.forall_mem_cons.1 explicit
    have moved := knows_seek knows fun _ => Scalar.larger (offset * duration) 0
    exact knows_writeKeyframes free unreserved duration rest
      (knows_writeStyle free unreserved moved first none) others

theorem knows_runKeyframes (free : property ≠ offsetKey) (unreserved : property ≠ easingKey)
    (knows : walk.Knows Settled property) {scope : Params ν} {steps : List (StyleStep ν)}
    (timings : Timings ν)
    (explicit : ∀ step ∈ steps, Explicit ((step.fill scope).styles.get? property)) :
    (walk.runKeyframes scope steps timings).Knows Settled property := by
  have branched : walk.branch.Knows Settled property := knows.rested.opens rfl rfl
  have forked : (walk.forkKeyframes timings).Knows Settled property :=
    branched.modify (fun _ => rfl) branched.here
  have ran := knows_writeKeyframes free unreserved timings.duration
    (steps.zip (keyframeOffsets steps)) forked
    (by rwa [map_fst_zip_keyframeOffsets])
  have opened := (course_ranKeyframes free knows.placed scope (steps.zip (keyframeOffsets steps))
    timings).placed
  exact (ran.rested.absorb opened _).opens rfl rfl

theorem knows_runAnimate (free : property ≠ offsetKey) (unreserved : property ≠ easingKey)
    (knows : walk.Knows Settled property) {scope : Params ν} (timing : Timing ν)
    (payload : Payload ν)
    (explicit : ∀ step ∈ payload.steps, Explicit ((step.fill scope).styles.get? property)) :
    (walk.runAnimate scope timing (some payload)).Knows Settled property := by
  have waited := knows_awaitPayload knows scope timing
  cases payload with
  | keyframes steps =>
    rw [runAnimate_keyframes]
    exact knows_runKeyframes free unreserved waited _ explicit
  | style step =>
    rw [runAnimate_style]
    exact knows_writeStyle free unreserved (knows_pass waited _)
      (explicit step (List.mem_singleton.2 rfl)) _

end Operations

/-! ## The walk -/

section Visits

variable {property : String} {settings : Settings ν}

mutual

/-- **A walk that knows a property still knows it behind a tree** whose styles have explicit values
for it and whose animated steps have payloads. -/
theorem knows_visit (free : property ≠ offsetKey) (unreserved : property ≠ easingKey) :
    ∀ (tree : Tree ν) (scope : Params ν), (∀ node ∈ tree.nodes, node.HasPayload) →
      (∀ declaration ∈ tree.declarations scope,
        Explicit ((declaration.step.fill declaration.scope).styles.get? property)) →
        ∀ {walk : Traversal ν}, walk.Knows Settled property →
          (visit settings scope tree walk).Knows Settled property
  | .sequence steps, scope, payloads, explicit, walk, knows => by
    have visited := knows_visitSteps free unreserved steps scope
      (List.forall_mem_cons.1 payloads).2 explicit (knows_enterSequence knows settings)
    simp only [visit]
    split
    · have opened : Knows Settled property (continueAt _ none) := visited.rested.opens rfl rfl
      exact opened.remember .sequence
    · exact visited.remember .sequence
  | .group branches, scope, payloads, explicit, walk, knows => by
    obtain ⟨reached, left⟩ := visitBranches_eq_leaveGroup property settings scope walk branches []
      walk.now walk
    have through := knows_throughBranches free unreserved branches scope
      (List.forall_mem_cons.1 payloads).2 explicit knows.rested knows.placed
    have opened : Knows Settled property (leaveGroup walk
        ([] ++ (branchRuns property settings scope walk branches walk).map BranchRun.last) reached
          (throughBranches settings scope walk branches walk)) :=
      (through.absorbAll _
        (course_throughBranches free settings branches scope knows.placed).placed).opens rfl rfl
    simp only [visit]
    rw [left]
    exact opened.remember .group
  | .animate timing none, scope, payloads, _, walk, _ =>
    absurd (payloads _ List.mem_cons_self) not_false
  | .animate timing (some payload), scope, _, explicit, walk, knows => by
    have animated := knows_runAnimate free unreserved knows timing payload
      fun step member => explicit ⟨step, scope⟩ (List.mem_map_of_mem member)
    exact animated.remember .animate
  | .style step, scope, _, explicit, walk, knows => by
    have wrote := knows_writeStyle free unreserved (knows_approachStyle knows settings)
      (explicit ⟨step, scope⟩ List.mem_cons_self) none
    exact wrote.remember .style
  | .reference animation defaults, scope, payloads, explicit, walk, knows => by
    have visited := knows_visit free unreserved animation (referenceScope defaults scope)
      (List.forall_mem_cons.1 payloads).2 explicit knows
    exact visited.remember .reference
  | .animateRef animation defaults overrides, scope, payloads, explicit, walk, knows => by
    have visited := knows_visit free unreserved animation
      (invocationScope defaults scope overrides) (List.forall_mem_cons.1 payloads).2 explicit knows
    exact visited.remember .animateRef
  | .state .., _, _, _, _, knows => knows.remember .state
  | .transition .., _, _, _, _, knows => knows.remember .transition
  | .keyframes .., _, _, _, _, knows => knows.remember .keyframes
  | .trigger .., _, _, _, _, knows => knows.remember .trigger
  | .animateChild .., _, _, _, _, knows => knows.remember .animateChild
  | .query .., _, _, _, _, knows => knows.remember .query
  | .stagger .., _, _, _, _, knows => knows.remember .stagger

theorem knows_visitSteps (free : property ≠ offsetKey) (unreserved : property ≠ easingKey) :
    ∀ (steps : List (Tree ν)) (scope : Params ν), (∀ node ∈ Tree.allNodes steps, node.HasPayload) →
      (∀ declaration ∈ Tree.allDeclarations scope steps,
        Explicit ((declaration.step.fill declaration.scope).styles.get? property)) →
        ∀ {walk : Traversal ν}, walk.Knows Settled property →
          (visitSteps settings scope steps walk).Knows Settled property
  | [], _, _, _, _, knows => knows
  | step :: rest, scope, payloads, explicit, walk, knows => by
    obtain ⟨paid, others⟩ := Tree.forall_mem_allNodes_cons.1 payloads
    obtain ⟨given, further⟩ := Tree.forall_mem_allDeclarations_cons.1 explicit
    exact knows_visitSteps free unreserved rest scope others further
      (knows_visit free unreserved step scope paid given knows)

theorem knows_throughBranches (free : property ≠ offsetKey) (unreserved : property ≠ easingKey) :
    ∀ (branches : List (Tree ν)) (scope : Params ν),
      (∀ node ∈ Tree.allNodes branches, node.HasPayload) →
        (∀ declaration ∈ Tree.allDeclarations scope branches,
          Explicit ((declaration.step.fill declaration.scope).styles.get? property)) →
          ∀ {entry walk : Traversal ν}, walk.stage.Knows property →
            entry.current < walk.stage.size →
              (throughBranches settings scope entry branches walk).stage.Knows property
  | [], _, _, _, _, _, knows, _ => knows
  | branch :: rest, scope, payloads, explicit, entry, walk, knows, opened => by
    obtain ⟨paid, others⟩ := Tree.forall_mem_allNodes_cons.1 payloads
    obtain ⟨given, further⟩ := Tree.forall_mem_allDeclarations_cons.1 explicit
    have forked : (entry.enterBranch walk).Knows Settled property := knows.opens rfl rfl
    have visited := knows_visit free unreserved branch scope paid given forked
    have course := (course_enterBranch property entry walk).silent_trans
      (course_visit free settings branch scope forked.placed)
    exact knows_throughBranches free unreserved rest scope others further visited.rested
      (Nat.lt_of_lt_of_le opened course.grows)

end

end Visits

/-! ## Start and destination -/

section Ends

variable {property : String}

/-- The starting styles make the property known. -/
theorem knows_start (free : property ≠ offsetKey) {starting : Styles ν} {value : Value ν}
    (given : starting.get? property = some value) (explicit : Explicit (some value)) :
    (start starting).Knows Settled property := by
  have placed : (beginning : Traversal ν).Placed := Nat.one_pos
  have blank (id : Nat) : (beginning : Traversal ν).stage.timeline id = Timeline.blank 0 ∅ := by
    cases id <;> rfl
  have course : Course property beginning (beginning.writeLedger property starting)
      (start starting) := course_write free placed starting none
  have entered : beginning.writeLedger property starting =
      [⟨0, ⟨beginning.now, value⟩, false⟩] := by
    rw [writeLedger, given]
    rfl
  refine ⟨course.placed, ?_, fun id apart => ?_, ?_⟩
  · have held : (start starting).stage.holding property = _ := course.holding
    rw [held, entered]
    refine ⟨⟨value, rfl, explicit⟩, fun id stamped found => ?_⟩
    simp only [Holding.post, List.foldl_cons, List.foldl_nil, Holding.enter] at found
    split at found
    · cases found
      exact explicit
    · simp only [Stage.holding, blank] at found
      exact absurd found.symm (Option.some_ne_none stamped)
  · have same : (start starting).stage.timeline id = beginning.stage.timeline id :=
      Stage.timeline_write_of_ne _ apart starting none
    rw [Stage.strand, same, blank, Timeline.strand_blank]
    exact (Timeline.Strand.settled_blank 0 explicit_none).toResting
  · have written : (start starting).stage.strand property 0 = _ :=
      Stage.strand_write placed free starting (.inr rfl)
    show ((start starting).stage.strand property 0).Settled
    rw [written, given]
    exact Timeline.Strand.settled_write_blank 0 explicit

/-- Landing explicit destination styles adds nothing for a property that is settled. -/
theorem Knows.land (free : property ≠ offsetKey) {walk : Traversal ν}
    (knows : walk.Knows Settled property) (complete : walk.Complete) {destination : Styles ν}
    (explicit : Explicit (destination.get? property)) :
    (walk.land destination).Knows property := by
  rw [complete.land_eq]
  split
  · exact knows.rested
  · have wrote := knows_write free knows.arrived explicit (.inr rfl)
    have landed : (Traversal.modifyCurrent _ fun timeline =>
        { timeline with landed := true }).Knows Settled property :=
      wrote.modify (fun _ => rfl) wrote.here
    exact landed.rested

end Ends

end Traversal

/-- **A known property is never left to the computed style.** If the starting styles give it an
explicit value, no style that the walk comes to and no destination style leaves it to the computed
style, and every animated step has a payload, then no keyframe of any instruction does. -/
theorem Tree.compile_keeps_known (tree : Tree ν) (settings : Settings ν)
    (starting destination : Styles ν) (scope : Params ν) {property : String}
    (free : property ≠ offsetKey) (unreserved : property ≠ easingKey)
    (payloads : ∀ node ∈ tree.nodes, node.HasPayload) {value : Value ν}
    (given : starting.get? property = some value) (explicit : value ≠ Value.automatic)
    (declared : ∀ declaration ∈ tree.declarations scope,
      (declaration.step.fill declaration.scope).styles.get? property ≠ some Value.automatic)
    (ends : destination.get? property ≠ some Value.automatic) :
    ∀ instruction ∈ (tree.compile settings starting destination scope).1,
      ∀ keyframe ∈ instruction.keyframes, keyframe.get? property ≠ some Value.automatic := by
  intro instruction emitted keyframe shown
  rcases tree.timeline_of_instruction emitted with noop | ⟨id, _, _, frozen⟩
  · rw [noop] at shown
    exact absurd shown List.not_mem_nil
  · have started := Traversal.knows_start free given fun same => explicit (Option.some.inj same)
    have walked : (Traversal.visit settings scope tree (.start starting)).Knows
        Timeline.Strand.Settled property :=
      Traversal.knows_visit free unreserved tree scope payloads declared started
    have complete := tree.complete_walk settings starting scope
    have resting := (walked.land free complete ends).resting id
    rw [frozen] at shown
    obtain ⟨frame, member, shows⟩ := Timeline.get?_of_keyframe free resting.bound shown
    rw [shows]
    exact resting.shown frame member

/-- A panel fades through a keyframe list beside a move, and then to a level that a parameter
gives. -/
def fadingPanel : Tree Rat :=
  .sequence
    [.group
        [.animateThrough (.millis 100)
            [.ofEntries [("opacity", .number 1)], .ofEntries [("width", .text "50px")]],
          .animateTo (.resolved ⟨50, 20, none⟩) (.ofEntries [("left", .text "10px")])],
      .reference (.animateTo (.millis 40)
        (.ofEntries [("opacity", .text "\x7b\x7blevel\x7d\x7d")]))
        (.ofList [("level", .text "0.5")])]

/-- The opacity is known all along; the place, of which nothing is known at the start, is not. -/
theorem keeps_known_fadingPanel :
    (∀ node ∈ fadingPanel.nodes, node.HasPayload) ∧
      (∀ declaration ∈ fadingPanel.declarations ∅,
        (declaration.step.fill declaration.scope).styles.get? "opacity" ≠
          some Value.automatic) ∧
      (∀ instruction ∈ (fadingPanel.compile Settings.standard
          (.ofList [("opacity", .number 0)]) ∅ ∅).1,
        ∀ keyframe ∈ instruction.keyframes,
          keyframe.get? "opacity" ≠ some Value.automatic) ∧
      ∃ instruction ∈ (fadingPanel.compile Settings.standard
          (.ofList [("opacity", .number 0)]) ∅ ∅).1,
        ∃ keyframe ∈ instruction.keyframes, keyframe.get? "left" = some Value.automatic := by
  have payloads : ∀ node ∈ fadingPanel.nodes, node.HasPayload := by decide
  have declared : ∀ declaration ∈ fadingPanel.declarations ∅,
      (declaration.step.fill declaration.scope).styles.get? "opacity" ≠ some Value.automatic := by
    decide +kernel
  have given : (OrderedMap.ofList [("opacity", .number 0)] : Styles Rat).get? "opacity" =
      some (.number 0) := rfl
  exact ⟨payloads, declared,
    fadingPanel.compile_keeps_known Settings.standard _ ∅ ∅ (by decide) (by decide) payloads given
      (by decide) declared (by decide),
    by decide +kernel⟩

end Storyboard
