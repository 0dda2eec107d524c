import Storyboard.Proofs.Compilation.Ledger
import Storyboard.Proofs.Tree.Nodes
import Storyboard.Proofs.Tree.Properties

/-!
# Walks that share the same values

A walk reads the shared styles in one place: the first time that it writes a property, it captures
the value that the property has there. So a tree all of whose animated steps have a payload reads
the shared values of the properties that it writes, and no others.

Two walks are parallel with respect to some properties (`Traversal.Parallel`) if they are at the
same place on the same timelines and share the same values of these properties. What else is
shared may differ between them. Visiting a tree that writes no other property keeps two walks
parallel, and it leaves everything else that is shared as it was (`Traversal.visit_parallel`). An
animated step without a payload would break this: it marks whatever is shared.
-/

set_option autoImplicit false

namespace Storyboard

variable {ν : Type}

/-! ## Stages -/

/-- Two stages have the same timelines and share the same values of the named properties. On the
timelines nothing else is recorded, and of what else is shared on the first stage the values are
the known ones. -/
structure Stage.Parallel (names : List String) (known : Styles ν) (first second : Stage ν) :
    Prop where
  timelines : first.timelines = second.timelines
  agree : ∀ property ∈ names, first.shared.get? property = second.shared.get? property
  recorded : ∀ timeline ∈ first.timelines, ∀ property,
    timeline.summary.contains property = true → property ∈ names
  untouched : ∀ property, property ∉ names → first.shared.get? property = known.get? property

namespace Stage.Parallel

variable {names : List String} {known : Styles ν} {first second : Stage ν}

theorem size (parallel : Parallel names known first second) : first.size = second.size :=
  congrArg List.length parallel.timelines

theorem modify (parallel : Parallel names known first second) (id : Nat)
    {change : Timeline ν → Timeline ν}
    (recorded : ∀ timeline : Timeline ν,
      (∀ property, timeline.summary.contains property = true → property ∈ names) →
        ∀ property, (change timeline).summary.contains property = true → property ∈ names) :
    Parallel names known (first.modify id change) (second.modify id change) where
  timelines := congrArg (fun timelines => timelines.modify id change) parallel.timelines
  agree := parallel.agree
  recorded := forall_mem_modify parallel.recorded id recorded
  untouched := parallel.untouched

/-- A change that records nothing. -/
theorem modifySilent (parallel : Parallel names known first second) (id : Nat)
    {change : Timeline ν → Timeline ν}
    (silent : ∀ timeline, (change timeline).summary = timeline.summary) :
    Parallel names known (first.modify id change) (second.modify id change) :=
  parallel.modify id fun timeline recorded => (silent timeline).symm ▸ recorded

/-- Adding the same timeline, on which nothing has been recorded. -/
theorem push (parallel : Parallel names known first second) {timeline : Timeline ν}
    (empty : timeline.summary = ∅) :
    Parallel names known (first.push timeline) (second.push timeline) where
  timelines := congrArg (· ++ [timeline]) parallel.timelines
  agree := parallel.agree
  recorded := by
    refine List.forall_mem_append.2 ⟨parallel.recorded, List.forall_mem_singleton.2 ?_⟩
    intro property there
    rw [empty] at there
    exact absurd there (OrderedMap.not_contains_empty property)
  untouched := parallel.untouched

/-- Sharing the same value of a named property. -/
theorem share (parallel : Parallel names known first second) {property : String}
    (named : property ∈ names) (value : Value ν) :
    Parallel names known { first with shared := first.shared.insert property value }
      { second with shared := second.shared.insert property value } where
  timelines := parallel.timelines
  agree other member := by
    simp only [OrderedMap.get?_insert, parallel.agree other member]
  recorded := parallel.recorded
  untouched other unnamed := by
    have apart : property ≠ other := fun same => unnamed (same ▸ named)
    simp only [OrderedMap.get?_insert, apart, if_false, parallel.untouched other unnamed]

theorem easeSegment (parallel : Parallel names known first second) (id : Nat)
    (easing : Option String) :
    Parallel names known (first.easeSegment id easing) (second.easeSegment id easing) := by
  cases easing with
  | none => exact parallel
  | some easing => exact parallel.modifySilent id fun _ => rfl

/-- A change that records a value of a named property. -/
theorem modifyRecording (parallel : Parallel names known first second) (id : Nat)
    {property : String} (named : property ∈ names) {stamped : Timeline ν → Stamped ν}
    {change : Timeline ν → Timeline ν}
    (records : ∀ timeline,
      (change timeline).summary = timeline.summary.insert property (stamped timeline)) :
    Parallel names known (first.modify id change) (second.modify id change) := by
  refine parallel.modify id fun timeline recorded other there => ?_
  rw [records, OrderedMap.contains, OrderedMap.get?_insert] at there
  by_cases same : property = other
  · exact same ▸ named
  · rw [if_neg same] at there
    exact recorded other there

theorem adoptEntry (parallel : Parallel names known first second) (id : Nat)
    {entry : String × Stamped ν} (named : entry.1 ∈ names) :
    Parallel names known (first.adoptEntry id entry) (second.adoptEntry id entry) :=
  (parallel.share named entry.2.value).modifyRecording id named fun _ => rfl

variable [Scalar ν]

theorem timeline (parallel : Parallel names known first second) (id : Nat) :
    first.timeline id = second.timeline id := by
  rw [Stage.timeline, Stage.timeline, get?, get?, parallel.timelines]

theorem fork (parallel : Parallel names known first second) (parent : Nat) (start : Option ν)
    (inherits : Bool) :
    Parallel names known (first.fork parent start inherits)
      (second.fork parent start inherits) := by
  unfold Stage.fork
  rw [parallel.timeline parent]
  exact parallel.push rfl

/-- Writing a named property, which captures the same shared value in both stages. -/
theorem writeEntry (parallel : Parallel names known first second) (id : Nat)
    {entry : String × Value ν} (named : entry.1 ∈ names) :
    Parallel names known (first.writeEntry id entry) (second.writeEntry id entry) := by
  unfold Stage.writeEntry
  split
  · exact parallel
  · rw [parallel.agree entry.1 named]
    exact (parallel.share named entry.2).modifyRecording id named fun timeline =>
      timeline.summary_write entry.1 entry.2 _

theorem write (parallel : Parallel names known first second) (id : Nat) {styles : Styles ν}
    (named : ∀ property, styles.contains property = true → property ∈ names)
    (easing : Option String) :
    Parallel names known (first.write id styles easing) (second.write id styles easing) := by
  have entries : Parallel names known
      (styles.entries.foldl (fun written entry => written.writeEntry id entry)
        (first.easeSegment id easing))
      (styles.entries.foldl (fun written entry => written.writeEntry id entry)
        (second.easeSegment id easing)) := by
    refine List.foldl_rel (parallel.easeSegment id easing) fun entry member _ _ written => ?_
    refine written.writeEntry id (named entry.1 ?_)
    exact (styles.contains_iff_mem_keys entry.1).2 (List.mem_map_of_mem member)
  exact entries.modifySilent id fun _ => rfl

theorem recorded_timeline (parallel : Parallel names known first second) (id : Nat) :
    ∀ property, (first.timeline id).summary.contains property = true → property ∈ names := by
  intro property there
  unfold Stage.timeline Stage.get? at there
  cases found : first.timelines[id]? with
  | none =>
    rw [found] at there
    exact absurd there (OrderedMap.not_contains_empty property)
  | some timeline =>
    rw [found] at there
    exact parallel.recorded timeline (List.mem_of_getElem? found) property there

theorem absorb (parallel : Parallel names known first second) (target source : Nat) :
    Parallel names known (first.absorb target source) (second.absorb target source) := by
  unfold Stage.absorb
  rw [← parallel.timeline target, ← parallel.timeline source]
  refine List.foldl_rel parallel fun entry member _ _ merged => ?_
  have taken : entry ∈ (first.timeline source).summary.entries := (List.mem_filter.1 member).1
  refine merged.adoptEntry target (parallel.recorded_timeline source entry.1 ?_)
  exact (OrderedMap.contains_iff_mem_keys _ entry.1).2 (List.mem_map_of_mem taken)

end Stage.Parallel

/-! ## Walks -/

/-- Two walks are at the same place on parallel stages. -/
structure Traversal.Parallel (names : List String) (known : Styles ν)
    (first second : Traversal ν) : Prop where
  stage : first.stage.Parallel names known second.stage
  current : first.current = second.current
  previous : first.previous = second.previous

namespace Traversal

section Operations

variable {names : List String} {known : Styles ν} {first second : Traversal ν}

namespace Parallel

theorem report (parallel : Parallel names known first second) (problems others : List (Problem ν)) :
    Parallel names known (first.report problems) (second.report others) :=
  ⟨parallel.stage, parallel.current, parallel.previous⟩

theorem after (parallel : Parallel names known first second) (kind : NodeKind) :
    Parallel names known (first.after kind) (second.after kind) :=
  ⟨parallel.stage, parallel.current, rfl⟩

theorem modifyCurrent (parallel : Parallel names known first second)
    {change : Timeline ν → Timeline ν}
    (silent : ∀ timeline, (change timeline).summary = timeline.summary) :
    Parallel names known (first.modifyCurrent change) (second.modifyCurrent change) := by
  refine ⟨?_, parallel.current, parallel.previous⟩
  show Stage.Parallel names known (first.stage.modify first.current change)
    (second.stage.modify second.current change)
  rw [← parallel.current]
  exact parallel.stage.modifySilent first.current silent

variable [Scalar ν]

theorem now (parallel : Parallel names known first second) : first.now = second.now := by
  rw [Traversal.now, Traversal.now, Stage.now, Stage.now, ← parallel.current,
    parallel.stage.timeline]

theorem seek (parallel : Parallel names known first second) (time : Timeline ν → ν) :
    Parallel names known (first.modifyCurrent fun timeline => timeline.seek (time timeline))
      (second.modifyCurrent fun timeline => timeline.seek (time timeline)) := by
  refine parallel.modifyCurrent fun timeline => ?_
  unfold Timeline.seek
  split <;> rfl

theorem pass (parallel : Parallel names known first second) (time : ν) :
    Parallel names known (first.pass time) (second.pass time) :=
  parallel.seek fun timeline => Scalar.larger (timeline.cursor + time) 0

/-- Going on with a fork of the current timeline. -/
theorem opens (parallel : Parallel names known first second) (start : Option ν) (inherits : Bool) :
    Parallel names known
      { first with
        stage := first.stage.fork first.current start inherits
        current := first.stage.size }
      { second with
        stage := second.stage.fork second.current start inherits
        current := second.stage.size } := by
  refine ⟨?_, parallel.stage.size, parallel.previous⟩
  rw [← parallel.current]
  exact parallel.stage.fork first.current start inherits

theorem branch (parallel : Parallel names known first second) :
    Parallel names known first.branch second.branch :=
  parallel.opens none true

theorem continueAt (parallel : Parallel names known first second) (time : Option ν) :
    Parallel names known (first.continueAt time) (second.continueAt time) :=
  parallel.opens time false

/-- Folding timelines back into one and going on behind it. -/
theorem foldBack (parallel : Parallel names known first second) {target into : Nat}
    (targets : target = into) {sources others : List Nat} (same : sources = others)
    {time later : Option ν} (times : time = later) :
    Parallel names known
      (({ first with
          stage := sources.foldl (fun stage source => stage.absorb target source) first.stage
          current := target } : Traversal ν).continueAt time)
      (({ second with
          stage := others.foldl (fun stage source => stage.absorb into source) second.stage
          current := into } : Traversal ν).continueAt later) := by
  subst targets same times
  have absorbed : Stage.Parallel names known
      (sources.foldl (fun stage source => stage.absorb target source) first.stage)
      (sources.foldl (fun stage source => stage.absorb target source) second.stage) :=
    List.foldl_rel parallel.stage fun source _ _ _ merged => merged.absorb target source
  have returned : Parallel names known
      { first with
        stage := sources.foldl (fun stage source => stage.absorb target source) first.stage
        current := target }
      { second with
        stage := sources.foldl (fun stage source => stage.absorb target source) second.stage
        current := target } := ⟨absorbed, rfl, parallel.previous⟩
  exact returned.continueAt time

theorem writeStyle (parallel : Parallel names known first second) (scope : Params ν)
    {step : StyleStep ν} (named : ∀ property ∈ step.properties, property ∈ names)
    (easing : Option String) :
    Parallel names known (first.writeStyle scope step easing)
      (second.writeStyle scope step easing) := by
  refine ⟨?_, parallel.current, parallel.previous⟩
  unfold Traversal.writeStyle
  rw [← parallel.current]
  exact parallel.stage.write first.current
    (fun property there => named property (step.mem_properties_of_fill scope property there)) _

theorem writeBareStyle (parallel : Parallel names known first second) (settings : Settings ν)
    (scope : Params ν) {step : StyleStep ν}
    (named : ∀ property ∈ step.properties, property ∈ names) :
    Parallel names known (first.writeBareStyle settings scope step)
      (second.writeBareStyle settings scope step) := by
  unfold Traversal.writeBareStyle
  rw [← parallel.previous]
  split
  · have moved := parallel.seek fun timeline => timeline.cursor + settings.frameLength
    exact moved.writeStyle scope named none
  · exact parallel.writeStyle scope named none

theorem writeKeyframes (scope : Params ν) (duration : ν) :
    ∀ (steps : List (StyleStep ν × ν)) {first second : Traversal ν},
      (∀ step ∈ steps, ∀ property ∈ step.1.properties, property ∈ names) →
        Parallel names known first second →
          Parallel names known (Traversal.writeKeyframes scope duration steps first)
            (Traversal.writeKeyframes scope duration steps second)
  | [], _, _, _, parallel => parallel
  | (step, offset) :: rest, _, _, named, parallel => by
    obtain ⟨here, others⟩ := List.forall_mem_cons.1 named
    have moved := parallel.seek fun _ => Scalar.larger (offset * duration) 0
    exact writeKeyframes scope duration rest others (moved.writeStyle scope here none)

theorem runKeyframes (parallel : Parallel names known first second) (scope : Params ν)
    {steps : List (StyleStep ν)}
    (named : ∀ step ∈ steps, ∀ property ∈ step.properties, property ∈ names)
    (timings : Timings ν) :
    Parallel names known (first.runKeyframes scope steps timings)
      (second.runKeyframes scope steps timings) := by
  have forked : Parallel names known (first.forkKeyframes timings) (second.forkKeyframes timings) :=
    parallel.branch.modifyCurrent fun _ => rfl
  have ran := writeKeyframes scope timings.duration (steps.zip (keyframeOffsets steps))
    (fun step member => named step.1 (List.of_mem_zip member).1) forked
  exact ran.foldBack parallel.current (congrArg (fun source => [source]) ran.current)
    (congrArg (fun now => some (now + timings.duration)) parallel.now)

theorem awaitPayload (parallel : Parallel names known first second) (scope : Params ν)
    (timing : Timing ν) :
    Parallel names known (first.awaitPayload scope timing) (second.awaitPayload scope timing) := by
  have reported := parallel.report (timing.resolve scope).2 (timing.resolve scope).2
  unfold Traversal.awaitPayload wait
  split
  · exact (reported.pass _).modifyCurrent fun _ => rfl
  · exact reported

theorem runAnimate (parallel : Parallel names known first second) (scope : Params ν)
    (timing : Timing ν) {payload : Payload ν}
    (named : ∀ property ∈ payload.properties, property ∈ names) :
    Parallel names known (first.runAnimate scope timing (some payload))
      (second.runAnimate scope timing (some payload)) := by
  have waited := parallel.awaitPayload scope timing
  cases payload with
  | keyframes steps =>
    rw [runAnimate_keyframes, runAnimate_keyframes]
    refine waited.runKeyframes scope (fun step member property there => ?_) _
    exact named property (List.mem_flatMap.2 ⟨step, member, there⟩)
  | style step =>
    rw [runAnimate_style, runAnimate_style]
    exact (waited.pass _).writeStyle scope named _

theorem enterSequence (parallel : Parallel names known first second) (settings : Settings ν) :
    Parallel names known (first.enterSequence settings) (second.enterSequence settings) := by
  unfold Traversal.enterSequence
  rw [← parallel.previous]
  split
  · have moved : Parallel names known
        (first.modifyCurrent fun timeline => (timeline.forwardFrame settings.frameLength).snapshot)
        (second.modifyCurrent fun timeline =>
          (timeline.forwardFrame settings.frameLength).snapshot) := by
      refine parallel.modifyCurrent fun timeline => ?_
      unfold Timeline.snapshot Timeline.forwardFrame Timeline.seek
      split <;> rfl
    exact ⟨moved.stage, moved.current, rfl⟩
  · exact parallel

/-- The branches of a group are entered from the same place. -/
theorem enterBranch {entry other : Traversal ν} (current : entry.current = other.current)
    (previous : entry.previous = other.previous) (parallel : Parallel names known first second) :
    Parallel names known (entry.enterBranch first) (other.enterBranch second) := by
  have back : Parallel names known
      { first with current := entry.current, previous := entry.previous }
      { second with current := other.current, previous := other.previous } :=
    ⟨parallel.stage, current, previous⟩
  exact back.branch

theorem leaveGroup {entry other : Traversal ν} (current : entry.current = other.current)
    (parallel : Parallel names known first second) (sources : List Nat) (furthest : ν) :
    Parallel names known (entry.leaveGroup sources furthest first)
      (other.leaveGroup sources furthest second) :=
  parallel.foldBack current rfl rfl

end Parallel

end Operations

section Visits

variable {names : List String} {known : Styles ν} [Scalar ν] (settings : Settings ν)

mutual

/-- **Walks over a tree that writes no other property stay parallel.** -/
theorem visit_parallel : ∀ (tree : Tree ν) (scope : Params ν) {first second : Traversal ν},
    (∀ property ∈ tree.properties, property ∈ names) → (∀ node ∈ tree.nodes, node.HasPayload) →
      Parallel names known first second →
        Parallel names known (visit settings scope tree first) (visit settings scope tree second)
  | .sequence steps, scope, first, second, named, payloads, parallel => by
    have visited := visitSteps_parallel steps scope named (List.forall_mem_cons.1 payloads).2
      (parallel.enterSequence settings)
    simp only [visit]
    split
    · exact (visited.continueAt none).after .sequence
    · exact visited.after .sequence
  | .group branches, scope, first, second, named, payloads, parallel => by
    simp only [visit]
    rw [parallel.now]
    exact (visitBranches_parallel branches scope [] second.now named
      (List.forall_mem_cons.1 payloads).2 parallel.current parallel.previous parallel).after .group
  | .animate timing (some payload), scope, _, _, named, _, parallel =>
    (parallel.runAnimate scope timing named).after .animate
  | .animate timing none, _, _, _, _, payloads, _ =>
    absurd (payloads _ List.mem_cons_self) fun missing => missing
  | .style step, scope, _, _, named, _, parallel =>
    (parallel.writeBareStyle settings scope named).after .style
  | .reference animation defaults, scope, _, _, named, payloads, parallel => by
    simp only [visit]
    exact (visit_parallel animation _ named (List.forall_mem_cons.1 payloads).2 parallel).after
      .reference
  | .animateRef animation defaults overrides, scope, _, _, named, payloads, parallel => by
    simp only [visit]
    exact (visit_parallel animation _ named (List.forall_mem_cons.1 payloads).2 parallel).after
      .animateRef
  | .state .., _, _, _, _, _, parallel => parallel.after .state
  | .transition .., _, _, _, _, _, parallel => parallel.after .transition
  | .keyframes .., _, _, _, _, _, parallel => parallel.after .keyframes
  | .trigger .., _, _, _, _, _, parallel => parallel.after .trigger
  | .animateChild .., _, _, _, _, _, parallel => parallel.after .animateChild
  | .query .., _, _, _, _, _, parallel => parallel.after .query
  | .stagger .., _, _, _, _, _, parallel => parallel.after .stagger

theorem visitSteps_parallel : ∀ (steps : List (Tree ν)) (scope : Params ν)
    {first second : Traversal ν}, (∀ property ∈ Tree.allProperties steps, property ∈ names) →
      (∀ node ∈ Tree.allNodes steps, node.HasPayload) → Parallel names known first second →
        Parallel names known (visitSteps settings scope steps first)
          (visitSteps settings scope steps second)
  | [], _, _, _, _, _, parallel => parallel
  | step :: rest, scope, _, _, named, payloads, parallel => by
    obtain ⟨here, others⟩ := List.forall_mem_append.1 named
    obtain ⟨payload, more⟩ := Tree.forall_mem_allNodes_cons.1 payloads
    rw [visitSteps, visitSteps]
    exact visitSteps_parallel rest scope others more
      (visit_parallel step scope here payload parallel)

theorem visitBranches_parallel : ∀ (branches : List (Tree ν)) (scope : Params ν)
    {entry other first second : Traversal ν} (ends : List Nat) (furthest : ν),
      (∀ property ∈ Tree.allProperties branches, property ∈ names) →
        (∀ node ∈ Tree.allNodes branches, node.HasPayload) → entry.current = other.current →
          entry.previous = other.previous → Parallel names known first second →
            Parallel names known (visitBranches settings scope entry branches ends furthest first)
              (visitBranches settings scope other branches ends furthest second)
  | [], _, _, _, _, _, ends, furthest, _, _, current, _, parallel =>
    parallel.leaveGroup current ends furthest
  | branch :: rest, scope, entry, other, first, second, ends, furthest, named, payloads, current,
      previous, parallel => by
    obtain ⟨here, others⟩ := List.forall_mem_append.1 named
    obtain ⟨payload, more⟩ := Tree.forall_mem_allNodes_cons.1 payloads
    have visited := visit_parallel branch scope here payload
      (parallel.enterBranch current previous)
    have further := visitBranches_parallel rest scope
      (ends ++ [(visit settings scope branch (entry.enterBranch first)).current])
      (Scalar.larger furthest (visit settings scope branch (entry.enterBranch first)).now)
      others more current previous visited
    rw [visitBranches_cons, visitBranches_cons, ← visited.current, ← visited.now]
    exact further

end

end Visits

end Traversal

end Storyboard
