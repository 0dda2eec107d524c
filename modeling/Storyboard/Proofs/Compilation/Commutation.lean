import Storyboard.Proofs.Compilation.Branches
import Storyboard.Proofs.Compilation.NormalizedOutput
import Storyboard.Proofs.Compilation.Parallel
import Storyboard.Proofs.Number.Sums

/-!
# Branches that commute

The branches of a group are forks of the timeline on which the group was entered, and they meet in
one more place, the styles that the whole animation shares. Branches that write no property in
common do not meet there either: a branch captures the shared values of the properties that it
writes, and no sibling changes those. So every branch opens the timelines that it opens when it
runs alone, behind those of its siblings (`Traversal.throughBranches_apart`).

What is left to the order is the timeline behind the group. It starts at the furthest clock that a
branch reaches, which is the same in every order, also with rounded numbers, because no clock is a
negative zero (`Stage.settled_invariant`). It is blank, and destination styles that are landed on it
show as they are, whatever is shared (`Stage.emitted_land_push`).

`Tree.compile_group_perm` puts these together. Animated steps without a payload are left out: such
a step marks every property that is shared when it ends, and so shows which siblings came before.
-/

set_option autoImplicit false

namespace Storyboard

variable {ν : Type} [Scalar ν]

/-! ## Clocks -/

/-- Every timeline of the stage starts at a settled time. -/
def Stage.Settled (stage : Stage ν) : Prop :=
  ∀ skeleton ∈ stage.skeletons, Scalar.Settled skeleton.start

namespace Stage.Settled

variable {stage : Stage ν}

theorem modify (settled : stage.Settled) (id : Nat) {change : Timeline ν → Timeline ν}
    (kept : ∀ timeline, (change timeline).start = timeline.start) :
    (stage.modify id change).Settled := by
  have all : ∀ timeline ∈ stage.timelines, Scalar.Settled timeline.start :=
    fun timeline member => settled _ (List.mem_map_of_mem member)
  refine List.forall_mem_map.2 (forall_mem_modify all id fun timeline before => ?_)
  rw [kept timeline]
  exact before

theorem seek (settled : stage.Settled) (id : Nat) (time : Timeline ν → ν) :
    (stage.modify id fun timeline => timeline.seek (time timeline)).Settled := by
  refine settled.modify id fun timeline => ?_
  unfold Timeline.seek
  split <;> rfl

theorem push (settled : stage.Settled) {start : ν} (there : Scalar.Settled start)
    (inherited : Styles ν) : (stage.push (Timeline.blank start inherited)).Settled := by
  rw [Settled, skeletons_push]
  exact List.forall_mem_append.2 ⟨settled, List.forall_mem_singleton.2 there⟩

variable [LawfulSums ν]

theorem now (settled : stage.Settled) (id : Nat) : Scalar.Settled (stage.now id) := by
  refine LawfulSums.settled_add _ ?_
  unfold Stage.timeline Stage.get?
  cases found : stage.timelines[id]? with
  | none => exact LawfulSums.settled_zero
  | some timeline => exact settled _ (List.mem_map_of_mem (List.mem_of_getElem? found))

end Stage.Settled

/-- Every operation of a walk keeps the timelines starting at settled times. -/
theorem Stage.settled_invariant [LawfulSums ν] (settings : Settings ν) :
    Stage.Invariant settings Stage.Settled Scalar.Settled where
  forwardTo _ id time settled := settled.seek id fun timeline => Scalar.larger (time timeline) 0
  forwardFrame _ id settled :=
    settled.seek id fun timeline => timeline.cursor + settings.frameLength
  snapshot _ id settled := settled.modify id fun _ => rfl
  ease _ id _ settled := settled.modify id fun _ => rfl
  write stage id styles easing settled := by rwa [Settled, skeletons_write]
  writeEmptyStep stage id easing settled := by rwa [Settled, skeletons_writeEmptyStep]
  absorb stage target source settled := by rwa [Settled, skeletons_absorb]
  fork stage parent start inherits allowed settled := by
    refine settled.push ?_ _
    cases start with
    | none => exact settled.now parent
    | some time => exact allowed time rfl
  now _ id settled := settled.now id
  later _ _ _ settled := LawfulSums.settled_add _ settled
  larger _ _ settled other := settled.larger other

/-! ## A branch alone -/

namespace Traversal

/-- The visit of a branch on a stage of its own, with what is shared on entry to the group. -/
def alone (settings : Settings ν) (scope : Params ν) (entry : Traversal ν) (branch : Tree ν) :
    Traversal ν :=
  visit settings scope branch (entry.forkAlone entry)

/-- What the timelines are on which a group was entered, they still are. -/
theorem timeline_of_prefix {entry : Traversal ν} {stage : Stage ν} (placed : entry.Placed)
    (kept : entry.stage.timelines <+: stage.timelines) :
    stage.timeline entry.current = entry.stage.timeline entry.current := by
  obtain ⟨more, split⟩ := kept
  rw [Stage.timeline, Stage.timeline, Stage.get?, Stage.get?, ← split,
    List.getElem?_append_left placed]

/-- **A branch does not see what its siblings have shared**, as long as they write other
properties: it opens the timelines that it opens alone, ends at the same clock, and shares nothing
but its own properties. -/
theorem visit_branch_apart (settings : Settings ν) (scope : Params ν) {entry walk : Traversal ν}
    {branch : Tree ν} (placed : entry.Placed)
    (kept : entry.stage.timelines <+: walk.stage.timelines)
    (payloads : ∀ node ∈ branch.nodes, node.HasPayload)
    (agree : ∀ property ∈ branch.properties,
      walk.stage.shared.get? property = entry.stage.shared.get? property) :
    (visit settings scope branch (entry.enterBranch walk)).stage.timelines =
        walk.stage.timelines ++ (alone settings scope entry branch).stage.timelines ∧
      (visit settings scope branch (entry.enterBranch walk)).now =
        (alone settings scope entry branch).now ∧
      ∀ property, property ∉ branch.properties →
        (visit settings scope branch (entry.enterBranch walk)).stage.shared.get? property =
          walk.stage.shared.get? property := by
  have forked : Parallel branch.properties walk.stage.shared (entry.forkAlone walk)
      (entry.forkAlone entry) := by
    have same := timeline_of_prefix placed kept
    refine ⟨⟨?_, agree, ?_, fun _ _ => rfl⟩, rfl, rfl⟩
    · simp only [forkAlone, Stage.now, same]
    · intro timeline member property there
      rw [List.mem_singleton.1 member] at there
      exact absurd there (OrderedMap.not_contains_empty property)
  have visited := visit_parallel settings branch scope (fun _ member => member) payloads forked
  rw [visit_enterBranch, now_behind]
  refine ⟨?_, visited.now, visited.stage.untouched⟩
  exact congrArg (walk.stage.timelines ++ ·) visited.stage.timelines

/-- **Branches that write no property in common run as each of them runs alone**, and the group ends
at the furthest of the clocks at which they end alone. -/
theorem throughBranches_apart (settings : Settings ν) (scope : Params ν) {entry : Traversal ν}
    (placed : entry.Placed) :
    ∀ (branches : List (Tree ν)) {walk : Traversal ν} (ends : List Nat) (furthest : ν),
      entry.stage.timelines <+: walk.stage.timelines →
      (∀ branch ∈ branches, ∀ node ∈ branch.nodes, node.HasPayload) →
      branches.Pairwise Tree.Apart →
      (∀ branch ∈ branches, ∀ property ∈ branch.properties,
        walk.stage.shared.get? property = entry.stage.shared.get? property) →
      (throughBranches settings scope entry branches walk).stage.timelines =
          walk.stage.timelines ++
            branches.flatMap (fun branch => (alone settings scope entry branch).stage.timelines) ∧
        ∃ sources, visitBranches settings scope entry branches ends furthest walk =
          entry.leaveGroup sources
            ((branches.map fun branch => (alone settings scope entry branch).now).foldl
              Scalar.larger furthest)
            (throughBranches settings scope entry branches walk)
  | [], walk, ends, furthest, _, _, _, _ =>
    ⟨(List.append_nil walk.stage.timelines).symm, ends, rfl⟩
  | branch :: rest, walk, ends, furthest, kept, payloads, apart, agree => by
    obtain ⟨payload, others⟩ := List.forall_mem_cons.1 payloads
    obtain ⟨far, further⟩ := List.pairwise_cons.1 apart
    obtain ⟨here, later⟩ := List.forall_mem_cons.1 agree
    obtain ⟨timelines, clock, untouched⟩ :=
      visit_branch_apart settings scope placed kept payload here
    have grown : entry.stage.timelines <+:
        (visit settings scope branch (entry.enterBranch walk)).stage.timelines :=
      timelines ▸ kept.trans (List.prefix_append _ _)
    have agreeing : ∀ sibling ∈ rest, ∀ property ∈ sibling.properties,
        (visit settings scope branch (entry.enterBranch walk)).stage.shared.get? property =
          entry.stage.shared.get? property := by
      intro sibling member property there
      rw [untouched property ((far sibling member).symm property there)]
      exact later sibling member property there
    obtain ⟨opened, sources, left⟩ := throughBranches_apart settings scope placed rest
      (ends ++ [(visit settings scope branch (entry.enterBranch walk)).current])
      (Scalar.larger furthest (visit settings scope branch (entry.enterBranch walk)).now)
      grown others further agreeing
    refine ⟨?_, sources, ?_⟩
    · rw [throughBranches, opened, timelines, List.append_assoc, List.flatMap_cons]
    · rw [visitBranches_cons, left, clock, throughBranches]
      rfl

end Traversal

/-! ## Landing behind a group -/

/-- The instruction by which destination styles are landed on a span without length: they stand at
both ends. -/
def Instruction.landing (start : ν) (destination : Styles ν) : Instruction ν :=
  ⟨.timelineAnimation,
    [0, 1].map fun offset => (destination.erase offsetKey).insert offsetKey (.number offset),
    0, start, none⟩

omit [Scalar ν] in
/-- Capturing changes the backfill only, and there the property only. -/
theorem Timeline.exists_capture (timeline : Timeline ν) (property : String)
    (known : Option (Value ν)) :
    ∃ backfill, timeline.capture property known = { timeline with backfill := backfill } ∧
      ∀ other, backfill.contains other = true →
        property = other ∨ timeline.backfill.contains other = true := by
  unfold capture
  split
  · exact ⟨timeline.backfill, rfl, fun _ there => .inr there⟩
  · refine ⟨_, rfl, fun other there => ?_⟩
    rw [OrderedMap.contains, OrderedMap.get?_insert] at there
    by_cases same : property = other
    · exact .inl same
    · rw [if_neg same] at there
      exact .inr there

/-- What was written on a timeline stands in its one keyframe, at its start. -/
structure Timeline.Pinned (start : ν) (styles : Styles ν) (timeline : Timeline ν) : Prop where
  start : timeline.start = start
  cursor : timeline.cursor = 0
  easing : timeline.easing = none
  frames : timeline.frames = [⟨0, styles⟩]
  current : timeline.current = 0
  written : timeline.written = styles
  backfill : ∀ property, timeline.backfill.contains property = true →
    styles.contains property = true
  unlanded : timeline.landed = false

namespace Timeline.Pinned

variable {start : ν} {styles : Styles ν} {timeline : Timeline ν}

theorem blank (start : ν) : (Timeline.blank start (∅ : Styles ν)).Pinned start ∅ :=
  ⟨rfl, rfl, rfl, rfl, rfl, rfl,
    fun property there => absurd there (OrderedMap.not_contains_empty property), rfl⟩

theorem write (pinned : timeline.Pinned start styles) (property : String) (value : Value ν)
    (known : Option (Value ν)) :
    (timeline.write property value known).Pinned start (styles.insert property value) := by
  obtain ⟨backfill, captured, filled⟩ := timeline.exists_capture property known
  unfold Timeline.write
  rw [captured]
  refine ⟨pinned.start, pinned.cursor, pinned.easing, ?_, pinned.current, ?_, fun other there => ?_,
    pinned.unlanded⟩
  · show timeline.frames.modify timeline.current _ = _
    rw [pinned.frames, pinned.current]
    rfl
  · exact congrArg (fun written => written.insert property value) pinned.written
  · rw [OrderedMap.contains, OrderedMap.get?_insert]
    split
    · rfl
    · next apart => exact pinned.backfill other ((filled other there).resolve_left apart)

/-- Nothing is missing in the keyframe that could be carried there. -/
theorem carryWritten (pinned : timeline.Pinned start styles) :
    timeline.carryWritten.Pinned start styles := by
  refine ⟨pinned.start, pinned.cursor, pinned.easing, ?_, pinned.current, pinned.written,
    pinned.backfill, pinned.unlanded⟩
  show timeline.frames.modify timeline.current _ = _
  rw [pinned.frames, pinned.current, pinned.written]
  have full : styles.fillFrom styles = styles :=
    OrderedMap.fillFrom_of_contained fun _ there => there
  show [(⟨0, styles.fillFrom styles⟩ : Keyframe ν)] = [⟨0, styles⟩]
  rw [full]

/-- A single keyframe is no animation unless the destination was landed there. -/
theorem emission (pinned : timeline.Pinned start styles) : timeline.emission = [] := by
  have styled : timeline.hasStyling = false := by
    rw [Timeline.hasStyling, pinned.unlanded, pinned.frames, Bool.false_and, Bool.or_false]
    rfl
  rw [Timeline.emission, styled, if_neg Bool.false_ne_true]

/-- Once the destination was landed there, what was written is emitted at both ends. -/
theorem emission_landed [LawfulScalar ν] (pinned : timeline.Pinned start styles) :
    ({ timeline with landed := true } : Timeline ν).emission = [⟨.timelineAnimation,
      [0, 1].map fun offset => styles.insert offsetKey (.number offset), 0, start, none⟩] := by
  have zero : ((0 : ν) == 0) = true := LawfulScalar.zero_proper
  have larger : Scalar.larger (0 : ν) 0 = 0 := by
    rw [Scalar.larger, if_neg (LawfulScalar.lt_irrefl 0), if_pos zero]
  have length : ({ timeline with landed := true } : Timeline ν).length = 0 := by
    simp only [Timeline.length, pinned.frames]
    exact larger
  have own : ({ timeline with landed := true } : Timeline ν).currentStyles = styles := by
    simp only [Timeline.currentStyles, pinned.frames, pinned.current]
    rfl
  have full : ({ timeline with landed := true } : Timeline ν).resolve styles = styles :=
    OrderedMap.fillFrom_of_contained pinned.backfill
  have styled : ({ timeline with landed := true } : Timeline ν).hasStyling = true := by
    simp only [Timeline.hasStyling, pinned.cursor, zero, Bool.and_self, Bool.or_true]
  rw [Timeline.emission, if_pos styled]
  simp only [Timeline.instruction, length, zero, if_true, own, Timeline.emit, full]
  simp only [pinned.start, pinned.easing, List.map_cons, List.map_nil]

end Timeline.Pinned

/-- The stage has one timeline, in whose one keyframe stands what was written on it. -/
def Stage.Pins (start : ν) (stage : Stage ν) (styles : Styles ν) : Prop :=
  ∃ timeline shared, stage = ⟨[timeline], shared⟩ ∧ timeline.Pinned start styles

/-- The destination styles are pinned, all but what they have under the reserved offset. -/
theorem Stage.Pins.write {start : ν} {stage : Stage ν} (pins : stage.Pins start ∅)
    (destination : Styles ν) :
    Pins start (stage.write 0 destination none) (destination.erase offsetKey) := by
  have entries : Pins start
      (destination.entries.foldl (fun written entry => written.writeEntry 0 entry) stage)
      (destination.entries.foldl (fun styles entry => if entry.1 != offsetKey then
        styles.insert entry.1 entry.2 else styles) ∅) := by
    refine List.foldl_rel pins fun entry _ written styles before => ?_
    obtain ⟨timeline, shared, rfl, pinned⟩ := before
    by_cases reserved : entry.1 = offsetKey
    · simp only [Stage.writeEntry, reserved, if_true]
      exact ⟨timeline, shared, rfl, pinned⟩
    · have taken : (entry.1 != offsetKey) = true := bne_iff_ne.2 reserved
      simp only [Stage.writeEntry, reserved, if_false, taken]
      exact ⟨_, _, rfl, pinned.write entry.1 entry.2 (shared.get? entry.1)⟩
  have kept : destination.entries.foldl (fun styles entry => if entry.1 != offsetKey then
      styles.insert entry.1 entry.2 else styles) ∅ = destination.erase offsetKey := by
    rw [← List.foldl_filter]
    exact (destination.erase offsetKey).ofList_entries
  rw [kept] at entries
  obtain ⟨timeline, shared, wrote, pinned⟩ := entries
  refine ⟨timeline.carryWritten, shared, ?_, pinned.carryWritten⟩
  rw [Stage.write, Stage.easeSegment, wrote]
  rfl

/-- **Landing on a blank timeline emits one more instruction**, and which one depends on the start
of the timeline and the destination styles alone. -/
theorem Stage.emitted_land_push [LawfulScalar ν] (stage : Stage ν) (start : ν)
    (destination : Styles ν) :
    ((stage.push (Timeline.blank start ∅)).land stage.size destination).emitted =
      stage.emitted ++ [Instruction.landing start destination] := by
  have pins : Pins start (⟨[Timeline.blank start ∅], stage.shared⟩ : Stage ν) ∅ :=
    ⟨_, _, rfl, .blank start⟩
  obtain ⟨timeline, shared, wrote, pinned⟩ := pins.write destination
  have landed : (⟨[Timeline.blank start ∅], stage.shared⟩ : Stage ν).land 0 destination =
      ⟨[{ timeline with landed := true }], shared⟩ := by
    rw [land, wrote]
    rfl
  have behind := land_behind stage.timelines
    (⟨[Timeline.blank start ∅], stage.shared⟩ : Stage ν) 0 destination
  rw [landed] at behind
  refine (congrArg Stage.emitted behind).trans ?_
  rw [emitted_behind, emitted, List.flatMap_singleton, pinned.emission_landed]
  rfl

/-- A walk on a blank timeline emits what stands before it, and the landing if there is a
destination. -/
theorem Traversal.emitted_land_blank [LawfulScalar ν] (walk : Traversal ν) {base : Stage ν}
    {start : ν} (stage : walk.stage = base.push (Timeline.blank start ∅))
    (current : walk.current = base.size) (destination : Styles ν) :
    (walk.land destination).emitted = base.emitted ++
      if destination.isEmpty then [] else [Instruction.landing start destination] := by
  have blank : walk.stage.timeline walk.current = Timeline.blank start ∅ := by
    rw [stage, current, Stage.timeline_push, if_pos rfl]
  have completed : (Timeline.blank start (∅ : Styles ν)).completeDestination destination =
      destination := rfl
  simp only [land, blank, completed]
  split
  · rw [stage, Stage.emitted_push]
    rfl
  · rw [stage, current, Stage.emitted_land_push]

/-! ## Groups -/

namespace Traversal

/-- The starting styles alone are no animation. -/
theorem emitted_start (starting : Styles ν) : (start starting).stage.emitted = [] := by
  have pins : Stage.Pins 0 ((Stage.empty : Stage ν).create 0) ∅ := ⟨_, _, rfl, .blank 0⟩
  obtain ⟨timeline, shared, wrote, pinned⟩ := pins.write starting
  rw [start, wrote, Stage.emitted, List.flatMap_singleton, pinned.emission]

theorem settled_start [LawfulSums ν] (starting : Styles ν) :
    (start starting).stage.Settled := by
  have created : ((Stage.empty : Stage ν).create 0).Settled :=
    Stage.Settled.push (fun _ member => absurd member List.not_mem_nil) LawfulSums.settled_zero ∅
  rwa [start, Stage.Settled, Stage.skeletons_write]

/-- A branch ends at a settled clock. -/
theorem settled_alone [LawfulSums ν] (settings : Settings ν) (scope : Params ν)
    {entry : Traversal ν} (settled : entry.stage.Settled) (branch : Tree ν) :
    Scalar.Settled (alone settings scope entry branch).now := by
  have forked : (entry.forkAlone entry).stage.Settled :=
    List.forall_mem_singleton.2 (settled.now entry.current)
  exact (visit_invariant (Stage.settled_invariant settings) branch scope forked).now _

/-- What a group emits whose branches write no property in common, with a destination to land on
behind it. -/
theorem emitted_land_group_apart [LawfulScalar ν] (settings : Settings ν) (scope : Params ν)
    {entry : Traversal ν} (placed : entry.Placed) {branches : List (Tree ν)}
    (payloads : ∀ branch ∈ branches, ∀ node ∈ branch.nodes, node.HasPayload)
    (apart : branches.Pairwise Tree.Apart) (destination : Styles ν) :
    ((visit settings scope (.group branches) entry).land destination).emitted =
      entry.stage.emitted ++
        branches.flatMap (fun branch => (alone settings scope entry branch).stage.emitted) ++
          if destination.isEmpty then [] else
            [Instruction.landing ((branches.map fun branch =>
              (alone settings scope entry branch).now).foldl Scalar.larger entry.now)
                destination] := by
  obtain ⟨timelines, sources, left⟩ := throughBranches_apart settings scope placed branches []
    entry.now (List.prefix_refl _) payloads apart fun _ _ _ _ => rfl
  have emitted : (throughBranches settings scope entry branches entry).stage.emitted =
      entry.stage.emitted ++
        branches.flatMap (fun branch => (alone settings scope entry branch).stage.emitted) := by
    rw [Stage.emitted, timelines, List.flatMap_append, List.flatMap_assoc]
    rfl
  have absorbed := emitted_absorbAll entry.current sources
    (throughBranches settings scope entry branches entry).stage
  have visited : visit settings scope (.group branches) entry = (entry.leaveGroup sources _ _).after
      .group := congrArg (fun walk => walk.after .group) left
  rw [visited, emitted_land_blank ((entry.leaveGroup sources _ _).after .group)
    (stage_leaveGroup entry _ sources _) rfl, absorbed, emitted]

end Traversal

/-- What a branch emits in a group of its own. -/
def Tree.block (settings : Settings ν) (starting : Styles ν) (scope : Params ν)
    (branch : Tree ν) : List (Instruction ν) :=
  (Traversal.visit settings scope (.group [branch]) (.start starting)).stage.emitted

/-- The block of a branch is what the branch compiles to in a group of its own, unless that is the
lone no-op; the block is empty then. -/
theorem Tree.compile_group_single (settings : Settings ν) (starting : Styles ν)
    (scope : Params ν) (branch : Tree ν) :
    ((Tree.group [branch]).compile settings starting ∅ scope).1 =
      Instruction.orNoop (branch.block settings starting scope) := by
  obtain ⟨_, _, stage, current⟩ :=
    Traversal.stage_visit_group settings scope [branch] (.start starting)
  simp only [compile]
  rw [Traversal.land_blank stage current, Stage.instructions_eq_orNoop]
  rfl

theorem Tree.block_eq_emitted_alone (settings : Settings ν) (starting : Styles ν)
    (scope : Params ν) (branch : Tree ν) :
    branch.block settings starting scope =
      (Traversal.alone settings scope (.start starting) branch).stage.emitted := by
  have before : (Traversal.start starting).stage.timelines.flatMap Timeline.emission = [] :=
    Traversal.emitted_start starting
  have bare (reached : ν) : (Timeline.blank reached (∅ : Styles ν)).emission = [] := rfl
  simp only [block, Traversal.visit, Traversal.after]
  rw [Traversal.visitBranches_cons, Traversal.visitBranches, Traversal.stage_leaveGroup,
    Stage.emitted_push, bare, List.append_nil, Traversal.emitted_absorbAll,
    Traversal.visit_enterBranch]
  refine (Stage.emitted_behind _ _).trans ?_
  rw [before, List.nil_append]
  rfl

/-- What a group of branches that write no property in common compiles to. -/
theorem Tree.compile_group_apart [LawfulScalar ν] {branches : List (Tree ν)}
    (payloads : ∀ branch ∈ branches, ∀ node ∈ branch.nodes, node.HasPayload)
    (apart : branches.Pairwise Tree.Apart) (settings : Settings ν)
    (starting destination : Styles ν) (scope : Params ν) :
    ((Tree.group branches).compile settings starting destination scope).1 =
      Instruction.orNoop (branches.flatMap (block settings starting scope) ++
        if destination.isEmpty then [] else
          [Instruction.landing ((branches.map fun branch =>
            (Traversal.alone settings scope (.start starting) branch).now).foldl Scalar.larger
              (Traversal.start starting).now) destination]) := by
  have blocks : block settings starting scope = fun branch =>
      (Traversal.alone settings scope (.start starting) branch).stage.emitted :=
    funext fun branch => branch.block_eq_emitted_alone settings starting scope
  simp only [compile]
  rw [Stage.instructions_eq_orNoop, blocks, Traversal.emitted_land_group_apart settings scope
    (Traversal.placed_start starting) payloads apart, Traversal.emitted_start, List.nil_append]

/-- **Branches that write no property in common may be given in any order.** If all their animated
steps have payloads, a permutation of the branches permutes the blocks of their instructions and
the problems, and leaves each block and the landing of the destination styles as they are. -/
theorem Tree.compile_group_perm [LawfulSums ν] {branches permuted : List (Tree ν)}
    (perm : branches.Perm permuted)
    (payloads : ∀ branch ∈ branches, ∀ node ∈ branch.nodes, node.HasPayload)
    (apart : branches.Pairwise Tree.Apart) (settings : Settings ν)
    (starting destination : Styles ν) (scope : Params ν) :
    (∃ start,
      ((Tree.group branches).compile settings starting destination scope).1 =
        Instruction.orNoop (branches.flatMap (block settings starting scope) ++
          if destination.isEmpty then [] else [Instruction.landing start destination]) ∧
      ((Tree.group permuted).compile settings starting destination scope).1 =
        Instruction.orNoop (permuted.flatMap (block settings starting scope) ++
          if destination.isEmpty then [] else [Instruction.landing start destination])) ∧
    ((Tree.group branches).compile settings starting destination scope).2 =
      branches.flatMap (defects scope) ∧
    ((Tree.group permuted).compile settings starting destination scope).2 =
      permuted.flatMap (defects scope) := by
  have settled := Traversal.settled_start starting
  have others : ∀ branch ∈ permuted, ∀ node ∈ branch.nodes, node.HasPayload :=
    fun branch member => payloads branch (perm.mem_iff.2 member)
  have further : permuted.Pairwise Tree.Apart := (perm.pairwise_iff Tree.Apart.symm).1 apart
  have clocks : ∀ clock ∈ branches.map fun branch =>
      (Traversal.alone settings scope (.start starting) branch).now, Scalar.Settled clock :=
    List.forall_mem_map.2 fun branch _ => Traversal.settled_alone settings scope settled branch
  have reached := Scalar.foldl_larger_perm (perm.map fun branch =>
    (Traversal.alone settings scope (.start starting) branch).now) clocks _ (settled.now 0)
  refine ⟨⟨_, compile_group_apart payloads apart settings starting destination scope, ?_⟩, ?_, ?_⟩
  · rw [compile_group_apart others further settings starting destination scope]
    exact congrArg (fun start => Instruction.orNoop (_ ++
      if destination.isEmpty then [] else [Instruction.landing start destination])) reached.symm
  · rw [problems_compile]
    exact allDefects_eq_flatMap scope branches
  · rw [problems_compile]
    exact allDefects_eq_flatMap scope permuted

/-- A branch that ends with a keyframe list, one with a group inside, and one that ends last. -/
def mixedBranches : List (Tree Binary64) :=
  [.sequence [.animateTo (.millis (.ofNat 10)) (.ofEntries [("left", .text "4px")]),
      .animateThrough (.millis (.ofNat 20)) [.ofEntries [("top", .text "1px")],
        .ofEntries [("top", .text "2px"), ("left", .text "9px")]]],
    .group [.animateTo (.millis (.ofNat 5)) (.ofEntries [("color", .text "red")]),
      .style (.ofEntries [("width", .text "1em")])],
    .animateTo (.millis (.ofNat 40)) (.ofEntries [("opacity", .number 0)])]

theorem compile_group_perm_mixedBranches :
    mixedBranches.map (fun branch =>
      (branch.block Settings.standard (.ofList [("color", .text "blue")]) ∅).length) = [2, 1, 1] ∧
    ∃ start,
      ((Tree.group mixedBranches).compile Settings.standard (.ofList [("color", .text "blue")])
          (.ofList [("opacity", .number 1)]) ∅).1 =
        Instruction.orNoop (mixedBranches.flatMap (Tree.block Settings.standard
          (.ofList [("color", .text "blue")]) ∅) ++
            [Instruction.landing start (.ofList [("opacity", .number 1)])]) ∧
      ((Tree.group (mixedBranches.drop 1 ++ mixedBranches.take 1)).compile Settings.standard
          (.ofList [("color", .text "blue")]) (.ofList [("opacity", .number 1)]) ∅).1 =
        Instruction.orNoop ((mixedBranches.drop 1 ++ mixedBranches.take 1).flatMap
          (Tree.block Settings.standard (.ofList [("color", .text "blue")]) ∅) ++
            [Instruction.landing start (.ofList [("opacity", .number 1)])]) := by
  have perm : (mixedBranches.take 1 ++ mixedBranches.drop 1).Perm
      (mixedBranches.drop 1 ++ mixedBranches.take 1) := List.perm_append_comm
  rw [List.take_append_drop] at perm
  have payloads : ∀ branch ∈ mixedBranches, ∀ node ∈ branch.nodes, node.HasPayload := by
    decide +kernel
  have apart : mixedBranches.Pairwise Tree.Apart := by decide +kernel
  refine ⟨by decide +kernel, ?_⟩
  exact (Tree.compile_group_perm perm payloads apart Settings.standard
    (.ofList [("color", .text "blue")]) (.ofList [("opacity", .number 1)]) ∅).1

end Storyboard
