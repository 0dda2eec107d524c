import Storyboard.Proofs.Compilation.NormalizedOutput
import Storyboard.Proofs.Compilation.Upkeep
import Storyboard.Proofs.Timeline.Replay

/-!
# Keyframes replay the writes

Read with exact numbers, and for trees whose animated steps have payloads and whose keyframe lists
do not go back, the keyframes of every instruction show what its timeline should show: of each
property the value of the last write up to their time, and before the first one the value that the
property had then (`Tree.compile_replays_writes`). The writes are those of the ledger of the
compilation, in which the starting styles come first and the destination styles last.

An empty step is left out because it marks every shared property as computed, which is no write. In
a keyframe list that goes back, a keyframe between two others is opened when the later one has been
filled already.
-/

set_option autoImplicit false

namespace Storyboard

/-! ## The upkeep of a replay -/

/-- Every timeline that was left replays its writes. -/
def Upkeep.replay : Upkeep Rat where
  left ledger id strand := strand.Replays ledger id
  ready ledger id strand := strand.Current ledger id
  moved ledger id strand := strand.Pending ledger id
  onward earlier later := earlier ≤ later
  admits node := node.HasPayload ∧ node.OffsetsRise

/-- A time moved on by an amount that is not negative is later, also if it is cut off at zero. -/
theorem Scalar.le_larger_add (time : Rat) {amount : Rat} (nonneg : 0 ≤ amount) :
    time ≤ larger (time + amount) 0 := by
  rw [larger_exact]
  exact le_max_of_le_left (le_add_of_nonneg_right nonneg)

theorem Upkeep.lawful_replay {settings : Settings Rat} (frame : 0 ≤ settings.frameLength) :
    Upkeep.replay.Lawful settings where
  left_of_ready current := current.replays
  moved_of_ready current := current.pending
  left_of_shown same replays := replays.of_shown same
  left_append foreign replays := replays.append foreign
  blank _ _ unopened := Timeline.Strand.current_blank unopened
  seek current onward := current.seek onward
  write value pending := pending.write value
  carry pending := pending.carry
  snapshot pending := pending.snapshot
  emptyStep _ admitted := admitted.1.elim
  frame _ := le_add_of_nonneg_right frame
  delay cursor timing scope :=
    Scalar.le_larger_add cursor (timing.nonnegative_resolve scope).delay
  duration cursor timing scope :=
    Scalar.le_larger_add cursor (timing.nonnegative_resolve scope).duration
  keyframes timing steps scope admitted := by
    have nonneg := (timing.nonnegative_resolve scope).duration
    have rising : (keyframeOffsets steps).Pairwise (· ≤ ·) := admitted.2
    refine List.Pairwise.isChain (List.pairwise_cons.2 ⟨?_, rising.map _ ?_⟩)
    · intro time member
      obtain ⟨offset, _, rfl⟩ := List.mem_map.1 member
      rw [Scalar.larger_exact]
      exact le_max_right _ 0
    · intro earlier later ordered
      rw [Scalar.larger_exact, Scalar.larger_exact]
      exact max_le_max_right 0 (mul_le_mul_of_nonneg_right ordered nonneg)

/-! ## The compiled animation -/

/-- All entries that a compilation makes for a property: for the starting styles, along the walk,
and for the destination styles. -/
def Tree.compileLedger (property : String) (tree : Tree Rat) (settings : Settings Rat)
    (starting destination : Styles Rat) (scope : Params Rat) : List (LedgerEntry Rat) :=
  tree.walkLedger property settings starting scope ++
    (Traversal.visit settings scope tree (.start starting)).writeLedger property destination

/-- Every timeline that is emitted replays its writes. -/
theorem Tree.replays_landedStage {tree : Tree Rat} {settings : Settings Rat}
    (frame : 0 ≤ settings.frameLength) (payloads : ∀ node ∈ tree.nodes, node.HasPayload)
    (rise : ∀ node ∈ tree.nodes, node.OffsetsRise) (starting destination : Styles Rat)
    (scope : Params Rat) {property : String} (free : property ≠ offsetKey)
    (unreserved : property ≠ easingKey) {id : Nat}
    (opened : id < (tree.landedStage settings starting destination scope).size) :
    ((tree.landedStage settings starting destination scope).strand property id).Replays
      (tree.compileLedger property settings starting destination scope) id := by
  have lawful := Upkeep.lawful_replay frame
  have walked := tree.tended_walk lawful free unreserved
    (fun node member => ⟨payloads node member, rise node member⟩) starting scope
  have landed := walked.land lawful free (tree.complete_walk settings starting scope) destination
  exact landed.left id opened

/-- A keyframe of a timeline that replays its writes shows what they have made of a property by the
time at which it stands. -/
theorem Timeline.keyframe_replays {timeline : Timeline Rat} (timed : timeline.skeleton.WellTimed)
    {property : String} (free : property ≠ offsetKey) {ledger : List (LedgerEntry Rat)} {id : Nat}
    (replays : (timeline.strand property).Replays ledger id) {keyframe : Styles Rat}
    (shown : keyframe ∈ timeline.instruction.keyframes) :
    ∃ offset, keyframe.get? offsetKey = some (.number offset) ∧
      keyframe.get? property = replayed ledger id (timeline.inherited.get? property)
        (timeline.instruction.delay + offset * timeline.instruction.duration) := by
  obtain ⟨frame, member, offset, rfl, stands⟩ := Timeline.frame_of_keyframe timed shown
  refine ⟨offset, Timeline.get?_emit_offset _ _ _, ?_⟩
  have own : frame.styles.get? property = _ :=
    replays.frames (frame.time, frame.styles.get? property) (List.mem_map_of_mem member)
  rw [Timeline.get?_emit _ _ _ free, replayed, own, stands]
  exact congrArg _ replays.backfill

/-- **Keyframes replay the writes.** The instructions are those of the timelines that are emitted,
in order, and for each of these timelines every keyframe shows of a property what the writes on it
have made of the property by the time at which the keyframe stands. -/
theorem Tree.compile_replays_writes (tree : Tree Rat) (settings : Settings Rat)
    (starting destination : Styles Rat) (scope : Params Rat) (frame : 0 ≤ settings.frameLength)
    (payloads : ∀ node ∈ tree.nodes, node.HasPayload)
    (rise : ∀ node ∈ tree.nodes, node.OffsetsRise) :
    let stage := tree.landedStage settings starting destination scope
    (tree.compile settings starting destination scope).1 =
        Instruction.orNoop (stage.emittedIds.map fun id => (stage.timeline id).instruction) ∧
      ∀ id ∈ stage.emittedIds, ∀ property, property ≠ offsetKey → property ≠ easingKey →
        ∀ keyframe ∈ (stage.timeline id).instruction.keyframes, ∃ offset,
          keyframe.get? offsetKey = some (.number offset) ∧
            keyframe.get? property =
              replayed (tree.compileLedger property settings starting destination scope) id
                ((stage.timeline id).inherited.get? property)
                ((stage.timeline id).instruction.delay +
                  offset * (stage.timeline id).instruction.duration) := by
  intro stage
  refine ⟨stage.instructions_eq, ?_⟩
  intro id emitted property free unreserved keyframe shown
  have timed := tree.wellTimed_landedStage frame starting destination scope
  have replays := Tree.replays_landedStage frame payloads rise starting destination scope free
    unreserved (Stage.mem_emittedIds.1 emitted).1
  exact Timeline.keyframe_replays (timed.timeline id) free replays shown

/-- The color is set to red, the width runs through a keyframe list, and the color is set to green. -/
def redWidthGreen : Tree Rat :=
  .sequence
    [.animateTo (.millis 100) (.ofEntries [("color", .text "red")]),
      .animateThrough (.millis 100) [.ofEntries [("width", .number 1)],
        .ofEntries [("width", .number 2)]],
      .animateTo (.millis 50) (.ofEntries [("color", .text "green")])]

/-- The last timeline begins with the color that the first one wrote. -/
theorem replays_writes_of_redWidthGreen :
    0 ≤ (Settings.standard : Settings Rat).frameLength ∧
      (∀ node ∈ redWidthGreen.nodes, node.HasPayload) ∧
        (∀ node ∈ redWidthGreen.nodes, node.OffsetsRise) ∧
          ∃ instruction keyframe id offset,
            (redWidthGreen.compile Settings.standard ∅ ∅ ∅).1[2]? = some instruction ∧
              instruction.keyframes[0]? = some keyframe ∧
                keyframe.get? offsetKey = some (.number offset) ∧
                  keyframe.get? "color" = some (.text "red") ∧
                    keyframe.get? "color" =
                      replayed (redWidthGreen.compileLedger "color" Settings.standard ∅ ∅ ∅) id
                        (((redWidthGreen.landedStage Settings.standard ∅ ∅ ∅).timeline
                          id).inherited.get? "color")
                        (instruction.delay + offset * instruction.duration) := by
  have frame : 0 ≤ (Settings.standard : Settings Rat).frameLength := by decide
  have payloads : ∀ node ∈ redWidthGreen.nodes, node.HasPayload := by decide
  have rise : ∀ node ∈ redWidthGreen.nodes, node.OffsetsRise := by decide +kernel
  have ids : (redWidthGreen.landedStage (Settings.standard : Settings Rat) ∅ ∅ ∅).emittedIds =
      [0, 1, 2] := by decide +kernel
  have shape : ((redWidthGreen.landedStage (Settings.standard : Settings Rat) ∅ ∅ ∅).timeline
      2).instruction.keyframes[0]?.map (fun keyframe => keyframe.get? "color") =
        some (some (.text "red")) := by decide +kernel
  obtain ⟨keyframe, first, red⟩ := Option.map_eq_some_iff.1 shape
  obtain ⟨listed, shows⟩ := redWidthGreen.compile_replays_writes Settings.standard ∅ ∅ ∅ frame
    payloads rise
  rw [ids] at listed shows
  obtain ⟨offset, numbered, replays⟩ := shows 2 (by decide) "color" (by decide) (by decide)
    keyframe (List.mem_of_getElem? first)
  have third := congrArg (fun instructions => instructions[2]?) listed
  exact ⟨frame, payloads, rise, _, keyframe, 2, offset, third, first, numbered, red, replays⟩

end Storyboard
