import Storyboard.Proofs.Compilation.Completeness
import Storyboard.Proofs.Compilation.LastingWrites

/-!
# Nothing is missing at the cursor

Whenever a compilation begins or ends the visit of a node, at any depth of sequences, groups and
references, every property that the current timeline has written has an entry of its own in the
keyframe under the cursor (`Traversal.CursorComplete`). So at the end of the walk no property is
left to the computed style for want of an entry, and what is landed are the destination styles
that were given, neither more nor less (`Tree.compile_complete_at_cursor`).

This holds for all numbers and all starting styles, also if these set an easing, which later steps
put on keyframes without writing it.
-/

set_option autoImplicit false

namespace Storyboard

variable {ν : Type} [Scalar ν]

namespace Traversal

/-- The walk is on a timeline of its stage, the cursor of which is on one of its keyframes, and
that keyframe has an entry for every property that the timeline has written. -/
def CursorComplete (walk : Traversal ν) : Prop :=
  ∃ timeline frame, walk.stage.get? walk.current = some timeline ∧
    timeline.frames[timeline.current]? = some frame ∧
      ∀ property, timeline.written.contains property = true →
        frame.styles.contains property = true

theorem Complete.cursorComplete {walk : Traversal ν} (complete : walk.Complete) :
    walk.CursorComplete := by
  obtain ⟨timeline, found⟩ : ∃ timeline, walk.stage.get? walk.current = some timeline :=
    ⟨_, List.getElem?_eq_getElem complete.opened⟩
  have here : timeline.Complete := by
    have current := complete.complete
    rwa [Stage.timeline, found, Option.getD_some] at current
  obtain ⟨frame, under⟩ : ∃ frame, timeline.frames[timeline.current]? = some frame :=
    ⟨_, List.getElem?_eq_getElem here.stands⟩
  refine ⟨timeline, frame, found, under, ?_⟩
  intro property written
  have shown := here.carried property written
  rwa [Timeline.currentStyles, under] at shown

/-- A walk that enters a tree with nothing missing at the cursor comes so to every node of it. -/
theorem Meets.complete {settings : Settings ν} {scope inner : Params ν} {walk entry : Traversal ν}
    {tree node : Tree ν} (met : Meets settings scope walk tree inner entry node)
    (complete : walk.Complete) : entry.Complete := by
  induction met with
  | here => exact complete
  | @step scope _ walk _ _ _ earlier _ _ ih =>
    apply ih
    exact complete_visitSteps settings earlier scope (complete.enterSequence settings)
  | branch _ _ _ ih =>
    apply ih
    exact complete_enterBranch _ _
  | reference _ _ ih | animateRef _ _ _ ih => exact ih complete

end Traversal

/-- **The keyframe under the cursor is complete** before and after the visit of every node that a
compilation comes to. When the walk has ended, the destination styles need no completion: they are
landed as given, if there are any. -/
theorem Tree.compile_complete_at_cursor (tree : Tree ν) (settings : Settings ν)
    (starting destination : Styles ν) (scope : Params ν) :
    (∀ (inner : Params ν) (entry : Traversal ν) (node : Tree ν),
      Traversal.Meets settings scope (.start starting) tree inner entry node →
        entry.CursorComplete ∧ (Traversal.visit settings inner node entry).CursorComplete) ∧
      let last := Traversal.visit settings scope tree (.start starting)
      (last.stage.timeline last.current).completeDestination destination = destination ∧
        (tree.compile settings starting destination scope).1 =
          (if destination.isEmpty then last.stage
            else last.stage.land last.current destination).instructions := by
  refine ⟨?_, ?_, ?_⟩
  · intro inner entry node met
    have before : entry.Complete := met.complete (Traversal.complete_start starting)
    have after := Traversal.complete_visit settings node inner before
    exact ⟨before.cursorComplete, after.cursorComplete⟩
  · have ended := tree.complete_walk settings starting scope
    exact ended.complete.completeDestination_eq destination
  · have ended := tree.complete_walk settings starting scope
    exact congrArg Stage.instructions (ended.land_eq destination)

/-- Two lights are switched on side by side; one of them waits before and holds still after. -/
def twoLights : Tree Rat :=
  .sequence
    [.style (.ofEntries [("color", .text "red")]),
      .group
        [.sequence
          [.animateTo (.expression "100ms 50ms") (.ofEntries [("opacity", .number 1)]),
            .animateEmpty (.millis 20)],
          .animateTo (.millis 80) (.ofEntries [("color", .text "white")])]]

/-- When the first light comes to hold still, its timeline has written the opacity; before and
after that step the keyframe under the cursor has it too, and nothing else is landed in the end
than the destination styles. -/
theorem complete_at_cursor_of_twoLights :
    ∃ entry, Traversal.Meets Settings.standard ∅
        (.start (.ofList [("easing", .text "linear"), ("opacity", .number 0)])) twoLights ∅ entry
        (.animateEmpty (.millis 20)) ∧
      (entry.stage.timeline entry.current).written.keys = ["opacity"] ∧
        entry.CursorComplete ∧
          (Traversal.visit Settings.standard ∅ (.animateEmpty (.millis 20)) entry).CursorComplete ∧
            let last := Traversal.visit Settings.standard ∅ twoLights
              (.start (.ofList [("easing", .text "linear"), ("opacity", .number 0)]))
            (last.stage.timeline last.current).completeDestination
              (.ofList [("width", .number 3)]) = .ofList [("width", .number 3)] := by
  have met : Traversal.Meets Settings.standard ∅
      (.start (.ofList [("easing", .text "linear"), ("opacity", .number 0)])) twoLights ∅ _
      (.animateEmpty (.millis 20)) :=
    .step [.style (.ofEntries [("color", .text "red")])] []
      (.branch [] [.animateTo (.millis 80) (.ofEntries [("color", .text "white")])]
        (.step [.animateTo (.expression "100ms 50ms") (.ofEntries [("opacity", .number 1)])] []
          (.here _ _ _)))
  obtain ⟨visits, completed, _⟩ := twoLights.compile_complete_at_cursor Settings.standard
    (.ofList [("easing", .text "linear"), ("opacity", .number 0)])
    (.ofList [("width", .number 3)]) ∅
  obtain ⟨before, after⟩ := visits _ _ _ met
  exact ⟨_, met, by decide +kernel, before, after, completed⟩

end Storyboard
