import Storyboard.Proofs.Compilation.Emitted
import Storyboard.Proofs.Compilation.Slots
import Storyboard.Proofs.Compilation.Upkeep
import Storyboard.Proofs.Timeline.Emission
import Storyboard.Trigger

/-!
# The destination is landed last

The destination styles are written on the timeline that the walk ends on. Read with exact numbers
this is the timeline opened last, its cursor stands at its last keyframe, and the clock of the walk
is the latest time of all. So, unless there are no destination styles, the last instruction of a
compilation ends when the walk does and no other one ends later, and its last keyframe shows the
destination styles (`destination_lands_last`). This includes a span without length, which is
emitted because it has landed, and the reserved name `easing`, which is written like any property
here.

A trigger that answers a change of state therefore tells the clock of its walk as total time.
-/

set_option autoImplicit false

namespace Storyboard

/-! ## The walk from start to end -/

namespace Traversal

/-- No keyframe is behind the clock at the end of the walk. -/
theorem within_visit {settings : Settings Rat} (frame : 0 ≤ settings.frameLength)
    (tree : Tree Rat) (scope : Params Rat) (starting : Styles Rat) {id : Nat}
    (opened : id < (visit settings scope tree (start starting)).stage.size) :
    ((visit settings scope tree (start starting)).stage.skeleton id).Within 0
      (visit settings scope tree (start starting)).now := by
  obtain ⟨leads, now, blank⟩ := leads_start starting
  have slot := slot_visit frame tree scope leads
  have later := slot.later
  have prolonged := slot.prolonged
  rw [now] at later prolonged
  by_cases first : id = 0
  · rw [first]
    exact Timeline.Skeleton.Within.prolonged blank prolonged later
  · have size : (start starting).stage.size = 1 := leads.youngest
    have inside := slot.opened id (by omega) opened
    rwa [now] at inside

end Traversal

/-! ## Landing -/

namespace Traversal

variable {walk : Traversal Rat} {destination : Styles Rat}

/-- The timeline that the walk ends on is written on once more, and lands. -/
theorem timeline_land (leads : walk.Leads) (complete : walk.Complete)
    (filled : destination.isEmpty = false) :
    (walk.land destination).timeline walk.current =
      { (walk.write destination none).stage.timeline walk.current with landed := true } := by
  rw [complete.land_eq, filled]
  exact Stage.timeline_land leads.placed destination

/-- The keyframe under the cursor has the values of the destination. -/
theorem get?_land (leads : walk.Leads) (complete : walk.Complete)
    (filled : destination.isEmpty = false) {property : String} (free : property ≠ offsetKey)
    {value : Value Rat} (given : destination.get? property = some value) :
    ((walk.land destination).timeline walk.current).currentStyles.get? property = some value := by
  have strand : ((walk.land destination).timeline walk.current).strand property =
      (walk.stage.strand property walk.current).write value (walk.stage.shared.get? property) := by
    rw [timeline_land leads complete filled]
    refine (Stage.strand_write leads.placed free _ (.inr rfl)).trans ?_
    rw [given]
  have bound : (walk.stage.strand property walk.current).current <
      (walk.stage.strand property walk.current).frames.length :=
    Nat.lt_of_lt_of_eq complete.stands (List.length_map _).symm
  rw [Timeline.get?_currentStyles, strand, Timeline.Strand.shown_write _ _ _ bound]

end Traversal

/-! ## The last instruction -/

/-- The instruction of a timeline ends within the slot of its keyframes. -/
theorem Timeline.endTime_le_of_within {timeline : Timeline Rat} (timed : timeline.skeleton.WellTimed)
    {low high : Rat} (inside : timeline.skeleton.Within low high) :
    timeline.instruction.endTime ≤ high :=
  inside.times timeline.length (length_mem_times timed.settled)

/-- Where no keyframe is behind the cursor, the instruction ends where the cursor stands. -/
theorem Timeline.endTime_of_foremost {timeline : Timeline Rat} (timed : timeline.skeleton.WellTimed)
    (foremost : timeline.skeleton.Foremost) : timeline.instruction.endTime = timeline.now :=
  congrArg (timeline.start + ·) (length_eq_cursor timed foremost)

section Compilations

variable (tree : Tree Rat) {settings : Settings Rat} (starting : Styles Rat)
  (destination : Styles Rat) (scope : Params Rat)

/-- No instruction ends after the walk. -/
theorem Tree.endTime_le_clock (frame : 0 ≤ settings.frameLength) :
    ∀ instruction ∈ (tree.compile settings starting destination scope).1,
      instruction.endTime ≤ (Traversal.visit settings scope tree (.start starting)).now := by
  have leads := (Traversal.slot_visit frame tree scope (Traversal.leads_start starting).1).leads
  have same := Traversal.skeletons_land (Traversal.visit settings scope tree (.start starting))
    destination
  have timed := Traversal.wellTimed_land leads.timed destination
  intro instruction emitted
  rcases tree.timeline_of_instruction emitted with noop | ⟨id, opened, _, frozen⟩
  · have ends : (Instruction.noop : Instruction Rat).endTime = 0 := add_zero 0
    rw [noop, ends]
    exact leads.timed.now_nonneg _
  · have bound : id < (Traversal.visit settings scope tree (.start starting)).stage.size :=
      Nat.lt_of_lt_of_eq opened (Stage.size_eq_of_skeletons same)
    have inside := Traversal.within_visit frame tree scope starting bound
    rw [← Stage.skeleton_eq_of_skeletons same] at inside
    rw [frozen]
    exact Timeline.endTime_le_of_within (timed.timeline id) inside

/-- The last instruction ends with the walk and shows the destination styles. -/
theorem Tree.getLast?_compile (frame : 0 ≤ settings.frameLength)
    (filled : destination.isEmpty = false) :
    ∃ last landed,
      (tree.compile settings starting destination scope).1.getLast? = some last ∧
        last.endTime = (Traversal.visit settings scope tree (.start starting)).now ∧
        last.keyframes.getLast? = some landed ∧
        ∀ property, property ≠ offsetKey → ∀ value, destination.get? property = some value →
          landed.get? property = some value := by
  have leads := (Traversal.slot_visit frame tree scope (Traversal.leads_start starting).1).leads
  have complete := tree.complete_walk settings starting scope
  simp only [compile]
  generalize Traversal.visit settings scope tree (.start starting) = walk at leads complete
  have same := walk.skeletons_land destination
  have timed := (Traversal.wellTimed_land leads.timed destination).timeline walk.current
  have here := Stage.skeleton_eq_of_skeletons same walk.current
  have foremost : ((walk.land destination).timeline walk.current).skeleton.Foremost := by
    rw [show ((walk.land destination).timeline walk.current).skeleton =
      walk.stage.skeleton walk.current from here]
    exact leads.foremost
  have now : ((walk.land destination).timeline walk.current).now = walk.now :=
    congrArg (fun skeleton => skeleton.start + skeleton.cursor) here
  have youngest : (walk.land destination).size = walk.current + 1 :=
    (Stage.size_eq_of_skeletons same).trans leads.youngest
  have landed : ((walk.land destination).timeline walk.current).landed = true := by
    rw [Traversal.timeline_land leads complete filled]
  have styled := Timeline.hasStyling_of_landed timed landed
  have last := Stage.getLast?_instructions (Stage.timelines_eq_concat youngest) styled rfl
  refine ⟨_, _, last, (Timeline.endTime_of_foremost timed foremost).trans now,
    Timeline.getLast?_keyframes timed foremost, fun property free value given => ?_⟩
  rw [Timeline.get?_emit _ _ _ free, Traversal.get?_land leads complete filled free given,
    Option.some_or]

end Compilations

/-! ## The total time of a transition -/

/-- Where the last timeline ends last, its end is the total time. -/
theorem TransitionInstruction.totalTime_of_getLast? {answer : TransitionInstruction Rat}
    {last : Instruction Rat} (ends : answer.timelines.getLast? = some last)
    (nonneg : 0 ≤ last.endTime)
    (latest : ∀ timeline ∈ answer.timelines, timeline.endTime ≤ last.endTime) :
    answer.totalTime = last.endTime := by
  obtain ⟨earlier, concat⟩ := List.getLast?_eq_some_iff.1 ends
  have before : earlier.foldl (fun latest timeline => Scalar.larger latest timeline.endTime) 0 ≤
      last.endTime := by
    refine List.foldlRecOn (motive := fun reached => reached ≤ last.endTime) _ _ nonneg ?_
    intro reached bounded timeline member
    rw [Scalar.larger_exact]
    exact max_le bounded (latest timeline (concat ▸ List.mem_append_left _ member))
  rw [totalTime, concat, List.foldl_concat, Scalar.larger_exact, max_eq_right before]

/-- What a trigger answers to a change of state holds the compilation of its transition. -/
theorem Trigger.timelines_of_change {trigger : Trigger Rat} {source target : String}
    {params : Params Rat} {rule : TransitionRule Rat} {answer : TransitionInstruction Rat}
    (chosen : trigger.ruleFor? source target = some rule)
    (answered : trigger.change source target params = .ok (some answer)) :
    answer.timelines = (rule.animation.compile trigger.settings (trigger.stylesOf source)
      (trigger.stylesOf target) (rule.params.overlay params)).1 := by
  simp only [change, chosen] at answered
  split at answered
  · cases answered
    rfl
  · cases answered

/-- The total time of a change to a state with styles is the clock of its walk. -/
theorem Trigger.totalTime_of_change {trigger : Trigger Rat} {source target : String}
    {params : Params Rat} {rule : TransitionRule Rat} {answer : TransitionInstruction Rat}
    (frame : 0 ≤ trigger.settings.frameLength) (filled : (trigger.stylesOf target).isEmpty = false)
    (chosen : trigger.ruleFor? source target = some rule)
    (answered : trigger.change source target params = .ok (some answer)) :
    answer.totalTime =
      (Traversal.visit trigger.settings (rule.params.overlay params) rule.animation
        (.start (trigger.stylesOf source))).now := by
  have timelines := timelines_of_change chosen answered
  obtain ⟨last, _, ends, clock, _⟩ := rule.animation.getLast?_compile
    (trigger.stylesOf source) (trigger.stylesOf target) (rule.params.overlay params) frame filled
  have latest := rule.animation.endTime_le_clock (trigger.stylesOf source)
    (trigger.stylesOf target) (rule.params.overlay params) frame
  have walked := (Traversal.slot_visit frame rule.animation (rule.params.overlay params)
    (Traversal.leads_start (trigger.stylesOf source)).1).leads.timed
  have nonneg : 0 ≤ last.endTime := by
    rw [clock]
    exact walked.now_nonneg _
  rw [← timelines] at ends latest
  rw [← clock] at latest ⊢
  exact TransitionInstruction.totalTime_of_getLast? ends nonneg latest

/-- **The destination is landed last.** Unless there are no destination styles, the last instruction
ends with the walk and no other one ends later, its last keyframe has every destination style, and
the total time of a matched transition is the clock of its walk. -/
theorem destination_lands_last :
    (∀ (tree : Tree Rat) (settings : Settings Rat) (starting destination : Styles Rat)
      (scope : Params Rat), 0 ≤ settings.frameLength → destination.isEmpty = false →
        ∃ last landed,
          (tree.compile settings starting destination scope).1.getLast? = some last ∧
            last.endTime = (Traversal.visit settings scope tree (.start starting)).now ∧
            (∀ instruction ∈ (tree.compile settings starting destination scope).1,
              instruction.endTime ≤ last.endTime) ∧
            last.keyframes.getLast? = some landed ∧
            ∀ property, property ≠ offsetKey → ∀ value, destination.get? property = some value →
              landed.get? property = some value) ∧
      ∀ (trigger : Trigger Rat) (source target : String) (params : Params Rat)
        (rule : TransitionRule Rat) (answer : TransitionInstruction Rat),
        0 ≤ trigger.settings.frameLength → (trigger.stylesOf target).isEmpty = false →
          trigger.ruleFor? source target = some rule →
            trigger.change source target params = .ok (some answer) →
              answer.totalTime =
                (Traversal.visit trigger.settings (rule.params.overlay params) rule.animation
                  (.start (trigger.stylesOf source))).now := by
  refine ⟨?_, ?_⟩
  · intro tree settings starting destination scope frame filled
    obtain ⟨last, landed, ends, clock, shown, values⟩ :=
      tree.getLast?_compile starting destination scope frame filled
    refine ⟨last, landed, ends, clock, ?_, shown, values⟩
    rw [clock]
    exact tree.endTime_le_clock starting destination scope frame
  · intro trigger source target params rule answer frame filled chosen answered
    exact Trigger.totalTime_of_change frame filled chosen answered

/-- A transition whose walk ends with a group, so that the destination lands on a span without
length. -/
def unfolding : TransitionRule Rat where
  expression := "closed => open"
  matchers := [.states "closed" "open"]
  animation := .group
    [.animateThrough (.millis 120) [.ofEntries [("height", .text "4px")],
      .ofEntries [("height", .text "9px")]],
    .animateTo (.millis 80) (.ofEntries [("opacity", .number 0)])]
  params := ∅

/-- A trigger with this transition alone. -/
def shutter : Trigger Rat where
  name := "shutter"
  states := .ofList [("open", .ofList [("opacity", .number 1), ("easing", .text "gentle")])]
  rules := [unfolding]
  settings := Settings.standard

theorem destination_lands_last_of_unfolding :
    ∃ answer last landed,
      shutter.ruleFor? "closed" "open" = some unfolding ∧
        shutter.change "closed" "open" ∅ = .ok (some answer) ∧
          answer.timelines.getLast? = some last ∧ last.delay = 120 ∧
            answer.totalTime = 120 ∧ last.endTime = 120 ∧
              last.keyframes.getLast? = some landed ∧
                landed.get? "easing" = some (.text "gentle") := by
  obtain ⟨lands, tells⟩ := destination_lands_last
  have frame : 0 ≤ shutter.settings.frameLength := by decide
  have filled : (shutter.stylesOf "open").isEmpty = false := by decide +kernel
  have admitted : unfolding.admits "closed" "open" = true := by decide +kernel
  have chosen : shutter.ruleFor? "closed" "open" = some unfolding :=
    List.find?_cons_of_pos admitted
  have valid : (unfolding.animation.compile shutter.settings (shutter.stylesOf "closed")
      (shutter.stylesOf "open") (unfolding.params.overlay ∅)).2.isEmpty = true := by decide +kernel
  have clock : (Traversal.visit shutter.settings (unfolding.params.overlay ∅) unfolding.animation
      (.start (shutter.stylesOf "closed"))).now = 120 := by decide +kernel
  have starts : ((unfolding.animation.compile shutter.settings (shutter.stylesOf "closed")
      (shutter.stylesOf "open") (unfolding.params.overlay ∅)).1.getLast?.map Instruction.delay) =
        some 120 := by decide +kernel
  obtain ⟨answer, answered⟩ : ∃ answer,
      shutter.change "closed" "open" ∅ = .ok (some answer) := by
    simp only [Trigger.change, chosen, valid, if_true]
    exact ⟨_, rfl⟩
  obtain ⟨last, landed, ends, latest, _, shown, values⟩ := lands unfolding.animation
    shutter.settings (shutter.stylesOf "closed") (shutter.stylesOf "open")
    (unfolding.params.overlay ∅) frame filled
  refine ⟨answer, last, landed, chosen, answered, ?_, ?_, ?_, latest.trans clock, shown, ?_⟩
  · rw [Trigger.timelines_of_change chosen answered, ends]
  · rw [ends] at starts
    exact Option.some.inj starts
  · exact (tells shutter "closed" "open" ∅ unfolding answer frame filled chosen answered).trans clock
  · exact values "easing" (by decide) (.text "gentle") (by decide +kernel)

end Storyboard
