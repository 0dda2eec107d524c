import Storyboard.Compilation
import Storyboard.Proofs.Timeline.Skeleton

/-!
# What a compilation emits

A compilation emits the timelines of the stage on which the destination styles were landed, less
those that hold no animation (`Stage.instructions_eq`). So every instruction is that of a timeline
of this stage (`Tree.timeline_of_instruction`), and the last one is that of the last timeline that
holds an animation (`Stage.getLast?_instructions`).
-/

set_option autoImplicit false

namespace Storyboard

variable {ν : Type} [Scalar ν]

/-- Landing the destination styles moves no cursor. -/
theorem Traversal.skeletons_land (walk : Traversal ν) (destination : Styles ν) :
    (walk.land destination).skeletons = walk.stage.skeletons := by
  simp only [land]
  split
  · rfl
  · exact Stage.skeletons_land _ _ _

/-- The timeline opened last is the last of the list. -/
theorem Stage.timelines_eq_concat {stage : Stage ν} {id : Nat}
    (youngest : stage.size = id + 1) :
    stage.timelines = stage.timelines.take id ++ [stage.timeline id] := by
  have bound : id < stage.timelines.length := by
    rw [show stage.timelines.length = id + 1 from youngest]
    exact Nat.lt_succ_self id
  have here : stage.timeline id = stage.timelines[id] := by
    rw [timeline, get?, List.getElem?_eq_getElem bound, Option.getD_some]
  rw [here, List.take_append_getElem bound, ← show stage.timelines.length = id + 1 from youngest,
    List.take_length]

/-- Where there is one timeline, it is emitted if it holds an animation. -/
theorem Stage.instructions_of_sole {stage : Stage ν} (size : stage.size = 1) :
    stage.instructions =
      if (stage.timeline 0).hasStyling then [(stage.timeline 0).instruction]
      else [Instruction.noop] := by
  have sole : stage.timelines = [stage.timeline 0] := timelines_eq_concat size
  rw [instructions, sole]
  cases styled : (stage.timeline 0).hasStyling <;> simp [styled]

/-- The last instruction is that of a timeline behind which none holds an animation. -/
theorem Stage.getLast?_instructions {stage : Stage ν} {earlier later : List (Timeline ν)}
    {shown : Timeline ν} (timelines : stage.timelines = earlier ++ shown :: later)
    (styled : shown.hasStyling = true) (bare : later.filter Timeline.hasStyling = []) :
    stage.instructions.getLast? = some shown.instruction := by
  have emitted : (stage.timelines.filter Timeline.hasStyling).map Timeline.instruction =
      (earlier.filter Timeline.hasStyling).map Timeline.instruction ++ [shown.instruction] := by
    rw [timelines, List.filter_append, List.filter_cons_of_pos styled, bare, List.map_append]
    rfl
  simp only [instructions, emitted]
  rw [if_neg (by simp), List.getLast?_append]
  rfl

/-! ## The timelines that are emitted -/

/-- Instructions as they are handed out: if there are none, the one in which nothing happens. -/
def Instruction.orNoop (instructions : List (Instruction ν)) : List (Instruction ν) :=
  if instructions.isEmpty then [Instruction.noop] else instructions

/-- What is handed out is among the instructions, unless nothing happens. -/
theorem Instruction.mem_orNoop {instructions : List (Instruction ν)} {instruction : Instruction ν}
    (member : instruction ∈ orNoop instructions) :
    instruction = noop ∨ instruction ∈ instructions := by
  unfold orNoop at member
  split at member
  · exact .inl (List.mem_singleton.1 member)
  · exact .inr member

theorem Instruction.mem_orNoop_of_mem {instructions : List (Instruction ν)}
    {instruction : Instruction ν} (member : instruction ∈ instructions) :
    instruction ∈ orNoop instructions := by
  rwa [orNoop, if_neg (by simpa using List.ne_nil_of_mem member)]

/-- The numbers of the timelines that hold an animation, in the order of creation. -/
def Stage.emittedIds (stage : Stage ν) : List Nat :=
  (List.range stage.size).filter fun id => (stage.timeline id).hasStyling

namespace Stage

theorem mem_emittedIds {stage : Stage ν} {id : Nat} :
    id ∈ stage.emittedIds ↔ id < stage.size ∧ (stage.timeline id).hasStyling = true := by
  rw [emittedIds, List.mem_filter, List.mem_range]

/-- The timelines of a stage are those with the numbers that it has given out. -/
theorem timelines_eq_map (stage : Stage ν) :
    stage.timelines = (List.range stage.size).map stage.timeline := by
  apply List.ext_getElem
  · rw [List.length_map, List.length_range]
    rfl
  · intro id bound _
    rw [List.getElem_map, List.getElem_range, timeline, get?, List.getElem?_eq_getElem bound,
      Option.getD_some]

/-- A stage emits one instruction for each timeline that holds an animation. -/
theorem instructions_eq (stage : Stage ν) :
    stage.instructions =
      Instruction.orNoop (stage.emittedIds.map fun id => (stage.timeline id).instruction) := by
  have emitted : (stage.timelines.filter Timeline.hasStyling).map Timeline.instruction =
      stage.emittedIds.map fun id => (stage.timeline id).instruction := by
    rw [timelines_eq_map, List.filter_map, List.map_map]
    rfl
  rw [instructions, emitted, Instruction.orNoop]

/-- Every timeline that is worth emitting is emitted. -/
theorem instruction_mem {stage : Stage ν} {id : Nat} (opened : id < stage.size)
    (styled : (stage.timeline id).hasStyling = true) :
    (stage.timeline id).instruction ∈ stage.instructions := by
  rw [instructions_eq]
  exact Instruction.mem_orNoop_of_mem (List.mem_map_of_mem (mem_emittedIds.2 ⟨opened, styled⟩))

end Stage

/-- The stage that a compilation emits. -/
def Tree.landedStage (tree : Tree ν) (settings : Settings ν) (starting destination : Styles ν)
    (scope : Params ν) : Stage ν :=
  (Traversal.visit settings scope tree (.start starting)).land destination

/-- Every emitted instruction is that of a timeline of the stage, if any is emitted at all. -/
theorem Tree.timeline_of_instruction (tree : Tree ν) {settings : Settings ν}
    {starting destination : Styles ν} {scope : Params ν} {instruction : Instruction ν}
    (emitted : instruction ∈ (tree.compile settings starting destination scope).1) :
    instruction = Instruction.noop ∨
      ∃ id, id < (tree.landedStage settings starting destination scope).size ∧
        ((tree.landedStage settings starting destination scope).timeline id).hasStyling ∧
          instruction =
            ((tree.landedStage settings starting destination scope).timeline id).instruction := by
  have listed : (tree.compile settings starting destination scope).1 = _ :=
    (tree.landedStage settings starting destination scope).instructions_eq
  rw [listed] at emitted
  rcases Instruction.mem_orNoop emitted with noop | among
  · exact .inl noop
  · obtain ⟨id, member, rfl⟩ := List.mem_map.1 among
    obtain ⟨opened, styled⟩ := Stage.mem_emittedIds.1 member
    exact .inr ⟨id, opened, styled, rfl⟩

end Storyboard
