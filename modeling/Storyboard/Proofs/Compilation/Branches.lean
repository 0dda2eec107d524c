import Storyboard.Proofs.Compilation.AfterGroup
import Storyboard.Proofs.Compilation.Defects
import Storyboard.Proofs.Compilation.Relocation

/-!
# What the branches of a group emit

The branches of a group are visited one after the other, each on a fork behind everything that was
opened before. By relocation a branch leaves all earlier timelines exactly as they are
(`Traversal.visit_enterBranch`). Folding the branches back marks values on the timeline on which
the group was entered, and no mark shows in an instruction; the timeline behind the group is blank
and emits nothing unless something is landed on it.

So more branches at the end of a group add instructions and problems at the end, and disturb
nothing before (`Tree.compile_group_append`). Nothing is assumed about the branches, the numbers,
or the length of a frame.
-/

set_option autoImplicit false

namespace Storyboard

variable {ν : Type} [Scalar ν]

/-! ## Emission -/

/-- What a timeline emits: its instruction, if it holds an animation. -/
def Timeline.emission (timeline : Timeline ν) : List (Instruction ν) :=
  if timeline.hasStyling then [timeline.instruction] else []

/-- What the timelines of a stage emit, in the order of creation. -/
def Stage.emitted (stage : Stage ν) : List (Instruction ν) :=
  stage.timelines.flatMap Timeline.emission

namespace Stage

theorem instructions_eq_orNoop (stage : Stage ν) :
    stage.instructions = Instruction.orNoop stage.emitted := by
  have emitted : (stage.timelines.filter Timeline.hasStyling).map Timeline.instruction =
      stage.emitted := by
    unfold Stage.emitted
    induction stage.timelines with
    | nil => rfl
    | cons timeline rest ih =>
      rw [List.flatMap_cons, Timeline.emission, ← ih]
      by_cases styled : timeline.hasStyling = true
      · rw [List.filter_cons_of_pos styled, if_pos styled]
        rfl
      · rw [List.filter_cons_of_neg styled, if_neg styled]
        rfl
  rw [instructions, Instruction.orNoop, emitted]

theorem emitted_push (stage : Stage ν) (timeline : Timeline ν) :
    (stage.push timeline).emitted = stage.emitted ++ timeline.emission := by
  rw [emitted, push, List.flatMap_append, List.flatMap_singleton]
  rfl

theorem emitted_behind (others : List (Timeline ν)) (stage : Stage ν) :
    (stage.behind others).emitted = others.flatMap Timeline.emission ++ stage.emitted :=
  List.flatMap_append

/-- What a timeline takes over from another one does not show. -/
theorem emitted_absorb (stage : Stage ν) (target source : Nat) :
    (stage.absorb target source).emitted = stage.emitted := by
  refine foldl_keeps emitted (fun merged entry => ?_) _ stage
  have kept : ∀ timeline : Timeline ν,
      (timeline.adopt entry.1 entry.2).emission = timeline.emission := fun _ => rfl
  rw [emitted, emitted, List.flatMap_def, List.flatMap_def]
  exact congrArg List.flatten (map_modify_of_kept Timeline.emission kept target merged.timelines)

end Stage

/-! ## Branches -/

namespace Traversal

/-- The fork of a branch on a stage of its own, with the shared styles. -/
def forkAlone (entry walk : Traversal ν) : Traversal ν where
  stage := ⟨[Timeline.blank (walk.stage.now entry.current)
    (walk.stage.timeline entry.current).effective], walk.stage.shared⟩
  current := 0
  previous := entry.previous
  problems := walk.problems

/-- **A branch is visited behind everything that was opened before**, which it leaves as it is. -/
theorem visit_enterBranch (settings : Settings ν) (scope : Params ν) (branch : Tree ν)
    (entry walk : Traversal ν) :
    visit settings scope branch (entry.enterBranch walk) =
      (visit settings scope branch (entry.forkAlone walk)).behind walk.stage.timelines :=
  visit_behind walk.stage.timelines settings branch scope (entry.forkAlone walk)

/-- Passing through branches only adds timelines. -/
theorem prefix_throughBranches (settings : Settings ν) (scope : Params ν) (entry : Traversal ν) :
    ∀ (branches : List (Tree ν)) (walk : Traversal ν), walk.stage.timelines <+:
      (throughBranches settings scope entry branches walk).stage.timelines
  | [], _ => List.prefix_refl _
  | branch :: rest, walk => by
    have others := prefix_throughBranches settings scope entry rest
      (visit settings scope branch (entry.enterBranch walk))
    rw [throughBranches]
    refine List.IsPrefix.trans ?_ others
    rw [visit_enterBranch]
    exact List.prefix_append _ _

theorem throughBranches_append (settings : Settings ν) (scope : Params ν) (entry : Traversal ν)
    (later : List (Tree ν)) : ∀ (earlier : List (Tree ν)) (walk : Traversal ν),
      throughBranches settings scope entry (earlier ++ later) walk =
        throughBranches settings scope entry later
          (throughBranches settings scope entry earlier walk)
  | [], _ => rfl
  | _ :: rest, _ => throughBranches_append settings scope entry later rest _

/-- Folding branches back shows in no instruction. -/
theorem emitted_absorbAll (target : Nat) (sources : List Nat) (stage : Stage ν) :
    (sources.foldl (fun stage source => stage.absorb target source) stage).emitted =
      stage.emitted :=
  foldl_keeps Stage.emitted (fun stage source => stage.emitted_absorb target source) sources stage

/-- A group is left on a blank timeline, behind all others. -/
theorem stage_leaveGroup (entry walk : Traversal ν) (ends : List Nat) (furthest : ν) :
    (entry.leaveGroup ends furthest walk).stage =
      (ends.foldl (fun stage source => stage.absorb entry.current source) walk.stage).push
        (Timeline.blank furthest ∅) :=
  rfl

/-- A group without a destination emits what is emitted behind its branches. -/
theorem emitted_visit_group (settings : Settings ν) (scope : Params ν) (branches : List (Tree ν))
    (walk : Traversal ν) :
    ((visit settings scope (.group branches) walk).land ∅).emitted =
      (throughBranches settings scope walk branches walk).stage.emitted := by
  obtain ⟨reached, left⟩ :=
    visitBranches_eq_leaveGroup "" settings scope walk branches [] walk.now walk
  have bare : (Timeline.blank reached (∅ : Styles ν)).emission = [] := rfl
  simp only [visit, after]
  rw [left, land_blank rfl rfl, stage_leaveGroup, Stage.emitted_push, bare, List.append_nil,
    emitted_absorbAll]

end Traversal

/-! ## Groups as a whole -/

theorem Tree.allDefects_eq_flatMap (scope : Params ν) (branches : List (Tree ν)) :
    Tree.allDefects scope branches = branches.flatMap (defects scope) := by
  induction branches with
  | nil => rfl
  | cons branch rest ih => rw [allDefects, ih, List.flatMap_cons]

/-- Without a destination a group is compiled to what its branches emit. -/
theorem Tree.instructions_compile_group (settings : Settings ν) (starting : Styles ν)
    (scope : Params ν) (branches : List (Tree ν)) :
    ((Tree.group branches).compile settings starting ∅ scope).1 =
      Instruction.orNoop (Traversal.throughBranches settings scope (.start starting) branches
        (.start starting)).stage.emitted := by
  simp only [compile]
  rw [Stage.instructions_eq_orNoop, Traversal.emitted_visit_group]

/-- **Later branches never disturb earlier ones.** Without a destination, a group of more branches
is compiled to the instructions of the group of the first ones, unless these are the lone no-op,
and then to more; and so with the problems. -/
theorem Tree.compile_group_append (earlier later : List (Tree ν)) (settings : Settings ν)
    (starting : Styles ν) (scope : Params ν) :
    (((Tree.group earlier).compile settings starting ∅ scope).1 = [Instruction.noop] ∨
      ((Tree.group earlier).compile settings starting ∅ scope).1 <+:
        ((Tree.group (earlier ++ later)).compile settings starting ∅ scope).1) ∧
    ((Tree.group earlier).compile settings starting ∅ scope).2 <+:
      ((Tree.group (earlier ++ later)).compile settings starting ∅ scope).2 := by
  refine ⟨?_, ?_⟩
  · have emitted : (Traversal.throughBranches settings scope (.start starting) earlier
        (.start starting)).stage.emitted <+: (Traversal.throughBranches settings scope
          (.start starting) (earlier ++ later) (.start starting)).stage.emitted := by
      rw [Traversal.throughBranches_append]
      obtain ⟨more, split⟩ := Traversal.prefix_throughBranches settings scope _ later _
      rw [Stage.emitted, Stage.emitted, ← split, List.flatMap_append]
      exact List.prefix_append _ _
    rw [instructions_compile_group, instructions_compile_group]
    generalize (Traversal.throughBranches settings scope (.start starting) earlier
      (.start starting)).stage.emitted = first at emitted
    generalize (Traversal.throughBranches settings scope (.start starting) (earlier ++ later)
      (.start starting)).stage.emitted = all at emitted
    cases first with
    | nil => exact .inl rfl
    | cons instruction rest =>
      obtain ⟨more, rfl⟩ := emitted
      exact .inr (List.prefix_append _ more)
  · rw [problems_compile, problems_compile]
    show Tree.allDefects scope earlier <+: Tree.allDefects scope (earlier ++ later)
    rw [allDefects_eq_flatMap, allDefects_eq_flatMap, List.flatMap_append]
    exact List.prefix_append _ _

end Storyboard
