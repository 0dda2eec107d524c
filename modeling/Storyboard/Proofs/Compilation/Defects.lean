import Storyboard.Proofs.Compilation.Steps

/-!
# The defects of a tree

What a compilation reports depends on the tree and the scope alone. `Tree.defects` collects it by
recursion over the tree: the problems of the timings and of the placeholders in the styles, in the
order of the document, without regard to timelines or clocks. A walk reports exactly the defects
of what it visits behind what it has reported before (`Traversal.problems_visit`), and so the
problems of a compilation are the defects of its tree (`Tree.problems_compile`), whatever the
styles it leads from and to.
-/

set_option autoImplicit false

namespace Storyboard

variable {ν : Type} [Scalar ν]

/-! ## What a tree brings to any walk -/

/-- The problems of the placeholders in an entry of a style; the reserved offset is not filled. -/
def entryDefects (scope : Params ν) (entry : String × Value ν) : List (Problem ν) :=
  if entry.1 = offsetKey then [] else (entry.2.fill scope).2

/-- The problems of the placeholders in a style. -/
def StyleStep.defects (scope : Params ν) (step : StyleStep ν) : List (Problem ν) :=
  step.merged.entries.flatMap (entryDefects scope)

/-- The problems of the placeholders in what an animated step moves to. -/
def Payload.defects (scope : Params ν) : Payload ν → List (Problem ν)
  | .style step => step.defects scope
  | .keyframes steps => steps.flatMap (StyleStep.defects scope)

mutual

/-- The problems of the timings and placeholders that a walk over a tree meets. -/
def Tree.defects (scope : Params ν) : Tree ν → List (Problem ν)
  | .sequence steps => Tree.allDefects scope steps
  | .group branches => Tree.allDefects scope branches
  | .animate timing payload =>
    (timing.resolve scope).2 ++ (payload.map (Payload.defects scope)).getD []
  | .style step => step.defects scope
  | .reference animation defaults => animation.defects (referenceScope defaults scope)
  | .animateRef animation defaults overrides =>
    animation.defects (invocationScope defaults scope overrides)
  | _ => []

/-- The defects of a list of trees, in order. -/
def Tree.allDefects (scope : Params ν) : List (Tree ν) → List (Problem ν)
  | [] => []
  | tree :: rest => tree.defects scope ++ Tree.allDefects scope rest

end

/-! ## The walk reports the defects -/

theorem FilledStyle.problems_take (scope : Params ν) (filled : FilledStyle ν)
    (entry : String × Value ν) :
    (filled.take scope entry).problems = filled.problems ++ entryDefects scope entry := by
  unfold FilledStyle.take entryDefects
  split
  · exact (List.append_nil _).symm
  · simp only
    split <;> rfl

theorem FilledStyle.problems_foldl_take (scope : Params ν) (entries : List (String × Value ν))
    (filled : FilledStyle ν) :
    (entries.foldl (FilledStyle.take scope) filled).problems =
      filled.problems ++ entries.flatMap (entryDefects scope) := by
  induction entries generalizing filled with
  | nil => exact (List.append_nil filled.problems).symm
  | cons entry rest ih =>
    rw [List.foldl_cons, ih, problems_take, List.append_assoc, List.flatMap_cons]

/-- Filling a style meets its defects. -/
theorem StyleStep.problems_fill (scope : Params ν) (step : StyleStep ν) :
    (step.fill scope).problems = step.defects scope :=
  FilledStyle.problems_foldl_take scope step.merged.entries ⟨∅, none, []⟩

namespace Traversal

omit [Scalar ν] in
@[simp] theorem problems_modifyCurrent (walk : Traversal ν) (change : Timeline ν → Timeline ν) :
    (walk.modifyCurrent change).problems = walk.problems :=
  rfl

@[simp] theorem problems_continueAt (walk : Traversal ν) (time : Option ν) :
    (walk.continueAt time).problems = walk.problems :=
  rfl

@[simp] theorem problems_enterSequence (settings : Settings ν) (walk : Traversal ν) :
    (walk.enterSequence settings).problems = walk.problems := by
  unfold enterSequence
  split <;> rfl

@[simp] theorem problems_writeStyle (scope : Params ν) (step : StyleStep ν)
    (easing : Option String) (walk : Traversal ν) :
    (walk.writeStyle scope step easing).problems = walk.problems ++ step.defects scope := by
  rw [← step.problems_fill]
  rfl

@[simp] theorem problems_writeBareStyle (settings : Settings ν) (scope : Params ν)
    (step : StyleStep ν) (walk : Traversal ν) :
    (walk.writeBareStyle settings scope step).problems = walk.problems ++ step.defects scope := by
  simp only [writeBareStyle, problems_writeStyle]
  split <;> rfl

theorem problems_writeKeyframes (scope : Params ν) (duration : ν) :
    ∀ (steps : List (StyleStep ν × ν)) (walk : Traversal ν),
      (writeKeyframes scope duration steps walk).problems =
        walk.problems ++ (steps.map Prod.fst).flatMap (StyleStep.defects scope)
  | [], walk => (List.append_nil walk.problems).symm
  | (step, offset) :: rest, walk => by
    rw [writeKeyframes, problems_writeKeyframes, problems_writeStyle, problems_modifyCurrent,
      List.append_assoc, List.map_cons, List.flatMap_cons]

theorem problems_runKeyframes (scope : Params ν) (steps : List (StyleStep ν))
    (timings : Timings ν) (walk : Traversal ν) :
    (walk.runKeyframes scope steps timings).problems =
      walk.problems ++ steps.flatMap (StyleStep.defects scope) := by
  simp only [runKeyframes, problems_continueAt, problems_writeKeyframes,
    map_fst_zip_keyframeOffsets]
  rfl

theorem problems_runAnimate (scope : Params ν) (timing : Timing ν) (payload : Option (Payload ν))
    (walk : Traversal ν) :
    (walk.runAnimate scope timing payload).problems =
      walk.problems ++ (Tree.animate timing payload).defects scope := by
  rw [Tree.defects, ← List.append_assoc, ← problems_awaitPayload]
  cases payload with
  | none =>
    rw [runAnimate_empty]
    exact (List.append_nil _).symm
  | some payload =>
    cases payload with
    | keyframes steps =>
      rw [runAnimate_keyframes]
      exact problems_runKeyframes scope steps _ _
    | style step =>
      rw [runAnimate_style]
      exact problems_writeStyle scope step _ _

mutual

/-- **A walk reports the defects of the tree it visits**, and nothing else. -/
theorem problems_visit (settings : Settings ν) :
    ∀ (tree : Tree ν) (scope : Params ν) (walk : Traversal ν),
      (visit settings scope tree walk).problems = walk.problems ++ tree.defects scope
  | .sequence steps, scope, walk => by
    have visited := problems_visitSteps settings steps scope (walk.enterSequence settings)
    rw [problems_enterSequence] at visited
    simp only [visit, after, Tree.defects]
    split
    · exact visited
    · exact visited
  | .group branches, scope, walk => by
    simp only [visit, after, Tree.defects]
    exact problems_visitBranches settings branches scope walk [] walk.now walk
  | .animate timing payload, scope, walk => problems_runAnimate scope timing payload walk
  | .style step, scope, walk => problems_writeBareStyle settings scope step walk
  | .reference animation defaults, scope, walk => by
    simp only [visit, after, Tree.defects]
    exact problems_visit settings animation _ walk
  | .animateRef animation defaults overrides, scope, walk => by
    simp only [visit, after, Tree.defects]
    exact problems_visit settings animation _ walk
  | .state .., _, walk => (List.append_nil walk.problems).symm
  | .transition .., _, walk => (List.append_nil walk.problems).symm
  | .keyframes .., _, walk => (List.append_nil walk.problems).symm
  | .trigger .., _, walk => (List.append_nil walk.problems).symm
  | .animateChild .., _, walk => (List.append_nil walk.problems).symm
  | .query .., _, walk => (List.append_nil walk.problems).symm
  | .stagger .., _, walk => (List.append_nil walk.problems).symm

theorem problems_visitSteps (settings : Settings ν) :
    ∀ (steps : List (Tree ν)) (scope : Params ν) (walk : Traversal ν),
      (visitSteps settings scope steps walk).problems =
        walk.problems ++ Tree.allDefects scope steps
  | [], _, walk => (List.append_nil walk.problems).symm
  | step :: rest, scope, walk => by
    rw [visitSteps, problems_visitSteps settings rest, problems_visit settings step,
      List.append_assoc, Tree.allDefects]

theorem problems_visitBranches (settings : Settings ν) :
    ∀ (branches : List (Tree ν)) (scope : Params ν) (entry : Traversal ν) (ends : List Nat)
      (furthest : ν) (walk : Traversal ν),
      (visitBranches settings scope entry branches ends furthest walk).problems =
        walk.problems ++ Tree.allDefects scope branches
  | [], _, _, _, _, walk => (List.append_nil walk.problems).symm
  | branch :: rest, scope, entry, ends, furthest, walk => by
    simp only [visitBranches, problems_visitBranches settings rest, problems_visit settings branch,
      Tree.allDefects, List.append_assoc]
    rfl

end

end Traversal

/-- **The problems of a compilation are the defects of its tree.** -/
theorem Tree.problems_compile (tree : Tree ν) (settings : Settings ν)
    (starting destination : Styles ν) (scope : Params ν) :
    (tree.compile settings starting destination scope).2 = tree.defects scope :=
  Traversal.problems_visit settings tree scope (Traversal.start starting)

end Storyboard
