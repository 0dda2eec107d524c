import Storyboard.Proofs.OrderedMap.Values
import Storyboard.Proofs.Tree.Scaling
import Storyboard.Proofs.Validation.Occupancy

/-!
# Validating a scaled tree

Two windows overlap, coincide and join as their multiples do, so the walk of the validation cannot
tell a tree from its scaled copy: on the scaled tree it goes through the scaled states, and it
reports the same problems in the same order, where a collision names the scaled windows
(`Tree.validate_scale`). Only collisions mention times at all (`Problem.map_scale`).
-/

set_option autoImplicit false

namespace Storyboard

variable {factor : Rat}

/-! ## Windows -/

/-- The window between the multiples of its ends. -/
def Window.scale (factor : Rat) (window : Window Rat) : Window Rat :=
  ⟨factor * window.start, factor * window.stop⟩

namespace Window

variable (positive : 0 < factor) (first second : Window Rat)

include positive

omit second in
theorem isPoint_scale : (first.scale factor).isPoint = first.isPoint :=
  Scalar.beq_scale positive first.start first.stop

theorem overlaps_scale :
    (first.scale factor).overlaps (second.scale factor) = first.overlaps second := by
  simp only [overlaps, isPoint_scale positive]
  simp only [scale, Scalar.below_scale positive]

theorem coincides_scale :
    (first.scale factor).coincides (second.scale factor) = first.coincides second := by
  simp only [coincides, scale, Scalar.beq_scale positive]

theorem join_scale :
    (first.scale factor).join (second.scale factor) = (first.join second).scale factor := by
  simp only [join, scale, Scalar.smaller_scale positive, Scalar.larger_scale positive]

end Window

/-! ## Problems -/

/-- The problem with the windows of a collision scaled. -/
def Problem.scale (factor : Rat) : Problem Rat → Problem Rat
  | .collision property existing incoming =>
    .collision property (existing.scale factor) (incoming.scale factor)
  | problem => problem

/-- Problems other than collisions do not mention times. -/
theorem Problem.map_scale {problems : List (Problem Rat)} (uncollided : Uncollided problems) :
    problems.map (Problem.scale factor) = problems := by
  refine (List.map_congr_left fun problem member => ?_).trans (List.map_id problems)
  cases problem with
  | collision property existing incoming =>
    have collides := uncollided _ member property
    simp only [Problem.collidesOn, beq_self_eq_true, Bool.true_eq_false] at collides
  | _ => rfl

/-! ## The state of the walk -/

/-- The state with its clock, its windows and the windows of its collisions scaled. -/
def Survey.scale (factor : Rat) (survey : Survey Rat) : Survey Rat where
  clock := factor * survey.clock
  windows := survey.windows.mapValues fun _ => Window.scale factor
  problems := survey.problems.map (Problem.scale factor)

namespace Survey

section Operations

variable (factor) (survey : Survey Rat)

theorem report_scale (problems : List (Problem Rat)) :
    (survey.scale factor).report (problems.map (Problem.scale factor)) =
      (survey.report problems).scale factor := by
  simp only [report, scale, List.map_append]

theorem report_uncollided_scale {problems : List (Problem Rat)}
    (uncollided : Uncollided problems) :
    (survey.scale factor).report problems = (survey.report problems).scale factor := by
  rw [← report_scale, Problem.map_scale uncollided]

theorem advance_scale (time : Rat) :
    (survey.scale factor).advance (factor * time) = (survey.advance time).scale factor := by
  simp only [advance, scale, mul_add]

theorem setClock_scale (clock : Rat) :
    (survey.scale factor).setClock (factor * clock) = (survey.setClock clock).scale factor :=
  rfl

variable {factor} (positive : 0 < factor)

include positive

theorem write_scale (window : Window Rat) (property : String) :
    (survey.scale factor).write (window.scale factor) property =
      (survey.write window property).scale factor := by
  have found := OrderedMap.get?_mapValues (fun _ => Window.scale factor) survey.windows property
  have windows : (survey.scale factor).windows =
      survey.windows.mapValues fun _ => Window.scale factor := rfl
  simp only [write, windows, found]
  cases survey.windows.get? property with
  | none => simp only [Option.map_none, scale, OrderedMap.insert_mapValues]
  | some existing =>
    simp only [Option.map_some, Window.coincides_scale positive, Window.overlaps_scale positive]
    split
    · exact survey.report_scale factor [.collision property existing window]
    · simp only [scale, OrderedMap.insert_mapValues, Window.join_scale positive]

theorem checkEntry_scale (scope : Params Rat) (window : Window Rat) (entry : String × Value Rat) :
    checkEntry scope (window.scale factor) (survey.scale factor) entry =
      (checkEntry scope window survey entry).scale factor := by
  simp only [checkEntry]
  split
  · rfl
  · rw [survey.report_uncollided_scale factor (entry.2.uncollided_fill scope)]
    split
    · rfl
    · rw [write_scale _ positive]

theorem checkStep_scale (scope : Params Rat) (step : StyleStep Rat) (window : Window Rat) :
    (survey.scale factor).checkStep scope step (window.scale factor) =
      (survey.checkStep scope step window).scale factor :=
  List.foldl_hom (scale factor) fun survey entry =>
    survey.checkEntry_scale positive scope window entry

omit survey in
theorem checkSteps_scale (scope : Params Rat) (origin duration : Rat) :
    ∀ (steps : List (StyleStep Rat × Rat)) (previous : Rat) (survey : Survey Rat),
      checkSteps scope (factor * origin) (factor * duration) steps (factor * previous)
          (survey.scale factor) =
        (checkSteps scope origin duration steps previous survey).scale factor
  | [], _, _ => rfl
  | (step, offset) :: rest, previous, survey => by
    have reached : Scalar.larger (factor * origin + offset * (factor * duration))
        (factor * previous) = factor * Scalar.larger (origin + offset * duration) previous := by
      rw [← Scalar.larger_scale positive, mul_add, mul_left_comm]
    have checked := survey.checkStep_scale positive scope step
      ⟨previous, Scalar.larger (origin + offset * duration) previous⟩
    rw [checkSteps, checkSteps, reached, ← checkSteps_scale scope origin duration rest, ← checked]
    rfl

theorem checkKeyframes_scale (scope : Params Rat) (steps : List (StyleStep Rat))
    (timings : Timings Rat) :
    (survey.scale factor).checkKeyframes scope steps (timings.scale factor) =
      (survey.checkKeyframes scope steps timings).scale factor := by
  have origin : (survey.scale factor).clock + (timings.scale factor).delay =
      factor * (survey.clock + timings.delay) := (mul_add factor _ _).symm
  have clock : (survey.scale factor).clock + (timings.scale factor).total =
      factor * (survey.clock + timings.total) := by
    rw [Timings.total_scale]
    exact (mul_add factor _ _).symm
  have duration : (timings.scale factor).duration = factor * timings.duration := rfl
  simp only [checkKeyframes, origin, clock, duration,
    survey.report_uncollided_scale factor (uncollided_offsetProblems steps),
    checkSteps_scale positive, setClock_scale]

theorem checkAnimate_scale (scope : Params Rat) {timing : Timing Rat} (numbers : timing.InNumbers)
    (payload : Option (Payload Rat)) :
    (survey.scale factor).checkAnimate scope (timing.scale factor) payload =
      (survey.checkAnimate scope timing payload).scale factor := by
  have reported := survey.report_uncollided_scale factor (Timing.uncollided_resolve scope timing)
  simp only [checkAnimate, Timing.resolve_scale positive scope numbers, reported]
  match payload with
  | some (.keyframes steps) => exact checkKeyframes_scale _ positive scope steps _
  | none => simp only [Timings.total_scale, advance_scale]
  | some (.style step) =>
    simp only [Timings.total_scale, advance_scale]
    rw [← checkStep_scale _ positive, Window.scale, mul_sub]
    rfl

end Operations

mutual

/-- **The walk over a scaled tree goes through the scaled states.** -/
theorem visit_scale (positive : 0 < factor) : ∀ (tree : Tree Rat) (scope : Params Rat)
    (survey : Survey Rat),
    (∀ node ∈ tree.nodes, node.TimedInNumbers) →
      visit scope (tree.scale factor) (survey.scale factor) =
        (visit scope tree survey).scale factor
  | .sequence steps, scope, survey, timed =>
    visitSteps_scale positive steps scope survey (List.forall_mem_cons.1 timed).2
  | .group branches, scope, survey, timed =>
    visitBranches_scale positive branches scope survey.clock survey.clock survey
      (List.forall_mem_cons.1 timed).2
  | .animate timing payload, scope, survey, timed =>
    survey.checkAnimate_scale positive scope (timed _ List.mem_cons_self) payload
  | .style step, scope, survey, _ =>
    survey.checkStep_scale positive scope step ⟨survey.clock, survey.clock⟩
  | .reference animation defaults, scope, survey, timed =>
    visit_scale positive animation (referenceScope defaults scope) survey
      (List.forall_mem_cons.1 timed).2
  | .animateRef animation defaults overrides, scope, survey, timed =>
    visit_scale positive animation (invocationScope defaults scope overrides) survey
      (List.forall_mem_cons.1 timed).2
  | .trigger _ definitions, scope, survey, timed =>
    visitSteps_scale positive definitions scope survey (List.forall_mem_cons.1 timed).2
  | .transition _ animation params, scope, survey, timed => by
    have inner := visit_scale positive animation (referenceScope params scope)
      ⟨0, ∅, survey.problems⟩ (List.forall_mem_cons.1 timed).2
    have start : (⟨0, ∅, survey.problems.map (Problem.scale factor)⟩ : Survey Rat) =
        scale factor ⟨0, ∅, survey.problems⟩ := by
      rw [scale, mul_zero]
      rfl
    have problems : (survey.scale factor).problems = survey.problems.map (Problem.scale factor) :=
      rfl
    simp only [Tree.scale, visit, problems, start, inner]
    rfl
  | .keyframes _, _, survey, _ => survey.report_scale factor [.strayKeyframes]
  | .query selector _ _ _, _, survey, _ => survey.report_scale factor [.queryNeedsElements selector]
  | .stagger _ _, _, survey, _ => survey.report_scale factor [.staggerNeedsElements]
  | .animateChild _, _, survey, _ => survey.report_scale factor [.animateChildNeedsElements]
  | .state _ _, _, _, _ => rfl

theorem visitSteps_scale (positive : 0 < factor) : ∀ (steps : List (Tree Rat))
    (scope : Params Rat) (survey : Survey Rat),
    (∀ node ∈ Tree.allNodes steps, node.TimedInNumbers) →
      visitSteps scope (Tree.scaleAll factor steps) (survey.scale factor) =
        (visitSteps scope steps survey).scale factor
  | [], _, _, _ => rfl
  | step :: rest, scope, survey, timed => by
    obtain ⟨first, others⟩ := Tree.forall_mem_allNodes_cons.1 timed
    rw [Tree.scaleAll, visitSteps, visitSteps, visit_scale positive step scope survey first,
      visitSteps_scale positive rest scope _ others]

theorem visitBranches_scale (positive : 0 < factor) : ∀ (branches : List (Tree Rat))
    (scope : Params Rat) (origin furthest : Rat) (survey : Survey Rat),
    (∀ node ∈ Tree.allNodes branches, node.TimedInNumbers) →
      visitBranches scope (factor * origin) (Tree.scaleAll factor branches) (factor * furthest)
          (survey.scale factor) =
        (visitBranches scope origin branches furthest survey).scale factor
  | [], _, _, _, _, _ => rfl
  | branch :: rest, scope, origin, furthest, survey, timed => by
    obtain ⟨first, others⟩ := Tree.forall_mem_allNodes_cons.1 timed
    have visited := visit_scale positive branch scope (survey.setClock origin) first
    have clock : Scalar.larger (factor * furthest)
        ((visit scope branch (survey.setClock origin)).scale factor).clock =
          factor * Scalar.larger furthest (visit scope branch (survey.setClock origin)).clock :=
      Scalar.larger_scale positive _ _
    rw [Tree.scaleAll, visitBranches, visitBranches, setClock_scale, visited, clock,
      visitBranches_scale positive rest scope origin _ _ others]

end

end Survey

/-- **Validating a scaled tree reports the same problems in the same order**, and its collisions
are the same collisions in scaled windows. -/
theorem Tree.validate_scale (positive : 0 < factor) (tree : Tree Rat) (scope : Params Rat)
    (timed : ∀ node ∈ tree.nodes, node.TimedInNumbers) :
    (tree.scale factor).validate scope =
      (tree.validate scope).map (Problem.scale factor) := by
  have start : Survey.scale factor Survey.start = Survey.start := by
    rw [Survey.scale, Survey.start, mul_zero]
    rfl
  have visited := Survey.visit_scale positive tree scope Survey.start timed
  rw [start] at visited
  exact congrArg Survey.problems visited

end Storyboard
