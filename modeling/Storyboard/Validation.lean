import Storyboard.Tree.Basic

/-!
# Validation

A walk over a tree with a plain clock, which collects every problem that can be told before
anything is compiled. Beside the problems of timings, placeholders and keyframe offsets, and the
constructs that cannot run here, it finds collisions: the walk keeps, for each property, the window
in which the property has been animated so far. A write in another window that overlaps it is a
collision and is reported; any other write widens the window.

A sequence shares the clock, a group starts each branch at its own entry and ends with its last
branch, and a transition runs on a clock and with windows of its own. Scopes are passed down:
the ambient scope overrides the defaults of a reference, and an invocation overrides both.

`Tree.validate` is the walk from clock zero; a tree is valid when it reports nothing.
-/

set_option autoImplicit false

namespace Storyboard

variable {ν : Type} [Scalar ν]

/-! ## Scopes -/

/-- The scope inside of a reference: its defaults under the ambient scope. -/
def referenceScope (defaults ambient : Params ν) : Params ν :=
  defaults.overlay ambient

/-- The scope inside of an invocation: defaults, ambient scope, and its own parameters on top. -/
def invocationScope (defaults ambient overrides : Params ν) : Params ν :=
  (defaults.overlay ambient).overlay overrides

/-! ## The problems of a keyframe list -/

/-- Some declared offset is less than the one before it. -/
def descends : List ν → Bool
  | first :: second :: rest => second < first || descends (second :: rest)
  | _ => false

/-- A declared offset lies outside of the unit interval, or is not a number. -/
def outOfRange (offset : ν) : Bool :=
  !(Scalar.atMost 0 offset && Scalar.atMost offset 1)

/-- What is wrong with the declared offsets of a keyframe list. -/
def offsetProblems (steps : List (StyleStep ν)) : List (Problem ν) :=
  let declared := steps.filterMap StyleStep.offset?
  (if declared ≠ [] ∧ declared.length < steps.length then [.offsetsIncomplete] else []) ++
    (if declared.any outOfRange then [.offsetOutOfRange] else []) ++
      (if descends declared then [.offsetsUnordered] else [])

/-! ## The state of the walk -/

/-- The clock, the windows written so far, and the problems found so far. -/
structure Survey (ν : Type) where
  clock : ν
  windows : OrderedMap (Window ν)
  problems : List (Problem ν)

namespace Survey

/-- The state before anything has been visited. -/
def start : Survey ν :=
  ⟨0, ∅, []⟩

/-- Adds problems behind those found so far. -/
def report (survey : Survey ν) (problems : List (Problem ν)) : Survey ν :=
  { survey with problems := survey.problems ++ problems }

/-- Moves the clock forward. -/
def advance (survey : Survey ν) (time : ν) : Survey ν :=
  { survey with clock := survey.clock + time }

/-- Sets the clock. -/
def setClock (survey : Survey ν) (clock : ν) : Survey ν :=
  { survey with clock := clock }

/-- Records a write of a property: a collision if it overlaps a different window of the same
property, otherwise a wider window. -/
def write (survey : Survey ν) (window : Window ν) (property : String) : Survey ν :=
  match survey.windows.get? property with
  | none => { survey with windows := survey.windows.insert property window }
  | some existing =>
    if !existing.coincides window && existing.overlaps window then
      survey.report [.collision property existing window]
    else { survey with windows := survey.windows.insert property (existing.join window) }

/-- Checks one entry of a style: its placeholders, and its write unless the name is reserved. -/
def checkEntry (scope : Params ν) (window : Window ν) (survey : Survey ν)
    (entry : String × Value ν) : Survey ν :=
  if entry.1 = offsetKey then survey
  else
    let reported := survey.report (entry.2.fill scope).2
    if entry.1 = easingKey then reported else reported.write window entry.1

/-- Checks a style that is written in a window. -/
def checkStep (scope : Params ν) (step : StyleStep ν) (window : Window ν) (survey : Survey ν) :
    Survey ν :=
  step.merged.entries.foldl (checkEntry scope window) survey

/-- Checks the steps of a keyframe list, each in the window from the step before it. -/
def checkSteps (scope : Params ν) (origin duration : ν) :
    List (StyleStep ν × ν) → ν → Survey ν → Survey ν
  | [], _, survey => survey
  | (step, offset) :: rest, previous, survey =>
    let reached := Scalar.larger (origin + offset * duration) previous
    checkSteps scope origin duration rest reached
      (survey.checkStep scope step ⟨previous, reached⟩)

/-- Checks a keyframe list and moves the clock past it. -/
def checkKeyframes (scope : Params ν) (steps : List (StyleStep ν)) (timings : Timings ν)
    (survey : Survey ν) : Survey ν :=
  let origin := survey.clock + timings.delay
  let checked := checkSteps scope origin timings.duration (steps.zip (keyframeOffsets steps))
    origin (survey.report (offsetProblems steps))
  checked.setClock (survey.clock + timings.total)

/-- Checks an animated step and moves the clock past it. -/
def checkAnimate (scope : Params ν) (timing : Timing ν) (payload : Option (Payload ν))
    (survey : Survey ν) : Survey ν :=
  let (timings, problems) := timing.resolve scope
  let reported := survey.report problems
  match payload with
  | some (.keyframes steps) => reported.checkKeyframes scope steps timings
  | some (.style step) =>
    let advanced := reported.advance timings.total
    advanced.checkStep scope step ⟨advanced.clock - timings.total, advanced.clock⟩
  | none => reported.advance timings.total

end Survey

/-! ## The walk -/

mutual

/-- Visits a tree in a scope. -/
def Survey.visit (scope : Params ν) : Tree ν → Survey ν → Survey ν
  | .sequence steps, survey => Survey.visitSteps scope steps survey
  | .group steps, survey => Survey.visitBranches scope survey.clock steps survey.clock survey
  | .animate timing payload, survey => survey.checkAnimate scope timing payload
  | .style step, survey => survey.checkStep scope step ⟨survey.clock, survey.clock⟩
  | .keyframes _, survey => survey.report [.strayKeyframes]
  | .reference animation defaults, survey =>
    Survey.visit (referenceScope defaults scope) animation survey
  | .animateRef animation defaults overrides, survey =>
    Survey.visit (invocationScope defaults scope overrides) animation survey
  | .trigger _ definitions, survey => Survey.visitSteps scope definitions survey
  | .transition _ animation params, survey =>
    let inner := Survey.visit (referenceScope params scope) animation
      ⟨0, ∅, survey.problems⟩
    { survey with problems := inner.problems }
  | .state _ _, survey => survey
  | .query selector _ _ _, survey => survey.report [.queryNeedsElements selector]
  | .stagger _ _, survey => survey.report [.staggerNeedsElements]
  | .animateChild _, survey => survey.report [.animateChildNeedsElements]

/-- Visits steps one after the other. -/
def Survey.visitSteps (scope : Params ν) : List (Tree ν) → Survey ν → Survey ν
  | [], survey => survey
  | step :: rest, survey => Survey.visitSteps scope rest (Survey.visit scope step survey)

/-- Visits branches side by side from one clock, and ends at the furthest clock reached. -/
def Survey.visitBranches (scope : Params ν) (origin : ν) :
    List (Tree ν) → ν → Survey ν → Survey ν
  | [], furthest, survey => survey.setClock furthest
  | branch :: rest, furthest, survey =>
    let visited := Survey.visit scope branch (survey.setClock origin)
    Survey.visitBranches scope origin rest (Scalar.larger furthest visited.clock) visited

end

/-- The problems of a tree in a scope, in the order in which the walk meets them. -/
def Tree.validate (tree : Tree ν) (scope : Params ν) : List (Problem ν) :=
  (Survey.visit scope tree Survey.start).problems

end Storyboard
