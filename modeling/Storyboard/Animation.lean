import Storyboard.Compilation
import Storyboard.Problem

/-!
# Animations

An animation is a tree that passed validation, with the parameters that it was validated with. It
can be built any number of times: from given styles to given styles, with parameters layered over
its own. A build fails when the walk meets a problem, which the layered parameters may bring in.
-/

set_option autoImplicit false

namespace Storyboard

variable {ν : Type} [Scalar ν]

/-- A validated tree, its default parameters, and the settings of its builds. -/
structure Animation (ν : Type) where
  tree : Tree ν
  params : Params ν
  settings : Settings ν

namespace Animation

/-- Validates a tree with parameters. -/
def ofTree (tree : Tree ν) (params : Params ν) : Except Failure (Animation ν) :=
  let problems := tree.validate params
  if problems.isEmpty then .ok ⟨tree, params, Settings.standard⟩
  else .error (.invalidAnimation (problems.map Problem.message))

/-- Validates a sequence of steps. -/
def ofSteps (steps : List (Tree ν)) : Except Failure (Animation ν) :=
  ofTree (.sequence steps) ∅

/-- The same animation with other settings. -/
def withSettings (animation : Animation ν) (settings : Settings ν) : Animation ν :=
  { animation with settings := settings }

/-- The instructions from starting styles to destination styles. -/
def build (animation : Animation ν) (starting destination : Styles ν) (params : Params ν) :
    Except Failure (List (Instruction ν)) :=
  let (instructions, problems) :=
    animation.tree.compile animation.settings starting destination (animation.params.overlay params)
  if problems.isEmpty then .ok instructions
  else .error (.invalidAnimation (problems.map Problem.message))

end Animation

end Storyboard
