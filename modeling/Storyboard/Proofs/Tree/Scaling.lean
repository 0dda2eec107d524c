import Storyboard.Compilation
import Storyboard.Proofs.Timing.Resolution
import Storyboard.Proofs.Tree.Nodes

/-!
# Scaled trees

Multiplying every timing of a tree by a factor (`Tree.scale`) slows the animation down or speeds it
up. It touches neither the styles nor the positions of keyframe lists, which are parts of a
duration, and so it changes nothing that is read off the shape of the tree.

What it asks of a tree is that every animated step gives its timing in numbers
(`Tree.TimedInNumbers`).
-/

set_option autoImplicit false

namespace Storyboard

mutual

/-- The tree with every timing multiplied by a factor. -/
def Tree.scale (factor : Rat) : Tree Rat → Tree Rat
  | .sequence steps => .sequence (Tree.scaleAll factor steps)
  | .group branches => .group (Tree.scaleAll factor branches)
  | .animate timing payload => .animate (timing.scale factor) payload
  | .trigger name definitions => .trigger name (Tree.scaleAll factor definitions)
  | .transition expression animation params =>
    .transition expression (animation.scale factor) params
  | .reference animation defaults => .reference (animation.scale factor) defaults
  | .animateRef animation defaults overrides =>
    .animateRef (animation.scale factor) defaults overrides
  | .query selector animation optional limit =>
    .query selector (animation.scale factor) optional limit
  | .stagger timing animation => .stagger (timing.scale factor) (animation.scale factor)
  | .state name styles => .state name styles
  | .keyframes steps => .keyframes steps
  | .style step => .style step
  | .animateChild params => .animateChild params

/-- Several trees with every timing multiplied by a factor. -/
def Tree.scaleAll (factor : Rat) : List (Tree Rat) → List (Tree Rat)
  | [] => []
  | tree :: rest => tree.scale factor :: Tree.scaleAll factor rest

end

namespace Tree

/-- An animated step gives its timing in numbers; any other node is admitted. -/
def TimedInNumbers : Tree Rat → Prop
  | .animate timing _ => timing.InNumbers
  | _ => True

instance : DecidablePred TimedInNumbers
  | .animate timing _ => inferInstanceAs (Decidable timing.InNumbers)
  | .state .. | .transition .. | .sequence _ | .group _ | .keyframes _ | .style _ | .trigger ..
  | .reference .. | .animateChild _ | .animateRef .. | .query .. | .stagger .. => .isTrue trivial

variable (factor : Rat)

mutual

theorem forks_scale : ∀ tree : Tree Rat, (tree.scale factor).forks = tree.forks
  | .sequence steps => anyForks_scale steps
  | .group [] => rfl
  | .group (_ :: _) => rfl
  | .animate _ none => rfl
  | .animate _ (some (.style _)) => rfl
  | .animate _ (some (.keyframes _)) => rfl
  | .reference animation _ => forks_scale animation
  | .animateRef animation _ _ => forks_scale animation
  | .state .. => rfl
  | .transition .. => rfl
  | .keyframes .. => rfl
  | .style .. => rfl
  | .trigger .. => rfl
  | .animateChild .. => rfl
  | .query .. => rfl
  | .stagger .. => rfl

/-- Where forks are taken does not depend on how long anything lasts. -/
theorem anyForks_scale : ∀ trees : List (Tree Rat),
    anyForks (scaleAll factor trees) = anyForks trees
  | [] => rfl
  | tree :: rest => by rw [scaleAll, anyForks, anyForks, forks_scale tree, anyForks_scale rest]

end

end Tree

end Storyboard
