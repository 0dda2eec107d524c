import Mathlib.Algebra.Order.Field.Rat
import Storyboard.Number.Scalar
import Storyboard.Tree.Basic
import Storyboard.Validation

/-!
# The nodes of a tree

`Tree.children` lists the nodes that stand in a node directly, whatever its kind. A property that a
node inherits from its children holds of every tree (`Tree.children_induction`).

`Tree.nodes` lists a tree and all trees inside of it, in the order of the document. Conditions on
a whole tree are stated over this list: that no animated step lacks its payload
(`Tree.HasPayload`), that the positions of a keyframe list never go back (`Tree.OffsetsRise`). The
list includes the trees that a walk passes by, such as the animation of a query.

`Tree.declarations` lists the styles that a walk over a tree in a scope writes, in the order of the
document, each with the scope in which its placeholders are filled there: those of animated steps,
the steps of their keyframe lists, and bare styles. A reference and an invocation change the scope
for what is inside of them; a tree that a walk passes by declares nothing.
-/

set_option autoImplicit false

namespace Storyboard

/-! ## The nodes directly inside of a node -/

variable {ν : Type}

namespace Tree

/-- The nodes that stand in a node directly. -/
def children : Tree ν → List (Tree ν)
  | .sequence steps => steps
  | .group branches => branches
  | .trigger _ definitions => definitions
  | .transition _ animation _ => [animation]
  | .reference animation _ => [animation]
  | .animateRef animation _ _ => [animation]
  | .query _ animation _ _ => [animation]
  | .stagger _ animation => [animation]
  | _ => []

mutual

/-- What a node has as soon as its children have it, every tree has. -/
@[elab_as_elim]
theorem children_induction {motive : Tree ν → Prop}
    (step : ∀ tree : Tree ν, (∀ child ∈ tree.children, motive child) → motive tree) :
    ∀ tree : Tree ν, motive tree
  | .sequence steps => step _ (children_induction_list step steps)
  | .group branches => step _ (children_induction_list step branches)
  | .trigger _ definitions => step _ (children_induction_list step definitions)
  | .transition _ animation _ | .reference animation _ | .animateRef animation _ _
  | .query _ animation _ _ | .stagger _ animation =>
    step _ (List.forall_mem_singleton.2 (children_induction step animation))
  | .state .. | .animate .. | .keyframes .. | .style .. | .animateChild .. =>
    step _ fun _ member => absurd member List.not_mem_nil

theorem children_induction_list {motive : Tree ν → Prop}
    (step : ∀ tree : Tree ν, (∀ child ∈ tree.children, motive child) → motive tree) :
    ∀ trees : List (Tree ν), ∀ tree ∈ trees, motive tree
  | [], _, member => absurd member List.not_mem_nil
  | first :: rest, tree, member => by
    rcases List.mem_cons.1 member with same | later
    · rw [same]
      exact children_induction step first
    · exact children_induction_list step rest tree later

end

end Tree

/-! ## All nodes -/

mutual

/-- The tree and all trees inside of it, in the order of the document. -/
def Tree.nodes : Tree ν → List (Tree ν)
  | .sequence steps => .sequence steps :: Tree.allNodes steps
  | .group branches => .group branches :: Tree.allNodes branches
  | .trigger name definitions => .trigger name definitions :: Tree.allNodes definitions
  | .transition expression animation params =>
    .transition expression animation params :: animation.nodes
  | .reference animation defaults => .reference animation defaults :: animation.nodes
  | .animateRef animation defaults overrides =>
    .animateRef animation defaults overrides :: animation.nodes
  | .query selector animation optional limit =>
    .query selector animation optional limit :: animation.nodes
  | .stagger timing animation => .stagger timing animation :: animation.nodes
  | leaf => [leaf]

/-- The nodes of several trees, one tree after the other. -/
def Tree.allNodes : List (Tree ν) → List (Tree ν)
  | [] => []
  | tree :: rest => tree.nodes ++ Tree.allNodes rest

end

namespace Tree

/-- An animated step has a payload; any other node is admitted. -/
def HasPayload : Tree ν → Prop
  | .animate _ none => False
  | _ => True

instance : DecidablePred (HasPayload (ν := ν))
  | .animate _ none => .isFalse fun payload => payload
  | .animate _ (some _) | .state .. | .transition .. | .sequence _ | .group _ | .keyframes _
  | .style _ | .trigger .. | .reference .. | .animateChild _ | .animateRef .. | .query ..
  | .stagger .. => .isTrue trivial

/-- The positions of the keyframe list that an animated step runs through never go back; any other
node is admitted. -/
def OffsetsRise : Tree Rat → Prop
  | .animate _ (some (.keyframes steps)) => (keyframeOffsets steps).Pairwise (· ≤ ·)
  | _ => True

instance : DecidablePred OffsetsRise
  | .animate _ (some (.keyframes steps)) =>
    inferInstanceAs (Decidable ((keyframeOffsets steps).Pairwise (· ≤ ·)))
  | .animate _ none | .animate _ (some (.style _)) | .state .. | .transition .. | .sequence _
  | .group _ | .keyframes _ | .style _ | .trigger .. | .reference .. | .animateChild _
  | .animateRef .. | .query .. | .stagger .. => .isTrue trivial

theorem forall_mem_allNodes_cons {holds : Tree ν → Prop} {tree : Tree ν} {rest : List (Tree ν)} :
    (∀ node ∈ allNodes (tree :: rest), holds node) ↔
      (∀ node ∈ tree.nodes, holds node) ∧ ∀ node ∈ allNodes rest, holds node :=
  List.forall_mem_append

end Tree

/-! ## The styles that a walk comes to -/

/-- A style and the scope in which it is filled. -/
structure Declaration (ν : Type) where
  step : StyleStep ν
  scope : Params ν

/-- The styles of a payload. -/
def Payload.steps : Payload ν → List (StyleStep ν)
  | .style step => [step]
  | .keyframes steps => steps

mutual

/-- The styles that a walk over a tree comes to. -/
def Tree.declarations (scope : Params ν) : Tree ν → List (Declaration ν)
  | .sequence steps => Tree.allDeclarations scope steps
  | .group branches => Tree.allDeclarations scope branches
  | .animate _ (some payload) => payload.steps.map fun step => ⟨step, scope⟩
  | .style step => [⟨step, scope⟩]
  | .reference animation defaults => Tree.declarations (referenceScope defaults scope) animation
  | .animateRef animation defaults overrides =>
    Tree.declarations (invocationScope defaults scope overrides) animation
  | _ => []

/-- The styles that walks over several trees come to. -/
def Tree.allDeclarations (scope : Params ν) : List (Tree ν) → List (Declaration ν)
  | [] => []
  | tree :: rest => Tree.declarations scope tree ++ Tree.allDeclarations scope rest

end

theorem Tree.forall_mem_allDeclarations_cons {scope : Params ν} {holds : Declaration ν → Prop}
    {tree : Tree ν} {rest : List (Tree ν)} :
    (∀ declaration ∈ allDeclarations scope (tree :: rest), holds declaration) ↔
      (∀ declaration ∈ declarations scope tree, holds declaration) ∧
        ∀ declaration ∈ allDeclarations scope rest, holds declaration :=
  List.forall_mem_append

end Storyboard
