import Storyboard.Number.Binary64
import Storyboard.Proofs.Tree.Substitution

/-!
# Scopes are substitution

A walk hands every node the scope in which its placeholders are filled. Filling a tree beforehand,
each text in the scope in force there, leaves a tree that compiles to the same instructions with
the same problems without any parameters, as long as no filled text has a placeholder again
(`Tree.compile_substitute`).

The scope can also be kept in a register. A reference or an invocation puts its own scope into the
register and puts the old one back behind it, and each branch of a group has a copy of the register
(`ScopedWalk.visit`). The register always holds the scope that the walk hands down, and every node
leaves it as it was (`ScopedWalk.visit_eq`).
-/

set_option autoImplicit false

namespace Storyboard

variable {ν : Type} [Scalar ν]

/-! ## Walks over a filled tree -/

namespace Traversal

theorem writeStyle_substitute {scope : Params ν} {step : StyleStep ν} (other : Params ν)
    (settled : (step.substitute scope).isSettled = true) (easing : Option String)
    (walk : Traversal ν) :
    walk.writeStyle other (step.substitute scope) easing = walk.writeStyle scope step easing := by
  rw [writeStyle, writeStyle, StyleStep.fill_substitute other settled]

theorem writeKeyframes_substitute {scope : Params ν} (other : Params ν) (duration : ν) :
    ∀ (steps : List (StyleStep ν)) (offsets : List ν) (walk : Traversal ν),
      (steps.map (StyleStep.substitute scope)).all StyleStep.isSettled = true →
        writeKeyframes other duration ((steps.map (StyleStep.substitute scope)).zip offsets) walk =
          writeKeyframes scope duration (steps.zip offsets) walk
  | [], _, _, _ => rfl
  | _ :: _, [], _, _ => rfl
  | step :: rest, offset :: offsets, walk, settled => by
    rw [List.map_cons, List.all_cons, Bool.and_eq_true] at settled
    rw [List.map_cons, List.zip_cons_cons, List.zip_cons_cons, writeKeyframes, writeKeyframes,
      writeStyle_substitute other settled.1,
      writeKeyframes_substitute other duration rest offsets _ settled.2]

theorem runKeyframes_substitute {scope : Params ν} {steps : List (StyleStep ν)} (other : Params ν)
    (settled : (steps.map (StyleStep.substitute scope)).all StyleStep.isSettled = true)
    (timings : Timings ν) (walk : Traversal ν) :
    walk.runKeyframes other (steps.map (StyleStep.substitute scope)) timings =
      walk.runKeyframes scope steps timings := by
  rw [runKeyframes, runKeyframes, keyframeOffsets_substitute,
    writeKeyframes_substitute other timings.duration steps _ _ settled]

theorem runAnimate_substitute {scope : Params ν} {timing : Timing ν} {payload : Option (Payload ν)}
    (other : Params ν) (settledTiming : (timing.substitute scope).isSettled = true)
    (settledPayload : (payload.map (Payload.substitute scope)).all Payload.isSettled = true)
    (walk : Traversal ν) :
    walk.runAnimate other (timing.substitute scope) (payload.map (Payload.substitute scope)) =
      walk.runAnimate scope timing payload := by
  rw [runAnimate, runAnimate, Timing.resolve_substitute other settledTiming]
  cases payload with
  | none => rfl
  | some payload =>
    cases payload with
    | style step => exact writeStyle_substitute other settledPayload _ _
    | keyframes steps => exact runKeyframes_substitute other settledPayload _ _

mutual

/-- The walk over a filled tree needs no scope: in any scope it does what the walk over the tree
does in the scope that was filled in. -/
theorem visit_substitute (settings : Settings ν) (other : Params ν) :
    ∀ (tree : Tree ν) (scope : Params ν) (walk : Traversal ν),
      (tree.substitute scope).isSettled = true →
        visit settings other (tree.substitute scope) walk = visit settings scope tree walk
  | .sequence steps, scope, walk, settled => by
    rw [Tree.substitute, Tree.isSettled] at settled
    rw [Tree.substitute, visit, visit, Tree.anyForks_substituteAll,
      visitSteps_substituteAll settings other steps scope _ settled]
  | .group branches, scope, walk, settled => by
    rw [Tree.substitute, Tree.isSettled] at settled
    rw [Tree.substitute, visit, visit,
      visitBranches_substituteAll settings other branches scope walk [] _ _ settled]
  | .animate timing payload, scope, walk, settled => by
    rw [Tree.substitute, Tree.isSettled, Bool.and_eq_true] at settled
    rw [Tree.substitute, visit, visit, runAnimate_substitute other settled.1 settled.2]
  | .style step, scope, walk, settled => by
    rw [Tree.substitute, Tree.isSettled] at settled
    rw [Tree.substitute, visit, visit, writeBareStyle, writeBareStyle,
      writeStyle_substitute other settled]
  | .reference animation defaults, scope, walk, settled => by
    rw [Tree.substitute, Tree.isSettled] at settled
    rw [Tree.substitute, visit, visit,
      visit_substitute settings (referenceScope ∅ other) animation _ walk settled]
  | .animateRef animation defaults overrides, scope, walk, settled => by
    rw [Tree.substitute, Tree.isSettled] at settled
    rw [Tree.substitute, visit, visit,
      visit_substitute settings (invocationScope ∅ other ∅) animation _ walk settled]
  | .state .., _, _, _ | .transition .., _, _, _ | .keyframes .., _, _, _ | .trigger .., _, _, _
  | .animateChild .., _, _, _ | .query .., _, _, _ | .stagger .., _, _, _ => rfl

theorem visitSteps_substituteAll (settings : Settings ν) (other : Params ν) :
    ∀ (steps : List (Tree ν)) (scope : Params ν) (walk : Traversal ν),
      Tree.allSettled (Tree.substituteAll scope steps) = true →
        visitSteps settings other (Tree.substituteAll scope steps) walk =
          visitSteps settings scope steps walk
  | [], _, _, _ => rfl
  | step :: rest, scope, walk, settled => by
    rw [Tree.substituteAll, Tree.allSettled, Bool.and_eq_true] at settled
    rw [Tree.substituteAll, visitSteps, visitSteps,
      visit_substitute settings other step scope walk settled.1,
      visitSteps_substituteAll settings other rest scope _ settled.2]

theorem visitBranches_substituteAll (settings : Settings ν) (other : Params ν) :
    ∀ (branches : List (Tree ν)) (scope : Params ν) (entry : Traversal ν) (ends : List Nat)
      (furthest : ν) (walk : Traversal ν),
      Tree.allSettled (Tree.substituteAll scope branches) = true →
        visitBranches settings other entry (Tree.substituteAll scope branches) ends furthest walk =
          visitBranches settings scope entry branches ends furthest walk
  | [], _, _, _, _, _, _ => rfl
  | branch :: rest, scope, entry, ends, furthest, walk, settled => by
    rw [Tree.substituteAll, Tree.allSettled, Bool.and_eq_true] at settled
    rw [Tree.substituteAll, visitBranches, visitBranches,
      visit_substitute settings other branch scope _ settled.1]
    exact visitBranches_substituteAll settings other rest scope entry _ _ _ settled.2

end

end Traversal

/-! ## The scope in a register -/

/-- A walk with the scope in force in a register. -/
structure ScopedWalk (ν : Type) where
  scope : Params ν
  walk : Traversal ν

namespace ScopedWalk

/-- Makes a visit in another scope and puts the old one back. -/
def within (state : ScopedWalk ν) (scope : Params ν) (visit : ScopedWalk ν → ScopedWalk ν) :
    ScopedWalk ν :=
  { visit { state with scope := scope } with scope := state.scope }

/-- The walk goes on, and the register stays. -/
def advance (state : ScopedWalk ν) (move : Traversal ν → Traversal ν) : ScopedWalk ν :=
  { state with walk := move state.walk }

mutual

/-- Visits a tree in the scope that the register holds. -/
def visit (settings : Settings ν) : Tree ν → ScopedWalk ν → ScopedWalk ν
  | .sequence steps, state =>
    (visitSteps settings steps (state.advance (Traversal.enterSequence settings))).advance
      fun visited =>
        (if Tree.anyForks steps then visited.continueAt none else visited).after .sequence
  | .group branches, state =>
    (visitBranches settings state.walk branches [] state.walk.now state).advance
      fun visited => visited.after .group
  | .animate timing payload, state =>
    state.advance fun walk => (walk.runAnimate state.scope timing payload).after .animate
  | .style step, state =>
    state.advance fun walk => (walk.writeBareStyle settings state.scope step).after .style
  | .reference animation defaults, state =>
    (state.within (referenceScope defaults state.scope) (visit settings animation)).advance
      fun visited => visited.after .reference
  | .animateRef animation defaults overrides, state =>
    (state.within (invocationScope defaults state.scope overrides)
      (visit settings animation)).advance fun visited => visited.after .animateRef
  | tree, state => state.advance fun walk => walk.after tree.kind

/-- Visits steps one after the other; each finds the register as the one before has left it. -/
def visitSteps (settings : Settings ν) : List (Tree ν) → ScopedWalk ν → ScopedWalk ν
  | [], state => state
  | step :: rest, state => visitSteps settings rest (visit settings step state)

/-- Visits branches side by side; each has a copy of the register of the group. -/
def visitBranches (settings : Settings ν) (entry : Traversal ν) :
    List (Tree ν) → List Nat → ν → ScopedWalk ν → ScopedWalk ν
  | [], ends, furthest, state =>
    state.advance (Traversal.leaveGroup entry ends furthest)
  | branch :: rest, ends, furthest, state =>
    let copy := state.advance fun walk =>
      { walk with current := entry.current, previous := entry.previous }.branch
    let visited := (visit settings branch copy).walk
    visitBranches settings entry rest (ends ++ [visited.current])
      (Scalar.larger furthest visited.now) ⟨state.scope, visited⟩

end

mutual

/-- Every node leaves the scope in the register as it was, and the walk is the one to which that
scope is handed down. -/
theorem visit_eq (settings : Settings ν) :
    ∀ (tree : Tree ν) (state : ScopedWalk ν),
      visit settings tree state =
        ⟨state.scope, Traversal.visit settings state.scope tree state.walk⟩
  | .sequence steps, state => by
    rw [visit, visitSteps_eq settings steps]
    rfl
  | .group branches, state => by
    rw [visit, visitBranches_eq settings state.walk branches]
    rfl
  | .reference animation defaults, state => by
    rw [visit, within, visit_eq settings animation]
    rfl
  | .animateRef animation defaults overrides, state => by
    rw [visit, within, visit_eq settings animation]
    rfl
  | .animate .., _ | .style .., _ | .state .., _ | .transition .., _ | .keyframes .., _
  | .trigger .., _ | .animateChild .., _ | .query .., _ | .stagger .., _ => rfl

theorem visitSteps_eq (settings : Settings ν) :
    ∀ (steps : List (Tree ν)) (state : ScopedWalk ν),
      visitSteps settings steps state =
        ⟨state.scope, Traversal.visitSteps settings state.scope steps state.walk⟩
  | [], _ => rfl
  | step :: rest, state => by
    rw [visitSteps, visit_eq settings step, visitSteps_eq settings rest]
    rfl

theorem visitBranches_eq (settings : Settings ν) (entry : Traversal ν) :
    ∀ (branches : List (Tree ν)) (ends : List Nat) (furthest : ν) (state : ScopedWalk ν),
      visitBranches settings entry branches ends furthest state =
        ⟨state.scope,
          Traversal.visitBranches settings state.scope entry branches ends furthest state.walk⟩
  | [], _, _, _ => rfl
  | branch :: rest, ends, furthest, state => by
    rw [visitBranches, visit_eq settings branch, visitBranches_eq settings entry rest]
    rfl

end

end ScopedWalk

/-- **Parameter scopes are substitution.** A tree whose texts have been filled in the scopes in
force where they stand compiles without parameters to the same instructions with the same problems
as the tree in its scope, as long as no filled text has a placeholder again. The scope in force
behind any node is the one in front of it. -/
theorem Tree.compile_substitute {tree : Tree ν} {scope : Params ν}
    (settled : (tree.substitute scope).isSettled = true) (settings : Settings ν) :
    (∀ starting destination : Styles ν,
      tree.compile settings starting destination scope =
        (tree.substitute scope).compile settings starting destination ∅) ∧
    ∀ (node : Tree ν) (state : ScopedWalk ν),
      ScopedWalk.visit settings node state =
        ⟨state.scope, Traversal.visit settings state.scope node state.walk⟩ := by
  refine ⟨fun starting destination => ?_, ScopedWalk.visit_eq settings⟩
  rw [compile, compile,
    Traversal.visit_substitute settings ∅ tree scope (Traversal.start starting) settled]

/-- A flash of a color that lasts for a time, beside a fade to a peak. -/
def flash : Tree Binary64 :=
  .group [
    .animateTo (.expression "\x7b\x7b time \x7d\x7d ease-in")
      (.ofEntries [("opacity", .text "\x7b\x7bpeak\x7d\x7d")]),
    .reference
      (.animateTo (.expression "\x7b\x7btime\x7d\x7d 50ms")
        (.ofEntries [("color", .text "light \x7b\x7b color \x7d\x7d"),
          ("easing", .text "\x7b\x7bcurve\x7d\x7d")]))
      (.ofList [("color", .text "blue"), ("curve", .text "linear")])]

/-- A flash with a time of its own, and a step behind it in the scope around the flash. -/
def flashThenFade : Tree Binary64 :=
  .sequence [
    .animateRef flash (.ofList [("time", .text "1s"), ("peak", .number 1)])
      (.ofList [("time", .text "200ms")]),
    .animateTo (.expression "\x7b\x7b time \x7d\x7d")
      (.ofEntries [("opacity", .text "\x7b\x7b rest \x7d\x7d")])]

/-- The scope around the flash. -/
def dimmed : Params Binary64 :=
  .ofList [("time", .text "2s"), ("rest", .number 0), ("color", .text "red")]

/-- The time is that of the flash inside of it and that of the scope behind it, and the color comes
from the scope. -/
theorem compile_flashThenFade :
    (flashThenFade.substitute dimmed = .sequence [
      .animateRef (.group [
        .animateTo (.expression "200ms ease-in") (.ofEntries [("opacity", .number 1)]),
        .reference (.animateTo (.expression "200ms 50ms")
          (.ofEntries [("color", .text "light red"), ("easing", .text "linear")])) ∅]) ∅ ∅,
      .animateTo (.expression "2s") (.ofEntries [("opacity", .number 0)])]) ∧
    (flashThenFade.substitute dimmed).isSettled = true ∧
    (∀ starting destination : Styles Binary64,
      flashThenFade.compile Settings.standard starting destination dimmed =
        (flashThenFade.substitute dimmed).compile Settings.standard starting destination ∅) ∧
    ∀ (node : Tree Binary64) (state : ScopedWalk Binary64),
      ScopedWalk.visit Settings.standard node state =
        ⟨state.scope, Traversal.visit Settings.standard state.scope node state.walk⟩ := by
  have settled : (flashThenFade.substitute dimmed).isSettled = true := by decide +kernel
  exact ⟨by rfl, settled, Tree.compile_substitute settled Settings.standard⟩

end Storyboard
