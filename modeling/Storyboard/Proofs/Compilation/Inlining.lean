import Storyboard.Proofs.Compilation.Ledger
import Storyboard.Proofs.OrderedMap.Lookup
import Storyboard.Proofs.Tree.Places

/-!
# Reusable animations in line

A reference without parameters, and an invocation without parameters on either side, run the
animation that they wrap in the scope and on the timeline that they stand on. They leave one trace:
the walk remembers the kind of the wrapper as the node visited last, and not the kind of what was
wrapped.

What is remembered matters to two kinds of nodes. A bare style looks whether an animated step came
before it, and a sequence whether a bare style did; either may be met first inside of other nodes
(`Tree.heeds`). Any other node is visited in one way whatever came before (`Traversal.visit_after`).
So putting the animation in the place of its wrapper changes nothing unless the step behind the
wrapper heeds the kind of the animation (`Tree.compile_inlined`).

There the wrapper does show. A bare style behind a wrapped animated step is not moved on by a frame
and overwrites what the step has reached (`wrappedStep_is_overwritten`).
-/

set_option autoImplicit false

namespace Storyboard

variable {ν : Type}

/-! ## Looking back -/

mutual

/-- The visit of the tree depends on whether a node of the kind was visited just before. -/
def Tree.heeds (kind : NodeKind) : Tree ν → Bool
  | .style _ => kind = .animate
  | .sequence steps => kind = .style || Tree.firstHeeds kind steps
  | .group branches => Tree.someHeed kind branches
  | .reference animation _ => animation.heeds kind
  | .animateRef animation _ _ => animation.heeds kind
  | _ => false

/-- The first of several steps heeds the kind. -/
def Tree.firstHeeds (kind : NodeKind) : List (Tree ν) → Bool
  | [] => false
  | step :: _ => step.heeds kind

/-- Some of several branches heed the kind. -/
def Tree.someHeed (kind : NodeKind) : List (Tree ν) → Bool
  | [] => false
  | branch :: rest => branch.heeds kind || Tree.someHeed kind rest

end

/-- What comes behind a tree in its surrounding heeds the kind. Only the steps of a sequence come
behind one another. -/
def Surrounding.heeds (kind : NodeKind) : Surrounding ν → Bool
  | .sequence _ after => Tree.firstHeeds kind after
  | _ => false

/-- What comes behind a tree at a place heeds the kind. -/
def Place.heeds (kind : NodeKind) : Place ν → Bool
  | [] => false
  | surrounding :: _ => surrounding.heeds kind

/-- A node wraps an animation without parameters. -/
def Tree.WrapsPlainly (wrapper animation : Tree ν) : Prop :=
  wrapper = .reference animation ∅ ∨ wrapper = .animateRef animation ∅ ∅

mutual

/-- No node heeds a kind other than the two that the look-ahead rules name. -/
theorem Tree.heeds_of_other {kind : NodeKind} (noStep : kind ≠ .animate) (noStyle : kind ≠ .style) :
    ∀ tree : Tree ν, tree.heeds kind = false
  | .style _ => by simp [heeds, noStep]
  | .sequence steps => by simp [heeds, noStyle, firstHeeds_of_other noStep noStyle steps]
  | .group branches => by simp [heeds, someHeed_of_other noStep noStyle branches]
  | .reference animation _ => by simp [heeds, heeds_of_other noStep noStyle animation]
  | .animateRef animation _ _ => by simp [heeds, heeds_of_other noStep noStyle animation]
  | .state .. | .transition .. | .animate .. | .keyframes .. | .trigger .. | .animateChild ..
  | .query .. | .stagger .. => by simp [heeds]

theorem Tree.firstHeeds_of_other {kind : NodeKind} (noStep : kind ≠ .animate)
    (noStyle : kind ≠ .style) : ∀ steps : List (Tree ν), firstHeeds kind steps = false
  | [] => by simp [firstHeeds]
  | step :: _ => by simp [firstHeeds, heeds_of_other noStep noStyle step]

theorem Tree.someHeed_of_other {kind : NodeKind} (noStep : kind ≠ .animate)
    (noStyle : kind ≠ .style) : ∀ branches : List (Tree ν), someHeed kind branches = false
  | [] => by simp [someHeed]
  | branch :: rest => by
    simp [someHeed, heeds_of_other noStep noStyle branch, someHeed_of_other noStep noStyle rest]

end

theorem Place.heeds_of_other {kind : NodeKind} (noStep : kind ≠ .animate) (noStyle : kind ≠ .style)
    (place : Place ν) : place.heeds kind = false := by
  rcases place with _ | ⟨surrounding, outer⟩
  · rfl
  · cases surrounding with
    | sequence before after => exact Tree.firstHeeds_of_other noStep noStyle after
    | group | trigger | transition | reference | animateRef | query | stagger => rfl

theorem Tree.anyForks_append_cons (before after : List (Tree ν)) (inner : Tree ν) :
    anyForks (before ++ inner :: after) = (anyForks before || (inner.forks || anyForks after)) := by
  induction before with
  | nil => rw [List.nil_append, anyForks, anyForks, Bool.false_or]
  | cons step rest ih => rw [List.cons_append, anyForks, anyForks, ih, Bool.or_assoc]

variable [Scalar ν]

namespace Traversal

/-! ## Walks that remember different kinds -/

omit [Scalar ν] in
@[simp] theorem after_after (walk : Traversal ν) (first second : NodeKind) :
    (walk.after first).after second = walk.after second :=
  rfl

/-- A visit ends with the kind of its tree remembered. -/
theorem after_visit (settings : Settings ν) (scope : Params ν) (tree : Tree ν)
    (walk : Traversal ν) :
    (visit settings scope tree walk).after tree.kind = visit settings scope tree walk := by
  cases tree <;> rfl

theorem writeKeyframes_after (scope : Params ν) (duration : ν) (kind : NodeKind)
    (steps : List (StyleStep ν × ν)) (walk : Traversal ν) :
    writeKeyframes scope duration steps (walk.after kind) =
      (writeKeyframes scope duration steps walk).after kind := by
  induction steps generalizing walk with
  | nil => rfl
  | cons step rest ih =>
    rw [writeKeyframes_cons, writeKeyframes_cons, ← ih]
    rfl

theorem runKeyframes_after (scope : Params ν) (steps : List (StyleStep ν)) (timings : Timings ν)
    (kind : NodeKind) (walk : Traversal ν) :
    (walk.after kind).runKeyframes scope steps timings =
      (walk.runKeyframes scope steps timings).after kind := by
  have ran := writeKeyframes_after scope timings.duration kind (steps.zip (keyframeOffsets steps))
    (walk.forkKeyframes timings)
  exact congrArg (fun ran : Traversal ν => { ran with
    stage := ran.stage.absorb walk.current ran.current, current := walk.current }.continueAt
      (some (walk.now + timings.duration))) ran

/-- An animated step does not look back. -/
theorem runAnimate_after (scope : Params ν) (timing : Timing ν) (payload : Option (Payload ν))
    (kind : NodeKind) (walk : Traversal ν) :
    (walk.after kind).runAnimate scope timing payload =
      (walk.runAnimate scope timing payload).after kind := by
  have waited : (walk.after kind).awaitPayload scope timing =
      (walk.awaitPayload scope timing).after kind := by
    unfold awaitPayload wait
    split <;> rfl
  rcases payload with none | ⟨step | steps⟩
  · rw [runAnimate_empty, runAnimate_empty, waited]
    rfl
  · rw [runAnimate_style, runAnimate_style, waited]
    rfl
  · rw [runAnimate_keyframes, runAnimate_keyframes, waited]
    exact runKeyframes_after scope steps (timing.resolve scope).1 kind _

/-- A bare style looks for an animated step only. -/
theorem writeBareStyle_after (settings : Settings ν) (scope : Params ν) (step : StyleStep ν)
    {kind : NodeKind} (noStep : kind ≠ .animate) (walk : Traversal ν) :
    (walk.after kind).writeBareStyle settings scope step =
      (walk.writeStyle scope step none).after kind := by
  have still : ¬(walk.after kind).previous = some .animate := fun same =>
    noStep (Option.some.inj same)
  unfold writeBareStyle
  rw [if_neg still]
  rfl

/-- A sequence looks for a bare style only. -/
theorem enterSequence_after (settings : Settings ν) {kind : NodeKind} (noStyle : kind ≠ .style)
    (walk : Traversal ν) : (walk.after kind).enterSequence settings = walk.after kind := by
  have still : ¬(walk.after kind).previous = some .style := fun same =>
    noStyle (Option.some.inj same)
  unfold enterSequence
  rw [if_neg still]

/-- What is remembered behind the branches of a group is lost at its end. -/
theorem visitBranches_after (settings : Settings ν) (scope : Params ν) (entry : Traversal ν)
    (kind : NodeKind) (branches : List (Tree ν)) (ends : List Nat) (furthest : ν)
    (walk : Traversal ν) :
    (visitBranches settings scope entry branches ends furthest (walk.after kind)).after .group =
      (visitBranches settings scope entry branches ends furthest walk).after .group := by
  cases branches <;> rfl

mutual

/-- **A node that heeds neither of two kinds is visited in one way behind both of them.** -/
theorem visit_after (settings : Settings ν) {first second : NodeKind} :
    ∀ (tree : Tree ν) (scope : Params ν) (walk : Traversal ν), tree.heeds first = false →
      tree.heeds second = false →
        visit settings scope tree (walk.after first) = visit settings scope tree (walk.after second)
  | .style step, scope, walk, unheeded, unheeded' => by
    simp only [visit]
    rw [writeBareStyle_after settings scope step (of_decide_eq_false unheeded),
      writeBareStyle_after settings scope step (of_decide_eq_false unheeded'), after_after,
      after_after]
  | .sequence steps, scope, walk, unheeded, unheeded' => by
    obtain ⟨noStyle, others⟩ := Bool.or_eq_false_iff.1 unheeded
    obtain ⟨noStyle', others'⟩ := Bool.or_eq_false_iff.1 unheeded'
    simp only [visit]
    rw [enterSequence_after settings (of_decide_eq_false noStyle),
      enterSequence_after settings (of_decide_eq_false noStyle')]
    cases steps with
    | nil => rfl
    | cons step rest =>
      rw [visitSteps, visitSteps, visit_after settings step scope walk others others']
  | .group branches, scope, walk, unheeded, unheeded' => by
    have branched := visitBranches_entry settings branches scope walk walk [] walk.now unheeded
      unheeded'
    calc (visitBranches settings scope (walk.after first) branches [] walk.now
          (walk.after first)).after .group
        = (visitBranches settings scope (walk.after first) branches [] walk.now walk).after
            .group :=
          visitBranches_after settings scope _ first branches [] walk.now walk
      _ = (visitBranches settings scope (walk.after second) branches [] walk.now
            walk).after .group := by rw [branched]
      _ = (visitBranches settings scope (walk.after second) branches [] walk.now
            (walk.after second)).after .group :=
          (visitBranches_after settings scope _ second branches [] walk.now walk).symm
  | .animate timing payload, scope, walk, _, _ => by
    simp only [visit, runAnimate_after, after_after]
  | .reference animation defaults, scope, walk, unheeded, unheeded' => by
    simp only [visit]
    rw [visit_after settings animation _ walk unheeded unheeded']
  | .animateRef animation defaults overrides, scope, walk, unheeded, unheeded' => by
    simp only [visit]
    rw [visit_after settings animation _ walk unheeded unheeded']
  | .state .., _, _, _, _ | .transition .., _, _, _, _ | .keyframes .., _, _, _, _
  | .trigger .., _, _, _, _ | .animateChild .., _, _, _, _ | .query .., _, _, _, _
  | .stagger .., _, _, _, _ => rfl

theorem visitBranches_entry (settings : Settings ν) {first second : NodeKind} :
    ∀ (branches : List (Tree ν)) (scope : Params ν) (entry walk : Traversal ν) (ends : List Nat)
      (furthest : ν), Tree.someHeed first branches = false → Tree.someHeed second branches = false →
        visitBranches settings scope (entry.after first) branches ends furthest walk =
          visitBranches settings scope (entry.after second) branches ends furthest walk
  | [], _, _, _, _, _, _, _ => rfl
  | branch :: rest, scope, entry, walk, ends, furthest, unheeded, unheeded' => by
    obtain ⟨here, others⟩ := Bool.or_eq_false_iff.1 unheeded
    obtain ⟨here', others'⟩ := Bool.or_eq_false_iff.1 unheeded'
    have visited : visit settings scope branch ((entry.after first).enterBranch walk) =
        visit settings scope branch ((entry.after second).enterBranch walk) :=
      visit_after settings branch scope (entry.enterBranch walk) here here'
    rw [visitBranches_cons, visitBranches_cons, visited]
    exact visitBranches_entry settings rest scope entry _ _ _ others others'

end

/-! ## Wrappers -/

/-- A plain wrapper runs its animation, and is remembered in its place. -/
theorem visit_of_wrapsPlainly {wrapper animation : Tree ν} (wraps : wrapper.WrapsPlainly animation)
    (settings : Settings ν) (scope : Params ν) (walk : Traversal ν) :
    visit settings scope wrapper walk =
      (visit settings scope animation walk).after wrapper.kind := by
  have reference : referenceScope ∅ scope = scope := OrderedMap.ofList_entries scope
  have invocation : invocationScope ∅ scope ∅ = scope := OrderedMap.ofList_entries scope
  rcases wraps with rfl | rfl
  · rw [visit, reference]
    rfl
  · rw [visit, invocation]
    rfl

end Traversal

/-! ## Trees that stand for one another -/

/-- One tree can stand for another: the visits leave the same behind, apart from the kind that is
remembered, and both trees fork or neither. -/
structure Tree.StandsFor (settings : Settings ν) (first second : Tree ν) : Prop where
  visited : ∀ (scope : Params ν) (walk : Traversal ν),
    Traversal.visit settings scope first walk =
      (Traversal.visit settings scope second walk).after first.kind
  forked : first.forks = second.forks

namespace Tree.StandsFor

open Traversal

variable {settings : Settings ν} {first second : Tree ν}

/-- A plain wrapper stands for its animation. -/
theorem of_wrapsPlainly {wrapper animation : Tree ν} (wraps : wrapper.WrapsPlainly animation) :
    StandsFor settings wrapper animation := by
  refine ⟨visit_of_wrapsPlainly wraps settings, ?_⟩
  rcases wraps with rfl | rfl <;> rw [forks]

/-- Steps that do not heed either kind run in one way behind either tree. -/
theorem visitSteps_behind (standing : StandsFor settings first second) {after : List (Tree ν)}
    (unheeded : firstHeeds first.kind after = false)
    (unheeded' : firstHeeds second.kind after = false) (scope : Params ν) (walk : Traversal ν)
    (kind : NodeKind) :
    (visitSteps settings scope after (visit settings scope first walk)).after kind =
      (visitSteps settings scope after (visit settings scope second walk)).after kind := by
  rw [standing.visited scope walk]
  cases after with
  | nil => rfl
  | cons next rest =>
    have met := visit_after settings next scope (visit settings scope second walk) unheeded
      unheeded'
    rw [after_visit] at met
    rw [visitSteps, visitSteps, met]

/-- In the branches of a group one tree can stand for the other without a condition. -/
theorem visitBranches_through (standing : StandsFor settings first second) (scope : Params ν)
    (entry : Traversal ν) (after before : List (Tree ν)) (ends : List Nat) (furthest : ν)
    (walk : Traversal ν) :
    (visitBranches settings scope entry (before ++ first :: after) ends furthest walk).after
        .group =
      (visitBranches settings scope entry (before ++ second :: after) ends furthest walk).after
        .group := by
  induction before generalizing ends furthest walk with
  | nil =>
    rw [List.nil_append, List.nil_append, visitBranches_cons, visitBranches_cons,
      standing.visited scope]
    exact visitBranches_after settings scope entry first.kind after _ _ _
  | cons branch rest ih =>
    rw [List.cons_append, List.cons_append, visitBranches_cons, visitBranches_cons]
    exact ih _ _ _

/-- A node with the one tree inside stands for the same node with the other one inside, if what
comes behind the trees heeds neither kind. -/
theorem fill (standing : StandsFor settings first second) (surrounding : Surrounding ν)
    (unheeded : surrounding.heeds first.kind = false)
    (unheeded' : surrounding.heeds second.kind = false) :
    StandsFor settings (surrounding.fill first) (surrounding.fill second) := by
  cases surrounding with
  | sequence before after =>
    have forked : anyForks (before ++ first :: after) = anyForks (before ++ second :: after) := by
      rw [anyForks_append_cons, anyForks_append_cons, standing.forked]
    refine ⟨fun scope walk => ?_, forked⟩
    have through := standing.visitSteps_behind unheeded unheeded' scope
      (visitSteps settings scope before (walk.enterSequence settings)) .sequence
    simp only [Surrounding.fill, visit, visitSteps_append, visitSteps, forked, after_after]
    split
    · have resumed := congrArg (fun ran : Traversal ν => (ran.continueAt none).after .sequence)
        through
      exact resumed
    · exact through
  | group before after =>
    refine ⟨fun scope walk => ?_, by cases before <;> rfl⟩
    exact standing.visitBranches_through scope walk after before [] walk.now walk
  | reference defaults =>
    refine ⟨fun scope walk => ?_, standing.forked⟩
    simp only [Surrounding.fill, visit, standing.visited]
    rfl
  | animateRef defaults overrides =>
    refine ⟨fun scope walk => ?_, standing.forked⟩
    simp only [Surrounding.fill, visit, standing.visited]
    rfl
  | trigger | transition | query | stagger => exact ⟨fun _ _ => rfl, rfl⟩

omit [Scalar ν] in
/-- A node with trees inside is no animated step and no bare style, so nothing behind it heeds its
kind. -/
theorem heeds_kind_fill (surrounding : Surrounding ν) (inner : Tree ν) (outer : Place ν) :
    outer.heeds (surrounding.fill inner).kind = false := by
  refine Place.heeds_of_other ?_ ?_ outer <;> cases surrounding <;> exact NodeKind.noConfusion

/-- A tree that stands for another one does so inside of larger trees, at every place where what
comes behind it heeds neither kind. -/
theorem within (standing : StandsFor settings first second) (place : Place ν)
    (unheeded : place.heeds first.kind = false) (unheeded' : place.heeds second.kind = false) :
    StandsFor settings (first.within place) (second.within place) := by
  induction place generalizing first second with
  | nil => exact standing
  | cons surrounding outer ih =>
    exact ih (standing.fill surrounding unheeded unheeded')
      (heeds_kind_fill surrounding first outer) (heeds_kind_fill surrounding second outer)

/-- A tree compiles like the one that it stands for. -/
theorem compile_eq (standing : StandsFor settings first second) (starting destination : Styles ν)
    (scope : Params ν) :
    first.compile settings starting destination scope =
      second.compile settings starting destination scope := by
  unfold compile
  rw [standing.visited scope (Traversal.start starting)]
  rfl

end Tree.StandsFor

omit [Scalar ν] in
/-- The kinds of wrappers are heeded nowhere. -/
theorem Tree.WrapsPlainly.unheeded {wrapper animation : Tree ν}
    (wraps : wrapper.WrapsPlainly animation) (place : Place ν) :
    place.heeds wrapper.kind = false := by
  rcases wraps with rfl | rfl <;>
    exact Place.heeds_of_other NodeKind.noConfusion NodeKind.noConfusion place

/-- **Reusable animations can be put in line.** At any place of a tree, a reference without
parameters or an invocation without parameters can be replaced by the animation that it wraps
without changing the instructions or the problems, unless the next step of the sequence that it
stands in heeds the kind of the animation: a bare style behind an animated step, or a sequence
behind a bare style. -/
theorem Tree.compile_inlined {wrapper animation : Tree ν} (wraps : wrapper.WrapsPlainly animation)
    (place : Place ν) (unheeded : place.heeds animation.kind = false) (settings : Settings ν)
    (starting destination : Styles ν) (scope : Params ν) :
    (wrapper.within place).compile settings starting destination scope =
      (animation.within place).compile settings starting destination scope := by
  have standing : StandsFor settings wrapper animation := StandsFor.of_wrapsPlainly wraps
  exact (standing.within place (wraps.unheeded place) unheeded).compile_eq starting destination
    scope

/-- A step that fades to an opacity. -/
def fadeTo (milliseconds opacity : Nat) : Tree Binary64 :=
  .animateTo (.millis (Binary64.ofNat milliseconds))
    (.ofEntries [("opacity", .number (Binary64.ofNat opacity))])

/-- A branch in which a step is followed by a group with a bare style behind another step. -/
def besideLaterStyle : Place Binary64 :=
  [.sequence [.style (.ofEntries [("opacity", .number 0)])]
      [.group [.sequence [fadeTo 20 3, .style (.ofEntries [("opacity", .number 1)])]]],
    .group [fadeTo 50 2] []]

theorem inlined_besideLaterStyle :
    Place.heeds (fadeTo 100 1).kind besideLaterStyle = false ∧
    ((Tree.animateRef (fadeTo 100 1) ∅ ∅).within besideLaterStyle).compile Settings.standard ∅ ∅ ∅ =
      ((fadeTo 100 1).within besideLaterStyle).compile Settings.standard ∅ ∅ ∅ :=
  ⟨by decide, Tree.compile_inlined (.inr rfl) besideLaterStyle (by decide) Settings.standard ∅ ∅ ∅⟩

/-- A bare style behind a step. -/
def beforeBareStyle : Place Binary64 :=
  [.sequence [] [.style (.ofEntries [("opacity", .number 0)])]]

/-- A bare style stands a frame behind an animated step, but not behind a wrapped one: there it
overwrites what the step has reached. -/
theorem wrappedStep_is_overwritten :
    (Tree.reference (fadeTo 100 1) ∅).WrapsPlainly (fadeTo 100 1) ∧
    Place.heeds (fadeTo 100 1).kind beforeBareStyle = true ∧
    ((((fadeTo 100 1).within beforeBareStyle).compile Settings.standard ∅ ∅ ∅).1.map
      Instruction.duration) = [Binary64.ofNat 101] ∧
    ((((Tree.reference (fadeTo 100 1) ∅).within beforeBareStyle).compile Settings.standard ∅ ∅
      ∅).1.map Instruction.duration) = [Binary64.ofNat 100] := by
  refine ⟨.inl rfl, by decide, ?_, ?_⟩
  · decide +kernel
  · decide +kernel

end Storyboard
