import Storyboard.Animation
import Storyboard.Proofs.Compilation.Defects
import Storyboard.Trigger

/-!
# Validation predicts compilation

The walk of the validation passes every timing and every style that the walk of a compilation
passes, in the same scopes and in the same order; it only reports more. So the defects of a tree
are a sublist of what its validation reports, in order and with multiplicity
(`Survey.reports_visit`), and what a compilation reports is a sublist too, the same one for all
starting and destination styles (`Tree.validation_predicts_compilation`). Hence an animation that
was accepted can always be built, and a trigger that was accepted answers every change of state.
-/

set_option autoImplicit false

namespace Storyboard

variable {ν : Type}

/-! ## The validation reports the defects -/

namespace Survey

/-- Behind what was reported before, these problems are reported in this order, perhaps with others
in between. -/
def Reports (before : Survey ν) (problems : List (Problem ν)) (after : Survey ν) : Prop :=
  (before.problems ++ problems).Sublist after.problems

theorem reports_report (survey : Survey ν) (problems : List (Problem ν)) :
    survey.Reports problems (survey.report problems) :=
  List.Sublist.refl _

namespace Reports

variable {before middle after : Survey ν} {first second : List (Problem ν)}

theorem trans (earlier : before.Reports first middle) (later : middle.Reports second after) :
    before.Reports (first ++ second) after := by
  unfold Reports
  rw [← List.append_assoc]
  exact (earlier.append_right second).trans later

/-- A part of the walk without defects may be passed over in front. -/
theorem after_silent (earlier : before.Reports [] middle) (later : middle.Reports second after) :
    before.Reports second after :=
  earlier.trans later

/-- A part of the walk without defects may be passed over at the end. -/
theorem before_silent (earlier : before.Reports first middle) (later : middle.Reports [] after) :
    before.Reports first after := by
  have both := earlier.trans later
  rwa [List.append_nil] at both

end Reports

theorem reports_nil {before after : Survey ν}
    (kept : before.problems.Sublist after.problems) : before.Reports [] after := by
  rwa [Reports, List.append_nil]

variable [Scalar ν]

theorem reports_write (survey : Survey ν) (window : Window ν) (property : String) :
    survey.Reports [] (survey.write window property) := by
  apply reports_nil
  unfold write
  split
  · exact List.Sublist.refl _
  · split
    · exact List.sublist_append_left _ _
    · exact List.Sublist.refl _

theorem reports_checkEntry (scope : Params ν) (window : Window ν) (survey : Survey ν)
    (entry : String × Value ν) :
    survey.Reports (entryDefects scope entry) (survey.checkEntry scope window entry) := by
  simp only [checkEntry, entryDefects]
  split
  · exact reports_nil (List.Sublist.refl _)
  · have filled := survey.reports_report (entry.2.fill scope).2
    split
    · exact filled
    · exact filled.before_silent (reports_write _ window entry.1)

theorem reports_checkEntries (scope : Params ν) (window : Window ν)
    (entries : List (String × Value ν)) (survey : Survey ν) :
    survey.Reports (entries.flatMap (entryDefects scope))
      (entries.foldl (checkEntry scope window) survey) := by
  induction entries generalizing survey with
  | nil => exact reports_nil (List.Sublist.refl _)
  | cons entry rest ih =>
    rw [List.flatMap_cons]
    exact (reports_checkEntry scope window survey entry).trans (ih _)

/-- Checking a style reports its defects. -/
theorem reports_checkStep (scope : Params ν) (step : StyleStep ν) (window : Window ν)
    (survey : Survey ν) :
    survey.Reports (step.defects scope) (survey.checkStep scope step window) :=
  reports_checkEntries scope window step.merged.entries survey

theorem reports_checkSteps (scope : Params ν) (origin duration : ν) :
    ∀ (steps : List (StyleStep ν × ν)) (previous : ν) (survey : Survey ν),
      survey.Reports ((steps.map Prod.fst).flatMap (StyleStep.defects scope))
        (checkSteps scope origin duration steps previous survey)
  | [], _, _ => reports_nil (List.Sublist.refl _)
  | (step, _) :: rest, _, survey => by
    rw [List.map_cons, List.flatMap_cons]
    exact (reports_checkStep scope step _ survey).trans
      (reports_checkSteps scope origin duration rest _ _)

theorem reports_checkKeyframes (scope : Params ν) (steps : List (StyleStep ν))
    (timings : Timings ν) (survey : Survey ν) :
    survey.Reports (steps.flatMap (StyleStep.defects scope))
      (survey.checkKeyframes scope steps timings) := by
  have checked := reports_checkSteps scope (survey.clock + timings.delay) timings.duration
    (steps.zip (keyframeOffsets steps)) (survey.clock + timings.delay)
    (survey.report (offsetProblems steps))
  rw [map_fst_zip_keyframeOffsets] at checked
  have offsets : survey.Reports [] (survey.report (offsetProblems steps)) :=
    reports_nil (List.sublist_append_left _ _)
  exact offsets.after_silent checked

theorem reports_checkAnimate (scope : Params ν) (timing : Timing ν) (payload : Option (Payload ν))
    (survey : Survey ν) :
    survey.Reports ((Tree.animate timing payload).defects scope)
      (survey.checkAnimate scope timing payload) := by
  rw [Tree.defects]
  refine (survey.reports_report (timing.resolve scope).2).trans ?_
  cases payload with
  | none => exact reports_nil (List.Sublist.refl _)
  | some payload =>
    cases payload with
    | keyframes steps => exact reports_checkKeyframes scope steps (timing.resolve scope).1 _
    | style step =>
      have advanced : (survey.report (timing.resolve scope).2).Reports []
          ((survey.report (timing.resolve scope).2).advance (timing.resolve scope).1.total) :=
        reports_nil (List.Sublist.refl _)
      exact advanced.after_silent (reports_checkStep scope step _ _)

mutual

/-- **Validation reports the defects of the tree it visits**, in order and with multiplicity. -/
theorem reports_visit : ∀ (tree : Tree ν) (scope : Params ν) (survey : Survey ν),
    survey.Reports (tree.defects scope) (visit scope tree survey)
  | .sequence steps, scope, survey => reports_visitSteps steps scope survey
  | .group branches, scope, survey =>
    reports_visitBranches branches scope survey.clock survey.clock survey
  | .animate timing payload, scope, survey => reports_checkAnimate scope timing payload survey
  | .style step, scope, survey => reports_checkStep scope step _ survey
  | .reference animation defaults, scope, survey => by
    rw [visit, Tree.defects]
    exact reports_visit animation _ survey
  | .animateRef animation defaults overrides, scope, survey => by
    rw [visit, Tree.defects]
    exact reports_visit animation _ survey
  | .trigger _ definitions, scope, survey => by
    have visited := reports_visitSteps definitions scope survey
    rw [visit]
    exact reports_nil ((List.sublist_append_left _ _).trans visited)
  | .transition _ animation params, scope, survey => by
    have visited := reports_visit animation (referenceScope params scope) ⟨0, ∅, survey.problems⟩
    rw [visit]
    exact reports_nil ((List.sublist_append_left _ _).trans visited)
  | .keyframes .., _, _ => reports_nil (List.sublist_append_left _ _)
  | .state .., _, _ => reports_nil (List.Sublist.refl _)
  | .query .., _, _ => reports_nil (List.sublist_append_left _ _)
  | .stagger .., _, _ => reports_nil (List.sublist_append_left _ _)
  | .animateChild .., _, _ => reports_nil (List.sublist_append_left _ _)

theorem reports_visitSteps : ∀ (steps : List (Tree ν)) (scope : Params ν) (survey : Survey ν),
    survey.Reports (Tree.allDefects scope steps) (visitSteps scope steps survey)
  | [], _, _ => reports_nil (List.Sublist.refl _)
  | step :: rest, scope, survey => by
    rw [visitSteps, Tree.allDefects]
    exact (reports_visit step scope survey).trans (reports_visitSteps rest scope _)

theorem reports_visitBranches : ∀ (branches : List (Tree ν)) (scope : Params ν)
    (origin furthest : ν) (survey : Survey ν),
    survey.Reports (Tree.allDefects scope branches)
      (visitBranches scope origin branches furthest survey)
  | [], _, _, _, _ => reports_nil (List.Sublist.refl _)
  | branch :: rest, scope, origin, furthest, survey => by
    simp only [visitBranches, Tree.allDefects]
    have visited := reports_visit branch scope (survey.setClock origin)
    exact Reports.trans visited (reports_visitBranches rest scope origin _ _)

end

end Survey

variable [Scalar ν]

/-- The defects of a tree are among its problems, in order and with multiplicity. -/
theorem Tree.defects_sublist_validate (tree : Tree ν) (scope : Params ν) :
    (tree.defects scope).Sublist (tree.validate scope) :=
  Survey.reports_visit tree scope Survey.start

/-! ## What was accepted compiles -/

/-- A tree without problems compiles without problems. -/
theorem Tree.problems_compile_of_valid {tree : Tree ν} {scope : Params ν}
    (valid : tree.validate scope = []) (settings : Settings ν) (starting destination : Styles ν) :
    (tree.compile settings starting destination scope).2 = [] := by
  rw [Tree.problems_compile]
  exact List.sublist_nil.1 (valid ▸ tree.defects_sublist_validate scope)

/-- An accepted animation is its tree with its parameters, and the tree has no problems. -/
theorem Animation.ofTree_eq_ok {tree : Tree ν} {params : Params ν} {animation : Animation ν}
    (accepted : Animation.ofTree tree params = .ok animation) :
    animation = ⟨tree, params, Settings.standard⟩ ∧ tree.validate params = [] := by
  simp only [Animation.ofTree] at accepted
  split at accepted
  · next valid => exact ⟨(Except.ok.inj accepted).symm, List.isEmpty_iff.1 valid⟩
  · cases accepted

/-- Every transition taken up so far is free of problems unless some are reported. -/
def TriggerParts.Validated (parts : TriggerParts ν) : Prop :=
  parts.problems = [] → ∀ rule ∈ parts.rules, rule.animation.validate rule.params = []

theorem TriggerParts.Validated.take {parts : TriggerParts ν} (validated : parts.Validated)
    (definition : Tree ν) : (parts.take definition).Validated := by
  cases definition with
  | state name styles => exact validated
  | transition expression animation params =>
    intro silent rule member
    simp only [TriggerParts.take, List.append_eq_nil_iff] at silent
    rcases List.mem_append.1 member with earlier | last
    · exact validated silent.1.1 rule earlier
    · rw [List.mem_singleton.1 last]
      exact silent.2
  | sequence | group | animate | keyframes | style | trigger | reference | animateChild
  | animateRef | query | stagger =>
    intro silent
    exact absurd silent (List.append_ne_nil_of_right_ne_nil _ (List.cons_ne_nil _ _))

/-- The transitions of an accepted trigger are free of problems. -/
theorem Trigger.rules_valid {name : String} {definitions : List (Tree ν)} {trigger : Trigger ν}
    (accepted : Trigger.ofDefinitions name definitions = .ok trigger) :
    ∀ rule ∈ trigger.rules, rule.animation.validate rule.params = [] := by
  have empty : (⟨∅, [], []⟩ : TriggerParts ν).Validated := by
    intro _ rule member
    exact absurd member List.not_mem_nil
  have validated : (definitions.foldl TriggerParts.take ⟨∅, [], []⟩).Validated := by
    refine List.foldlRecOn definitions TriggerParts.take empty ?_
    intro parts before definition _
    exact before.take definition
  simp only [Trigger.ofDefinitions] at accepted
  split at accepted
  · next silent =>
    rw [← Except.ok.inj accepted]
    exact validated (List.isEmpty_iff.1 silent)
  · cases accepted

/-- **Validation predicts compilation.** What a compilation reports does not depend on the styles
that it leads from and to, and is reported by the validation in the same order; so an accepted
animation can be built, and an accepted trigger answers every change of state. -/
theorem Tree.validation_predicts_compilation (tree : Tree ν) (scope : Params ν) :
    (∀ settings starting destination otherSettings otherStarting otherDestination,
      (tree.compile settings starting destination scope).2 =
        (tree.compile otherSettings otherStarting otherDestination scope).2) ∧
    (∀ settings starting destination,
      (tree.compile settings starting destination scope).2.Sublist (tree.validate scope)) ∧
    (∀ animation, Animation.ofTree tree scope = .ok animation →
      ∀ settings starting destination, ∃ instructions,
        (animation.withSettings settings).build starting destination ∅ = .ok instructions) ∧
    (∀ name definitions trigger, Trigger.ofDefinitions name definitions = .ok trigger →
      ∀ settings source target, ∃ answer : Option (TransitionInstruction ν),
        (trigger.withSettings settings).change source target ∅ = .ok answer) := by
  refine ⟨?_, ?_, ?_, ?_⟩
  · intro settings starting destination otherSettings otherStarting otherDestination
    rw [Tree.problems_compile, Tree.problems_compile]
  · intro settings starting destination
    rw [Tree.problems_compile]
    exact tree.defects_sublist_validate scope
  · intro animation accepted settings starting destination
    obtain ⟨rfl, valid⟩ := Animation.ofTree_eq_ok accepted
    have silent : (tree.compile settings starting destination (scope.overlay ∅)).2 = [] :=
      Tree.problems_compile_of_valid valid settings starting destination
    simp only [Animation.build, Animation.withSettings, silent, List.isEmpty_nil, if_true]
    exact ⟨_, rfl⟩
  · intro name definitions trigger accepted settings source target
    have valid := Trigger.rules_valid accepted
    simp only [Trigger.change]
    split
    · exact ⟨none, rfl⟩
    · next rule found =>
      have silent := Tree.problems_compile_of_valid
        (valid rule (List.mem_of_find?_eq_some found)) settings
        ((trigger.withSettings settings).stylesOf source)
        ((trigger.withSettings settings).stylesOf target)
      have layered : rule.params.overlay ∅ = rule.params := rfl
      rw [layered]
      simp only [Trigger.withSettings] at silent ⊢
      simp only [silent, List.isEmpty_nil, if_true]
      exact ⟨_, rfl⟩

/-- A fade whose length and target are parameters, beside a keyframe list with a default. -/
def parametrizedFade : Tree Binary64 :=
  .group
    [.animateTo (.expression "\x7b\x7b time \x7d\x7d 50ms ease-out")
      (.ofEntries [("opacity", .text "\x7b\x7b target \x7d\x7d"), ("easing", .text "linear")]),
    .reference
      (.animateThrough (.expression "0.2s")
        [.ofEntries [("height", .text "\x7b\x7b low \x7d\x7dpx")],
          .ofEntries [("height", .text "9px")]])
      (.ofList [("low", .text "1")])]

/-- The parameters of the fade. -/
def fadeParams : Params Binary64 :=
  .ofList [("time", .text "1s"), ("target", .text "0.5")]

/-- A trigger that fades between two states. -/
def fadeDefinitions : List (Tree Binary64) :=
  [.state "shown" (.ofEntries [("opacity", .text "1")]),
    .transition "shown <=> hidden" parametrizedFade fadeParams]

theorem validation_predicts_parametrizedFade :
    (∃ animation, Animation.ofTree parametrizedFade fadeParams = .ok animation ∧
      ∃ instructions, (animation.withSettings Settings.standard).build ∅ ∅ ∅ =
        .ok instructions) ∧
    (∃ trigger, Trigger.ofDefinitions "fade" fadeDefinitions = .ok trigger ∧
      ∃ answer : Option (TransitionInstruction Binary64),
        (trigger.withSettings Settings.standard).change "hidden" "shown" ∅ = .ok answer) := by
  obtain ⟨_, _, builds, answers⟩ :=
    parametrizedFade.validation_predicts_compilation fadeParams
  have valid : parametrizedFade.validate fadeParams = [] := by decide +kernel
  have accepted : Animation.ofTree parametrizedFade fadeParams =
      .ok ⟨parametrizedFade, fadeParams, Settings.standard⟩ := by
    simp only [Animation.ofTree, valid, List.isEmpty_nil, if_true]
  have silent : (TriggerParts.ofDefinitions fadeDefinitions).problems = [] := by decide +kernel
  obtain ⟨trigger, taken⟩ : ∃ trigger,
      Trigger.ofDefinitions "fade" fadeDefinitions = .ok trigger := by
    simp only [Trigger.ofDefinitions, silent, List.isEmpty_nil, if_true]
    exact ⟨_, rfl⟩
  exact ⟨⟨_, accepted, builds _ accepted Settings.standard ∅ ∅⟩,
    ⟨trigger, taken, answers "fade" fadeDefinitions trigger taken Settings.standard _ _⟩⟩

end Storyboard
