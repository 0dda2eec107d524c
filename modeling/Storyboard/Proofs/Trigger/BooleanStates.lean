import Storyboard.Proofs.Compilation.Defects
import Storyboard.Trigger

/-!
# Boolean states under two names

The names `true` and `1` stand for one state, and so do `false` and `0`. Two names stand for one
state when they are equal or are two names of one boolean state (`Matcher.SameState`).

The transitions of a trigger keep to this. An alternative that compares names admits a change of
state whichever names are used (`Matcher.admits_congr`), so a trigger whose alternatives all
compare names takes the same transition (`Trigger.ruleFor?_congr`); and since the problems of a
compilation do not depend on styles, the outcome is the same as well: no transition, the same
failure, or an answer on both sides.

The states of a trigger do not keep to it. Styles are looked up under the very name, so the answers
show the same styles and timelines exactly when the look-ups agree (`Trigger.change_of_sameState`).
A state that is declared under one of its two names has no styles under the other
(`declaredBoolean_is_not_found`).
-/

set_option autoImplicit false

namespace Storyboard

namespace Matcher

/-! ## Names of one state -/

/-- Two names stand for one state: they are equal, or both name one boolean state. -/
def SameState (first second : String) : Prop :=
  first = second ∨ sameBoolean first second = true

instance (first second : String) : Decidable (SameState first second) :=
  inferInstanceAs (Decidable (_ ∨ _))

/-- An alternative compares the names of states; it does not compare numbers. -/
def ComparesNames : Matcher → Prop
  | .states _ _ => True
  | .increment | .decrement => False

instance : DecidablePred ComparesNames
  | .states _ _ => .isTrue trivial
  | .increment | .decrement => .isFalse fun compares => compares

/-- Two names of one boolean state are both names for true or both names for false. -/
theorem sameBoolean_iff (first second : String) :
    sameBoolean first second = true ↔
      (first = "true" ∨ first = "1") ∧ (second = "true" ∨ second = "1") ∨
        (first = "false" ∨ first = "0") ∧ (second = "false" ∨ second = "0") := by
  simp [sameBoolean]

theorem SameState.symm {first second : String} (same : SameState first second) :
    SameState second first := by
  rcases same with rfl | boolean
  · exact .inl rfl
  · refine .inr ((sameBoolean_iff second first).2 ?_)
    exact ((sameBoolean_iff first second).1 boolean).imp And.symm And.symm

/-- No name stands both for true and for false, so two names of one state have the same further
names. -/
theorem SameState.trans {first second third : String} (same : SameState first second)
    (next : SameState second third) : SameState first third := by
  rcases same with rfl | boolean
  · exact next
  rcases next with rfl | further
  · exact .inr boolean
  refine .inr ((sameBoolean_iff first third).2 ?_)
  rcases (sameBoolean_iff first second).1 boolean with ⟨here, there⟩ | ⟨here, there⟩
  · rcases (sameBoolean_iff second third).1 further with ⟨_, beyond⟩ | ⟨other, _⟩
    · exact .inl ⟨here, beyond⟩
    · rcases there with rfl | rfl <;> simp at other
  · rcases (sameBoolean_iff second third).1 further with ⟨other, _⟩ | ⟨_, beyond⟩
    · rcases there with rfl | rfl <;> simp at other
    · exact .inr ⟨here, beyond⟩

/-! ## Transitions keep to states -/

/-- A name in an alternative covers a state when it is the name for any state or a name of it. -/
theorem covers_iff (name state : String) :
    covers name state = true ↔ name = anyState ∨ SameState name state := by
  simp [covers, SameState, or_assoc]

/-- A name in an alternative covers a state under each of its names. -/
theorem covers_congr (name : String) {state other : String} (same : SameState state other) :
    covers name state = covers name other := by
  rw [Bool.eq_iff_iff, covers_iff, covers_iff]
  refine or_congr_right ⟨fun covered => covered.trans same, fun covered => ?_⟩
  exact covered.trans same.symm

/-- An alternative that compares names admits a change of state under whichever names. -/
theorem admits_congr (ν : Type) [Scalar ν] {matcher : Matcher} (compares : matcher.ComparesNames)
    {source source' target target' : String} (sameSource : SameState source source')
    (sameTarget : SameState target target') :
    matcher.admits ν source target = matcher.admits ν source' target' := by
  cases matcher with
  | states fromName toName =>
    rw [admits, admits, covers_congr fromName sameSource, covers_congr toName sameTarget]
  | increment => exact compares.elim
  | decrement => exact compares.elim

end Matcher

variable {ν : Type} [Scalar ν]

open Matcher (SameState)

/-- A transition admits a change of state whichever names are used, if its alternatives all compare
names. -/
theorem TransitionRule.admits_congr {rule : TransitionRule ν}
    (compares : ∀ matcher ∈ rule.matchers, matcher.ComparesNames)
    {source source' target target' : String} (sameSource : SameState source source')
    (sameTarget : SameState target target') :
    rule.admits source target = rule.admits source' target' := by
  unfold admits
  rw [Bool.eq_iff_iff, List.any_eq_true, List.any_eq_true]
  refine exists_congr fun matcher => and_congr_right fun member => ?_
  rw [Matcher.admits_congr ν (compares matcher member) sameSource sameTarget]

namespace Trigger

/-- All alternatives of all transitions of a trigger compare names. -/
def ComparesNames (trigger : Trigger ν) : Prop :=
  ∀ rule ∈ trigger.rules, ∀ matcher ∈ rule.matchers, matcher.ComparesNames

instance (trigger : Trigger ν) : Decidable trigger.ComparesNames :=
  inferInstanceAs (Decidable (∀ rule ∈ trigger.rules, ∀ matcher ∈ rule.matchers,
    matcher.ComparesNames))

/-- The transition taken is the same whichever names are used for the states. -/
theorem ruleFor?_congr {trigger : Trigger ν} (compares : trigger.ComparesNames)
    {source source' target target' : String} (sameSource : SameState source source')
    (sameTarget : SameState target target') :
    trigger.ruleFor? source target = trigger.ruleFor? source' target' := by
  have everyRule : ∀ rule ∈ trigger.rules,
      rule.admits source target = rule.admits source' target' := by
    intro rule member
    exact TransitionRule.admits_congr (compares rule member) sameSource sameTarget
  unfold ruleFor?
  generalize trigger.rules = rules at everyRule
  induction rules with
  | nil => rfl
  | cons first rest ih =>
    obtain ⟨here, others⟩ := List.forall_mem_cons.1 everyRule
    rw [List.find?_cons, List.find?_cons, here, ih others]

/-! ## Answers under other names -/

/-- Two answers to a change of state have one outcome: no transition on both sides, the same
failure, or a transition on both sides. -/
inductive SameOutcome : Except Failure (Option (TransitionInstruction ν)) →
    Except Failure (Option (TransitionInstruction ν)) → Prop
  | unmatched : SameOutcome (.ok none) (.ok none)
  | failed (failure : Failure) : SameOutcome (.error failure) (.error failure)
  | answered (first second : TransitionInstruction ν) :
      SameOutcome (.ok (some first)) (.ok (some second))

/-- Definitions without problems are accepted. -/
theorem ofDefinitions_of_silent (name : String) {definitions : List (Tree ν)}
    (silent : (TriggerParts.ofDefinitions definitions).problems = []) :
    ofDefinitions name definitions = .ok ⟨name, (TriggerParts.ofDefinitions definitions).states,
      (TriggerParts.ofDefinitions definitions).rules, Settings.standard⟩ := by
  simp only [ofDefinitions, silent, List.isEmpty_nil, if_true]

/-- The answer of a transition shows the styles of the two states, and what its animation compiles
to between them. -/
theorem change_of_ruleFor? {trigger : Trigger ν} {source target : String}
    {rule : TransitionRule ν} (found : trigger.ruleFor? source target = some rule)
    (params : Params ν) :
    trigger.change source target params =
      if (rule.animation.defects (rule.params.overlay params)).isEmpty then
        .ok (some ⟨.transitionAnimation, trigger.name, target == voidState, source,
          trigger.stylesOf source, target, trigger.stylesOf target,
          (rule.animation.compile trigger.settings (trigger.stylesOf source)
            (trigger.stylesOf target) (rule.params.overlay params)).1⟩)
      else .error (.invalidTrigger trigger.name
        ((rule.animation.defects (rule.params.overlay params)).map Problem.message)) := by
  simp only [change, found, ← rule.animation.problems_compile trigger.settings
    (trigger.stylesOf source) (trigger.stylesOf target)]

/-- The answer shows the styles of the two states. -/
theorem styles_of_change {trigger : Trigger ν} {source target : String} {params : Params ν}
    {answer : TransitionInstruction ν}
    (answered : trigger.change source target params = .ok (some answer)) :
    answer.fromStyles = trigger.stylesOf source ∧ answer.toStyles = trigger.stylesOf target := by
  cases found : trigger.ruleFor? source target with
  | none =>
    simp only [change, found] at answered
    cases answered
  | some rule =>
    rw [change_of_ruleFor? found] at answered
    split at answered
    · cases answered
      exact ⟨rfl, rfl⟩
    · cases answered

/-- **What the names of a boolean state change.** In a trigger whose alternatives all compare names,
two changes of state between the same states have one outcome, whichever names are used. If they
are answered, the answers show the same styles and the same timelines exactly when the names of
each state find the same styles. -/
theorem change_of_sameState {trigger : Trigger ν} (compares : trigger.ComparesNames)
    {source source' target target' : String} (sameSource : SameState source source')
    (sameTarget : SameState target target') (params : Params ν) :
    SameOutcome (trigger.change source target params) (trigger.change source' target' params) ∧
    ∀ answer answer', trigger.change source target params = .ok (some answer) →
      trigger.change source' target' params = .ok (some answer') →
        ((answer.fromStyles = answer'.fromStyles ∧ answer.toStyles = answer'.toStyles ∧
            answer.timelines = answer'.timelines) ↔
          trigger.stylesOf source = trigger.stylesOf source' ∧
            trigger.stylesOf target = trigger.stylesOf target') := by
  have taken := ruleFor?_congr compares sameSource sameTarget
  cases found : trigger.ruleFor? source target with
  | none =>
    have unmatched : trigger.change source target params = .ok none := by
      simp only [change, found]
    have unmatched' : trigger.change source' target' params = .ok none := by
      simp only [change, ← taken, found]
    rw [unmatched, unmatched']
    refine ⟨.unmatched, fun answer answer' answered => ?_⟩
    cases answered
  | some rule =>
    have found' : trigger.ruleFor? source' target' = some rule := taken.symm.trans found
    constructor
    · rw [change_of_ruleFor? found, change_of_ruleFor? found']
      split
      · exact .answered _ _
      · exact .failed _
    · intro answer answer' answered answered'
      obtain ⟨shownSource, shownTarget⟩ := styles_of_change answered
      obtain ⟨shownSource', shownTarget'⟩ := styles_of_change answered'
      rw [shownSource, shownTarget, shownSource', shownTarget']
      constructor
      · rintro ⟨same, sameThere, _⟩
        exact ⟨same, sameThere⟩
      · rintro ⟨same, sameThere⟩
        refine ⟨same, sameThere, ?_⟩
        rw [change_of_ruleFor? found] at answered
        rw [change_of_ruleFor? found', ← same, ← sameThere] at answered'
        split at answered
        · next silent =>
          rw [if_pos silent] at answered'
          cases answered
          cases answered'
          rfl
        · cases answered

end Trigger

/-- An outcome that holds an answer is that answer. -/
theorem answered_of_isSome {α : Type} {outcome : Except Failure (Option α)}
    (holds : outcome.toOption.join.isSome = true) : ∃ answer, outcome = .ok (some answer) := by
  rcases outcome with failure | unmatched | answer
  · cases holds
  · cases holds
  · exact ⟨answer, rfl⟩

/-- A panel that is open in a state with both names declared, and closed in one with neither. -/
def panelDefinitions : List (Tree Binary64) :=
  [.state "true, 1" (.ofEntries [("height", .text "200px")]),
    .state "*" (.ofEntries [("height", .text "0px")]),
    .transition "true <=> false"
      (.animateTo (.expression "\x7b\x7b time \x7d\x7d") (.ofEntries [("opacity", .text "1")]))
      (.ofList [("time", .text "300ms")])]

theorem change_of_openPanel :
    ∃ trigger, Trigger.ofDefinitions "panel" panelDefinitions = .ok trigger ∧
      trigger.ComparesNames ∧ ∃ answer answer',
        trigger.change "true" "false" ∅ = .ok (some answer) ∧
        trigger.change "1" "0" ∅ = .ok (some answer') ∧ answer.fromStyles = answer'.fromStyles ∧
        answer.toStyles = answer'.toStyles ∧ answer.timelines = answer'.timelines := by
  have silent : (TriggerParts.ofDefinitions panelDefinitions).problems = [] := by decide +kernel
  refine ⟨_, Trigger.ofDefinitions_of_silent "panel" silent, ?_⟩
  generalize built : (⟨"panel", _, _, _⟩ : Trigger Binary64) = trigger
  have compares : trigger.ComparesNames := by subst built; decide +kernel
  obtain ⟨answer, answered⟩ : ∃ answer, trigger.change "true" "false" ∅ = .ok (some answer) :=
    answered_of_isSome (by subst built; decide +kernel)
  obtain ⟨answer', answered'⟩ : ∃ answer, trigger.change "1" "0" ∅ = .ok (some answer) :=
    answered_of_isSome (by subst built; decide +kernel)
  refine ⟨compares, answer, answer', answered, answered', ?_⟩
  exact ((Trigger.change_of_sameState compares (by decide) (by decide) ∅).2 answer answer' answered
    answered').2 (by subst built; decide +kernel)

/-- A lamp whose lit state is declared under one of its names. -/
def lampDefinitions : List (Tree Binary64) :=
  [.state "true" (.ofEntries [("opacity", .number 1)]),
    .transition "* => *" (.animateEmpty (.millis (Binary64.ofNat 100))) ∅]

/-- A state that is declared under one name has no styles under the other: the same transition is
taken, and leads to nothing. -/
theorem declaredBoolean_is_not_found :
    ∃ trigger, Trigger.ofDefinitions "lamp" lampDefinitions = .ok trigger ∧
      trigger.ComparesNames ∧ Matcher.SameState "true" "1" ∧ trigger.states.keys = ["true"] ∧
      ∃ answer answer', trigger.change "off" "true" ∅ = .ok (some answer) ∧
        trigger.change "off" "1" ∅ = .ok (some answer') ∧ answer.toStyles ≠ answer'.toStyles ∧
        answer.timelines ≠ answer'.timelines := by
  have silent : (TriggerParts.ofDefinitions lampDefinitions).problems = [] := by decide +kernel
  refine ⟨_, Trigger.ofDefinitions_of_silent "lamp" silent, ?_⟩
  generalize built : (⟨"lamp", _, _, _⟩ : Trigger Binary64) = trigger
  obtain ⟨answer, answered⟩ : ∃ answer, trigger.change "off" "true" ∅ = .ok (some answer) :=
    answered_of_isSome (by subst built; decide +kernel)
  obtain ⟨answer', answered'⟩ : ∃ answer, trigger.change "off" "1" ∅ = .ok (some answer) :=
    answered_of_isSome (by subst built; decide +kernel)
  have timelines : (trigger.change "off" "true" ∅).toOption.join.map (·.timelines) ≠
      (trigger.change "off" "1" ∅).toOption.join.map (·.timelines) := by
    subst built
    decide +kernel
  have styles : trigger.stylesOf "true" ≠ trigger.stylesOf "1" := by
    subst built
    decide +kernel
  refine ⟨by subst built; decide +kernel, by decide, by subst built; decide +kernel, answer,
    answer', answered, answered', ?_, ?_⟩
  · rw [(Trigger.styles_of_change answered).2, (Trigger.styles_of_change answered').2]
    exact styles
  · rw [answered, answered'] at timelines
    exact fun same => timelines (congrArg some same)

end Storyboard
