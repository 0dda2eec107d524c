import Storyboard.Compilation
import Storyboard.Problem
import Storyboard.Transition.Matcher

/-!
# Triggers

A trigger holds named states with their styles, and transitions in order. Asked for a change of
state it takes the first transition that admits the change and compiles its animation from the
styles of the one state to the styles of the other. A state without styles of its own has those of
the state `*`, else none.

A trigger is built from its definitions (`Trigger.ofDefinitions`): of two declarations of a state
the later one counts, and every transition is validated in advance, so that a change with the
transition's own parameters compiles.
-/

set_option autoImplicit false

namespace Storyboard

variable {ν : Type} [Scalar ν]

/-- A transition of a trigger with its expression read. -/
structure TransitionRule (ν : Type) where
  expression : String
  matchers : List Matcher
  animation : Tree ν
  params : Params ν

/-- A transition admits a change of state. -/
def TransitionRule.admits (rule : TransitionRule ν) (source target : String) : Bool :=
  rule.matchers.any (Matcher.admits ν source target)

/-- States and transitions under a name. -/
structure Trigger (ν : Type) where
  name : String
  states : OrderedMap (Styles ν)
  rules : List (TransitionRule ν)
  settings : Settings ν

/-- What a list of definitions has given so far. -/
structure TriggerParts (ν : Type) where
  states : OrderedMap (Styles ν)
  rules : List (TransitionRule ν)
  problems : List (Problem ν)

namespace TriggerParts

/-- The styles that a state declares: the merged maps without the reserved offset. -/
def declaredStyles (styles : StyleStep ν) : Styles ν :=
  styles.merged.erase offsetKey

/-- Takes one definition. -/
def take (parts : TriggerParts ν) : Tree ν → TriggerParts ν
  | .state name styles =>
    { parts with
      states := (commaList name).foldl (fun states state =>
        states.insert (String.ofList state) (declaredStyles styles)) parts.states }
  | .transition expression animation params =>
    let (matchers, problems) := Matcher.ofExpression expression
    { parts with
      rules := parts.rules ++ [⟨expression, matchers, animation, params⟩]
      problems := parts.problems ++ problems ++ animation.validate params }
  | tree => { parts with problems := parts.problems ++ [.misplacedDefinition tree.kind] }

/-- Takes definitions in order. -/
def ofDefinitions (definitions : List (Tree ν)) : TriggerParts ν :=
  definitions.foldl take ⟨∅, [], []⟩

end TriggerParts

namespace Trigger

/-- Builds a trigger from its definitions; all problems are reported together. -/
def ofDefinitions (name : String) (definitions : List (Tree ν)) : Except Failure (Trigger ν) :=
  let parts := TriggerParts.ofDefinitions definitions
  if parts.problems.isEmpty then .ok ⟨name, parts.states, parts.rules, Settings.standard⟩
  else .error (.invalidTrigger name (parts.problems.map Problem.message))

/-- Builds the trigger that a tree describes. -/
def ofTree : Tree ν → Except Failure (Trigger ν)
  | .trigger name definitions => ofDefinitions name definitions
  | tree => .error (.notTrigger tree.kind.name)

/-- The same trigger with other settings. -/
def withSettings (trigger : Trigger ν) (settings : Settings ν) : Trigger ν :=
  { trigger with settings := settings }

/-- The styles declared for a state. -/
def declared? (trigger : Trigger ν) (state : String) : Option (Styles ν) :=
  trigger.states.get? state

/-- The styles of a state: its own, else those of any state, else none. -/
def stylesOf (trigger : Trigger ν) (state : String) : Styles ν :=
  ((trigger.declared? state).or (trigger.declared? anyState)).getD ∅

/-- The first transition that admits a change of state. -/
def ruleFor? (trigger : Trigger ν) (source target : String) : Option (TransitionRule ν) :=
  trigger.rules.find? fun rule => rule.admits source target

/-- The answer to a change of state, with parameters layered over those of the transition; nothing
if no transition admits the change. -/
def change (trigger : Trigger ν) (source target : String) (params : Params ν) :
    Except Failure (Option (TransitionInstruction ν)) :=
  match trigger.ruleFor? source target with
  | none => .ok none
  | some rule =>
    let sourceStyles := trigger.stylesOf source
    let targetStyles := trigger.stylesOf target
    let (timelines, problems) := rule.animation.compile trigger.settings sourceStyles targetStyles
      (rule.params.overlay params)
    if problems.isEmpty then
      .ok (some ⟨.transitionAnimation, trigger.name, target == voidState, source, sourceStyles,
        target, targetStyles, timelines⟩)
    else .error (.invalidTrigger trigger.name (problems.map Problem.message))

end Trigger

end Storyboard
