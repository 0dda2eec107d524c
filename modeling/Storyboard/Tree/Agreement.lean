import Storyboard.Tree.Basic

/-!
# Agreement of trees

Two trees agree when they have one shape and equal contents, whatever the order in which the
entries of their maps stand. Numbers are compared as numbers, so a tree that holds a value that is
not a number agrees with no tree.
-/

set_option autoImplicit false

namespace Storyboard

variable {ν : Type}

variable [Scalar ν]

/-- Equal positions and maps, whatever the order of their entries. -/
def StyleStep.agrees (first second : StyleStep ν) : Bool :=
  first.maps.length == second.maps.length &&
    (first.maps.zip second.maps).all (fun pair => pair.1.agrees pair.2) &&
    match first.position, second.position with
    | some here, some there => here == there
    | none, none => true
    | _, _ => false

/-- Equal timings as numbers and texts. -/
def Timings.agrees (first second : Timings ν) : Bool :=
  first.duration == second.duration && first.delay == second.delay &&
    first.easing == second.easing

/-- Equal authored timings of one form. -/
def Timing.agrees : Timing ν → Timing ν → Bool
  | .millis first, .millis second => first == second
  | .expression first, .expression second => first == second
  | .resolved first, .resolved second => first.agrees second
  | _, _ => false

/-- Step lists of one length that agree step by step. -/
def StyleStep.listsAgree (first second : List (StyleStep ν)) : Bool :=
  first.length == second.length && (first.zip second).all fun pair => pair.1.agrees pair.2

/-- Equal payloads of one form. -/
def Payload.agrees : Payload ν → Payload ν → Bool
  | .style first, .style second => first.agrees second
  | .keyframes first, .keyframes second => StyleStep.listsAgree first second
  | _, _ => false

/-- Both absent, or both present and in agreement. -/
def Payload.optionsAgree : Option (Payload ν) → Option (Payload ν) → Bool
  | some first, some second => first.agrees second
  | none, none => true
  | _, _ => false

mutual

/-- Two trees of one shape with equal contents, whatever the order of map entries. -/
def Tree.agrees : Tree ν → Tree ν → Bool
  | .state name styles, .state otherName otherStyles =>
    name == otherName && styles.agrees otherStyles
  | .transition expression animation params, .transition otherExpression other otherParams =>
    expression == otherExpression && animation.agrees other && params.agrees otherParams
  | .sequence steps, .sequence others => Tree.listsAgree steps others
  | .group steps, .group others => Tree.listsAgree steps others
  | .animate timing payload, .animate otherTiming otherPayload =>
    timing.agrees otherTiming && Payload.optionsAgree payload otherPayload
  | .keyframes steps, .keyframes others => StyleStep.listsAgree steps others
  | .style step, .style other => step.agrees other
  | .trigger name definitions, .trigger otherName others =>
    name == otherName && Tree.listsAgree definitions others
  | .reference animation defaults, .reference other otherDefaults =>
    animation.agrees other && defaults.agrees otherDefaults
  | .animateChild params, .animateChild otherParams => params.agrees otherParams
  | .animateRef animation defaults overrides, .animateRef other otherDefaults otherOverrides =>
    animation.agrees other && defaults.agrees otherDefaults && overrides.agrees otherOverrides
  | .query selector animation optional limit, .query otherSelector other otherOptional otherLimit =>
    selector == otherSelector && animation.agrees other && optional == otherOptional &&
      limit == otherLimit
  | .stagger timing animation, .stagger otherTiming other =>
    timing.agrees otherTiming && animation.agrees other
  | _, _ => false

/-- Two lists of trees that agree one by one. -/
def Tree.listsAgree : List (Tree ν) → List (Tree ν) → Bool
  | [], [] => true
  | tree :: rest, other :: others => tree.agrees other && Tree.listsAgree rest others
  | _, _ => false

end

end Storyboard
