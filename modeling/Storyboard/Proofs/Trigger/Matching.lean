import Mathlib.Data.List.Induction
import Storyboard.Proofs.OrderedMap.Lookup
import Storyboard.Proofs.Transition.Reading

/-!
# From definitions to answers

What a trigger answers to a change of state can be told from its definitions. Of the transitions
the first one counts whose expression admits the change; of the declarations of a state, and of
those of the state `*` that stands in for it, the last one. The two orders do not meet: the states
of a trigger come from its state definitions alone, and its transitions and problems from the other
definitions (`TriggerParts.ofDefinitions_eq`), so it does not matter which of the two stand first.

`Trigger.change_follows_definitions` puts this together for every list of definitions, every change
between states with one name each, and all parameters laid over those of the transition.
-/

set_option autoImplicit false

namespace Storyboard

variable {ν : Type} [Scalar ν]

/-! ## What the definitions give -/

namespace TriggerParts

/-- Declares the styles of the states that a definition names. -/
def declare (states : OrderedMap (Styles ν)) : Tree ν → OrderedMap (Styles ν)
  | .state names styles =>
    (commaList names).foldl (fun states state =>
      states.insert (String.ofList state) (declaredStyles styles)) states
  | _ => states

/-- The transition that a definition adds. -/
def rule? : Tree ν → Option (TransitionRule ν)
  | .transition expression animation params =>
    some ⟨expression, (Matcher.ofExpression expression : List Matcher × List (Problem ν)).1,
      animation, params⟩
  | _ => none

/-- The problems with a definition. -/
def problemsOf : Tree ν → List (Problem ν)
  | .state .. => []
  | .transition expression animation params =>
    (Matcher.ofExpression expression).2 ++ animation.validate params
  | tree => [.misplacedDefinition tree.kind]

theorem take_eq (parts : TriggerParts ν) (definition : Tree ν) :
    parts.take definition = ⟨declare parts.states definition,
      parts.rules ++ (rule? definition).toList, parts.problems ++ problemsOf definition⟩ := by
  cases definition with
  | state names styles => simp [take, declare, rule?, problemsOf]
  | transition expression animation params =>
    simp [take, declare, rule?, problemsOf, List.append_assoc]
  | sequence | group | animate | keyframes | style | trigger | reference | animateChild
  | animateRef | query | stagger => simp [take, declare, rule?, problemsOf]

theorem foldl_take (definitions : List (Tree ν)) : ∀ (parts : TriggerParts ν),
    definitions.foldl take parts = ⟨definitions.foldl declare parts.states,
      parts.rules ++ definitions.filterMap rule?,
      parts.problems ++ definitions.flatMap problemsOf⟩ := by
  induction definitions with
  | nil => simp
  | cons definition rest ih =>
    intro parts
    rw [List.foldl_cons, ih, take_eq]
    simp only [List.foldl_cons, List.filterMap_cons, List.flatMap_cons, List.append_assoc]
    cases rule? definition <;> rfl

/-- The states come from the state definitions, the transitions from those of transitions, and the
problems from all but the state definitions. -/
theorem ofDefinitions_eq (definitions : List (Tree ν)) :
    ofDefinitions definitions = ⟨definitions.foldl declare ∅, definitions.filterMap rule?,
      definitions.flatMap problemsOf⟩ :=
  foldl_take definitions ⟨∅, [], []⟩

/-! ### State definitions among the others -/

/-- Two lists have the same state definitions in order, and the same other definitions in order. -/
def SameApart (first second : List (Tree ν)) : Prop :=
  first.filter (fun node => node.kind = .state) = second.filter (fun node => node.kind = .state) ∧
    first.filter (fun node => node.kind ≠ .state) = second.filter (fun node => node.kind ≠ .state)

omit [Scalar ν] in
theorem foldl_declare_filter (definitions : List (Tree ν)) :
    ∀ states : OrderedMap (Styles ν),
      (definitions.filter fun node => node.kind = .state).foldl declare states =
        definitions.foldl declare states := by
  induction definitions with
  | nil => exact fun _ => rfl
  | cons definition rest ih =>
    intro states
    cases definition <;> exact ih _

omit [Scalar ν] in
theorem filterMap_rule?_filter (definitions : List (Tree ν)) :
    (definitions.filter fun node => node.kind ≠ .state).filterMap rule? =
      definitions.filterMap rule? := by
  induction definitions with
  | nil => rfl
  | cons definition rest ih =>
    by_cases state : definition.kind = .state
    · have silent : rule? definition = none := by cases definition <;> first | rfl | cases state
      rw [List.filter_cons_of_neg (by simpa using state), ih, List.filterMap_cons, silent]
    · rw [List.filter_cons_of_pos (by simpa using state), List.filterMap_cons,
        List.filterMap_cons, ih]

theorem flatMap_problemsOf_filter (definitions : List (Tree ν)) :
    (definitions.filter fun node => node.kind ≠ .state).flatMap problemsOf =
      definitions.flatMap problemsOf := by
  induction definitions with
  | nil => rfl
  | cons definition rest ih =>
    by_cases state : definition.kind = .state
    · have silent : problemsOf definition = [] := by cases definition <;> first | rfl | cases state
      rw [List.filter_cons_of_neg (by simpa using state), ih, List.flatMap_cons, silent,
        List.nil_append]
    · rw [List.filter_cons_of_pos (by simpa using state), List.flatMap_cons, List.flatMap_cons, ih]

/-- Where state definitions stand among the others does not matter. -/
theorem ofDefinitions_of_sameApart {first second : List (Tree ν)} (same : SameApart first second) :
    ofDefinitions first = ofDefinitions second := by
  obtain ⟨states, others⟩ := same
  rw [ofDefinitions_eq, ofDefinitions_eq, ← foldl_declare_filter first,
    ← foldl_declare_filter second, ← filterMap_rule?_filter first,
    ← filterMap_rule?_filter second, ← flatMap_problemsOf_filter first,
    ← flatMap_problemsOf_filter second, states, others]

/-! ### The last declaration counts -/

omit [Scalar ν] in
theorem get?_foldl_insert (value : Styles ν) (state : String) : ∀ (names : List (List Char))
    (states : OrderedMap (Styles ν)),
      (names.foldl (fun states name => states.insert (String.ofList name) value) states).get?
          state =
        if state ∈ names.map String.ofList then some value else states.get? state
  | [], _ => rfl
  | name :: rest, states => by
    rw [List.foldl_cons, get?_foldl_insert value state rest, OrderedMap.get?_insert, List.map_cons]
    by_cases here : String.ofList name = state
    · simp [here]
    · have apart : ¬state = String.ofList name := fun same => here same.symm
      simp [here, apart]

end TriggerParts

namespace Trigger

/-- The names in a state definition: the parts between the commas, without the blanks around
them. -/
def namesIn (names : String) : List String :=
  (names.toList.splitOn ',').map fun name => String.ofList (trimBlanks name)

/-- The styles that a definition declares for a state: its merged maps without the reserved
offset. -/
def declaration? (state : String) : Tree ν → Option (Styles ν)
  | .state names styles =>
    if state ∈ namesIn names then some (styles.merged.erase offsetKey) else none
  | _ => none

/-- The styles in the last declaration of a state. -/
def lastDeclaration? (definitions : List (Tree ν)) (state : String) : Option (Styles ν) :=
  definitions.reverse.findSome? (declaration? state)

/-- The styles that definitions give a state: those of its last declaration, else those of the last
declaration of any state, else none. -/
def stylesDeclared (definitions : List (Tree ν)) (state : String) : Styles ν :=
  ((lastDeclaration? definitions state).or (lastDeclaration? definitions "*")).getD ∅

omit [Scalar ν] in
theorem get?_declare (states : OrderedMap (Styles ν)) (definition : Tree ν) (state : String) :
    (TriggerParts.declare states definition).get? state =
      (declaration? state definition).or (states.get? state) := by
  cases definition with
  | state names styles =>
    have named : (commaList names).map String.ofList = namesIn names := by
      rw [commaList, splitCommas_eq_splitOn, List.map_map]
      rfl
    simp only [TriggerParts.declare, declaration?]
    rw [TriggerParts.get?_foldl_insert, named]
    split <;> rfl
  | transition | sequence | group | animate | keyframes | style | trigger | reference
  | animateChild | animateRef | query | stagger => rfl

omit [Scalar ν] in
/-- A definition at the end comes before all others. -/
theorem lastDeclaration?_concat (earlier : List (Tree ν)) (last : Tree ν) (state : String) :
    lastDeclaration? (earlier ++ [last]) state =
      (declaration? state last).or (lastDeclaration? earlier state) := by
  rw [lastDeclaration?, List.reverse_append, List.findSome?_append]
  cases read : declaration? state last <;> simp [read, lastDeclaration?]

omit [Scalar ν] in
/-- Of the states that definitions declare, the last declaration is found. -/
theorem get?_foldl_declare (definitions : List (Tree ν)) (state : String) :
    (definitions.foldl TriggerParts.declare ∅).get? state = lastDeclaration? definitions state := by
  induction definitions using List.reverseRecOn with
  | nil => rfl
  | append_singleton earlier last ih =>
    rw [List.foldl_append, List.foldl_cons, List.foldl_nil, get?_declare, ih,
      lastDeclaration?_concat]

/-! ## What an accepted trigger answers -/

/-- An accepted trigger has the states and the transitions of its definitions, which have no
problems. -/
theorem ofDefinitions_eq_ok {name : String} {definitions : List (Tree ν)} {trigger : Trigger ν}
    (accepted : ofDefinitions name definitions = .ok trigger) :
    trigger = ⟨name, definitions.foldl TriggerParts.declare ∅,
        definitions.filterMap TriggerParts.rule?, Settings.standard⟩ ∧
      ∀ definition ∈ definitions, TriggerParts.problemsOf definition = [] := by
  simp only [ofDefinitions, TriggerParts.ofDefinitions_eq] at accepted
  split at accepted
  · next silent =>
    refine ⟨(Except.ok.inj accepted).symm, ?_⟩
    exact List.flatMap_eq_nil_iff.1 (List.isEmpty_iff.1 silent)
  · cases accepted

/-- Nothing is answered exactly when no transition admits the change. -/
theorem change_eq_ok_none_iff (trigger : Trigger ν) (source target : String) (params : Params ν) :
    trigger.change source target params = .ok none ↔ trigger.ruleFor? source target = none := by
  unfold change
  cases trigger.ruleFor? source target with
  | none => simp
  | some rule =>
    simp only [reduceCtorEq, iff_false]
    split <;> exact fun answered => nomatch answered

open TransitionGrammar (ExpressionAdmits)

/-- Of the transitions among the definitions, this is the first whose expression admits a change
of state. -/
def FirstAdmitting (definitions : List (Tree ν)) (source target : String) (expression : String)
    (animation : Tree ν) (params : Params ν) : Prop :=
  ∃ earlier later, definitions = earlier ++ .transition expression animation params :: later ∧
    ExpressionAdmits ν expression source target ∧
      ∀ other otherAnimation otherParams,
        .transition other otherAnimation otherParams ∈ earlier →
          ¬ExpressionAdmits ν other source target

/-- Where the expression of some transition admits a change, that of a first one does. -/
theorem exists_firstAdmitting {source target : String} : ∀ {definitions : List (Tree ν)},
    (∃ expression animation params, .transition expression animation params ∈ definitions ∧
      ExpressionAdmits ν expression source target) →
        ∃ expression animation params,
          FirstAdmitting definitions source target expression animation params
  | [], ⟨_, _, _, defined, _⟩ => absurd defined List.not_mem_nil
  | first :: rest, ⟨expression, animation, params, defined, admitted⟩ => by
    by_cases here : ∃ other otherAnimation otherParams,
        first = .transition other otherAnimation otherParams ∧
          ExpressionAdmits ν other source target
    · obtain ⟨other, otherAnimation, otherParams, rfl, admits⟩ := here
      exact ⟨other, otherAnimation, otherParams, [], rest, rfl, admits,
        fun _ _ _ member => absurd member List.not_mem_nil⟩
    · have later : .transition expression animation params ∈ rest := by
        rcases List.mem_cons.1 defined with same | later
        · exact absurd ⟨expression, animation, params, same.symm, admitted⟩ here
        · exact later
      obtain ⟨found, foundAnimation, foundParams, between, behind, rfl, admits, others⟩ :=
        exists_firstAdmitting ⟨expression, animation, params, later, admitted⟩
      refine ⟨found, foundAnimation, foundParams, first :: between, behind, rfl, admits, ?_⟩
      intro other otherAnimation otherParams member admitsOther
      rcases List.mem_cons.1 member with same | earlier
      · exact here ⟨other, otherAnimation, otherParams, same.symm, admitsOther⟩
      · exact others other otherAnimation otherParams earlier admitsOther

omit [Scalar ν] in
/-- The transitions of a trigger are those that are defined. -/
theorem mem_filterMap_rule?_iff {definitions : List (Tree ν)} {rule : TransitionRule ν} :
    rule ∈ definitions.filterMap TriggerParts.rule? ↔
      ∃ expression animation params, .transition expression animation params ∈ definitions ∧
        rule = ⟨expression, (Matcher.ofExpression expression : List Matcher × List (Problem ν)).1,
          animation, params⟩ := by
  rw [List.mem_filterMap]
  constructor
  · rintro ⟨definition, member, taken⟩
    cases definition with
    | transition expression animation params =>
      exact ⟨expression, animation, params, member, (Option.some.inj taken).symm⟩
    | state | sequence | group | animate | keyframes | style | trigger | reference
    | animateChild | animateRef | query | stagger => cases taken
  · rintro ⟨expression, animation, params, member, rfl⟩
    exact ⟨_, member, rfl⟩

/-- A transition without problems admits the changes that its expression admits. -/
theorem admits_rule_iff {expression source target : String} {animation : Tree ν}
    {params : Params ν}
    (silent : TriggerParts.problemsOf (.transition expression animation params) = [])
    (plainSource : source ∉ ["true", "false", "1", "0"])
    (plainTarget : target ∉ ["true", "false", "1", "0"]) :
    TransitionRule.admits ⟨expression,
        (Matcher.ofExpression expression : List Matcher × List (Problem ν)).1, animation, params⟩
          source target = true ↔
      ExpressionAdmits ν expression source target := by
  have read : (Matcher.ofExpression expression : List Matcher × List (Problem ν)).2 = [] :=
    (List.append_eq_nil_iff.1 silent).1
  rw [TransitionRule.admits, List.any_eq_true]
  exact Matcher.admits_ofExpression_iff plainSource plainTarget read

section Accepted

variable {name : String} {definitions : List (Tree ν)} {trigger : Trigger ν}
  (accepted : ofDefinitions name definitions = .ok trigger)

include accepted

/-- The styles of a state are those that the definitions give it. -/
theorem stylesOf_eq (state : String) : trigger.stylesOf state = stylesDeclared definitions state := by
  obtain ⟨rfl, _⟩ := ofDefinitions_eq_ok accepted
  simp only [stylesOf, declared?, get?_foldl_declare]
  rfl

variable {source target : String} (plainSource : source ∉ ["true", "false", "1", "0"])
  (plainTarget : target ∉ ["true", "false", "1", "0"])

include plainSource plainTarget

/-- No transition is taken exactly when the expression of none admits the change. -/
theorem ruleFor?_eq_none_iff :
    trigger.ruleFor? source target = none ↔
      ∀ expression animation params, .transition expression animation params ∈ definitions →
        ¬ExpressionAdmits ν expression source target := by
  obtain ⟨rfl, silent⟩ := ofDefinitions_eq_ok accepted
  rw [ruleFor?, List.find?_eq_none]
  constructor
  · intro unmatched expression animation params defined admitted
    exact unmatched _ (mem_filterMap_rule?_iff.2 ⟨expression, animation, params, defined, rfl⟩)
      ((admits_rule_iff (silent _ defined) plainSource plainTarget).2 admitted)
  · intro unmatched rule member admitted
    obtain ⟨expression, animation, params, defined, rfl⟩ := mem_filterMap_rule?_iff.1 member
    exact unmatched expression animation params defined
      ((admits_rule_iff (silent _ defined) plainSource plainTarget).1 admitted)

/-- The first transition whose expression admits the change is taken. -/
theorem ruleFor?_of_firstAdmitting {expression : String} {animation : Tree ν} {params : Params ν}
    (first : FirstAdmitting definitions source target expression animation params) :
    trigger.ruleFor? source target = some ⟨expression,
      (Matcher.ofExpression expression : List Matcher × List (Problem ν)).1, animation,
      params⟩ := by
  obtain ⟨rfl, silent⟩ := ofDefinitions_eq_ok accepted
  obtain ⟨earlier, later, rfl, admitted, others⟩ := first
  have read := silent _ (List.mem_append_right _ List.mem_cons_self)
  refine List.find?_eq_some_iff_append.2
    ⟨(admits_rule_iff read plainSource plainTarget).2 admitted,
      earlier.filterMap TriggerParts.rule?, later.filterMap TriggerParts.rule?, ?_, ?_⟩
  · simp only [List.filterMap_append, List.filterMap_cons]
    rfl
  · intro rule member
    obtain ⟨other, otherAnimation, otherParams, before, rfl⟩ := mem_filterMap_rule?_iff.1 member
    have readOther := silent _ (List.mem_append_left _ before)
    rw [Bool.not_eq_true', Bool.eq_false_iff]
    intro admits
    exact others other otherAnimation otherParams before
      ((admits_rule_iff readOther plainSource plainTarget).1 admits)

end Accepted

/-- **What a trigger answers follows from its definitions.** It does not matter where state
definitions stand among the others. If the definitions are accepted, then a change between states
with one name each is answered by nothing exactly when the expression of no transition admits it.
Otherwise the first transition whose expression does is compiled, with the parameters laid over its
own, from the styles declared for the one state to those declared for the other; the answer is what
that gives, or the messages that it records. -/
theorem change_follows_definitions (name : String) (definitions : List (Tree ν)) :
    (∀ reordered : List (Tree ν), TriggerParts.SameApart reordered definitions →
      ofDefinitions name reordered = ofDefinitions name definitions) ∧
    ∀ trigger : Trigger ν, ofDefinitions name definitions = .ok trigger →
      trigger.settings = Settings.standard ∧
      ∀ (settings : Settings ν) (source target : String) (overrides : Params ν),
        source ∉ ["true", "false", "1", "0"] → target ∉ ["true", "false", "1", "0"] →
          ((trigger.withSettings settings).change source target overrides = .ok none ↔
            ∀ expression animation params,
              .transition expression animation params ∈ definitions →
                ¬ExpressionAdmits ν expression source target) ∧
          ((trigger.withSettings settings).change source target overrides ≠ .ok none →
            ∃ expression animation params,
              FirstAdmitting definitions source target expression animation params) ∧
          ∀ expression animation params,
            FirstAdmitting definitions source target expression animation params →
              let fromStyles := stylesDeclared definitions source
              let toStyles := stylesDeclared definitions target
              let compiled :=
                animation.compile settings fromStyles toStyles (params.overlay overrides)
              (trigger.withSettings settings).change source target overrides =
                if compiled.2.isEmpty then
                  .ok (some ⟨.transitionAnimation, name, target == "void", source, fromStyles,
                    target, toStyles, compiled.1⟩)
                else .error (.invalidTrigger name (compiled.2.map Problem.message)) := by
  constructor
  · intro reordered same
    simp only [ofDefinitions, TriggerParts.ofDefinitions_of_sameApart same]
  intro trigger accepted
  have built := (ofDefinitions_eq_ok accepted).1
  refine ⟨congrArg Trigger.settings built, ?_⟩
  intro settings source target overrides plainSource plainTarget
  have unanswered := (change_eq_ok_none_iff (trigger.withSettings settings) source target
    overrides).trans (ruleFor?_eq_none_iff accepted plainSource plainTarget)
  refine ⟨unanswered, ?_, ?_⟩
  · intro answered
    apply exists_firstAdmitting
    by_contra absent
    refine answered (unanswered.2 fun expression animation params defined admitted => ?_)
    exact absent ⟨expression, animation, params, defined, admitted⟩
  · intro expression animation params first
    have taken : (trigger.withSettings settings).ruleFor? source target = _ :=
      ruleFor?_of_firstAdmitting accepted plainSource plainTarget first
    have styles (state : String) : (trigger.withSettings settings).stylesOf state =
        stylesDeclared definitions state := stylesOf_eq accepted state
    have named : (trigger.withSettings settings).name = name := congrArg Trigger.name built
    simp only [change, taken, styles, named]
    rfl

end Trigger

/-- The states of a task, one of them declared twice, between transitions. -/
def taskDefinitions : List (Tree Binary64) :=
  [.transition "ready -> busy, idle<=>*"
      (.animateTo (.expression "\x7b\x7b time \x7d\x7d") (.ofEntries [("opacity", .text "1")]))
      (.ofList [("time", .text "300ms")]),
    .state "*" (.ofEntries [("height", .text "0px")]),
    .state "ready, idle" (.ofEntries [("height", .text "10px")]),
    .transition "* => busy" (.animateEmpty (.millis (Binary64.ofNat 100))) ∅,
    .state " idle ,busy" (.ofEntries [("height", .text "20px"), ("offset", .number 1)])]

open TransitionGrammar in
/-- A task that was idle and is gone takes the time that is laid over that of the first transition,
from the styles declared last to those of any state; one that was ready takes no transition. The
states may as well be declared first. -/
theorem change_of_idleTask :
    ∃ trigger : Trigger Binary64, Trigger.ofDefinitions "task" taskDefinitions = .ok trigger ∧
      Trigger.ofDefinitions "task" (taskDefinitions.filter (fun node => node.kind = .state) ++
        taskDefinitions.filter (fun node => node.kind ≠ .state)) = .ok trigger ∧
      (trigger.withSettings Settings.standard).change "ready" "gone" ∅ = .ok none ∧
      ∃ answer, (trigger.withSettings Settings.standard).change "idle" "gone"
          (.ofList [("time", .text "50ms")]) = .ok (some answer) ∧
        answer.fromStyles = .ofList [("height", .text "20px")] ∧
        answer.toStyles = .ofList [("height", .text "0px")] ∧
        answer.timelines.map (·.duration) = [Binary64.ofNat 50] := by
  obtain ⟨moved, answers⟩ := Trigger.change_follows_definitions "task" taskDefinitions
  have silent : (TriggerParts.ofDefinitions taskDefinitions).problems = [] := by decide +kernel
  have accepted := Trigger.ofDefinitions_of_silent "task" silent
  obtain ⟨_, answered⟩ := answers _ accepted
  refine ⟨_, accepted, (moved _ ?_).trans accepted, ?_, ?_⟩
  · constructor <;> simp [taskDefinitions, Tree.kind]
  · refine (answered Settings.standard "ready" "gone" ∅ (by decide) (by decide)).1.2 ?_
    intro expression animation params defined
    have among : expression = "ready -> busy, idle<=>*" ∨ expression = "* => busy" := by
      simp only [taskDefinitions, List.mem_cons, Tree.transition.injEq, reduceCtorEq, false_or,
        List.not_mem_nil, or_false] at defined
      exact defined.imp And.left And.left
    rcases among with rfl | rfl
    · rw [← Matcher.admits_ofExpression_iff (by decide) (by decide) (by decide +kernel)]
      decide +kernel
    · rw [← Matcher.admits_ofExpression_iff (by decide) (by decide) (by decide +kernel)]
      decide +kernel
  · have idle : IsSide "idle".toList := Side.isSide_text (.named ⟨"idle".toList, by simp, by simp⟩)
    have written : WritesChange ("idle".toList ++ ([] ++ (Arrow.text ⟨true, true⟩ ++ ([] ++ ['*']))))
        "idle".toList ⟨true, true⟩ ['*'] :=
      .between idle (.inl rfl) (List.forall_mem_nil _) (List.forall_mem_nil _)
    have trimmed : trimBlanks " idle<=>*".toList =
        "idle".toList ++ ([] ++ (Arrow.text ⟨true, true⟩ ++ ([] ++ ['*']))) := by decide
    have admitted : ExpressionAdmits Binary64 "ready -> busy, idle<=>*" "idle" "gone" :=
      ⟨" idle<=>*".toList, by decide, .forth (trimmed ▸ written) (.inr rfl) (.inl rfl)⟩
    have taken := (answered Settings.standard "idle" "gone" (.ofList [("time", .text "50ms")])
      (by decide) (by decide)).2.2 _ _ _
        ⟨[], _, rfl, admitted, fun _ _ _ member => absurd member List.not_mem_nil⟩
    have answer := Eq.trans taken (if_pos (by decide +kernel))
    exact ⟨_, answer, by decide +kernel, by decide +kernel, by decide +kernel⟩

end Storyboard
