import Storyboard.Compilation
import Storyboard.Proofs.OrderedMap.Lookup

/-!
# The properties that a tree writes

`Tree.properties` collects the names that a walk over a tree can write, by recursion over the tree:
those of the styles of animated steps, of bare styles, and of the steps of keyframe lists. The two
reserved names are no properties, and a tree that a walk passes by writes none.

Placeholders are filled in values only. So the names are the same in every scope, a style has no
others once it is filled (`StyleStep.mem_properties_of_fill`), and each has its own value filled
(`StyleStep.get?_fill`).
-/

set_option autoImplicit false

namespace Storyboard

variable {ν : Type}

/-- The properties that a style writes. -/
def StyleStep.properties (step : StyleStep ν) : List String :=
  step.merged.keys.filter fun name => name ≠ offsetKey ∧ name ≠ easingKey

/-- The properties that a payload writes. -/
def Payload.properties : Payload ν → List String
  | .style step => step.properties
  | .keyframes steps => steps.flatMap StyleStep.properties

mutual

/-- The properties that a walk over a tree writes. -/
def Tree.properties : Tree ν → List String
  | .sequence steps => Tree.allProperties steps
  | .group branches => Tree.allProperties branches
  | .animate _ payload => (payload.map Payload.properties).getD []
  | .style step => step.properties
  | .reference animation _ => animation.properties
  | .animateRef animation _ _ => animation.properties
  | _ => []

/-- The properties that walks over several trees write. -/
def Tree.allProperties : List (Tree ν) → List String
  | [] => []
  | tree :: rest => tree.properties ++ Tree.allProperties rest

end

/-- Two trees write no property in common. -/
def Tree.Apart (first second : Tree ν) : Prop :=
  ∀ property ∈ first.properties, property ∉ second.properties

instance (first second : Tree ν) : Decidable (first.Apart second) :=
  inferInstanceAs (Decidable (∀ property ∈ first.properties, property ∉ second.properties))

theorem Tree.Apart.symm {first second : Tree ν} (apart : first.Apart second) :
    second.Apart first :=
  fun property member other => apart property other member

variable [Scalar ν]

/-- Taking an entry into a filled style adds its name at most, unless that is reserved. -/
theorem FilledStyle.contains_take (scope : Params ν) (filled : FilledStyle ν)
    (entry : String × Value ν) {property : String}
    (there : (filled.take scope entry).styles.contains property = true) :
    filled.styles.contains property = true ∨
      (entry.1 = property ∧ entry.1 ≠ offsetKey ∧ entry.1 ≠ easingKey) := by
  unfold FilledStyle.take at there
  by_cases offset : entry.1 = offsetKey
  · rw [if_pos offset] at there
    exact .inl there
  · rw [if_neg offset] at there
    by_cases easing : entry.1 = easingKey
    · simp only [if_pos easing] at there
      exact .inl there
    · simp only [if_neg easing, OrderedMap.contains, OrderedMap.get?_insert] at there
      by_cases same : entry.1 = property
      · exact .inr ⟨same, offset, easing⟩
      · rw [if_neg same] at there
        exact .inl there

/-- A filled style has values for the properties of the style only. -/
theorem StyleStep.mem_properties_of_fill (scope : Params ν) (step : StyleStep ν) :
    ∀ property, (step.fill scope).styles.contains property = true → property ∈ step.properties := by
  refine List.foldlRecOn (motive := fun filled : FilledStyle ν => ∀ property,
    filled.styles.contains property = true → property ∈ step.properties) _ _
      (fun property there => absurd there (OrderedMap.not_contains_empty property)) ?_
  intro filled known entry member property there
  rcases filled.contains_take scope entry there with before | ⟨same, unreserved⟩
  · exact known property before
  · subst same
    refine List.mem_filter.2 ⟨List.mem_map_of_mem member, ?_⟩
    exact decide_eq_true unreserved

/-- A filled style has the values of the style with their placeholders filled. -/
theorem StyleStep.get?_fill (scope : Params ν) (step : StyleStep ν) {property : String}
    (free : property ≠ offsetKey) (unreserved : property ≠ easingKey) :
    (step.fill scope).styles.get? property =
      (step.merged.get? property).map fun value => (value.fill scope).1 := by
  have taken := OrderedMap.foldl_distinct (FilledStyle.take scope)
    (fun filled => filled.styles.get? property) (fun _ value => some (value.fill scope).1)
    (fun _ => True) property
    (fun filled value _ => by
      simp only [FilledStyle.take, free, unreserved, if_false, OrderedMap.get?_insert, if_true])
    (fun filled entry _ apart => by
      unfold FilledStyle.take
      split
      · rfl
      · simp only []
        split
        · rfl
        · simp only [OrderedMap.get?_insert, apart, if_false])
    (fun _ _ _ => trivial) step.merged.entries step.merged.distinct ⟨∅, none, []⟩ trivial
  have looked : OrderedMap.lookupEntry property step.merged.entries =
    step.merged.get? property := rfl
  rw [looked] at taken
  refine taken.trans ?_
  cases step.merged.get? property <;> rfl

/-- The easing of a filled style is what the style declares under the reserved name. -/
theorem StyleStep.easing_fill (scope : Params ν) (step : StyleStep ν) :
    (step.fill scope).easing =
      (step.merged.get? easingKey).map fun value => (value.fill scope).1.display := by
  have taken := OrderedMap.foldl_distinct (FilledStyle.take scope)
    (fun filled => filled.easing) (fun _ value => some (value.fill scope).1.display)
    (fun _ => True) easingKey
    (fun filled value _ => by
      have free : ¬easingKey = offsetKey := by decide
      simp only [FilledStyle.take, free, if_false, if_true])
    (fun filled entry _ apart => by
      simp only [FilledStyle.take, apart, if_false]
      split <;> rfl)
    (fun _ _ _ => trivial) step.merged.entries step.merged.distinct ⟨∅, none, []⟩ trivial
  have looked : OrderedMap.lookupEntry easingKey step.merged.entries =
    step.merged.get? easingKey := rfl
  rw [looked] at taken
  refine taken.trans ?_
  cases step.merged.get? easingKey <;> rfl

/-- The reserved names are no properties of a filled style. -/
theorem StyleStep.get?_fill_easing (scope : Params ν) (step : StyleStep ν) :
    (step.fill scope).styles.get? easingKey = none := by
  refine Option.not_isSome_iff_eq_none.1 fun there => ?_
  have listed := (List.mem_filter.1 (step.mem_properties_of_fill scope easingKey there)).2
  exact (of_decide_eq_true listed).2 rfl

end Storyboard
