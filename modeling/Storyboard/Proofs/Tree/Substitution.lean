import Storyboard.Compilation
import Storyboard.Proofs.OrderedMap.Values
import Storyboard.Proofs.Text.Templates

/-!
# Trees with their parameters filled in

`Tree.substitute` fills the placeholders of a tree before it is run: each timing expression and
each style value is filled in the scope in force where it stands, and references and invocations
lose their parameters. A position is no text to fill: the reserved entry `offset` of a style map
stays as it is.

When nothing is left to fill (`Tree.isSettled`), a style or a timing reads in every scope as the
original reads in its own (`StyleStep.fill_substitute`, `Timing.resolve_substitute`).
-/

set_option autoImplicit false

namespace Storyboard

variable {ν : Type} [Scalar ν]

/-! ## Substituting -/

/-- The value of a style entry filled in a scope, unless it is a position. -/
def fillEntry (scope : Params ν) (name : String) (value : Value ν) : Value ν :=
  if name = offsetKey then value else (value.fill scope).1

/-- The style step with its values filled in a scope. -/
def StyleStep.substitute (scope : Params ν) (step : StyleStep ν) : StyleStep ν :=
  ⟨step.maps.map (OrderedMap.mapValues (fillEntry scope)), step.position⟩

/-- The timing with its expression filled in a scope. -/
def Timing.substitute (scope : Params ν) : Timing ν → Timing ν
  | .expression source => .expression (Template.fill scope source).1
  | timing => timing

/-- The payload with its values filled in a scope. -/
def Payload.substitute (scope : Params ν) : Payload ν → Payload ν
  | .style step => .style (step.substitute scope)
  | .keyframes steps => .keyframes (steps.map (StyleStep.substitute scope))

mutual

/-- The tree with every text filled in the scope in force there, and without the parameters of
references and invocations. -/
def Tree.substitute (scope : Params ν) : Tree ν → Tree ν
  | .state name styles => .state name (styles.substitute scope)
  | .transition expression animation params =>
    .transition expression (animation.substitute (referenceScope params scope)) params
  | .sequence steps => .sequence (Tree.substituteAll scope steps)
  | .group branches => .group (Tree.substituteAll scope branches)
  | .animate timing payload =>
    .animate (timing.substitute scope) (payload.map (Payload.substitute scope))
  | .keyframes steps => .keyframes (steps.map (StyleStep.substitute scope))
  | .style step => .style (step.substitute scope)
  | .trigger name definitions => .trigger name (Tree.substituteAll scope definitions)
  | .reference animation defaults =>
    .reference (animation.substitute (referenceScope defaults scope)) ∅
  | .animateChild params => .animateChild params
  | .animateRef animation defaults overrides =>
    .animateRef (animation.substitute (invocationScope defaults scope overrides)) ∅ ∅
  | .query selector animation optional limit =>
    .query selector (animation.substitute scope) optional limit
  | .stagger timing animation => .stagger (timing.substitute scope) (animation.substitute scope)

/-- Several trees filled in one scope. -/
def Tree.substituteAll (scope : Params ν) : List (Tree ν) → List (Tree ν)
  | [] => []
  | tree :: rest => tree.substitute scope :: Tree.substituteAll scope rest

end

mutual

theorem Tree.forks_substitute (scope : Params ν) :
    ∀ tree : Tree ν, (tree.substitute scope).forks = tree.forks
  | .sequence steps => anyForks_substituteAll scope steps
  | .group [] => rfl
  | .group (_ :: _) => rfl
  | .animate _ none => rfl
  | .animate _ (some (.style _)) => rfl
  | .animate _ (some (.keyframes _)) => rfl
  | .reference animation _ => forks_substitute _ animation
  | .animateRef animation _ _ => forks_substitute _ animation
  | .state .. | .transition .. | .keyframes .. | .style .. | .trigger .. | .animateChild ..
  | .query .. | .stagger .. => rfl

theorem Tree.anyForks_substituteAll (scope : Params ν) :
    ∀ trees : List (Tree ν), anyForks (substituteAll scope trees) = anyForks trees
  | [] => rfl
  | tree :: rest => by
    rw [substituteAll, anyForks, anyForks, forks_substitute scope tree,
      anyForks_substituteAll scope rest]

end

/-! ## Nothing left to fill -/

/-- No value of the style step has a placeholder, positions aside. -/
def StyleStep.isSettled (step : StyleStep ν) : Bool :=
  step.maps.all fun map => map.entries.all fun entry =>
    entry.1 = offsetKey || entry.2.isSettled

/-- The expression of the timing has no placeholder. -/
def Timing.isSettled : Timing ν → Bool
  | .expression source => !Template.hasPlaceholder source
  | _ => true

/-- No value of the payload has a placeholder. -/
def Payload.isSettled : Payload ν → Bool
  | .style step => step.isSettled
  | .keyframes steps => steps.all StyleStep.isSettled

mutual

/-- No text that is read when the tree is compiled has a placeholder. -/
def Tree.isSettled : Tree ν → Bool
  | .sequence steps => Tree.allSettled steps
  | .group branches => Tree.allSettled branches
  | .animate timing payload => timing.isSettled && payload.all Payload.isSettled
  | .style step => step.isSettled
  | .reference animation _ => animation.isSettled
  | .animateRef animation _ _ => animation.isSettled
  | _ => true

/-- No text of several trees that is read when they are compiled has a placeholder. -/
def Tree.allSettled : List (Tree ν) → Bool
  | [] => true
  | tree :: rest => tree.isSettled && Tree.allSettled rest

end

/-! ## Reading what has been filled -/

namespace StyleStep

theorem merged_substitute (scope : Params ν) (step : StyleStep ν) :
    (step.substitute scope).merged = step.merged.mapValues (fillEntry scope) :=
  OrderedMap.merge_mapValues (fillEntry scope) step.maps

omit [Scalar ν] in
/-- An entry of the merged maps has no placeholder either, unless it is a position. -/
theorem isSettled_of_mem_merged {step : StyleStep ν} (settled : step.isSettled = true)
    {entry : String × Value ν} (member : entry ∈ step.merged.entries)
    (plain : entry.1 ≠ offsetKey) : entry.2.isSettled = true := by
  obtain ⟨map, mapMember, there⟩ := OrderedMap.mem_merge member
  have settledMap := List.all_eq_true.1 settled map mapMember
  simpa [plain] using List.all_eq_true.1 settledMap entry there

/-- The position does not change. -/
theorem offset?_substitute (scope : Params ν) (step : StyleStep ν) :
    (step.substitute scope).offset? = step.offset? := by
  have same : (step.substitute scope).merged.get? offsetKey = step.merged.get? offsetKey := by
    rw [merged_substitute, OrderedMap.get?_mapValues]
    cases step.merged.get? offsetKey with
    | none => rfl
    | some value => rw [Option.map_some, fillEntry, if_pos rfl]
  rw [offset?, offset?, Styles.offset?, Styles.offset?, same]
  rfl

/-- A style without anything left to fill reads in every scope as the original in its own. -/
theorem fill_substitute {scope : Params ν} {step : StyleStep ν} (other : Params ν)
    (settled : (step.substitute scope).isSettled = true) :
    (step.substitute scope).fill other = step.fill scope := by
  have same : ∀ (filled : FilledStyle ν), ∀ entry ∈ step.merged.entries,
      filled.take other (entry.1, fillEntry scope entry.1 entry.2) = filled.take scope entry := by
    intro filled entry member
    unfold FilledStyle.take
    by_cases position : entry.1 = offsetKey
    · rw [if_pos position, if_pos position]
    · have entered : (entry.1, fillEntry scope entry.1 entry.2) ∈
          (step.substitute scope).merged.entries := by
        rw [merged_substitute]
        exact List.mem_map_of_mem member
      have complete := isSettled_of_mem_merged settled entered position
      simp only [fillEntry, position, if_false] at complete ⊢
      rw [Value.fill_fill other complete]
  unfold fill
  rw [merged_substitute, OrderedMap.mapValues, List.foldl_map]
  refine List.foldl_rel (r := fun filled kept : FilledStyle ν => filled = kept) rfl ?_
  rintro entry member filled _ rfl
  exact same filled entry member

end StyleStep

/-- The positions of a keyframe list do not change. -/
theorem keyframeOffsets_substitute (scope : Params ν) (steps : List (StyleStep ν)) :
    keyframeOffsets (steps.map (StyleStep.substitute scope)) = keyframeOffsets steps := by
  have declared : (steps.map (StyleStep.substitute scope)).filterMap StyleStep.offset? =
      steps.filterMap StyleStep.offset? := by
    rw [List.filterMap_map]
    exact congrArg (List.filterMap · steps) (funext (StyleStep.offset?_substitute scope))
  rw [keyframeOffsets, keyframeOffsets, declared, List.length_map]

/-- A timing without anything left to fill resolves in every scope as the original in its own. -/
theorem Timing.resolve_substitute {scope : Params ν} {timing : Timing ν} (other : Params ν)
    (settled : (timing.substitute scope).isSettled = true) :
    (timing.substitute scope).resolve other = timing.resolve scope := by
  cases timing with
  | millis duration => rfl
  | resolved timings => rfl
  | expression source =>
    have plain : Template.hasPlaceholder (Template.fill scope source).1 = false := by
      simpa [substitute, isSettled] using settled
    have complete := Template.fill_problems_of_settled plain
    simp only [substitute, resolve, plain, Bool.false_eq_true, if_false]
    by_cases has : Template.hasPlaceholder source = true
    · simp only [has, if_true, complete, List.isEmpty_nil]
    · have kept := Template.fill_of_plain scope (Bool.eq_false_iff.2 has)
      rw [if_neg has, kept]

end Storyboard
