import Mathlib.Algebra.Order.Field.Basic
import Mathlib.Algebra.Order.Field.Rat
import Mathlib.Data.Nat.Cast.Order.Field
import Storyboard.Number.Scalar
import Storyboard.Proofs.OrderedMap.Merging
import Storyboard.Tree.Basic

/-!
# The positions of keyframe lists

Declared positions are clamped to the unit interval, and generated ones are even parts of it, so
whatever the steps of a keyframe list declare, none of its keyframes lies before its start or
behind its end (`keyframeOffsets_mem_unit`).

A step of a keyframe list declares its position in one of two ways. Built in a program, the step
lifts the position out of its maps: it is the number of the last map whose `offset` entry is a
number (`StyleStep.position_ofMaps_eq_some_iff`). Read from a document without a position of its
own, the step has the `offset` entry of its merged maps: that of the last map with such an entry,
if it is a number (`Styles.offset?_merge_eq_some_iff`).

The two agree unless a number is followed by an entry that is none. The merge lets the later entry
win and finds no position, and the lift passes over it (`StyleStep.offset?_ofMaps_eq_iff`).
-/

set_option autoImplicit false

namespace Storyboard

/-! ## The positions of a keyframe list lie between zero and one -/

theorem Scalar.clampToUnit_mem_unit (number : Rat) :
    0 ≤ clampToUnit number ∧ clampToUnit number ≤ 1 := by
  unfold clampToUnit
  split
  · exact ⟨le_refl 0, zero_le_one⟩
  · next above =>
    split
    · exact ⟨zero_le_one, le_refl 1⟩
    · next below => exact ⟨not_lt.1 above, not_lt.1 below⟩

theorem evenOffset_mem_unit {count index : Nat} (bound : index < count) :
    0 ≤ (evenOffset count index : Rat) ∧ (evenOffset count index : Rat) ≤ 1 := by
  unfold evenOffset
  split
  · exact ⟨zero_le_one, le_refl 1⟩
  · have counted : (Scalar.ofCount index : Rat) ≤ Scalar.ofCount (count - 1) :=
      Nat.cast_le.2 (by omega)
    have nonneg : ∀ number : Nat, (0 : Rat) ≤ Scalar.ofCount number := fun number =>
      Nat.cast_nonneg number
    exact ⟨div_nonneg (nonneg index) (nonneg (count - 1)),
      div_le_one_of_le₀ counted (nonneg (count - 1))⟩

/-- **The positions of a keyframe list lie between zero and one.** -/
theorem keyframeOffsets_mem_unit (steps : List (StyleStep Rat)) :
    ∀ offset ∈ keyframeOffsets steps, 0 ≤ offset ∧ offset ≤ 1 := by
  intro offset member
  simp only [keyframeOffsets] at member
  split at member
  · obtain ⟨declared, _, rfl⟩ := List.mem_map.1 member
    exact Scalar.clampToUnit_mem_unit declared
  · obtain ⟨index, bound, rfl⟩ := List.mem_map.1 member
    exact evenOffset_mem_unit (List.mem_range.1 bound)

/-! ## Lifted offsets and merged offsets -/

variable {ν : Type} [Scalar ν]

namespace Styles

theorem offset?_of_get? {map : Styles ν} {value : Value ν}
    (entry : map.get? offsetKey = some value) : map.offset? = value.asNumber? := by
  rw [Styles.offset?, entry, Option.bind_some]

theorem offset?_of_absent {map : Styles ν} (absent : map.get? offsetKey = none) :
    map.offset? = none := by
  rw [Styles.offset?, absent, Option.bind_none]

/-- The merged maps have the position that the last map with an entry declares. -/
theorem offset?_merge_eq_some_iff {maps : List (Styles ν)} {position : ν} :
    Styles.offset? (OrderedMap.merge maps) = some position ↔
      ∃ before map after, maps = before ++ map :: after ∧ map.offset? = some position ∧
        ∀ later ∈ after, later.get? offsetKey = none := by
  rw [Styles.offset?, OrderedMap.get?_merge, Option.bind_eq_some_iff]
  constructor
  · rintro ⟨value, found, number⟩
    obtain ⟨before, map, after, split, entry, absent⟩ :=
      OrderedMap.findSome?_reverse_eq_some_iff.1 found
    exact ⟨before, map, after, split, (offset?_of_get? entry).trans number, absent⟩
  · rintro ⟨before, map, after, split, declared, absent⟩
    obtain ⟨value, entry, number⟩ := Option.bind_eq_some_iff.1 declared
    refine ⟨value, ?_, number⟩
    exact OrderedMap.findSome?_reverse_eq_some_iff.2 ⟨before, map, after, split, entry, absent⟩

/-- Where no map declares a position, the merged maps declare none. -/
theorem offset?_merge_eq_none {maps : List (Styles ν)}
    (undeclared : ∀ map ∈ maps, map.offset? = none) :
    Styles.offset? (OrderedMap.merge maps) = none := by
  apply Option.eq_none_iff_forall_ne_some.2
  intro position declared
  obtain ⟨before, map, after, rfl, here, _⟩ := offset?_merge_eq_some_iff.1 declared
  rw [undeclared map (List.mem_append_right _ List.mem_cons_self)] at here
  cases here

end Styles

namespace StyleStep

/-- The lifted position is the number of the last map whose entry is a number. -/
theorem position_ofMaps_eq_some_iff {maps : List (Styles ν)} {position : ν} :
    (ofMaps maps).position = some position ↔
      ∃ before map after, maps = before ++ map :: after ∧ map.offset? = some position ∧
        ∀ later ∈ after, later.offset? = none :=
  OrderedMap.findSome?_reverse_eq_some_iff

theorem position_ofMaps_eq_none_iff {maps : List (Styles ν)} :
    (ofMaps maps).position = none ↔ ∀ map ∈ maps, map.offset? = none := by
  simp only [ofMaps, List.findSome?_eq_none_iff, List.mem_reverse]

/-- A step that was built has the position that it lifted, and no other. -/
theorem offset?_ofMaps (maps : List (Styles ν)) : (ofMaps maps).offset? = (ofMaps maps).position := by
  cases lifted : (ofMaps maps).position with
  | some position => rw [offset?, lifted, Option.some_or]
  | none =>
    rw [offset?, lifted, Option.none_or]
    exact Styles.offset?_merge_eq_none (position_ofMaps_eq_none_iff.1 lifted)

/-- No number is overruled: no map declares a position, or the last map with an `offset` entry
does. -/
def Unoverruled (maps : List (Styles ν)) : Prop :=
  (∀ map ∈ maps, map.offset? = none) ∨
    ∃ before map after, maps = before ++ map :: after ∧ map.offset?.isSome ∧
      ∀ later ∈ after, later.get? offsetKey = none

theorem position_ofMaps_eq_iff (maps : List (Styles ν)) :
    (ofMaps maps).position = Styles.offset? (OrderedMap.merge maps) ↔ Unoverruled maps := by
  constructor
  · intro same
    cases lifted : (ofMaps maps).position with
    | none => exact .inl (position_ofMaps_eq_none_iff.1 lifted)
    | some position =>
      rw [lifted] at same
      obtain ⟨before, map, after, split, declared, absent⟩ :=
        Styles.offset?_merge_eq_some_iff.1 same.symm
      exact .inr ⟨before, map, after, split, Option.isSome_of_eq_some declared, absent⟩
  · rintro (undeclared | ⟨before, map, after, split, declares, absent⟩)
    · rw [Styles.offset?_merge_eq_none undeclared]
      exact position_ofMaps_eq_none_iff.2 undeclared
    · obtain ⟨position, declared⟩ := Option.isSome_iff_exists.1 declares
      have merged : Styles.offset? (OrderedMap.merge maps) = some position :=
        Styles.offset?_merge_eq_some_iff.2 ⟨before, map, after, split, declared, absent⟩
      rw [merged]
      refine position_ofMaps_eq_some_iff.2 ⟨before, map, after, split, declared, ?_⟩
      intro later member
      exact Styles.offset?_of_absent (absent later member)

/-- **When lifted and merged offsets agree.** A step that is built from maps lifts the number of the
last map whose `offset` entry is a number; the merged maps hold the entry of the last map that has
one. So the lifted position is the merged one, and the step has the position of the same maps read
without it, exactly when no number is overruled by a later entry that is none. -/
theorem offset?_ofMaps_eq_iff (maps : List (Styles ν)) :
    (∀ position, (ofMaps maps).position = some position ↔
      ∃ before map after, maps = before ++ map :: after ∧ map.offset? = some position ∧
        ∀ later ∈ after, later.offset? = none) ∧
    (∀ position, Styles.offset? (OrderedMap.merge maps) = some position ↔
      ∃ before map after, maps = before ++ map :: after ∧ map.offset? = some position ∧
        ∀ later ∈ after, later.get? offsetKey = none) ∧
    ((ofMaps maps).position = Styles.offset? (OrderedMap.merge maps) ↔ Unoverruled maps) ∧
    ((ofMaps maps).offset? = (⟨maps, none⟩ : StyleStep ν).offset? ↔ Unoverruled maps) := by
  have read : (⟨maps, none⟩ : StyleStep ν).offset? = Styles.offset? (OrderedMap.merge maps) :=
    Option.none_or
  refine ⟨fun _ => position_ofMaps_eq_some_iff, fun _ => Styles.offset?_merge_eq_some_iff,
    position_ofMaps_eq_iff maps, ?_⟩
  rw [offset?_ofMaps, read]
  exact position_ofMaps_eq_iff maps

end StyleStep

/-- An offset that a later map replaces by a text. -/
def replacedOffset : List (Styles Binary64) :=
  [.ofList [("offset", .number 1)], .ofList [("offset", .text "auto")]]

/-- The lift passes over the text and finds the number that it replaced; the merge finds none. -/
theorem replacedOffset_is_lifted :
    (StyleStep.ofMaps replacedOffset).position = some 1 ∧
      Styles.offset? (OrderedMap.merge replacedOffset) = none ∧
      (StyleStep.ofMaps replacedOffset).position ≠
        Styles.offset? (OrderedMap.merge replacedOffset) ∧
      (StyleStep.ofMaps replacedOffset).offset? ≠
        (⟨replacedOffset, none⟩ : StyleStep Binary64).offset? := by
  decide +kernel

end Storyboard
