import Storyboard.Proofs.Compilation.Steps
import Storyboard.Proofs.Number.Shares
import Storyboard.Proofs.Number.Sums
import Storyboard.Proofs.Validation.TextProblems

/-!
# No declared keyframe is moved in silence

A keyframe list is placed in one of two ways. If every step declares an offset, each keyframe
stands where it was declared, clamped to the unit interval; otherwise the offsets that are declared
are dropped, and the keyframes are spaced evenly. The validation looks at the declared offsets in
its own way, without the positions that come out.

The two agree. What the visit of a keyframe list notes about offsets is `offsetProblems`
(`Survey.notesOffsets_checkAnimate`), and there is nothing to note exactly when the keyframes keep
all of their declared offsets and are in order, or when no offset is declared at all
(`offsetProblems_eq_nil_iff_placed`). So whenever an offset is dropped or clamped, or is out of
order, the validation says so. The same is true of a tree with all the keyframe lists that a walk
visits in it (`Tree.silent_iff_offsets_kept`).
-/

set_option autoImplicit false

namespace Storyboard

variable {ν : Type}

/-! ## What a visit notes about offsets -/

/-- The problem is about the offsets of a keyframe list. -/
def Problem.concernsOffsets : Problem ν → Bool
  | .offsetsIncomplete | .offsetOutOfRange | .offsetsUnordered => true
  | _ => false

theorem Problem.OfText.concernsOffsets_eq {problem : Problem ν} (ofText : problem.OfText) :
    problem.concernsOffsets = false := by
  cases ofText <;> rfl

namespace Survey

/-- Between two states of the walk, these problems are noted about offsets, in this order. -/
def NotesOffsets (before : Survey ν) (noted : List (Problem ν)) (after : Survey ν) : Prop :=
  after.problems.filter Problem.concernsOffsets =
    before.problems.filter Problem.concernsOffsets ++ noted

theorem notesOffsets_nil (survey : Survey ν) : survey.NotesOffsets [] survey :=
  (List.append_nil _).symm

theorem NotesOffsets.trans {before middle after : Survey ν} {first second : List (Problem ν)}
    (earlier : before.NotesOffsets first middle) (later : middle.NotesOffsets second after) :
    before.NotesOffsets (first ++ second) after := by
  unfold NotesOffsets at *
  rw [later, earlier, List.append_assoc]

theorem notesOffsets_report (survey : Survey ν) (problems : List (Problem ν)) :
    survey.NotesOffsets (problems.filter Problem.concernsOffsets) (survey.report problems) :=
  List.filter_append ..

/-- Problems about something else are not noted. -/
theorem notesOffsets_report_nil (survey : Survey ν) {problems : List (Problem ν)}
    (other : ∀ problem ∈ problems, problem.concernsOffsets = false) :
    survey.NotesOffsets [] (survey.report problems) := by
  have none : problems.filter Problem.concernsOffsets = [] :=
    List.filter_eq_nil_iff.2 fun problem member => by simp [other problem member]
  exact none ▸ survey.notesOffsets_report problems

variable [Scalar ν]

theorem notesOffsets_write (survey : Survey ν) (window : Window ν) (property : String) :
    survey.NotesOffsets [] (survey.write window property) := by
  unfold write
  split
  · exact survey.notesOffsets_nil
  · split
    · exact survey.notesOffsets_report_nil (List.forall_mem_singleton.2 rfl)
    · exact survey.notesOffsets_nil

theorem notesOffsets_checkEntry (scope : Params ν) (window : Window ν) (survey : Survey ν)
    (entry : String × Value ν) :
    survey.NotesOffsets [] (survey.checkEntry scope window entry) := by
  have filled : survey.NotesOffsets [] (survey.report (entry.2.fill scope).2) :=
    survey.notesOffsets_report_nil fun problem member =>
      (entry.2.ofText_fill scope problem member).concernsOffsets_eq
  simp only [checkEntry]
  split
  · exact survey.notesOffsets_nil
  · split
    · exact filled
    · exact filled.trans (notesOffsets_write _ window entry.1)

/-- Checking a style notes nothing about offsets. -/
theorem notesOffsets_checkStep (scope : Params ν) (step : StyleStep ν) (window : Window ν)
    (survey : Survey ν) : survey.NotesOffsets [] (survey.checkStep scope step window) := by
  unfold checkStep
  generalize step.merged.entries = entries
  induction entries generalizing survey with
  | nil => exact survey.notesOffsets_nil
  | cons entry rest ih => exact (notesOffsets_checkEntry scope window survey entry).trans (ih _)

theorem notesOffsets_checkSteps (scope : Params ν) (origin duration : ν) :
    ∀ (steps : List (StyleStep ν × ν)) (previous : ν) (survey : Survey ν),
      survey.NotesOffsets [] (checkSteps scope origin duration steps previous survey)
  | [], _, survey => survey.notesOffsets_nil
  | (step, _) :: rest, _, survey =>
    (notesOffsets_checkStep scope step _ survey).trans
      (notesOffsets_checkSteps scope origin duration rest _ _)

/-- All problems with the offsets of a keyframe list are about offsets. -/
theorem filter_concernsOffsets (steps : List (StyleStep ν)) :
    (offsetProblems steps).filter Problem.concernsOffsets = offsetProblems steps := by
  apply List.filter_eq_self.2
  intro problem member
  simp only [offsetProblems, List.mem_append, List.mem_ite_nil_right, List.mem_singleton] at member
  rcases member with (⟨-, rfl⟩ | ⟨-, rfl⟩) | ⟨-, rfl⟩ <;> rfl

/-- Resolving a timing notes nothing about offsets. -/
theorem notesOffsets_resolve (survey : Survey ν) (scope : Params ν) (timing : Timing ν) :
    survey.NotesOffsets [] (survey.report (timing.resolve scope).2) :=
  survey.notesOffsets_report_nil fun problem member =>
    (timing.ofText_resolve scope problem member).concernsOffsets_eq

/-- Visiting a keyframe list notes what is wrong with its offsets. -/
theorem notesOffsets_checkAnimate (scope : Params ν) (timing : Timing ν)
    (steps : List (StyleStep ν)) (survey : Survey ν) :
    survey.NotesOffsets (offsetProblems steps)
      (survey.checkAnimate scope timing (some (.keyframes steps))) := by
  have noted := (survey.report (timing.resolve scope).2).notesOffsets_report (offsetProblems steps)
  rw [filter_concernsOffsets] at noted
  have visited := ((survey.notesOffsets_resolve scope timing).trans noted).trans (notesOffsets_checkSteps scope
    ((survey.report (timing.resolve scope).2).clock + (timing.resolve scope).1.delay)
    (timing.resolve scope).1.duration (steps.zip (keyframeOffsets steps))
    ((survey.report (timing.resolve scope).2).clock + (timing.resolve scope).1.delay) _)
  rw [List.nil_append, List.append_nil] at visited
  exact visited

end Survey

mutual

/-- The keyframe lists that a walk visits in a tree, in the order of the document. -/
def Tree.keyframeLists : Tree ν → List (List (StyleStep ν))
  | .sequence steps => Tree.allKeyframeLists steps
  | .group branches => Tree.allKeyframeLists branches
  | .animate _ (some (.keyframes steps)) => [steps]
  | .reference animation _ => animation.keyframeLists
  | .animateRef animation _ _ => animation.keyframeLists
  | .trigger _ definitions => Tree.allKeyframeLists definitions
  | .transition _ animation _ => animation.keyframeLists
  | _ => []

/-- The keyframe lists of several trees, one tree after the other. -/
def Tree.allKeyframeLists : List (Tree ν) → List (List (StyleStep ν))
  | [] => []
  | tree :: rest => tree.keyframeLists ++ Tree.allKeyframeLists rest

end

variable [Scalar ν]

namespace Survey

mutual

/-- A walk notes what is wrong with the offsets of the keyframe lists that it visits, in order. -/
theorem notesOffsets_visit : ∀ (tree : Tree ν) (scope : Params ν) (survey : Survey ν),
    survey.NotesOffsets (tree.keyframeLists.flatMap offsetProblems) (visit scope tree survey)
  | .sequence steps, scope, survey => notesOffsets_visitSteps steps scope survey
  | .group branches, scope, survey =>
    notesOffsets_visitBranches branches scope survey.clock survey.clock survey
  | .animate timing (some (.keyframes steps)), scope, survey => by
    rw [Tree.keyframeLists, List.flatMap_singleton]
    exact notesOffsets_checkAnimate scope timing steps survey
  | .animate timing (some (.style step)), scope, survey =>
    (survey.notesOffsets_resolve scope timing).trans (notesOffsets_checkStep scope step _ _)
  | .animate timing none, scope, survey => survey.notesOffsets_resolve scope timing
  | .style step, scope, survey => notesOffsets_checkStep scope step _ survey
  | .reference animation defaults, scope, survey => by
    rw [visit, Tree.keyframeLists]
    exact notesOffsets_visit animation _ survey
  | .animateRef animation defaults overrides, scope, survey => by
    rw [visit, Tree.keyframeLists]
    exact notesOffsets_visit animation _ survey
  | .trigger _ definitions, scope, survey => notesOffsets_visitSteps definitions scope survey
  | .transition _ animation params, scope, survey => by
    rw [visit, Tree.keyframeLists]
    exact notesOffsets_visit animation (referenceScope params scope) ⟨0, ∅, survey.problems⟩
  | .state .., _, survey => survey.notesOffsets_nil
  | .keyframes .., _, survey =>
    survey.notesOffsets_report_nil (List.forall_mem_singleton.2 rfl)
  | .query .., _, survey => survey.notesOffsets_report_nil (List.forall_mem_singleton.2 rfl)
  | .stagger .., _, survey => survey.notesOffsets_report_nil (List.forall_mem_singleton.2 rfl)
  | .animateChild .., _, survey =>
    survey.notesOffsets_report_nil (List.forall_mem_singleton.2 rfl)

theorem notesOffsets_visitSteps : ∀ (steps : List (Tree ν)) (scope : Params ν)
    (survey : Survey ν),
    survey.NotesOffsets ((Tree.allKeyframeLists steps).flatMap offsetProblems)
      (visitSteps scope steps survey)
  | [], _, survey => survey.notesOffsets_nil
  | step :: rest, scope, survey => by
    rw [visitSteps, Tree.allKeyframeLists, List.flatMap_append]
    exact (notesOffsets_visit step scope survey).trans (notesOffsets_visitSteps rest scope _)

theorem notesOffsets_visitBranches : ∀ (branches : List (Tree ν)) (scope : Params ν)
    (origin furthest : ν) (survey : Survey ν),
    survey.NotesOffsets ((Tree.allKeyframeLists branches).flatMap offsetProblems)
      (visitBranches scope origin branches furthest survey)
  | [], _, _, _, survey => survey.notesOffsets_nil
  | branch :: rest, scope, origin, furthest, survey => by
    simp only [visitBranches, Tree.allKeyframeLists, List.flatMap_append]
    have visited := notesOffsets_visit branch scope (survey.setClock origin)
    exact NotesOffsets.trans visited (notesOffsets_visitBranches rest scope origin _ _)

end

end Survey

/-! ## The two ways of placing -/

/-- A position that a keyframe can have. -/
def InUnit (offset : ν) : Prop :=
  Scalar.atMost 0 offset = true ∧ Scalar.atMost offset 1 = true

/-- Every step declares an offset, and the keyframes stand at the declared ones, in order. -/
structure KeepsDeclared (steps : List (StyleStep ν)) : Prop where
  kept : steps.map StyleStep.offset? = (keyframeOffsets steps).map some
  inUnit : ∀ offset ∈ keyframeOffsets steps, InUnit offset
  ordered : (keyframeOffsets steps).Pairwise fun earlier later =>
    Scalar.atMost earlier later = true

/-- No step declares an offset, and several keyframes have equal distances from zero to one. -/
structure SpacesEvenly (steps : List (StyleStep ν)) : Prop where
  undeclared : ∀ step ∈ steps, step.offset? = none
  shares : 1 < steps.length → keyframeOffsets steps = (List.range steps.length).map fun index =>
    Scalar.ofCount index / Scalar.ofCount (steps.length - 1)
  increasing : (keyframeOffsets steps).Pairwise (· < ·)
  first : 1 < steps.length → (keyframeOffsets steps).head? = some 0
  last : 1 < steps.length → (keyframeOffsets steps).getLast? = some 1

/-- A keyframe list has one position a step, between zero and one if the declared offsets are
numbers at all. A visit of the validation notes nothing about its offsets exactly when they are
kept, or when there are none. -/
structure TellsMoves (steps : List (StyleStep ν)) : Prop where
  length : (keyframeOffsets steps).length = steps.length
  inUnit : (∀ step ∈ steps, ∀ offset, step.offset? = some offset → (offset == offset) = true) →
    ∀ offset ∈ keyframeOffsets steps, InUnit offset
  silent_iff (scope : Params ν) (timing : Timing ν) (survey : Survey ν) :
    survey.NotesOffsets [] (Survey.visit scope (.animate timing (some (.keyframes steps))) survey) ↔
      KeepsDeclared steps ∨ SpacesEvenly steps

variable {steps : List (StyleStep ν)}

/-- If every step declares an offset, nothing else is read. -/
theorem map_offset?_of_complete
    (complete : (steps.filterMap StyleStep.offset?).length = steps.length) :
    steps.map StyleStep.offset? = (steps.filterMap StyleStep.offset?).map some := by
  have every := List.filterMap_length_eq_length.1 complete
  clear complete
  induction steps with
  | nil => rfl
  | cons step rest ih =>
    obtain ⟨first, later⟩ := List.forall_mem_cons.1 every
    obtain ⟨offset, declared⟩ := Option.isSome_iff_exists.1 first
    rw [List.map_cons, List.filterMap_cons_some declared, List.map_cons, declared, ih later]

theorem filterMap_offset?_of_map {offsets : List ν}
    (declared : steps.map StyleStep.offset? = offsets.map some) :
    steps.filterMap StyleStep.offset? = offsets ∧ offsets.length = steps.length := by
  have same := congrArg (List.filterMap id) declared
  have lengths := congrArg List.length declared
  rw [List.length_map, List.length_map] at lengths
  simp only [List.filterMap_map] at same
  exact ⟨same.trans (List.filterMap_some ..), lengths.symm⟩

/-- There is nothing to report about offsets when all or none are declared, and the declared ones
lie in the unit interval, in order. -/
theorem offsetProblems_eq_nil_iff (steps : List (StyleStep ν)) :
    offsetProblems steps = [] ↔
      (steps.filterMap StyleStep.offset? = [] ∨
        (steps.filterMap StyleStep.offset?).length = steps.length) ∧
      (∀ offset ∈ steps.filterMap StyleStep.offset?, InUnit offset) ∧
      descends (steps.filterMap StyleStep.offset?) = false := by
  have few : (steps.filterMap StyleStep.offset?).length ≤ steps.length :=
    List.length_filterMap_le ..
  have complete : ¬(steps.filterMap StyleStep.offset? ≠ [] ∧
      (steps.filterMap StyleStep.offset?).length < steps.length) ↔
        steps.filterMap StyleStep.offset? = [] ∨
          (steps.filterMap StyleStep.offset?).length = steps.length := by
    rw [not_and_or, not_not]
    exact or_congr_right ⟨fun all => by omega, fun all => by omega⟩
  have inside (offset : ν) : outOfRange offset = false ↔ InUnit offset := by
    rw [outOfRange, Bool.not_eq_false', Bool.and_eq_true, InUnit]
  simp only [offsetProblems, List.append_eq_nil_iff, ite_eq_right_iff, List.cons_ne_nil, imp_false,
    complete, Bool.not_eq_true, List.any_eq_false, inside, and_assoc]

/-! ## Even positions -/

theorem keyframeOffsets_of_none (none : steps.filterMap StyleStep.offset? = []) :
    keyframeOffsets steps = evenOffsets steps.length := by
  simp only [keyframeOffsets, none, ne_eq, not_true_eq_false, false_and, if_false]

/-- Several even positions are the shares of the number of steps from one to the next. -/
theorem evenOffsets_eq_shares {count : Nat} (divides : DividesEvenly ν (count - 1)) :
    evenOffsets count = (List.range count).map fun index =>
      (Scalar.ofCount index / Scalar.ofCount (count - 1) : ν) := by
  refine List.map_congr_left fun index _ => ?_
  unfold evenOffset
  split
  · next last =>
    rw [← last, Nat.add_sub_cancel] at divides ⊢
    exact divides.last.symm
  · rfl

theorem DividesEvenly.zero_lt_one {parts : Nat} (divides : DividesEvenly ν parts)
    (positive : 0 < parts) : (0 : ν) < 1 :=
  divides.first ▸ divides.last ▸ divides.apart positive (Nat.le_refl parts)

/-- Without declared offsets, the keyframes are spaced evenly. -/
theorem spacesEvenly_of_none
    (divides : ∀ parts, 0 < parts → parts ≤ steps.length → DividesEvenly ν parts)
    (none : steps.filterMap StyleStep.offset? = []) : SpacesEvenly steps := by
  have parts (several : 1 < steps.length) : DividesEvenly ν (steps.length - 1) :=
    divides (steps.length - 1) (by omega) (by omega)
  have even := keyframeOffsets_of_none none
  have shares (several : 1 < steps.length) := even.trans (evenOffsets_eq_shares (parts several))
  refine ⟨List.filterMap_eq_nil_iff.1 none, shares, ?_, fun several => ?_, fun several => ?_⟩
  · by_cases several : 1 < steps.length
    · rw [shares several, List.pairwise_map]
      refine List.pairwise_lt_range.imp_of_mem fun _ inRange less => ?_
      have below := List.mem_range.1 inRange
      exact (parts several).apart less (by omega)
    · have few : steps.length = 0 ∨ steps.length = 1 := by omega
      rcases few with none | one
      · rw [even, none]
        exact .nil
      · rw [even, one]
        exact List.pairwise_singleton ..
  · rw [shares several, List.head?_map, List.head?_range, if_neg (by omega), Option.map_some,
      (parts several).first]
  · rw [shares several, List.getLast?_map, List.getLast?_range, if_neg (by omega), Option.map_some,
      (parts several).last]

/-! ## Declared positions -/

variable [LawfulScalar ν]

/-- Offsets are in order when none is less than the one before it. -/
theorem descends_eq_false_iff {offsets : List ν}
    (proper : ∀ offset ∈ offsets, (offset == offset) = true) :
    descends offsets = false ↔
      offsets.Pairwise fun earlier later => Scalar.atMost earlier later = true := by
  fun_induction descends offsets with
  | case1 first second rest ih =>
    obtain ⟨properFirst, properLater⟩ := List.forall_mem_cons.1 proper
    have properSecond := properLater second List.mem_cons_self
    rw [Bool.or_eq_false_iff, decide_eq_false_iff_not, ih properLater,
      List.pairwise_cons (a := first)]
    constructor
    · rintro ⟨above, ordered⟩
      have next := Scalar.atMost_of_not_lt properFirst properSecond above
      refine ⟨List.forall_mem_cons.2 ⟨next, fun offset member => ?_⟩, ordered⟩
      exact Scalar.atMost_trans next (List.rel_of_pairwise_cons ordered member)
    · rintro ⟨bounds, ordered⟩
      exact ⟨Scalar.not_lt_of_atMost (bounds second List.mem_cons_self), ordered⟩
  | case2 offsets short =>
    refine iff_of_true rfl ?_
    rcases offsets with _ | ⟨offset, _ | ⟨next, rest⟩⟩
    · exact .nil
    · exact List.pairwise_singleton ..
    · exact (short offset next rest rfl).elim

/-- An offset in the unit interval is not clamped. -/
theorem InUnit.clampToUnit_eq {offset : ν} (inside : InUnit offset) :
    Scalar.clampToUnit offset = offset := by
  rw [Scalar.clampToUnit, if_neg (Scalar.not_lt_of_atMost inside.1),
    if_neg (Scalar.not_lt_of_atMost inside.2)]

theorem inUnit_clampToUnit {offset : ν} (positive : (0 : ν) < 1)
    (proper : (offset == offset) = true) : InUnit (Scalar.clampToUnit offset) := by
  obtain ⟨zero, one⟩ := LawfulScalar.proper_of_lt positive
  unfold Scalar.clampToUnit
  split
  · exact ⟨Scalar.atMost_self zero, Scalar.atMost_of_lt positive⟩
  · next above =>
    split
    · exact ⟨Scalar.atMost_of_lt positive, Scalar.atMost_self one⟩
    · next below =>
      exact ⟨Scalar.atMost_of_not_lt zero proper above, Scalar.atMost_of_not_lt proper one below⟩

/-- Declared offsets in the unit interval are the positions, if every step declares one. -/
theorem keyframeOffsets_of_complete (some : steps.filterMap StyleStep.offset? ≠ [])
    (complete : (steps.filterMap StyleStep.offset?).length = steps.length)
    (inside : ∀ offset ∈ steps.filterMap StyleStep.offset?, InUnit offset) :
    keyframeOffsets steps = steps.filterMap StyleStep.offset? := by
  have kept : (steps.filterMap StyleStep.offset?).map Scalar.clampToUnit =
      (steps.filterMap StyleStep.offset?).map id :=
    List.map_congr_left fun offset member => (inside offset member).clampToUnit_eq
  simp only [keyframeOffsets, if_pos (And.intro some complete), kept, List.map_id]

/-! ## The validation tells -/

section

variable (divides : ∀ parts, 0 < parts → parts ≤ steps.length → DividesEvenly ν parts)

include divides

theorem inUnit_evenOffset {index : Nat} (within : index < steps.length) :
    InUnit (evenOffset steps.length index : ν) := by
  have positive : (0 : ν) < 1 := (divides 1 Nat.one_pos (by omega)).zero_lt_one Nat.one_pos
  obtain ⟨zero, one⟩ := LawfulScalar.proper_of_lt positive
  unfold evenOffset
  split
  · exact ⟨Scalar.atMost_of_lt positive, Scalar.atMost_self one⟩
  · next inner =>
    have parts := divides (steps.length - 1) (by omega) (by omega)
    constructor
    · rcases Nat.eq_zero_or_pos index with rfl | later
      · rw [parts.first]
        exact Scalar.atMost_self zero
      · exact Scalar.atMost_of_lt (parts.first ▸ parts.apart later (by omega))
    · exact Scalar.atMost_of_lt (parts.last ▸ parts.apart (by omega) (Nat.le_refl _))

/-- There is nothing to report about offsets exactly when they are kept, or when there are none. -/
theorem offsetProblems_eq_nil_iff_placed :
    offsetProblems steps = [] ↔ KeepsDeclared steps ∨ SpacesEvenly steps := by
  rw [offsetProblems_eq_nil_iff]
  constructor
  · rintro ⟨all, inside, ordered⟩
    by_cases none : steps.filterMap StyleStep.offset? = []
    · exact .inr (spacesEvenly_of_none divides none)
    · have complete := all.resolve_left none
      have kept := keyframeOffsets_of_complete none complete inside
      have proper : ∀ offset ∈ steps.filterMap StyleStep.offset?, (offset == offset) = true :=
        fun offset member => (Scalar.proper_of_atMost (inside offset member).1).2
      refine .inl ⟨?_, kept ▸ inside, kept ▸ (descends_eq_false_iff proper).1 ordered⟩
      rw [kept, map_offset?_of_complete complete]
  · rintro (kept | even)
    · obtain ⟨declared, complete⟩ := filterMap_offset?_of_map kept.kept
      have proper : ∀ offset ∈ keyframeOffsets steps, (offset == offset) = true :=
        fun offset member => (Scalar.proper_of_atMost (kept.inUnit offset member).1).2
      rw [declared]
      exact ⟨.inr complete, kept.inUnit, (descends_eq_false_iff proper).2 kept.ordered⟩
    · rw [List.filterMap_eq_nil_iff.2 even.undeclared]
      exact ⟨.inl rfl, List.forall_mem_nil _, rfl⟩

/-- The validation tells whenever a declared keyframe is moved, in numbers that divide evenly. -/
theorem tellsMoves : TellsMoves steps where
  length := length_keyframeOffsets steps
  inUnit proper := by
    intro offset member
    simp only [keyframeOffsets] at member
    split at member
    · obtain ⟨declared, found, rfl⟩ := List.mem_map.1 member
      obtain ⟨step, inSteps, declares⟩ := List.mem_filterMap.1 found
      have one := divides 1 Nat.one_pos (List.length_pos_of_mem inSteps)
      exact inUnit_clampToUnit (one.zero_lt_one Nat.one_pos) (proper step inSteps declared declares)
    · obtain ⟨index, bound, rfl⟩ := List.mem_map.1 member
      exact inUnit_evenOffset divides (List.mem_range.1 bound)
  silent_iff scope timing survey := by
    have noted := survey.notesOffsets_checkAnimate scope timing steps
    rw [← offsetProblems_eq_nil_iff_placed divides, Survey.visit]
    unfold Survey.NotesOffsets at noted ⊢
    rw [noted, List.append_cancel_left_eq]

end

/-- The validation of a tree reports nothing about offsets exactly when each keyframe list in it
keeps its declared offsets, or has none. -/
theorem Tree.silent_iff_offsets_kept {tree : Tree ν}
    (divides : ∀ steps ∈ tree.keyframeLists, ∀ parts, 0 < parts → parts ≤ steps.length →
      DividesEvenly ν parts) (scope : Params ν) :
    (∀ problem ∈ tree.validate scope, problem.concernsOffsets = false) ↔
      ∀ steps ∈ tree.keyframeLists, KeepsDeclared steps ∨ SpacesEvenly steps := by
  have noted : (tree.validate scope).filter Problem.concernsOffsets =
      tree.keyframeLists.flatMap offsetProblems :=
    Survey.start.notesOffsets_visit tree scope
  have silent : (∀ problem ∈ tree.validate scope, problem.concernsOffsets = false) ↔
      (tree.validate scope).filter Problem.concernsOffsets = [] := by
    simp only [List.filter_eq_nil_iff, Bool.not_eq_true]
  rw [silent, noted, List.flatMap_eq_nil_iff]
  exact forall₂_congr fun steps member => offsetProblems_eq_nil_iff_placed (divides steps member)

/-- **No declared keyframe is moved in silence.** Every keyframe list has one position a step, in
the unit interval. A visit of it notes nothing about offsets exactly when each step stands in order
at the offset that it declares, or when no step declares one and they are spaced evenly from zero
to one. With exact numbers this holds for any number of steps. With the numbers that a program runs
with it holds for fewer than `2 ^ 53` steps, as far as the format can tell their shares apart. -/
theorem validation_tells_moved_keyframes :
    (∀ steps : List (StyleStep Rat), TellsMoves steps) ∧
      ∀ steps : List (StyleStep Binary64), steps.length < 2 ^ (53 : Nat) → TellsMoves steps :=
  ⟨fun _ => tellsMoves fun _ positive _ => dividesEvenly_exact positive,
    fun _ small => tellsMoves fun _ positive bound =>
      Binary64.dividesEvenly positive (Nat.lt_of_le_of_lt bound small)⟩

/-- Two steps in the wrong order: one declares its offset in the field, the other as an entry. -/
def swappedSteps : List (StyleStep Binary64) :=
  [⟨[], some 1⟩, ⟨[.ofList [("offset", .text "0.25"), ("opacity", .text "0")]], none⟩]

/-- Steps in the wrong order are not kept, and the validation says so. -/
theorem validation_tells_swappedSteps :
    swappedSteps.length < 2 ^ (53 : Nat) ∧ ¬KeepsDeclared swappedSteps ∧
      (Tree.animateThrough (.millis 0) swappedSteps).validate ∅ = [.offsetsUnordered] := by
  have few : swappedSteps.length < 2 ^ (53 : Nat) := by decide
  have reported : (Tree.animateThrough (.millis 0) swappedSteps).validate ∅ =
      [.offsetsUnordered] := by decide +kernel
  refine ⟨few, fun kept => ?_, reported⟩
  have silent := ((validation_tells_moved_keyframes.2 swappedSteps few).silent_iff ∅ (.millis 0)
    Survey.start).2 (.inl kept)
  change ((Tree.animateThrough (.millis 0) swappedSteps).validate ∅).filter _ = [] at silent
  rw [reported] at silent
  exact absurd silent (List.cons_ne_nil _ _)

end Storyboard
