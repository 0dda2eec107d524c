import Storyboard.Proofs.Number.Clocks
import Storyboard.Proofs.Timeline.Skeleton

/-!
# Keyframes in order

A timeline whose cursor only moves to settled times has one keyframe at each of them
(`Timeline.Skeleton.Settled`): settled times that are level are the same, so the cursor stands
exactly where its keyframe does, in rounded arithmetic as well as in exact one.

Sorting such keyframes puts them in strict order (`Timeline.pairwise_risingTimes`), and the last of
them ends the timeline (`Timeline.getLast?_risingTimes`). If that is not at zero, the timeline emits
its keyframes by time (`Timeline.keyframes_of_extended`).
-/

set_option autoImplicit false

namespace Storyboard

variable {ν : Type} [Scalar ν]

/-! ## Rising times -/

omit [Scalar ν] in
/-- A list in which two items differ has more than one. -/
theorem one_lt_length_of_mem {items : List ν} {first second : ν} (one : first ∈ items)
    (other : second ∈ items) (apart : first ≠ second) : 1 < items.length := by
  obtain ⟨here, within, rfl⟩ := List.mem_iff_getElem.1 one
  obtain ⟨there, bound, rfl⟩ := List.mem_iff_getElem.1 other
  have different : here ≠ there := by
    rintro rfl
    exact apart rfl
  omega

/-- In a list of rising times the one behind a time is not later than any that is. -/
theorem exists_next_of_rising [LawfulScalar ν] {times : List ν} (rising : times.Pairwise (· < ·))
    {index : Nat} {opens later : ν} (here : times[index]? = some opens) (member : later ∈ times)
    (ahead : opens < later) :
    ∃ next, times[index + 1]? = some next ∧ opens < next ∧ Scalar.atMost next later = true := by
  obtain ⟨bound, rfl⟩ := List.getElem?_eq_some_iff.1 here
  obtain ⟨position, within, rfl⟩ := List.mem_iff_getElem.1 member
  have order := List.pairwise_iff_getElem.1 rising
  rcases Nat.lt_trichotomy position index with before | same | behind
  · exact absurd ahead (Scalar.not_lt_of_lt (order _ _ within bound before))
  · subst same
    exact absurd ahead (LawfulScalar.lt_irrefl _)
  · have next := Nat.lt_of_le_of_lt behind within
    refine ⟨_, List.getElem?_eq_getElem next, order _ _ bound next (Nat.lt_succ_self index), ?_⟩
    rcases Nat.lt_or_eq_of_le behind with further | same
    · exact Scalar.atMost_of_lt (order _ _ next within further)
    · subst same
      exact Scalar.atMost_self (LawfulScalar.proper_of_lt ahead).2

namespace Timeline

/-! ## Settled skeletons -/

/-- The keyframes stand at unequal settled times from zero on, one of them at zero and one under
the cursor. -/
structure Skeleton.Settled (skeleton : Skeleton ν) : Prop where
  distinct : skeleton.times.Pairwise fun first second => (first == second) = false
  nonneg : ∀ time ∈ skeleton.times, Scalar.atMost 0 time = true
  settled : ∀ time ∈ skeleton.times, Scalar.Settled time
  opened : 0 ∈ skeleton.times
  underCursor : skeleton.times[skeleton.current]? = some skeleton.cursor

/-- Where level times are the same, a move of the cursor opens a keyframe where it goes and nowhere
else. -/
theorem Skeleton.mem_times_seek (skeleton : Skeleton ν) {time : ν}
    (exact : ∀ opened ∈ skeleton.times, (opened == time) = true → opened = time) {opened : ν} :
    opened ∈ (skeleton.seek time).times ↔ opened ∈ skeleton.times ∨ opened = time := by
  unfold seek
  split
  · next index found =>
    obtain ⟨bound, here, _⟩ := List.findIdx?_eq_some_iff_getElem.1 found
    have stands : time ∈ skeleton.times :=
      exact _ (List.getElem_mem bound) here ▸ List.getElem_mem bound
    exact ⟨.inl, fun either => either.elim id fun same => same ▸ stands⟩
  · rw [List.mem_append, List.mem_singleton]

namespace Skeleton.Settled

variable {skeleton : Skeleton ν} (settled : skeleton.Settled)
include settled

theorem cursor_mem : skeleton.cursor ∈ skeleton.times :=
  List.mem_of_getElem? settled.underCursor

theorem cursor_nonneg : Scalar.atMost 0 skeleton.cursor = true :=
  settled.nonneg _ settled.cursor_mem

theorem cursor_settled : Scalar.Settled skeleton.cursor :=
  settled.settled _ settled.cursor_mem

theorem current_lt : skeleton.current < skeleton.times.length :=
  (List.getElem?_eq_some_iff.1 settled.underCursor).1

variable [LawfulSums ν]

/-- A time that is level with a keyframe is the time of the keyframe. -/
theorem eq_of_beq {time opened : ν} (there : Scalar.Settled time) (stands : opened ∈ skeleton.times)
    (same : (opened == time) = true) : opened = time :=
  LawfulSums.eq_of_settled (settled.settled opened stands) there same

/-- The keyframe under the cursor is the one that stands there. -/
theorem eq_cursor_iff {index : Nat} {time : ν} (found : skeleton.times[index]? = some time) :
    time = skeleton.cursor ↔ skeleton.current = index := by
  constructor
  · rintro rfl
    have proper := (Scalar.proper_of_atMost settled.cursor_nonneg).2
    obtain ⟨bound, here⟩ := List.getElem?_eq_some_iff.1 found
    obtain ⟨within, there⟩ := List.getElem?_eq_some_iff.1 settled.underCursor
    have apart := List.pairwise_iff_getElem.1 settled.distinct
    by_contra different
    rcases Nat.lt_or_gt_of_ne different with before | behind
    · have unequal := apart _ _ within bound before
      rw [here, there, proper] at unequal
      cases unequal
    · have unequal := apart _ _ bound within behind
      rw [here, there, proper] at unequal
      cases unequal
  · rintro rfl
    exact Option.some.inj (found.symm.trans settled.underCursor)

/-- The cursor may be moved to any settled time from zero on. -/
theorem seek {time : ν} (nonneg : Scalar.atMost 0 time = true) (there : Scalar.Settled time) :
    (skeleton.seek time).Settled where
  distinct := distinct_seek settled.distinct time
  nonneg := forall_times_seek settled.nonneg nonneg
  settled := forall_times_seek settled.settled there
  opened := mem_times_seek_of_mem settled.opened time
  underCursor := by
    obtain ⟨opened, found, level⟩ :=
      skeleton.underCursor_seek (Scalar.proper_of_atMost nonneg).2
    have stands : Scalar.Settled opened :=
      forall_times_seek settled.settled there opened (List.mem_of_getElem? found)
    rw [found, cursor_seek, LawfulSums.eq_of_settled stands there level]

end Skeleton.Settled

/-- A blank timeline stands at zero. -/
theorem settled_skeleton_blank [LawfulSums ν] (start : ν) (inherited : Styles ν) :
    (blank start inherited).skeleton.Settled where
  distinct := List.pairwise_singleton _ _
  nonneg time member := by
    rw [List.mem_singleton.1 member]
    exact Scalar.atMost_self LawfulScalar.zero_proper
  settled time member := by
    rw [List.mem_singleton.1 member]
    exact LawfulSums.settled_zero
  opened := List.mem_singleton.2 rfl
  underCursor := rfl

end Timeline

/-! ## Keyframes by time -/

namespace Keyframe

theorem perm_insertByTime (frame : Keyframe ν) (frames : List (Keyframe ν)) :
    (insertByTime frame frames).Perm (frame :: frames) := by
  induction frames with
  | nil => exact .refl _
  | cons next rest ih =>
    unfold insertByTime
    split
    · exact (ih.cons next).trans (.swap frame next rest)
    · exact .refl _

/-- Sorting keyframes loses none of them. -/
theorem perm_sortByTime (frames : List (Keyframe ν)) :
    (sortByTime frames).Perm frames := by
  induction frames with
  | nil => exact .refl _
  | cons frame rest ih => exact (perm_insertByTime frame _).trans (ih.cons frame)

variable [LawfulScalar ν]

/-- Keyframes that rise already stay as they are. -/
theorem sortByTime_of_rising {frames : List (Keyframe ν)}
    (rising : frames.Pairwise fun first second => first.time < second.time) :
    sortByTime frames = frames := by
  induction frames with
  | nil => rfl
  | cons frame rest ih =>
    obtain ⟨ahead, others⟩ := List.pairwise_cons.1 rising
    show insertByTime frame (sortByTime rest) = frame :: rest
    rw [ih others]
    cases rest with
    | nil => rfl
    | cons next later =>
      exact if_neg (Scalar.not_lt_of_lt (ahead next List.mem_cons_self))

/-- A keyframe is inserted between the earlier and the later ones. -/
theorem pairwise_insertByTime {frame : Keyframe ν} (proper : (frame.time == frame.time) = true) :
    ∀ {sorted : List (Keyframe ν)}, (sorted.Pairwise fun first second => first.time < second.time) →
      (∀ other ∈ sorted, (other.time == other.time) = true) →
        (∀ other ∈ sorted, (frame.time == other.time) = false) →
          (insertByTime frame sorted).Pairwise fun first second => first.time < second.time
  | [], _, _, _ => List.pairwise_singleton _ _
  | next :: rest, rising, others, apart => by
    obtain ⟨ahead, rest_rising⟩ := List.pairwise_cons.1 rising
    obtain ⟨next_proper, rest_proper⟩ := List.forall_mem_cons.1 others
    obtain ⟨unequal, rest_apart⟩ := List.forall_mem_cons.1 apart
    unfold insertByTime
    split
    · next earlier =>
      refine .cons (fun other member => ?_)
        (pairwise_insertByTime proper rest_rising rest_proper rest_apart)
      rcases List.mem_cons.1 ((perm_insertByTime frame rest).mem_iff.1 member) with rfl | later
      · exact earlier
      · exact ahead other later
    · next above =>
      have earlier : frame.time < next.time := by
        rcases LawfulScalar.lt_total proper next_proper with below | same | behind
        · exact below
        · exact absurd (unequal.symm.trans same) Bool.false_ne_true
        · exact absurd behind above
      exact .cons (List.forall_mem_cons.2
        ⟨earlier, fun other later => LawfulScalar.lt_trans earlier (ahead other later)⟩) rising

/-- Keyframes at unequal times are put in strict order. -/
theorem pairwise_sortByTime {frames : List (Keyframe ν)}
    (distinct : frames.Pairwise fun first second => (first.time == second.time) = false)
    (proper : ∀ frame ∈ frames, (frame.time == frame.time) = true) :
    (sortByTime frames).Pairwise fun first second => first.time < second.time := by
  induction frames with
  | nil => exact .nil
  | cons frame rest ih =>
    obtain ⟨apart, others⟩ := List.pairwise_cons.1 distinct
    obtain ⟨here, rest_proper⟩ := List.forall_mem_cons.1 proper
    have kept (other : Keyframe ν) : other ∈ sortByTime rest ↔ other ∈ rest :=
      (perm_sortByTime rest).mem_iff
    exact pairwise_insertByTime here (ih others rest_proper)
      (fun other member => rest_proper other ((kept other).1 member))
      (fun other member => apart other ((kept other).1 member))

end Keyframe

namespace Timeline

/-- The times of the keyframes by order. -/
def risingTimes (timeline : Timeline ν) : List ν :=
  (Keyframe.sortByTime timeline.frames).map Keyframe.time

theorem mem_risingTimes (timeline : Timeline ν) (time : ν) :
    time ∈ timeline.risingTimes ↔ time ∈ timeline.times :=
  ((Keyframe.perm_sortByTime timeline.frames).map Keyframe.time).mem_iff

section Ordered

variable [LawfulSums ν] {timeline : Timeline ν} (settled : timeline.skeleton.Settled)
include settled

/-- The keyframes of a settled timeline rise strictly in time. -/
theorem pairwise_risingTimes : timeline.risingTimes.Pairwise (· < ·) := by
  refine List.pairwise_map.2 (Keyframe.pairwise_sortByTime ?_ fun frame member => ?_)
  · exact List.pairwise_map.1 settled.distinct
  · exact (Scalar.proper_of_atMost (settled.nonneg _ (List.mem_map_of_mem member))).2

/-- The length of a settled timeline is the time of its last keyframe by order. -/
theorem getLast?_risingTimes : timeline.risingTimes.getLast? = some timeline.length := by
  have nonempty : timeline.risingTimes ≠ [] :=
    List.ne_nil_of_mem ((mem_risingTimes timeline 0).2 settled.opened)
  obtain ⟨time, found⟩ : ∃ time, timeline.risingTimes.getLast? = some time :=
    ⟨_, List.getLast?_eq_some_getLast nonempty⟩
  have member := (mem_risingTimes timeline time).1 (List.mem_of_getLast? found)
  rw [risingTimes, List.getLast?_map] at found
  obtain ⟨last, sorted, rfl⟩ := Option.map_eq_some_iff.1 found
  have reached : timeline.length = last.time := by
    simp only [length, sorted]
    exact Scalar.larger_zero (settled.settled _ member) (settled.nonneg _ member)
  rw [risingTimes, List.getLast?_map, sorted, Option.map_some, reached]

/-- The end of a settled timeline is the time of a keyframe. -/
theorem length_mem_times : timeline.length ∈ timeline.times :=
  (mem_risingTimes timeline _).1 (List.mem_of_getLast? (getLast?_risingTimes settled))

/-- No keyframe of a settled timeline is later than its end. -/
theorem time_atMost_length {time : ν} (opened : time ∈ timeline.times) :
    Scalar.atMost time timeline.length = true := by
  obtain ⟨earlier, split⟩ := List.getLast?_eq_some_iff.1 (getLast?_risingTimes settled)
  have rising := pairwise_risingTimes settled
  have member := (mem_risingTimes timeline time).2 opened
  rw [split] at rising member
  rcases List.mem_append.1 member with before | last
  · exact Scalar.atMost_of_lt
      ((List.pairwise_append.1 rising).2.2 time before _ List.mem_cons_self)
  · rw [List.mem_singleton.1 last]
    exact Scalar.atMost_self
      (Scalar.proper_of_atMost (settled.nonneg _ (length_mem_times settled))).2

/-- A settled timeline that ends at zero has no keyframe but the one at zero. -/
theorem times_of_instant (instant : (timeline.length == 0) = true) :
    timeline.times.length ≤ 1 ∧ ∀ time ∈ timeline.times, time = 0 := by
  have still : ∀ time ∈ timeline.times, time = 0 := by
    intro time opened
    have early := Scalar.atMost_trans (time_atMost_length settled opened)
      (Scalar.atMost_iff.2 (.inr instant))
    exact settled.eq_of_beq LawfulSums.settled_zero opened
      (Scalar.beq_of_atMost early (settled.nonneg time opened))
  refine ⟨Nat.le_of_not_lt fun several => ?_, still⟩
  have apart : (timeline.times[0] == timeline.times[1]) = false :=
    List.pairwise_iff_getElem.1 settled.distinct 0 1 (Nat.zero_lt_of_lt several) several Nat.one_pos
  rw [still _ (List.getElem_mem _), still _ (List.getElem_mem _), LawfulScalar.zero_proper] at apart
  cases apart

omit [LawfulSums ν] in
/-- A timeline that has a keyframe elsewhere than at its start is worth emitting. -/
theorem hasStyling_of_time {time : ν} (opened : time ∈ timeline.times) (apart : time ≠ 0) :
    timeline.hasStyling = true := by
  have several : 1 < timeline.times.length := one_lt_length_of_mem opened settled.opened apart
  rw [times, List.length_map] at several
  rw [hasStyling, decide_eq_true several, Bool.true_or]

end Ordered

/-- A span with a length emits its keyframes by time. -/
theorem keyframes_of_extended {timeline : Timeline ν} (extended : (timeline.length == 0) = false) :
    timeline.instruction.keyframes =
      (Keyframe.sortByTime timeline.frames).map fun frame =>
        timeline.emit frame.styles (frame.time / timeline.length) := by
  simp [instruction, extended]

end Timeline

end Storyboard
