import Storyboard.Proofs.Compilation.LastingWrites

/-!
# Timelines that were left for good

A walk goes back to a timeline only at the end of a group, to fold the branches into the timeline
on which the group was entered. A timeline that was opened and left again inside of a node is none
of these: whatever a walk does behind the node, it works on timelines that are older than the node
or younger than the one on which the node ended.

So what a node leaves behind is what is emitted: from the visit of a node on, however deep inside of
a tree it stands, the timelines opened and left in it do not change any more
(`Tree.timeline_landedStage`).
-/

set_option autoImplicit false

namespace Storyboard

variable {ν : Type} [Scalar ν]

/-- Folding one timeline into another leaves all but the other as they are. -/
theorem Stage.timeline_absorb_of_ne (stage : Stage ν) {target id : Nat} (apart : id ≠ target)
    (source : Nat) : (stage.absorb target source).timeline id = stage.timeline id := by
  refine foldl_keeps (fun merged : Stage ν => merged.timeline id) (fun merged entry => ?_) _ stage
  exact merged.timeline_modify_of_ne apart fun timeline => timeline.adopt entry.1 entry.2

/-- A timeline in front is found under its number. -/
theorem Stage.timeline_behind_of_lt (others : List (Timeline ν)) (stage : Stage ν) {id : Nat}
    (front : id < others.length) :
    (stage.behind others).timeline id = (others[id]?).getD (Timeline.blank 0 ∅) := by
  rw [timeline, get?, behind, List.getElem?_append_left front]

namespace Traversal

/-! ## Older timelines -/

omit [Scalar ν] in
/-- What a walk has before its current timeline is in front of a walk on the rest. -/
theorem exists_behind {walk : Traversal ν} (placed : walk.Placed) :
    ∃ (others : List (Timeline ν)) (rest : Traversal ν),
      others.length = walk.current ∧ rest.behind others = walk := by
  have length : (walk.stage.timelines.take walk.current).length = walk.current := by
    rw [List.length_take]
    exact Nat.min_eq_left (Nat.le_of_lt placed)
  refine ⟨walk.stage.timelines.take walk.current,
    { walk with
      stage := { walk.stage with timelines := walk.stage.timelines.drop walk.current }
      current := 0 }, length, ?_⟩
  simp only [behind, Stage.behind, List.take_append_drop, length, Nat.add_zero]

section Older

variable (settings : Settings ν) (scope : Params ν) {walk : Traversal ν} {id : Nat}

/-- A visit ends on the timeline on which it began, or on a younger one. -/
theorem current_le_visit (tree : Tree ν) (placed : walk.Placed) :
    walk.current ≤ (visit settings scope tree walk).current := by
  obtain ⟨others, rest, length, rfl⟩ := exists_behind placed
  rw [visit_behind]
  exact Nat.le_add_right_of_le (Nat.le_of_eq length.symm)

/-- A visit leaves the timelines before the one on which it began as they are. -/
theorem timeline_visit_of_lt (tree : Tree ν) (placed : walk.Placed) (older : id < walk.current) :
    (visit settings scope tree walk).stage.timeline id = walk.stage.timeline id := by
  obtain ⟨others, rest, length, rfl⟩ := exists_behind placed
  have front : id < others.length := length.symm ▸ older
  rw [visit_behind]
  exact (Stage.timeline_behind_of_lt others _ front).trans
    (Stage.timeline_behind_of_lt others _ front).symm

theorem placed_visit (tree : Tree ν) (placed : walk.Placed) :
    (visit settings scope tree walk).Placed :=
  (course_visit (by decide : "" ≠ offsetKey) settings tree scope placed).placed

theorem older_visitSteps : ∀ (steps : List (Tree ν)) {walk : Traversal ν}, walk.Placed →
    (visitSteps settings scope steps walk).Placed ∧
      walk.current ≤ (visitSteps settings scope steps walk).current ∧
        ∀ id < walk.current,
          (visitSteps settings scope steps walk).stage.timeline id = walk.stage.timeline id
  | [], _, placed => ⟨placed, Nat.le_refl _, fun _ _ => rfl⟩
  | step :: rest, walk, placed => by
    have reached := current_le_visit settings scope step placed
    obtain ⟨stays, further, kept⟩ :=
      older_visitSteps rest (placed_visit settings scope step placed)
    refine ⟨stays, Nat.le_trans reached further, fun id older => ?_⟩
    exact (kept id (Nat.lt_of_lt_of_le older reached)).trans
      (timeline_visit_of_lt settings scope step placed older)

/-- Passing through branches leaves all timelines that were there as they are. -/
theorem timeline_throughBranches_of_lt (entry : Traversal ν) (branches : List (Tree ν))
    (walk : Traversal ν) (opened : id < walk.stage.size) :
    (throughBranches settings scope entry branches walk).stage.timeline id =
      walk.stage.timeline id := by
  obtain ⟨added, timelines⟩ := prefix_throughBranches settings scope entry branches walk
  rw [Stage.timeline, Stage.timeline, Stage.get?, Stage.get?, ← timelines,
    List.getElem?_append_left opened]

theorem size_le_throughBranches (entry : Traversal ν) (branches : List (Tree ν))
    (walk : Traversal ν) :
    walk.stage.size ≤ (throughBranches settings scope entry branches walk).stage.size :=
  (prefix_throughBranches settings scope entry branches walk).length_le

end Older

/-! ## Timelines opened and left in a node -/

variable {settings : Settings ν} {scope inner : Params ν} {walk entry : Traversal ν}
  {tree node : Tree ν}

/-- From a walk that enters a tree to the walk behind it, seen from a node inside: the node is
entered on no older timeline, the walk ends on none older than the node, and every timeline that
the node has opened and left stays as the node left it. -/
structure Leaves (entry done walk final : Traversal ν) : Prop where
  entered : walk.current ≤ entry.current
  ends : done.current ≤ final.current
  placed : final.Placed
  kept : ∀ id, entry.current < id → id < done.current →
    final.stage.timeline id = done.stage.timeline id

namespace Leaves

variable {done before final : Traversal ν}

/-- It makes no difference which kind of node is remembered. -/
theorem remember (leaves : Leaves entry done walk final) (kind : NodeKind) :
    Leaves entry done walk (final.after kind) :=
  ⟨leaves.entered, leaves.ends, leaves.placed, leaves.kept⟩

/-- More steps may follow. -/
theorem visitSteps (leaves : Leaves entry done before final)
    (entered : walk.current ≤ before.current) (settings : Settings ν) (scope : Params ν)
    (steps : List (Tree ν)) :
    Leaves entry done walk (Traversal.visitSteps settings scope steps final) := by
  obtain ⟨placed, further, kept⟩ := older_visitSteps settings scope steps leaves.placed
  refine ⟨Nat.le_trans entered leaves.entered, Nat.le_trans leaves.ends further, placed,
    fun id opened left => ?_⟩
  exact (kept id (Nat.lt_of_lt_of_le left leaves.ends)).trans (leaves.kept id opened left)

/-- The walk may go on with a blank timeline. -/
theorem continueAt (leaves : Leaves entry done walk final) (time : Option ν) :
    Leaves entry done walk (final.continueAt time) where
  entered := leaves.entered
  ends := Nat.le_trans leaves.ends (Nat.le_of_lt leaves.placed)
  placed := Nat.lt_of_lt_of_eq (Nat.lt_succ_self _) (Stage.size_push _ _).symm
  kept id opened left := by
    have younger : id ≠ final.stage.size :=
      Nat.ne_of_lt (Nat.lt_trans (Nat.lt_of_lt_of_le left leaves.ends) leaves.placed)
    exact ((Stage.timeline_push _ _ id).trans (if_neg younger)).trans (leaves.kept id opened left)

/-- More branches may follow, and all of them are folded into the timeline of the group. -/
theorem leaveGroup (leaves : Leaves entry done before final) (older : walk.current < before.current)
    (settings : Settings ν) (scope : Params ν) (branches : List (Tree ν)) (ends : List Nat)
    (furthest : ν) :
    Leaves entry done walk
      (walk.leaveGroup ends furthest (throughBranches settings scope walk branches final)) := by
  have absorbed (id : Nat) (apart : id ≠ walk.current) :
      (ends.foldl (fun stage source => stage.absorb walk.current source)
        (throughBranches settings scope walk branches final).stage).timeline id =
          (throughBranches settings scope walk branches final).stage.timeline id :=
    foldl_keeps (fun stage : Stage ν => stage.timeline id)
      (fun stage source => stage.timeline_absorb_of_ne apart source) ends _
  have size : (ends.foldl (fun stage source => stage.absorb walk.current source)
      (throughBranches settings scope walk branches final).stage).size =
        (throughBranches settings scope walk branches final).stage.size :=
    Stage.size_eq_of_skeletons (foldl_keeps Stage.skeletons
      (fun stage source => stage.skeletons_absorb walk.current source) ends _)
  have grows := size_le_throughBranches settings scope walk branches final
  have placed := leaves.placed
  unfold Placed at placed
  refine ⟨Nat.le_trans (Nat.le_of_lt older) leaves.entered, ?_, ?_, fun id opened left => ?_⟩
  · show done.current ≤ Stage.size _
    rw [size]
    exact Nat.le_trans leaves.ends (Nat.le_trans (Nat.le_of_lt placed) grows)
  · exact Nat.lt_of_lt_of_eq (Nat.lt_succ_self _) (Stage.size_push _ _).symm
  · have bound : id < final.stage.size :=
      Nat.lt_trans (Nat.lt_of_lt_of_le left leaves.ends) placed
    have apart : id ≠ walk.current :=
      Nat.ne_of_gt (Nat.lt_of_lt_of_le older (Nat.le_trans leaves.entered (Nat.le_of_lt opened)))
    refine (Stage.timeline_push _ _ id).trans ((if_neg ?_).trans ?_)
    · rw [size]
      exact Nat.ne_of_lt (Nat.lt_of_lt_of_le bound grows)
    · exact ((absorbed id apart).trans
        (timeline_throughBranches_of_lt settings scope walk branches final bound)).trans
          (leaves.kept id opened left)

end Leaves

/-- **What a node has opened and left, the rest of the walk leaves as it is.** -/
theorem Meets.leaves (met : Meets settings scope walk tree inner entry node)
    (placed : walk.Placed) :
    Leaves entry (visit settings inner node entry) walk (visit settings scope tree walk) := by
  induction met with
  | here scope walk node =>
    exact ⟨Nat.le_refl _, Nat.le_refl _, placed_visit settings scope node placed,
      fun _ _ _ => rfl⟩
  | @step scope inner walk entry step node earlier later _ ih =>
    have course : Course "" walk _ (walk.enterSequence settings) :=
      course_enterSequence placed settings
    have entered := course.placed
    have same : (walk.enterSequence settings).current = walk.current := by
      unfold enterSequence
      split <;> rfl
    obtain ⟨stands, reached, _⟩ := older_visitSteps settings scope earlier entered
    have steps := (ih stands).visitSteps (Nat.le_trans (Nat.le_of_eq same.symm) reached) settings
      scope later
    simp only [visit, visitSteps_append, visitSteps]
    split
    · exact (steps.continueAt none).remember .sequence
    · exact steps.remember .sequence
  | @branch scope inner walk entry branch node earlier later _ ih =>
    obtain ⟨furthest, left⟩ := visitBranches_eq_leaveGroup "" settings scope walk
      (earlier ++ branch :: later) [] walk.now walk
    have forked := (course_enterBranch "" walk
      (throughBranches settings scope walk earlier walk)).placed
    have older : walk.current <
        (walk.enterBranch (throughBranches settings scope walk earlier walk)).current :=
      Nat.lt_of_lt_of_le placed (size_le_throughBranches settings scope walk earlier walk)
    simp only [visit]
    rw [left, throughBranches_append]
    exact ((ih forked).leaveGroup older settings scope later _ furthest).remember .group
  | reference defaults _ ih => exact (ih placed).remember .reference
  | animateRef defaults overrides _ ih => exact (ih placed).remember .animateRef

end Traversal

/-- **A timeline that a node has opened and left is emitted as the node left it.** -/
theorem Tree.timeline_landedStage {settings : Settings ν} {starting : Styles ν}
    {scope inner : Params ν} {entry : Traversal ν} {tree node : Tree ν}
    (met : Traversal.Meets settings scope (.start starting) tree inner entry node)
    (destination : Styles ν) {id : Nat} (opened : entry.current < id)
    (left : id < (Traversal.visit settings inner node entry).current) :
    id < (tree.landedStage settings starting destination scope).size ∧
      (tree.landedStage settings starting destination scope).timeline id =
        (Traversal.visit settings inner node entry).stage.timeline id := by
  have placed : (Traversal.beginning : Traversal ν).Placed := Nat.one_pos
  have course : Traversal.Course "" (Traversal.beginning : Traversal ν) _ (.start starting) :=
    Traversal.course_write (by decide : "" ≠ offsetKey) placed starting none
  have started := course.placed
  have leaves := met.leaves started
  have younger := Nat.lt_of_lt_of_le left leaves.ends
  have bound := Nat.lt_trans younger leaves.placed
  have size : (tree.landedStage settings starting destination scope).size =
      (Traversal.visit settings scope tree (.start starting)).stage.size :=
    Stage.size_eq_of_skeletons (Traversal.skeletons_land _ destination)
  refine ⟨size.symm ▸ bound, Eq.trans ?_ (leaves.kept id opened left)⟩
  simp only [landedStage, Traversal.land]
  split
  · rfl
  · exact (Stage.timeline_modify_of_ne _ (Nat.ne_of_lt younger) _).trans
      (Stage.timeline_write_of_ne _ (Nat.ne_of_lt younger) _ none)

end Storyboard
