import Storyboard.Proofs.Compilation.Handover
import Storyboard.Proofs.Timeline.WellTimed
import Storyboard.Proofs.Timing.Resolution

/-!
# Straight branches

A tree is straight when no group and no keyframe list runs in it. Its visit stays on one timeline,
and in exact numbers, with frames that are not negative, the cursor never goes back
(`Traversal.advance_visit`). So its last write of a property is also the latest one, and a group
of straight branches is handed over as it should be: every branch hands over its latest write
(`BranchRun.handedOver_eq_latest_of_straight`), and so does the group
(`BranchRun.handover_eq_latestWrite_of_straight`).
-/

set_option autoImplicit false

namespace Storyboard

/-! ## Straight trees -/

section Trees

variable {ν : Type}

mutual

/-- No group and no keyframe list runs in the tree. -/
def Tree.Straight : Tree ν → Prop
  | .group _ => False
  | .animate _ (some (.keyframes _)) => False
  | .sequence steps => Tree.AllStraight steps
  | .reference animation _ => animation.Straight
  | .animateRef animation _ _ => animation.Straight
  | _ => True

/-- No group and no keyframe list runs in the trees. -/
def Tree.AllStraight : List (Tree ν) → Prop
  | [] => True
  | tree :: rest => tree.Straight ∧ Tree.AllStraight rest

end

mutual

theorem Tree.forks_of_straight : ∀ {tree : Tree ν}, tree.Straight → tree.forks = false
  | .sequence _, straight => Tree.anyForks_of_straight straight
  | .group _, straight => straight.elim
  | .animate _ none, _ => rfl
  | .animate _ (some (.style _)), _ => rfl
  | .animate _ (some (.keyframes _)), straight => straight.elim
  | .reference animation _, straight => by
    rw [Tree.forks]
    exact @Tree.forks_of_straight animation straight
  | .animateRef animation _ _, straight => by
    rw [Tree.forks]
    exact @Tree.forks_of_straight animation straight
  | .state .., _ => rfl
  | .transition .., _ => rfl
  | .keyframes .., _ => rfl
  | .style .., _ => rfl
  | .trigger .., _ => rfl
  | .animateChild .., _ => rfl
  | .query .., _ => rfl
  | .stagger .., _ => rfl

theorem Tree.anyForks_of_straight : ∀ {trees : List (Tree ν)}, Tree.AllStraight trees →
    Tree.anyForks trees = false
  | [], _ => rfl
  | tree :: rest, straight => by
    rw [Tree.anyForks, Tree.forks_of_straight straight.1, Tree.anyForks_of_straight straight.2]
    rfl

end

end Trees

/-! ## Advancing -/

namespace Traversal

/-- The walk stayed on its timeline and did not go back in time, and it wrote the entries of a
ledger there, one after the other in time. -/
structure Advance (before : Traversal Rat) (ledger : List (LedgerEntry Rat))
    (after : Traversal Rat) : Prop where
  placed : after.Placed
  stays : after.current = before.current
  later : before.now ≤ after.now
  own : ∀ entry ∈ ledger, entry.timeline = before.current ∧ entry.carried = false
  between : ∀ entry ∈ ledger,
    before.now ≤ entry.stamped.time ∧ entry.stamped.time ≤ after.now
  rising : ledger.Pairwise fun earlier later => earlier.stamped.time ≤ later.stamped.time

namespace Advance

variable {before middle after : Traversal Rat} {first second ledger : List (LedgerEntry Rat)}

theorem trans (earlier : Advance before first middle) (next : Advance middle second after) :
    Advance before (first ++ second) after where
  placed := next.placed
  stays := next.stays.trans earlier.stays
  later := earlier.later.trans next.later
  own := by
    intro entry member
    rcases List.mem_append.1 member with made | made
    · exact earlier.own entry made
    · rw [← earlier.stays]
      exact next.own entry made
  between := by
    intro entry member
    rcases List.mem_append.1 member with made | made
    · obtain ⟨low, high⟩ := earlier.between entry made
      exact ⟨low, high.trans next.later⟩
    · obtain ⟨low, high⟩ := next.between entry made
      exact ⟨earlier.later.trans low, high⟩
  rising := by
    refine List.pairwise_append.2 ⟨earlier.rising, next.rising, ?_⟩
    intro entry made other follows
    exact (earlier.between entry made).2.trans (next.between other follows).1

/-- Nothing is written in front. -/
theorem silent_trans (earlier : Advance before [] middle) (next : Advance middle ledger after) :
    Advance before ledger after :=
  earlier.trans next

/-- Nothing is written. -/
theorem silent (placed : after.Placed) (stays : after.current = before.current)
    (later : before.now ≤ after.now) : Advance before [] after where
  placed := placed
  stays := stays
  later := later
  own _ member := absurd member List.not_mem_nil
  between _ member := absurd member List.not_mem_nil
  rising := List.Pairwise.nil

theorem refl (placed : before.Placed) : Advance before [] before :=
  silent placed rfl (le_refl _)

/-- It makes no difference which kind of node is remembered. -/
theorem remember (reached : Advance before ledger after) (kind : NodeKind) :
    Advance before ledger (after.after kind) where
  placed := reached.placed
  stays := reached.stays
  later := reached.later
  own := reached.own
  between := reached.between
  rising := reached.rising

end Advance

section Operations

variable {walk : Traversal Rat} {settings : Settings Rat}

theorem advance_modifyCurrent (placed : walk.Placed) (change : Timeline Rat → Timeline Rat)
    (later : ∀ timeline : Timeline Rat, timeline.now ≤ (change timeline).now) :
    Advance walk [] (walk.modifyCurrent change) := by
  refine Advance.silent ?_ rfl ?_
  · show walk.current < (walk.stage.modify walk.current change).size
    rw [Stage.size_modify]
    exact placed
  · show walk.now ≤ ((walk.stage.modify walk.current change).timeline walk.current).now
    rw [Stage.timeline_modify placed, if_pos rfl]
    exact later _

theorem advance_pass (placed : walk.Placed) {time : Rat} (nonneg : 0 ≤ time) :
    Advance walk [] (walk.pass time) := by
  refine advance_modifyCurrent placed _ fun timeline => ?_
  rw [Timeline.forwardTo, Timeline.now_seek, Scalar.larger_exact]
  have further : timeline.cursor ≤ max (timeline.cursor + time) 0 :=
    le_max_of_le_left (le_add_of_nonneg_right nonneg)
  exact add_le_add_right further timeline.start

theorem now_forwardFrame_le (timeline : Timeline Rat) {length : Rat} (nonneg : 0 ≤ length) :
    timeline.now ≤ (timeline.forwardFrame length).now := by
  rw [Timeline.forwardFrame, Timeline.now_seek]
  exact add_le_add_right (le_add_of_nonneg_right nonneg) timeline.start

theorem advance_still {before after : Traversal Rat} (placed : before.Placed)
    (same : after.stage.skeletons = before.stage.skeletons)
    (stays : after.current = before.current) : Advance before [] after :=
  Advance.silent (placed_of_skeletons placed same stays) stays (now_eq same stays).ge

/-- A style is written where the cursor stands. -/
theorem advance_writeStyle (placed : walk.Placed) (property : String) (scope : Params Rat)
    (step : StyleStep Rat) (easing : Option String) :
    Advance walk (walk.writeLedger property (step.fill scope).styles)
      (walk.writeStyle scope step easing) := by
  have same : (walk.writeStyle scope step easing).stage.skeletons = walk.stage.skeletons :=
    Stage.skeletons_write _ _ _ _
  have still : (walk.writeStyle scope step easing).now = walk.now := now_eq same rfl
  unfold writeLedger
  cases (step.fill scope).styles.get? property with
  | none => exact advance_still placed same rfl
  | some value =>
    refine ⟨placed_of_skeletons placed same rfl, rfl, still.ge, ?_, ?_, List.pairwise_singleton _ _⟩
    · intro entry member
      rw [List.mem_singleton.1 member]
      exact ⟨rfl, rfl⟩
    · intro entry member
      rw [List.mem_singleton.1 member]
      exact ⟨le_refl walk.now, still.ge⟩

theorem advance_approachStyle (placed : walk.Placed) (frame : 0 ≤ settings.frameLength) :
    Advance walk [] (walk.approachStyle settings) := by
  unfold approachStyle
  split
  · exact advance_modifyCurrent placed _ fun timeline => now_forwardFrame_le timeline frame
  · exact Advance.refl placed

theorem advance_enterSequence (placed : walk.Placed) (frame : 0 ≤ settings.frameLength) :
    Advance walk [] (walk.enterSequence settings) := by
  unfold enterSequence
  split
  · have moved : Advance walk [] (walk.modifyCurrent fun timeline =>
        (timeline.forwardFrame settings.frameLength).snapshot) :=
      advance_modifyCurrent placed _ fun timeline => now_forwardFrame_le timeline frame
    exact Advance.silent moved.placed moved.stays moved.later
  · exact Advance.refl placed

theorem advance_awaitPayload (placed : walk.Placed) (scope : Params Rat) (timing : Timing Rat) :
    Advance walk [] (walk.awaitPayload scope timing) := by
  have reported : Advance walk [] (walk.report (timing.resolve scope).2) :=
    advance_still placed rfl rfl
  unfold awaitPayload wait
  split
  · have passed := reported.trans
      (advance_pass reported.placed (timing.nonnegative_resolve scope).delay)
    exact passed.trans (advance_modifyCurrent passed.placed _ fun timeline => le_refl timeline.now)
  · exact reported

/-- The cursor is behind the duration of an animated step when its style is written. -/
theorem advance_ready (placed : walk.Placed) (scope : Params Rat) (timing : Timing Rat) :
    Advance walk [] ((walk.awaitPayload scope timing).pass (timing.resolve scope).1.duration) := by
  have waited : Advance walk [] (walk.awaitPayload scope timing) :=
    advance_awaitPayload placed scope timing
  exact waited.trans (advance_pass waited.placed (timing.nonnegative_resolve scope).duration)

end Operations

mutual

/-- **The visit of a straight tree stays on its timeline and does not go back in time.** -/
theorem advance_visit (property : String) {settings : Settings Rat}
    (frame : 0 ≤ settings.frameLength) :
    ∀ (tree : Tree Rat), tree.Straight → ∀ (scope : Params Rat) {walk : Traversal Rat},
      walk.Placed →
        Advance walk (ledger property settings scope tree walk) (visit settings scope tree walk)
  | .sequence steps, straight, scope, walk, placed => by
    have entered : Advance walk [] (walk.enterSequence settings) :=
      advance_enterSequence placed frame
    have visited := entered.silent_trans
      (advance_visitSteps property frame steps straight scope entered.placed)
    have unforked : Tree.anyForks steps = false := Tree.anyForks_of_straight straight
    simp only [visit, ledger, unforked, Bool.false_eq_true, if_false]
    exact visited.remember .sequence
  | .group _, straight, _, _, _ => straight.elim
  | .animate timing none, _, scope, walk, placed => by
    have ready := advance_ready placed scope timing
    have wrote : Advance _ [] ((walk.awaitPayload scope timing).runEmpty (timing.resolve scope).1) :=
      advance_still ready.placed (Stage.skeletons_writeEmptyStep _ _ _) rfl
    exact (ready.trans wrote).remember .animate
  | .animate timing (some (.style step)), _, scope, walk, placed => by
    have ready := advance_ready placed scope timing
    have wrote := advance_writeStyle ready.placed property scope step (timing.resolve scope).1.easing
    exact (ready.silent_trans wrote).remember .animate
  | .animate _ (some (.keyframes _)), straight, _, _, _ => straight.elim
  | .style step, _, scope, _, placed => by
    have moved := advance_approachStyle placed frame
    have wrote := advance_writeStyle moved.placed property scope step none
    exact (moved.silent_trans wrote).remember .style
  | .reference animation defaults, straight, scope, _, placed => by
    simp only [visit, ledger]
    exact (advance_visit property frame animation straight _ placed).remember .reference
  | .animateRef animation defaults overrides, straight, scope, _, placed => by
    simp only [visit, ledger]
    exact (advance_visit property frame animation straight _ placed).remember .animateRef
  | .state .., _, _, _, placed => (Advance.refl placed).remember .state
  | .transition .., _, _, _, placed => (Advance.refl placed).remember .transition
  | .keyframes .., _, _, _, placed => (Advance.refl placed).remember .keyframes
  | .trigger .., _, _, _, placed => (Advance.refl placed).remember .trigger
  | .animateChild .., _, _, _, placed => (Advance.refl placed).remember .animateChild
  | .query .., _, _, _, placed => (Advance.refl placed).remember .query
  | .stagger .., _, _, _, placed => (Advance.refl placed).remember .stagger

theorem advance_visitSteps (property : String) {settings : Settings Rat}
    (frame : 0 ≤ settings.frameLength) :
    ∀ (steps : List (Tree Rat)), Tree.AllStraight steps → ∀ (scope : Params Rat)
      {walk : Traversal Rat}, walk.Placed →
        Advance walk (sequenceLedger property settings scope steps walk)
          (visitSteps settings scope steps walk)
  | [], _, _, _, placed => Advance.refl placed
  | step :: rest, straight, scope, walk, placed => by
    have visited := advance_visit property frame step straight.1 scope placed
    rw [visitSteps, sequenceLedger]
    exact visited.trans
      (advance_visitSteps property frame rest straight.2 scope visited.placed)

end

end Traversal

/-! ## Handing over -/

/-- Of writes that do not go back in time the last one is the latest. -/
theorem foldl_giveWay_of_rising (writes : List (Stamped Rat))
    (rising : writes.Pairwise fun earlier later => earlier.time ≤ later.time) :
    writes.foldl giveWay none = writes.getLast? := by
  induction writes using List.reverseRecOn with
  | nil => rfl
  | append_singleton earlier last ih =>
    obtain ⟨before, _, follows⟩ := List.pairwise_append.1 rising
    rw [List.foldl_append, ih before, List.getLast?_append]
    cases standing : earlier.getLast? with
    | none => rfl
    | some existing =>
      have bounded : existing.time ≤ last.time :=
        follows existing (List.mem_of_getLast? standing) last (List.mem_singleton_self last)
      exact if_neg (not_lt.2 bounded)

/-- A branch whose entries are writes of the timeline that it ends on, in the order of their
times, hands over its latest write. -/
theorem BranchRun.handedOver_eq_latest {run : BranchRun Rat}
    (own : ∀ entry ∈ run.ledger, entry.timeline = run.last ∧ entry.carried = false)
    (rising : run.ledger.Pairwise fun earlier later => earlier.stamped.time ≤ later.stamped.time) :
    run.handedOver = run.latest := by
  have there : run.ledger.filter (fun entry => entry.timeline == run.last) = run.ledger :=
    List.filter_eq_self.2 fun entry member => beq_iff_eq.2 (own entry member).1
  have written : run.ledger.filter (fun entry => !entry.carried) = run.ledger := by
    refine List.filter_eq_self.2 fun entry member => ?_
    rw [(own entry member).2]
    rfl
  rw [handedOver, latest, writes, there, written,
    foldl_giveWay_of_rising _ (List.pairwise_map.2 rising), List.getLast?_map]

/-- **Straight branches are handed over as they should be**: each one hands over its latest
write. -/
theorem BranchRun.handedOver_eq_latest_of_straight (property : String) {settings : Settings Rat}
    (frame : 0 ≤ settings.frameLength) (scope : Params Rat) {entry : Traversal Rat} :
    ∀ {branches : List (Tree Rat)}, Tree.AllStraight branches → ∀ {walk : Traversal Rat},
      ∀ run ∈ Traversal.branchRuns property settings scope entry branches walk,
        run.handedOver = run.latest
  | [], _, _, _, member => absurd member List.not_mem_nil
  | branch :: rest, straight, walk, run, member => by
    have forked := Traversal.course_enterBranch property entry walk
    have visited := Traversal.advance_visit property frame branch straight.1 scope forked.placed
    rcases List.mem_cons.1 member with rfl | later
    · refine handedOver_eq_latest (fun made inside => ?_) visited.rising
      obtain ⟨there, own⟩ := visited.own made inside
      exact ⟨there.trans visited.stays.symm, own⟩
    · exact handedOver_eq_latest_of_straight property frame scope straight.2 run later

/-- A group of straight branches hands over the write with the latest time, unless the timeline on
which it was entered had itself written at that time or after it. -/
theorem BranchRun.handover_eq_latestWrite_of_straight {property : String} {settings : Settings Rat}
    (frame : 0 ≤ settings.frameLength) {scope : Params Rat} {entry walk : Traversal Rat}
    {branches : List (Tree Rat)} (straight : Tree.AllStraight branches)
    {own : Option (Stamped Rat)} {latest : Stamped Rat}
    (written : BranchRun.latestWrite
      (Traversal.branchRuns property settings scope entry branches walk) = some latest)
    (later : latest.supersedes own = true) :
    BranchRun.handover own (Traversal.branchRuns property settings scope entry branches walk) =
      some latest :=
  handover_eq_latestWrite written (handedOver_eq_latest_of_straight property frame scope straight)
    later

end Storyboard
