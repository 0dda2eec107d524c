import Storyboard.Proofs.Tree.Nodes
import Storyboard.Proofs.Validation.Occupancy

/-!
# The clocks of a validation

A transition is validated on a clock of its own, which starts at zero with no window recorded; the
windows that it records are forgotten behind it. `Tree.clocks` lists the trees that are entered in
this way, each with its scope: the whole tree, and the animation of every transition that the walk
passes.

The walk keeps these clocks apart. On each it books the agenda of the tree that the clock enters,
and it forgets no collision (`Survey.keeps_visit`). So the collisions of a validation are those
found when the windows of one clock are booked one after the other (`Tree.mem_validate_iff`),
whatever the tree contains.
-/

set_option autoImplicit false

namespace Storyboard

variable {ν : Type}

/-! ## Trees with a clock of their own -/

/-- A tree that is entered at time zero on a clock of its own, and the scope in which it is. -/
structure ClockedTree (ν : Type) where
  scope : Params ν
  tree : Tree ν

mutual

/-- The animations of the transitions that the walk passes in a tree. -/
def Tree.transitions (scope : Params ν) : Tree ν → List (ClockedTree ν)
  | .sequence steps => Tree.allTransitions scope steps
  | .group branches => Tree.allTransitions scope branches
  | .trigger _ definitions => Tree.allTransitions scope definitions
  | .reference animation defaults => Tree.transitions (referenceScope defaults scope) animation
  | .animateRef animation defaults overrides =>
    Tree.transitions (invocationScope defaults scope overrides) animation
  | .transition _ animation params =>
    ⟨referenceScope params scope, animation⟩ ::
      Tree.transitions (referenceScope params scope) animation
  | _ => []

/-- The animations of the transitions that the walk passes in several trees. -/
def Tree.allTransitions (scope : Params ν) : List (Tree ν) → List (ClockedTree ν)
  | [] => []
  | tree :: rest => Tree.transitions scope tree ++ Tree.allTransitions scope rest

end

mutual

/-- The animation of a transition stands in the tree. -/
theorem Tree.nodes_of_mem_transitions {clocked : ClockedTree ν} {node : Tree ν} :
    ∀ (tree : Tree ν) (scope : Params ν), clocked ∈ tree.transitions scope →
      node ∈ clocked.tree.nodes → node ∈ tree.nodes
  | .sequence steps, scope, member, inside =>
    List.mem_cons_of_mem _ (nodes_of_mem_allTransitions steps scope member inside)
  | .group branches, scope, member, inside =>
    List.mem_cons_of_mem _ (nodes_of_mem_allTransitions branches scope member inside)
  | .trigger _ definitions, scope, member, inside =>
    List.mem_cons_of_mem _ (nodes_of_mem_allTransitions definitions scope member inside)
  | .reference animation _, _, member, inside => by
    rw [Tree.transitions] at member
    exact List.mem_cons_of_mem _ (nodes_of_mem_transitions animation _ member inside)
  | .animateRef animation _ _, _, member, inside => by
    rw [Tree.transitions] at member
    exact List.mem_cons_of_mem _ (nodes_of_mem_transitions animation _ member inside)
  | .transition _ animation _, _, member, inside => by
    rw [Tree.transitions] at member
    rcases List.mem_cons.1 member with rfl | within
    · exact List.mem_cons_of_mem _ inside
    · exact List.mem_cons_of_mem _ (nodes_of_mem_transitions animation _ within inside)
  | .state .., _, member, _ | .animate .., _, member, _ | .keyframes .., _, member, _
  | .style .., _, member, _ | .query .., _, member, _ | .stagger .., _, member, _
  | .animateChild .., _, member, _ => absurd member List.not_mem_nil

theorem Tree.nodes_of_mem_allTransitions {clocked : ClockedTree ν} {node : Tree ν} :
    ∀ (trees : List (Tree ν)) (scope : Params ν), clocked ∈ Tree.allTransitions scope trees →
      node ∈ clocked.tree.nodes → node ∈ Tree.allNodes trees
  | [], _, member, _ => absurd member List.not_mem_nil
  | tree :: rest, scope, member, inside => by
    rcases List.mem_append.1 member with here | later
    · exact List.mem_append_left _ (nodes_of_mem_transitions tree scope here inside)
    · exact List.mem_append_right _ (nodes_of_mem_allTransitions rest scope later inside)

end

/-- A tree and the animations of its transitions: everything that is entered at time zero. -/
def Tree.clocks (scope : Params ν) (tree : Tree ν) : List (ClockedTree ν) :=
  ⟨scope, tree⟩ :: tree.transitions scope

theorem windowsOf_eq_nil {property : String} {agenda : List (Booking ν)}
    (others : ∀ booking ∈ agenda, booking.property ≠ property) :
    windowsOf property agenda = [] := by
  rw [windowsOf, List.map_eq_nil_iff, List.filter_eq_nil_iff]
  intro booking booked
  rw [beq_iff_eq]
  exact others booking booked

variable [Scalar ν]

/-- The windows in which a property is written on the clock of the tree, in order. -/
def ClockedTree.writes (clocked : ClockedTree ν) (property : String) : List (Window ν) :=
  windowsOf property (clocked.tree.agenda clocked.scope 0)

/-! ## Booking behind a recorded window -/

namespace Occupancy

/-- The occupancy of a property when an agenda is booked behind the window recorded before. -/
def after (property : String) (recorded : Option (Window ν)) (agenda : List (Booking ν)) :
    Occupancy ν :=
  (windowsOf property agenda).foldl (book property) ⟨recorded, []⟩

/-- The collisions found before are carried along, and decide nothing. -/
theorem book_eq (property : String) (occupancy : Occupancy ν) (incoming : Window ν) :
    occupancy.book property incoming =
      ⟨(book property ⟨occupancy.window, []⟩ incoming).window,
        occupancy.collisions ++ (book property ⟨occupancy.window, []⟩ incoming).collisions⟩ := by
  unfold book
  cases occupancy.window with
  | none => rw [List.append_nil]
  | some existing =>
    cases found : !existing.coincides incoming && existing.overlaps incoming
    · simp only [found, Bool.false_eq_true, if_false, List.append_nil]
    · simp only [found, if_true, List.nil_append]

theorem foldl_book_eq (property : String) (windows : List (Window ν)) (occupancy : Occupancy ν) :
    windows.foldl (book property) occupancy =
      ⟨(windows.foldl (book property) ⟨occupancy.window, []⟩).window,
        occupancy.collisions ++
          (windows.foldl (book property) ⟨occupancy.window, []⟩).collisions⟩ := by
  induction windows generalizing occupancy with
  | nil => simp only [List.foldl_nil, List.append_nil]
  | cons window rest ih =>
    rw [List.foldl_cons, List.foldl_cons, ih, ih (book property ⟨occupancy.window, []⟩ window),
      book_eq property occupancy window, List.append_assoc]

theorem after_append (property : String) (recorded : Option (Window ν))
    (earlier later : List (Booking ν)) :
    after property recorded (earlier ++ later) =
      ⟨(after property (after property recorded earlier).window later).window,
        (after property recorded earlier).collisions ++
          (after property (after property recorded earlier).window later).collisions⟩ := by
  rw [after, windowsOf_append, List.foldl_append]
  exact foldl_book_eq property _ _

end Occupancy

/-- The collisions on a property that are found on the clock of the tree. -/
def ClockedTree.collisions (clocked : ClockedTree ν) (property : String) : List (Problem ν) :=
  (Occupancy.after property none (clocked.tree.agenda clocked.scope 0)).collisions

/-! ## The walk -/

namespace Survey

/-- From one state to the other, the walk booked an agenda on its own clock, and passed transitions
that are validated on clocks of their own. -/
structure Keeps (before : Survey ν) (agenda : List (Booking ν)) (others : List (ClockedTree ν))
    (after : Survey ν) : Prop where
  windows : ∀ property, after.windows.get? property =
    (Occupancy.after property (before.windows.get? property) agenda).window
  collisions : ∀ property problem, problem.collidesOn property = true →
    (problem ∈ after.problems ↔ problem ∈ before.problems ∨
      problem ∈ (Occupancy.after property (before.windows.get? property) agenda).collisions ∨
        ∃ other ∈ others, problem ∈ other.collisions property)

theorem Books.keeps {before after : Survey ν} {agenda : List (Booking ν)}
    (booked : before.Books agenda after) : before.Keeps agenda [] after := by
  have folded := fun property => (booked property).trans (Occupancy.foldl_book_eq property _ _)
  refine ⟨fun property => congrArg Occupancy.window (folded property), ?_⟩
  intro property problem collision
  have kept : ∀ survey : Survey ν, problem ∈ survey.problems ↔
      problem ∈ (survey.occupancy property).collisions := by
    intro survey
    exact ⟨fun member => List.mem_filter.2 ⟨member, collision⟩,
      fun member => (List.mem_filter.1 member).1⟩
  rw [kept after, kept before, congrArg Occupancy.collisions (folded property), List.mem_append]
  simp only [List.not_mem_nil, false_and, exists_false, or_false]
  exact Iff.rfl

theorem keeps_nil (survey : Survey ν) : survey.Keeps [] [] survey :=
  survey.books_nil.keeps

theorem Keeps.setClock {before after : Survey ν} {agenda : List (Booking ν)}
    {others : List (ClockedTree ν)} (kept : before.Keeps agenda others after) (clock : ν) :
    before.Keeps agenda others (after.setClock clock) :=
  ⟨kept.windows, kept.collisions⟩

theorem Keeps.trans {before middle after : Survey ν} {first second : List (Booking ν)}
    {passed following : List (ClockedTree ν)} (earlier : before.Keeps first passed middle)
    (later : middle.Keeps second following after) :
    before.Keeps (first ++ second) (passed ++ following) after := by
  constructor
  · intro property
    rw [later.windows, earlier.windows, Occupancy.after_append]
  · intro property problem collision
    rw [later.collisions property problem collision,
      earlier.collisions property problem collision, earlier.windows, Occupancy.after_append]
    simp only [List.mem_append, or_and_right, exists_or, or_assoc]
    exact or_congr_right (or_congr_right or_left_comm)

/-- Behind a transition nothing is left of its clock but what was reported. -/
theorem Keeps.transition {survey inner : Survey ν} {scope : Params ν} {animation : Tree ν}
    {others : List (ClockedTree ν)}
    (kept : Keeps ⟨0, ∅, survey.problems⟩ (animation.agenda scope 0) others inner) :
    survey.Keeps [] (⟨scope, animation⟩ :: others) { survey with problems := inner.problems } := by
  refine ⟨fun _ => rfl, ?_⟩
  intro property problem collision
  have unbooked :
      (Occupancy.after property (survey.windows.get? property) []).collisions = [] := rfl
  rw [unbooked]
  simp only [List.mem_cons, or_and_right, exists_or, exists_eq_left, List.not_mem_nil, false_or]
  exact kept.collisions property problem collision

mutual

/-- **The walk keeps the clocks of a tree apart**: it books the agenda of the tree on its own clock,
and finds the collisions of each transition on the clock of the transition. -/
theorem keeps_visit : ∀ (tree : Tree ν) (scope : Params ν) (survey : Survey ν),
    survey.Keeps (tree.agenda scope survey.clock) (tree.transitions scope)
      (visit scope tree survey)
  | .sequence steps, scope, survey => keeps_visitSteps steps scope survey
  | .group branches, scope, survey =>
    keeps_visitBranches branches scope survey.clock survey.clock survey
  | .animate timing payload, scope, survey =>
    (books_checkAnimate scope timing payload survey).keeps
  | .style step, scope, survey => (books_checkStep scope step _ survey).keeps
  | .reference animation defaults, scope, survey => by
    rw [visit, Tree.agenda, Tree.transitions]
    exact keeps_visit animation _ survey
  | .animateRef animation defaults overrides, scope, survey => by
    rw [visit, Tree.agenda, Tree.transitions]
    exact keeps_visit animation _ survey
  | .trigger _ definitions, scope, survey => keeps_visitSteps definitions scope survey
  | .transition _ animation params, scope, survey => by
    rw [visit, Tree.transitions]
    exact (keeps_visit animation (referenceScope params scope) ⟨0, ∅, survey.problems⟩).transition
  | .state .., _, survey => survey.keeps_nil
  | .keyframes .., _, survey => (survey.books_report (uncollided_singleton fun _ => rfl)).keeps
  | .query .., _, survey => (survey.books_report (uncollided_singleton fun _ => rfl)).keeps
  | .stagger .., _, survey => (survey.books_report (uncollided_singleton fun _ => rfl)).keeps
  | .animateChild .., _, survey => (survey.books_report (uncollided_singleton fun _ => rfl)).keeps

theorem keeps_visitSteps : ∀ (steps : List (Tree ν)) (scope : Params ν) (survey : Survey ν),
    survey.Keeps (Tree.agendaSteps scope steps survey.clock) (Tree.allTransitions scope steps)
      (visitSteps scope steps survey)
  | [], _, survey => survey.keeps_nil
  | step :: rest, scope, survey => by
    have visited := keeps_visitSteps rest scope (visit scope step survey)
    rw [clock_visit] at visited
    exact (keeps_visit step scope survey).trans visited

theorem keeps_visitBranches : ∀ (branches : List (Tree ν)) (scope : Params ν)
    (origin furthest : ν) (survey : Survey ν),
    survey.Keeps (Tree.agendaBranches scope branches origin) (Tree.allTransitions scope branches)
      (visitBranches scope origin branches furthest survey)
  | [], _, _, furthest, survey => survey.keeps_nil.setClock furthest
  | branch :: rest, scope, origin, furthest, survey => by
    have visited := keeps_visit branch scope (survey.setClock origin)
    have entered : survey.Keeps (branch.agenda scope origin) (branch.transitions scope)
        (visit scope branch (survey.setClock origin)) :=
      ⟨visited.windows, visited.collisions⟩
    exact entered.trans (keeps_visitBranches rest scope origin _ _)

end

end Survey

/-- **The collisions of a validation** are those found on the clock of the tree and on the clocks
of its transitions. -/
theorem Tree.mem_validate_iff (tree : Tree ν) (scope : Params ν) {property : String}
    {problem : Problem ν} (collision : problem.collidesOn property = true) :
    problem ∈ tree.validate scope ↔
      ∃ clocked ∈ tree.clocks scope, problem ∈ clocked.collisions property := by
  have found := (Survey.keeps_visit tree scope Survey.start).collisions property problem collision
  simp only [Survey.start, List.not_mem_nil, false_or] at found
  simp only [Tree.clocks, List.mem_cons, or_and_right, exists_or, exists_eq_left]
  exact found

end Storyboard
