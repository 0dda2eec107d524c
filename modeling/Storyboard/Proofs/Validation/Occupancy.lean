import Storyboard.Proofs.Validation.Agenda
import Storyboard.Proofs.Validation.TextProblems

/-!
# The validation keeps the agenda

What the walk of the validation knows of one property is its occupancy: the window recorded so
far, and the collisions reported so far. One booking changes the occupancy by `Occupancy.book`,
whatever the rest of the state is, and the other problems that a walk reports are no collisions.
So the walk is a fold: on a tree without transitions it books the agenda of the tree, in order
(`Survey.books_visit`), on the clock on which the agenda was made (`Survey.clock_visit`).
-/

set_option autoImplicit false

namespace Storyboard

variable {ν : Type}

/-! ## Problems that are no collisions -/

/-- The problem is a collision on a property. -/
def Problem.collidesOn (property : String) : Problem ν → Bool
  | .collision name _ _ => name == property
  | _ => false

/-- None of the problems is a collision. -/
def Uncollided (problems : List (Problem ν)) : Prop :=
  ∀ problem ∈ problems, ∀ property, problem.collidesOn property = false

theorem uncollided_nil : Uncollided ([] : List (Problem ν)) :=
  fun _ member => absurd member List.not_mem_nil

theorem uncollided_singleton {problem : Problem ν}
    (other : ∀ property, problem.collidesOn property = false) : Uncollided [problem] := by
  intro single member
  rw [List.mem_singleton.1 member]
  exact other

theorem Uncollided.append {first second : List (Problem ν)} (earlier : Uncollided first)
    (later : Uncollided second) : Uncollided (first ++ second) := by
  intro problem member
  rcases List.mem_append.1 member with inside | inside
  · exact earlier problem inside
  · exact later problem inside

theorem uncollided_ite (condition : Prop) [Decidable condition] {problem : Problem ν}
    (other : ∀ property, problem.collidesOn property = false) :
    Uncollided (if condition then [problem] else []) := by
  split
  · exact uncollided_singleton other
  · exact uncollided_nil

variable [Scalar ν]

omit [Scalar ν] in
theorem Problem.OfText.collidesOn_eq {problem : Problem ν} (ofText : problem.OfText)
    (property : String) : problem.collidesOn property = false := by
  cases ofText <;> rfl

theorem Value.uncollided_fill (scope : Params ν) (value : Value ν) :
    Uncollided (value.fill scope).2 :=
  fun problem member => (value.ofText_fill scope problem member).collidesOn_eq

theorem Timing.uncollided_resolve (scope : Params ν) (timing : Timing ν) :
    Uncollided (timing.resolve scope).2 :=
  fun problem member => (timing.ofText_resolve scope problem member).collidesOn_eq

theorem uncollided_offsetProblems (steps : List (StyleStep ν)) :
    Uncollided (offsetProblems steps) :=
  ((uncollided_ite _ fun _ => rfl).append (uncollided_ite _ fun _ => rfl)).append
    (uncollided_ite _ fun _ => rfl)

/-! ## The occupancy of a property -/

/-- The window in which a property has been animated so far, and the collisions found on it. -/
structure Occupancy (ν : Type) where
  window : Option (Window ν)
  collisions : List (Problem ν)

/-- Takes a booking: it collides with the window recorded so far, or widens it. -/
def Occupancy.book (property : String) (occupancy : Occupancy ν) (incoming : Window ν) :
    Occupancy ν :=
  match occupancy.window with
  | none => { occupancy with window := some incoming }
  | some existing =>
    if !existing.coincides incoming && existing.overlaps incoming then
      { occupancy with
        collisions := occupancy.collisions ++ [.collision property existing incoming] }
    else { occupancy with window := some (existing.join incoming) }

/-- The windows that an agenda books for a property, in order. -/
def windowsOf (property : String) (agenda : List (Booking ν)) : List (Window ν) :=
  (agenda.filter fun booking => booking.property == property).map Booking.window

omit [Scalar ν] in
theorem windowsOf_append (property : String) (earlier later : List (Booking ν)) :
    windowsOf property (earlier ++ later) =
      windowsOf property earlier ++ windowsOf property later := by
  simp only [windowsOf, List.filter_append, List.map_append]

namespace Survey

/-- What a state of the walk knows of a property. -/
def occupancy (survey : Survey ν) (property : String) : Occupancy ν :=
  ⟨survey.windows.get? property, survey.problems.filter (Problem.collidesOn property)⟩

/-- From one state to the other, the walk took the bookings of an agenda in order. -/
def Books (before : Survey ν) (agenda : List (Booking ν)) (after : Survey ν) : Prop :=
  ∀ property, after.occupancy property =
    (windowsOf property agenda).foldl (Occupancy.book property) (before.occupancy property)

theorem books_nil (survey : Survey ν) : survey.Books [] survey :=
  fun _ => rfl

theorem books_report (survey : Survey ν) {problems : List (Problem ν)}
    (uncollided : Uncollided problems) : survey.Books [] (survey.report problems) := by
  intro property
  have dropped : problems.filter (Problem.collidesOn property) = [] :=
    List.filter_eq_nil_iff.2 fun problem member =>
      Bool.eq_false_iff.1 (uncollided problem member property)
  simp only [occupancy, report, List.filter_append, dropped, List.append_nil]
  rfl

theorem Books.trans {before middle after : Survey ν} {first second : List (Booking ν)}
    (earlier : before.Books first middle) (later : middle.Books second after) :
    before.Books (first ++ second) after := by
  intro property
  rw [later property, earlier property, windowsOf_append, List.foldl_append]

theorem Books.setClock {before after : Survey ν} {agenda : List (Booking ν)}
    (booked : before.Books agenda after) (clock : ν) : before.Books agenda (after.setClock clock) :=
  booked

/-- A write books its window for its property, and for no other one. -/
theorem books_write (survey : Survey ν) (window : Window ν) (name : String) :
    survey.Books [⟨name, window⟩] (survey.write window name) := by
  intro property
  by_cases same : name = property
  · subst same
    have single : windowsOf name [⟨name, window⟩] = [window] := by simp [windowsOf]
    rw [single, List.foldl_cons, List.foldl_nil]
    unfold write Occupancy.book
    cases found : survey.windows.get? name with
    | none => simp [occupancy, found, OrderedMap.get?_insert]
    | some existing =>
      simp only [occupancy, found]
      split
      · simp [report, found, Problem.collidesOn]
      · simp [OrderedMap.get?_insert]
  · have none : windowsOf property [⟨name, window⟩] = [] := by simp [windowsOf, same]
    rw [none, List.foldl_nil]
    unfold write
    split
    · simp [occupancy, OrderedMap.get?_insert, same]
    · split
      · simp [occupancy, report, Problem.collidesOn, same]
      · simp [occupancy, OrderedMap.get?_insert, same]

/-! ## The walk -/

theorem books_checkEntry (scope : Params ν) (window : Window ν) (survey : Survey ν)
    (entry : String × Value ν) :
    survey.Books
      (([entry.1].filter fun name => name ≠ offsetKey ∧ name ≠ easingKey).map
        fun property => ⟨property, window⟩)
      (survey.checkEntry scope window entry) := by
  simp only [checkEntry]
  have reported := survey.books_report (entry.2.uncollided_fill scope)
  split
  · next reserved => simpa [reserved] using survey.books_nil
  · next plain =>
    split
    · next reserved => simpa [reserved, plain] using reported
    · next free =>
      have written := reported.trans (books_write _ window entry.1)
      simpa [plain, free] using written

theorem books_checkEntries (scope : Params ν) (window : Window ν)
    (entries : List (String × Value ν)) (survey : Survey ν) :
    survey.Books
      (((entries.map Prod.fst).filter fun name => name ≠ offsetKey ∧ name ≠ easingKey).map
        fun property => ⟨property, window⟩)
      (entries.foldl (checkEntry scope window) survey) := by
  induction entries generalizing survey with
  | nil => exact survey.books_nil
  | cons entry rest ih =>
    have both := (books_checkEntry scope window survey entry).trans (ih _)
    rwa [← List.map_append, ← List.filter_append, List.singleton_append] at both

theorem books_checkStep (scope : Params ν) (step : StyleStep ν) (window : Window ν)
    (survey : Survey ν) :
    survey.Books (step.bookings window) (survey.checkStep scope step window) :=
  books_checkEntries scope window step.merged.entries survey

theorem books_checkSteps (scope : Params ν) (origin duration : ν) :
    ∀ (steps : List (StyleStep ν × ν)) (previous : ν) (survey : Survey ν),
      survey.Books (keyframeBookings origin duration steps previous)
        (checkSteps scope origin duration steps previous survey)
  | [], _, survey => survey.books_nil
  | (step, _) :: rest, _, survey =>
    (books_checkStep scope step _ survey).trans
      (books_checkSteps scope origin duration rest _ _)

@[simp] theorem clock_write (survey : Survey ν) (window : Window ν) (property : String) :
    (survey.write window property).clock = survey.clock := by
  unfold write
  split
  · rfl
  · split <;> rfl

@[simp] theorem clock_checkEntry (scope : Params ν) (window : Window ν) (survey : Survey ν)
    (entry : String × Value ν) : (survey.checkEntry scope window entry).clock = survey.clock := by
  simp only [checkEntry]
  split
  · rfl
  · split
    · rfl
    · exact clock_write _ window entry.1

@[simp] theorem clock_checkStep (scope : Params ν) (step : StyleStep ν) (window : Window ν)
    (survey : Survey ν) : (survey.checkStep scope step window).clock = survey.clock := by
  refine List.foldlRecOn (motive := fun checked => checked.clock = survey.clock)
    step.merged.entries (checkEntry scope window) rfl ?_
  intro checked same entry _
  exact (clock_checkEntry scope window checked entry).trans same

theorem clock_checkAnimate (scope : Params ν) (timing : Timing ν) (payload : Option (Payload ν))
    (survey : Survey ν) :
    (survey.checkAnimate scope timing payload).clock =
      survey.clock + (timing.resolve scope).1.total := by
  cases payload with
  | none => rfl
  | some payload =>
    cases payload with
    | keyframes steps => rfl
    | style step => exact clock_checkStep scope step _ _

/-- An animated step books its payload. -/
theorem books_checkAnimate (scope : Params ν) (timing : Timing ν) (payload : Option (Payload ν))
    (survey : Survey ν) :
    survey.Books ((Tree.animate timing payload).agenda scope survey.clock)
      (survey.checkAnimate scope timing payload) := by
  have reported := survey.books_report (timing.uncollided_resolve scope)
  cases payload with
  | none => exact reported.setClock _
  | some payload =>
    cases payload with
    | keyframes steps =>
      have offsets := reported.trans (books_report _ (uncollided_offsetProblems steps))
      have checked := books_checkSteps scope (survey.clock + (timing.resolve scope).1.delay)
        (timing.resolve scope).1.duration (steps.zip (keyframeOffsets steps))
        (survey.clock + (timing.resolve scope).1.delay)
        ((survey.report (timing.resolve scope).2).report (offsetProblems steps))
      exact (offsets.trans checked).setClock _
    | style step =>
      exact (reported.setClock _).trans (books_checkStep scope step _ _)

mutual

/-- The walk leaves a tree at the time at which a plain clock leaves it. -/
theorem clock_visit : ∀ (tree : Tree ν) (scope : Params ν) (survey : Survey ν),
    (visit scope tree survey).clock = tree.clockAfter scope survey.clock
  | .sequence steps, scope, survey => clock_visitSteps steps scope survey
  | .group branches, scope, survey =>
    clock_visitBranches branches scope survey.clock survey.clock survey
  | .animate timing payload, scope, survey => clock_checkAnimate scope timing payload survey
  | .style step, scope, survey => clock_checkStep scope step _ survey
  | .reference animation defaults, scope, survey => by
    rw [visit, Tree.clockAfter]
    exact clock_visit animation _ survey
  | .animateRef animation defaults overrides, scope, survey => by
    rw [visit, Tree.clockAfter]
    exact clock_visit animation _ survey
  | .trigger _ definitions, scope, survey => clock_visitSteps definitions scope survey
  | .transition .., _, _ => rfl
  | .keyframes .., _, _ => rfl
  | .state .., _, _ => rfl
  | .query .., _, _ => rfl
  | .stagger .., _, _ => rfl
  | .animateChild .., _, _ => rfl

theorem clock_visitSteps : ∀ (steps : List (Tree ν)) (scope : Params ν) (survey : Survey ν),
    (visitSteps scope steps survey).clock = Tree.clockAfterSteps scope steps survey.clock
  | [], _, _ => rfl
  | step :: rest, scope, survey => by
    rw [visitSteps, clock_visitSteps rest, clock_visit step, Tree.clockAfterSteps]

theorem clock_visitBranches : ∀ (branches : List (Tree ν)) (scope : Params ν)
    (origin furthest : ν) (survey : Survey ν),
    (visitBranches scope origin branches furthest survey).clock =
      Tree.furthestClock scope origin branches furthest
  | [], _, _, _, _ => rfl
  | branch :: rest, scope, origin, furthest, survey => by
    simp only [visitBranches, Tree.furthestClock, clock_visitBranches rest, clock_visit branch]
    rfl

end

mutual

/-- **The walk books the agenda of a tree without transitions**, in order. -/
theorem books_visit : ∀ (tree : Tree ν), tree.TransitionFree →
    ∀ (scope : Params ν) (survey : Survey ν),
      survey.Books (tree.agenda scope survey.clock) (visit scope tree survey)
  | .sequence steps, free, scope, survey => books_visitSteps steps free scope survey
  | .group branches, free, scope, survey =>
    books_visitBranches branches free scope survey.clock survey.clock survey
  | .animate timing payload, _, scope, survey => books_checkAnimate scope timing payload survey
  | .style step, _, scope, survey => books_checkStep scope step _ survey
  | .reference animation defaults, free, scope, survey => by
    rw [visit, Tree.agenda]
    exact books_visit animation free _ survey
  | .animateRef animation defaults overrides, free, scope, survey => by
    rw [visit, Tree.agenda]
    exact books_visit animation free _ survey
  | .trigger _ definitions, free, scope, survey => books_visitSteps definitions free scope survey
  | .transition .., free, _, _ => free.elim
  | .state .., _, _, survey => survey.books_nil
  | .keyframes .., _, _, survey => survey.books_report (uncollided_singleton fun _ => rfl)
  | .query .., _, _, survey => survey.books_report (uncollided_singleton fun _ => rfl)
  | .stagger .., _, _, survey => survey.books_report (uncollided_singleton fun _ => rfl)
  | .animateChild .., _, _, survey => survey.books_report (uncollided_singleton fun _ => rfl)

theorem books_visitSteps : ∀ (steps : List (Tree ν)), Tree.AllTransitionFree steps →
    ∀ (scope : Params ν) (survey : Survey ν),
      survey.Books (Tree.agendaSteps scope steps survey.clock) (visitSteps scope steps survey)
  | [], _, _, survey => survey.books_nil
  | step :: rest, free, scope, survey => by
    have visited := books_visitSteps rest free.2 scope (visit scope step survey)
    rw [clock_visit] at visited
    exact (books_visit step free.1 scope survey).trans visited

theorem books_visitBranches : ∀ (branches : List (Tree ν)), Tree.AllTransitionFree branches →
    ∀ (scope : Params ν) (origin furthest : ν) (survey : Survey ν),
      survey.Books (Tree.agendaBranches scope branches origin)
        (visitBranches scope origin branches furthest survey)
  | [], _, _, _, furthest, survey => survey.books_nil.setClock furthest
  | branch :: rest, free, scope, origin, furthest, survey => by
    have visited := books_visit branch free.1 scope (survey.setClock origin)
    exact Books.trans visited (books_visitBranches rest free.2 scope origin _ _)

end

end Survey

/-- The collisions that a validation reports on a property of a tree without transitions are the
ones met when its windows are booked one after the other. -/
theorem Tree.filter_collidesOn_validate {tree : Tree ν} (free : tree.TransitionFree)
    (scope : Params ν) (property : String) :
    (tree.validate scope).filter (Problem.collidesOn property) =
      ((windowsOf property (tree.agenda scope 0)).foldl (Occupancy.book property)
        ⟨none, []⟩).collisions :=
  congrArg Occupancy.collisions (Survey.books_visit tree free scope Survey.start property)

end Storyboard
