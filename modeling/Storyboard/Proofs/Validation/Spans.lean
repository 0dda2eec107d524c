import Storyboard.Proofs.Validation.Clocks
import Storyboard.Proofs.Validation.Collision

/-!
# What a reported collision witnesses

The window that the walk records for a property is joined from the windows written so far: it starts
where one of them starts, and stops where one of them stops, and it also covers whatever lies
between. So a collision names such a span and a later write, and the two overlap and do not coincide
(`Tree.collision_spans_writes`); when no span between two earlier writes crosses a later write,
nothing is reported.

The span need not be the window of any single write. A property that rests in one branch while
another branch writes it is reported, although no two of its windows overlap
(`restingColor_is_reported`).
-/

set_option autoImplicit false

namespace Storyboard

variable {ν : Type} [Scalar ν]

/-! ## Spans -/

namespace Window

/-- The span from the start of one window to the stop of another. -/
def span (first last : Window ν) : Window ν :=
  ⟨first.start, last.stop⟩

/-- The windows overlap, and they are not the same. -/
def Crosses (first second : Window ν) : Prop :=
  first.overlaps second = true ∧ first.coincides second = false

instance (first second : Window ν) : Decidable (first.Crosses second) :=
  inferInstanceAs (Decidable (_ ∧ _))

/-- No span between two windows of the list crosses a window behind them. -/
def Uncrossed (windows : List (Window ν)) : Prop :=
  ∀ earlier window later, windows = earlier ++ window :: later →
    ∀ first ∈ earlier, ∀ last ∈ earlier, ¬(first.span last).Crosses window

theorem uncrossed_iff {windows : List (Window ν)} : Uncrossed windows ↔
    ∀ place, (below : place < windows.length) → ∀ first ∈ windows.take place,
      ∀ last ∈ windows.take place, ¬(first.span last).Crosses windows[place] := by
  constructor
  · intro uncrossed place below
    exact uncrossed _ _ _ (by rw [List.getElem_cons_drop, List.take_append_drop])
  · rintro uncrossed earlier window later rfl
    have here := uncrossed earlier.length (by simp)
    simpa only [List.take_left, List.getElem_append_right le_rfl, Nat.sub_self,
      List.getElem_cons_zero] using here

instance (windows : List (Window ν)) : Decidable (Uncrossed windows) :=
  decidable_of_iff' _ uncrossed_iff

/-- The window starts where one window of the list starts, and stops where one of them stops. -/
structure EndsIn (windows : List (Window ν)) (window : Window ν) : Prop where
  starts : ∃ first ∈ windows, window.start = first.start
  stops : ∃ last ∈ windows, window.stop = last.stop

variable {windows : List (Window ν)} {window other : Window ν}

omit [Scalar ν] in
theorem endsIn_of_mem (member : window ∈ windows) : EndsIn windows window :=
  ⟨⟨window, member, rfl⟩, ⟨window, member, rfl⟩⟩

omit [Scalar ν] in
theorem EndsIn.append (ends : EndsIn windows window) (later : List (Window ν)) :
    EndsIn (windows ++ later) window := by
  obtain ⟨⟨first, opens, opened⟩, ⟨last, closes, closed⟩⟩ := ends
  exact ⟨⟨first, List.mem_append_left _ opens, opened⟩,
    ⟨last, List.mem_append_left _ closes, closed⟩⟩

theorem EndsIn.join (ends : EndsIn windows window) (otherEnds : EndsIn windows other) :
    EndsIn windows (window.join other) := by
  constructor
  · rcases Scalar.smaller_eq window.start other.start with taken | taken
    · simpa only [Window.join, taken] using ends.starts
    · simpa only [Window.join, taken] using otherEnds.starts
  · rcases Scalar.larger_eq window.stop other.stop with taken | taken
    · simpa only [Window.join, taken] using ends.stops
    · simpa only [Window.join, taken] using otherEnds.stops

omit [Scalar ν] in
theorem EndsIn.eq_span (ends : EndsIn windows window) :
    ∃ first ∈ windows, ∃ last ∈ windows, window = first.span last := by
  obtain ⟨⟨first, opens, opened⟩, ⟨last, closes, closed⟩⟩ := ends
  exact ⟨first, opens, last, closes, by rw [span, ← opened, ← closed]⟩

end Window

/-! ## Booking windows -/

namespace Occupancy

/-- A booking reports the recorded window and the incoming one if they cross, and then records
nothing; otherwise it records the incoming window, or joins it to the recorded one. -/
theorem book_cases (property : String) (occupancy : Occupancy ν) (incoming : Window ν) :
    (∃ existing, occupancy.window = some existing ∧ existing.Crosses incoming ∧
      occupancy.book property incoming = ⟨some existing,
        occupancy.collisions ++ [.collision property existing incoming]⟩) ∨
    (occupancy.book property incoming).collisions = occupancy.collisions ∧
      (occupancy.book property incoming).window =
        some (Window.widen occupancy.window incoming) := by
  cases recorded : occupancy.window with
  | none => exact .inr ⟨by simp only [book, recorded], by simp only [book, recorded, Window.widen]⟩
  | some existing =>
    cases crossed : !existing.coincides incoming && existing.overlaps incoming with
    | true =>
      obtain ⟨apart, shared⟩ := Bool.and_eq_true_iff.1 crossed
      refine .inl ⟨existing, rfl, ⟨shared, Bool.not_inj apart⟩, ?_⟩
      simp only [book, recorded, crossed, if_true]
    | false =>
      refine .inr ⟨?_, ?_⟩
      · simp only [book, recorded, crossed, Bool.false_eq_true, if_false]
      · simp only [book, recorded, crossed, Bool.false_eq_true, if_false, Window.widen]

/-- The window recorded for a property ends where windows that were booked end. -/
theorem endsIn_window (property : String) (windows : List (Window ν)) {recorded : Window ν}
    (found : (windows.foldl (book property) ⟨none, []⟩).window = some recorded) :
    Window.EndsIn windows recorded := by
  induction windows using List.reverseRecOn generalizing recorded with
  | nil => cases found
  | append_singleton windows incoming ih =>
    rw [List.foldl_append, List.foldl_cons, List.foldl_nil] at found
    have newest : Window.EndsIn (windows ++ [incoming]) incoming :=
      Window.endsIn_of_mem (List.mem_append_right _ List.mem_cons_self)
    rcases book_cases property (windows.foldl (book property) ⟨none, []⟩) incoming with
      ⟨existing, before, _, reported⟩ | ⟨_, widened⟩
    · rw [reported] at found
      obtain rfl := Option.some.inj found
      exact (ih before).append _
    · rw [widened] at found
      obtain rfl := Option.some.inj found
      cases before : (windows.foldl (book property) ⟨none, []⟩).window with
      | none => exact newest
      | some existing => exact ((ih before).append _).join newest

/-- A collision found while windows are booked names a span between two of them that crosses one
behind them. -/
theorem collision_eq_span (property : String) (windows : List (Window ν)) {problem : Problem ν}
    (found : problem ∈ (windows.foldl (book property) ⟨none, []⟩).collisions) :
    ∃ earlier window later, windows = earlier ++ window :: later ∧
      ∃ first ∈ earlier, ∃ last ∈ earlier, (first.span last).Crosses window ∧
        problem = .collision property (first.span last) window := by
  induction windows using List.reverseRecOn with
  | nil => exact absurd found List.not_mem_nil
  | append_singleton windows incoming ih =>
    rw [List.foldl_append, List.foldl_cons, List.foldl_nil] at found
    have before : problem ∈ (windows.foldl (book property) ⟨none, []⟩).collisions →
        ∃ earlier window later, windows ++ [incoming] = earlier ++ window :: later ∧
          ∃ first ∈ earlier, ∃ last ∈ earlier, (first.span last).Crosses window ∧
            problem = .collision property (first.span last) window := by
      intro member
      obtain ⟨earlier, window, later, rfl, spanned⟩ := ih member
      exact ⟨earlier, window, later ++ [incoming],
        by rw [List.append_assoc, List.cons_append], spanned⟩
    rcases book_cases property (windows.foldl (book property) ⟨none, []⟩) incoming with
      ⟨existing, recorded, crossed, reported⟩ | ⟨silent, _⟩
    · rw [reported, List.mem_append, List.mem_singleton] at found
      rcases found with member | rfl
      · exact before member
      · obtain ⟨first, opens, last, closes, rfl⟩ :=
          (endsIn_window property windows recorded).eq_span
        exact ⟨windows, incoming, [], rfl, first, opens, last, closes, crossed, rfl⟩
    · rw [silent] at found
      exact before found

end Occupancy

/-! ## What a validation reports -/

/-- **What a reported collision witnesses.** A collision on a property names the span from the start
of one of its writes to the stop of one, and a write behind both on the same clock, and the span
overlaps this write without coinciding with it. So where no span between two writes of a property
crosses a later write of it, no collision is reported. -/
theorem Tree.collision_spans_writes (tree : Tree ν) (scope : Params ν) :
    (∀ problem ∈ tree.validate scope, ∀ property, problem.collidesOn property = true →
      ∃ clocked ∈ tree.clocks scope, ∃ earlier window later,
        clocked.writes property = earlier ++ window :: later ∧
          ∃ first ∈ earlier, ∃ last ∈ earlier, (first.span last).Crosses window ∧
            problem = .collision property (first.span last) window) ∧
    ((∀ clocked ∈ tree.clocks scope, ∀ property, Window.Uncrossed (clocked.writes property)) →
      Uncollided (tree.validate scope)) := by
  have witnessed : ∀ problem ∈ tree.validate scope, ∀ property,
      problem.collidesOn property = true →
      ∃ clocked ∈ tree.clocks scope, ∃ earlier window later,
        clocked.writes property = earlier ++ window :: later ∧
          ∃ first ∈ earlier, ∃ last ∈ earlier, (first.span last).Crosses window ∧
            problem = .collision property (first.span last) window := by
    intro problem reported property collision
    obtain ⟨clocked, member, found⟩ := (tree.mem_validate_iff scope collision).1 reported
    exact ⟨clocked, member, Occupancy.collision_eq_span property _ found⟩
  refine ⟨witnessed, ?_⟩
  intro uncrossed problem reported property
  by_contra collision
  obtain ⟨clocked, member, earlier, window, later, split, first, opens, last, closes, crossed, _⟩ :=
    witnessed problem reported property (Bool.not_eq_false _ ▸ collision)
  exact uncrossed clocked member property earlier window later split first opens last closes crossed

/-- A color that changes, rests and changes again, beside a color that changes meanwhile. -/
def restingColor : Tree Binary64 :=
  .group [.sequence [colorTo 100 "red", .animateEmpty (.millis (Binary64.ofNat 100)),
      colorTo 100 "blue"],
    .sequence [.animateEmpty (.millis (Binary64.ofNat 100)), colorTo 100 "green"]]

/-- Two colors that change in step, and then one of them again. -/
def pairedColors : Tree Binary64 :=
  .sequence [.group [colorTo 100 "red", colorTo 100 "green"], colorTo 50 "blue"]

theorem collision_spans_restingColor :
    (∃ first last window : Window Binary64, (first.span last).Crosses window ∧
      Problem.collision "color" (first.span last) window ∈ restingColor.validate ∅) ∧
    Uncollided (pairedColors.validate ∅) := by
  constructor
  · obtain ⟨problem, reported, collision⟩ :
        ∃ problem ∈ restingColor.validate ∅, problem.collidesOn "color" = true := by
      decide +kernel
    obtain ⟨_, _, _, window, _, _, first, _, last, _, crossed, rfl⟩ :=
      (restingColor.collision_spans_writes ∅).1 problem reported "color" collision
    exact ⟨first, last, window, crossed, reported⟩
  · refine (pairedColors.collision_spans_writes ∅).2 ?_
    intro clocked member property
    obtain rfl := List.mem_singleton.1 member
    have named : ∀ booking ∈ pairedColors.agenda ∅ 0, booking.property = "color" := by
      decide +kernel
    by_cases other : property = "color"
    · subst other
      decide +kernel
    · rw [ClockedTree.writes, windowsOf_eq_nil fun booking booked same =>
        other (same.symm.trans (named booking booked))]
      decide +kernel

/-- No two windows in which a property is written overlap, and yet a collision is reported. -/
theorem restingColor_is_reported :
    (∀ clocked ∈ restingColor.clocks ∅, ∀ property, (clocked.writes property).Pairwise
      fun first second => first.overlaps second = false) ∧
    ∃ problem ∈ restingColor.validate ∅, problem.collidesOn "color" = true := by
  refine ⟨?_, by decide +kernel⟩
  intro clocked member property
  obtain rfl := List.mem_singleton.1 member
  have named : ∀ booking ∈ restingColor.agenda ∅ 0, booking.property = "color" := by
    decide +kernel
  by_cases other : property = "color"
  · subst other
    decide +kernel
  · rw [ClockedTree.writes, windowsOf_eq_nil fun booking booked same =>
      other (same.symm.trans (named booking booked))]
    exact List.Pairwise.nil

end Storyboard
