import Mathlib.Data.List.Induction
import Storyboard.Number.Scalar
import Storyboard.Proofs.Validation.Occupancy
import Storyboard.Proofs.Validation.Overlap

/-!
# Which collisions are found

The validation keeps one window for each property and widens it with every write. A write that
coincides with this window is let pass, and the window says nothing about the writes that it was
joined from. So a collision is found when a write overlaps the windows before it taken together
and does not coincide with them taken together, and in no other case
(`Occupancy.collisions_eq_nil_iff`).

Two branches of a group that animate one property in different windows that overlap are therefore
found out, unless the windows booked before the later one fill it exactly
(`Tree.collision_of_parallel_bookings`). That happens: two steps of a branch that follow each
other fill the window of one long step beside them (`filledWindow_is_missed`).
-/

set_option autoImplicit false

namespace Storyboard

variable {ν : Type} [Scalar ν]

/-! ## Booking a list of windows -/

/-- Each window of a list coincides with the windows before it taken together, or does not overlap
them taken together. -/
def Window.Unnoticed (windows : List (Window ν)) : Prop :=
  ∀ earlier window later joined, windows = earlier ++ window :: later →
    Window.hull earlier = some joined →
      joined.coincides window = true ∨ joined.overlaps window = false

namespace Window

theorem unnoticed_nil : Unnoticed ([] : List (Window ν)) := by
  intro earlier window later joined split
  exact absurd split.symm (List.append_ne_nil_of_right_ne_nil _ (List.cons_ne_nil _ _))

theorem unnoticed_concat {windows : List (Window ν)} {last : Window ν} :
    Unnoticed (windows ++ [last]) ↔ Unnoticed windows ∧
      ∀ joined, hull windows = some joined →
        joined.coincides last = true ∨ joined.overlaps last = false := by
  constructor
  · intro unnoticed
    refine ⟨?_, fun joined hulled => unnoticed windows last [] joined rfl hulled⟩
    rintro earlier window later joined rfl hulled
    exact unnoticed earlier window (later ++ [last]) joined
      (by rw [List.append_assoc, List.cons_append]) hulled
  · rintro ⟨unnoticed, fits⟩ earlier window later joined split hulled
    rcases List.eq_nil_or_concat later with rfl | ⟨inner, final, rfl⟩
    · obtain ⟨rfl, same⟩ := List.append_inj' split rfl
      rw [← List.head_eq_of_cons_eq same]
      exact fits joined hulled
    · rw [List.concat_eq_append, ← List.cons_append, ← List.append_assoc] at split
      obtain ⟨rfl, _⟩ := List.append_inj' split rfl
      exact unnoticed earlier window inner joined rfl hulled

end Window

namespace Occupancy

/-- One booking is without a collision when it coincides with the window recorded before, or does
not overlap it. -/
theorem collisions_book_eq_nil_iff (property : String) (occupancy : Occupancy ν)
    (incoming : Window ν) :
    (occupancy.book property incoming).collisions = [] ↔ occupancy.collisions = [] ∧
      ∀ existing, occupancy.window = some existing →
        existing.coincides incoming = true ∨ existing.overlaps incoming = false := by
  unfold book
  cases occupancy.window with
  | none => simp
  | some existing =>
    cases coincident : existing.coincides incoming <;>
      cases shared : existing.overlaps incoming <;> simp [coincident, shared]

theorem window_book (property : String) (occupancy : Occupancy ν) (incoming : Window ν)
    (silent : (occupancy.book property incoming).collisions = []) :
    (occupancy.book property incoming).window =
      some (Window.widen occupancy.window incoming) := by
  have clear := ((collisions_book_eq_nil_iff property occupancy incoming).1 silent).2
  unfold book
  cases found : occupancy.window with
  | none => rfl
  | some existing =>
    have passes : (!existing.coincides incoming && existing.overlaps incoming) = false := by
      rcases clear existing found with coincident | apart
      · rw [coincident, Bool.not_true, Bool.false_and]
      · rw [apart, Bool.and_false]
    simp only [passes, Bool.false_eq_true, if_false, Window.widen]

/-- As long as there is no collision, the window recorded is the hull of the windows booked. -/
theorem window_eq_hull (property : String) (windows : List (Window ν)) :
    (windows.foldl (book property) ⟨none, []⟩).collisions = [] →
      (windows.foldl (book property) ⟨none, []⟩).window = Window.hull windows := by
  induction windows using List.reverseRecOn with
  | nil => exact fun _ => rfl
  | append_singleton windows last ih =>
    rw [List.foldl_append, List.foldl_cons, List.foldl_nil]
    intro silent
    have before := ih ((collisions_book_eq_nil_iff property _ last).1 silent).1
    rw [window_book property _ last silent, before, Window.hull_concat]

/-- Booking a list of windows finds no collision exactly when each of them coincides with the
windows before it taken together, or does not overlap them taken together. -/
theorem collisions_eq_nil_iff (property : String) (windows : List (Window ν)) :
    (windows.foldl (book property) ⟨none, []⟩).collisions = [] ↔ Window.Unnoticed windows := by
  induction windows using List.reverseRecOn with
  | nil => exact ⟨fun _ => Window.unnoticed_nil, fun _ => rfl⟩
  | append_singleton windows last ih =>
    rw [List.foldl_append, List.foldl_cons, List.foldl_nil, collisions_book_eq_nil_iff,
      Window.unnoticed_concat, ← ih]
    refine and_congr_right fun silent => ?_
    rw [window_eq_hull property windows silent]

end Occupancy

/-- A validation finds a collision on a property exactly when some window booked for it overlaps
the ones before it taken together and does not coincide with them taken together. -/
theorem Tree.collision_found_iff {tree : Tree ν} (free : tree.TransitionFree) (scope : Params ν)
    (property : String) :
    (∃ problem ∈ tree.validate scope, problem.collidesOn property = true) ↔
      ¬Window.Unnoticed (windowsOf property (tree.agenda scope 0)) := by
  rw [← Occupancy.collisions_eq_nil_iff property, ← Tree.filter_collidesOn_validate free,
    List.filter_eq_nil_iff]
  simp only [not_forall, not_not, exists_prop]

/-! ## Branches that animate one property -/

omit [Scalar ν] in
theorem mem_windowsOf {property : String} {window : Window ν} {agenda : List (Booking ν)}
    (booked : ⟨property, window⟩ ∈ agenda) : window ∈ windowsOf property agenda :=
  List.mem_map.2 ⟨⟨property, window⟩, List.mem_filter.2 ⟨booked, beq_self_eq_true _⟩, rfl⟩

/-- Of two bookings in different branches of a group, the one of the later branch comes behind the
other one in the agenda. -/
theorem Tree.Meets.windowsOf_eq {scope inner : Params ν} {clock time : ν} {tree : Tree ν}
    {before between after : List (Tree ν)} {first second : Tree ν}
    (met : Tree.Meets scope clock tree inner time
      (.group (before ++ first :: (between ++ second :: after))))
    {property : String} {window other : Window ν}
    (booked : ⟨property, window⟩ ∈ first.agenda inner time)
    (bookedLater : ⟨property, other⟩ ∈ second.agenda inner time) :
    ∃ earlier later, windowsOf property (tree.agenda scope clock) = earlier ++ other :: later ∧
      window ∈ earlier := by
  obtain ⟨front, back, split⟩ := met.agenda_eq
  obtain ⟨passed, rest, cut⟩ := List.append_of_mem (mem_windowsOf bookedLater)
  refine ⟨windowsOf property front ++ windowsOf property (Tree.agendaBranches inner before time) ++
    windowsOf property (first.agenda inner time) ++
      windowsOf property (Tree.agendaBranches inner between time) ++ passed,
    rest ++ windowsOf property (Tree.agendaBranches inner after time) ++ windowsOf property back,
    ?_, ?_⟩
  · simp only [split, Tree.agenda, Tree.agendaBranches, Tree.agendaBranches_append,
      windowsOf_append, cut, List.append_assoc, List.cons_append]
  · simp only [List.mem_append]
    exact .inl (.inl (.inr (mem_windowsOf booked)))

variable [LawfulScalar ν]

/-- **Which collisions between branches are found.** Two branches of a group book one property in
windows that overlap and do not coincide; the branch with the first window stands before the
other. A collision on the property is found exactly when some window booked for it overlaps the
ones before it taken together and does not coincide with them taken together. If none is found,
then the windows before the second of the two, among them the first and one that differs from it,
fill the second exactly. -/
theorem Tree.collision_of_parallel_bookings {tree : Tree ν} (free : tree.TransitionFree)
    {scope inner : Params ν} {time : ν} {before between after : List (Tree ν)}
    {first second : Tree ν}
    (met : Tree.Meets scope 0 tree inner time
      (.group (before ++ first :: (between ++ second :: after))))
    {property : String} {window other : Window ν}
    (booked : ⟨property, window⟩ ∈ first.agenda inner time)
    (bookedLater : ⟨property, other⟩ ∈ second.agenda inner time)
    (shared : window.overlaps other = true) (apart : window.coincides other = false) :
    ((∃ problem ∈ tree.validate scope, problem.collidesOn property = true) ↔
      ¬Window.Unnoticed (windowsOf property (tree.agenda scope 0))) ∧
    ((∃ problem ∈ tree.validate scope, problem.collidesOn property = true) ∨
      ∃ earlier later joined third,
        windowsOf property (tree.agenda scope 0) = earlier ++ other :: later ∧
          window ∈ earlier ∧ third ∈ earlier ∧ third.coincides window = false ∧
            Window.hull earlier = some joined ∧ joined.coincides other = true) := by
  have found := Tree.collision_found_iff free scope property
  refine ⟨found, or_iff_not_imp_left.2 fun silent => ?_⟩
  have unnoticed : Window.Unnoticed (windowsOf property (tree.agenda scope 0)) := by
    by_contra noticed
    exact silent (found.2 noticed)
  obtain ⟨earlier, later, split, member⟩ := met.windowsOf_eq booked bookedLater
  obtain ⟨joined, hulled, hullShared⟩ := Window.overlaps_hull member shared
  have filled : joined.coincides other = true := by
    rcases unnoticed earlier other later joined split hulled with coincident | disjoint
    · exact coincident
    · exact absurd hullShared (Bool.eq_false_iff.1 disjoint)
  -- Copies of the first window alone would fill the first window, which the second one is not.
  have third : ∃ third ∈ earlier, third.coincides window = false := by
    by_contra copies
    push Not at copies
    have same : joined.coincides window = true := by
      refine Window.hull_coincides (fun copy inside => ?_) hulled
      exact (Bool.not_eq_false _).mp (copies copy inside)
    have coincident := Window.coincides_trans (Window.coincides_symm same) filled
    exact Bool.false_ne_true (apart.symm.trans coincident)
  obtain ⟨third, inside, different⟩ := third
  exact ⟨earlier, later, joined, third, split, member, inside, different, hulled, filled⟩

/-- A color that is reached in a number of milliseconds. -/
def colorTo (milliseconds : Nat) (color : String) : Tree Binary64 :=
  .animateTo (.millis (Binary64.ofNat milliseconds)) (.ofEntries [("color", .text color)])

/-- Two steps through one color to another. -/
def steppedColor : Tree Binary64 :=
  .sequence [colorTo 100 "red", colorTo 100 "blue"]

theorem collision_of_crossedColors :
    ∃ problem ∈ (Tree.group [steppedColor, colorTo 150 "green"]).validate ∅,
      problem.collidesOn "color" = true := by
  have met : Tree.Meets ∅ 0 (.group [steppedColor, colorTo 150 "green"]) ∅ 0
      (.group ([] ++ steppedColor :: ([] ++ colorTo 150 "green" :: []))) := .here ∅ 0 _
  have booked : ⟨"color", ⟨0, Binary64.ofNat 100⟩⟩ ∈ steppedColor.agenda ∅ 0 := by decide +kernel
  have bookedLater : ⟨"color", ⟨0, Binary64.ofNat 150⟩⟩ ∈ (colorTo 150 "green").agenda ∅ 0 := by
    decide +kernel
  have free : (Tree.group [steppedColor, colorTo 150 "green"]).TransitionFree :=
    ⟨⟨trivial, trivial, trivial⟩, trivial, trivial⟩
  refine (Tree.collision_of_parallel_bookings free met booked bookedLater
    (by decide +kernel) (by decide +kernel)).1.2 fun unnoticed => ?_
  have clear := unnoticed [⟨0, Binary64.ofNat 100⟩, ⟨Binary64.ofNat 100, Binary64.ofNat 200⟩]
    ⟨0, Binary64.ofNat 150⟩ [] ⟨0, Binary64.ofNat 200⟩ (by decide +kernel) (by decide +kernel)
  revert clear
  decide +kernel

/-- The window of a long step is filled by two steps beside it, and nothing is reported. -/
theorem filledWindow_is_missed :
    (Tree.group [steppedColor, colorTo 200 "green"]).TransitionFree ∧
    Tree.Meets ∅ 0 (.group [steppedColor, colorTo 200 "green"]) ∅ 0
      (.group [steppedColor, colorTo 200 "green"]) ∧
    ⟨"color", ⟨0, Binary64.ofNat 100⟩⟩ ∈ steppedColor.agenda ∅ 0 ∧
    ⟨"color", ⟨0, Binary64.ofNat 200⟩⟩ ∈ (colorTo 200 "green").agenda ∅ 0 ∧
    (⟨0, Binary64.ofNat 100⟩ : Window Binary64).overlaps ⟨0, Binary64.ofNat 200⟩ = true ∧
    (⟨0, Binary64.ofNat 100⟩ : Window Binary64).coincides ⟨0, Binary64.ofNat 200⟩ = false ∧
    (Tree.group [steppedColor, colorTo 200 "green"]).validate ∅ = [] := by
  refine ⟨⟨⟨trivial, trivial, trivial⟩, trivial, trivial⟩, .here ∅ 0 _, ?_⟩
  decide +kernel

end Storyboard
