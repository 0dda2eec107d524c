import Storyboard.Problem
import Storyboard.Proofs.Number.Lawful

/-!
# Overlapping windows

For lawful numbers the four cases of `Window.overlaps` come down to one: each window starts before
the other stops (`Window.overlaps_iff`). From this, overlapping is symmetric, and it is kept when
one of the windows is widened (`Window.Covers.overlaps`).

A list of windows is widened into one from left to right (`Window.hull`). The hull covers every
window of the list that overlaps anything at all, so a window that overlaps one of the list overlaps
its hull (`Window.overlaps_hull`).
-/

set_option autoImplicit false

namespace Storyboard

namespace Window

variable {ν : Type} [Scalar ν]

/-- The outer window starts no later and stops no earlier than the inner one. -/
def Covers (outer inner : Window ν) : Prop :=
  Scalar.atMost outer.start inner.start = true ∧ Scalar.atMost inner.stop outer.stop = true

/-- The windows of a list joined from left to right. -/
def hull : List (Window ν) → Option (Window ν)
  | [] => none
  | window :: rest => some (rest.foldl join window)

/-- A window widened by one more, if there is a window. -/
def widen : Option (Window ν) → Window ν → Window ν
  | none, incoming => incoming
  | some existing, incoming => existing.join incoming

theorem hull_concat (windows : List (Window ν)) (last : Window ν) :
    hull (windows ++ [last]) = some (widen (hull windows) last) := by
  cases windows with
  | nil => rfl
  | cons window rest =>
    simp only [List.cons_append, hull, List.foldl_append, List.foldl_cons, List.foldl_nil, widen]

/-! ## Windows with the same ends -/

theorem coincides_iff {first second : Window ν} : first.coincides second = true ↔
    (first.start == second.start) = true ∧ (first.stop == second.stop) = true := by
  rw [coincides, Bool.and_eq_true]

theorem join_coincides {first second window : Window ν} (same : first.coincides window = true)
    (next : second.coincides window = true) : (first.join second).coincides window = true := by
  obtain ⟨opened, closed⟩ := coincides_iff.1 same
  obtain ⟨nextOpened, nextClosed⟩ := coincides_iff.1 next
  rw [coincides_iff, join]
  constructor
  · rcases Scalar.smaller_eq first.start second.start with taken | taken
    · rwa [taken]
    · rwa [taken]
  · rcases Scalar.larger_eq first.stop second.stop with taken | taken
    · rwa [taken]
    · rwa [taken]

/-- The hull of windows with the same ends has those ends. -/
theorem hull_coincides {window : Window ν} {windows : List (Window ν)} {joined : Window ν}
    (same : ∀ member ∈ windows, member.coincides window = true)
    (hulled : hull windows = some joined) : joined.coincides window = true := by
  cases windows with
  | nil => cases hulled
  | cons head rest =>
    obtain ⟨opening, others⟩ := List.forall_mem_cons.1 same
    rw [hull, Option.some.injEq] at hulled
    rw [← hulled]
    clear hulled same
    induction rest generalizing head with
    | nil => exact opening
    | cons next rest ih =>
      obtain ⟨following, others⟩ := List.forall_mem_cons.1 others
      exact ih (head.join next) (join_coincides opening following) others

variable [LawfulScalar ν] {outer inner first second : Window ν}

theorem coincides_symm (same : first.coincides second = true) : second.coincides first = true := by
  obtain ⟨opened, closed⟩ := coincides_iff.1 same
  exact coincides_iff.2 ⟨LawfulScalar.beq_symm opened, LawfulScalar.beq_symm closed⟩

theorem coincides_trans {third : Window ν} (same : first.coincides second = true)
    (next : second.coincides third = true) : first.coincides third = true := by
  obtain ⟨opened, closed⟩ := coincides_iff.1 same
  obtain ⟨nextOpened, nextClosed⟩ := coincides_iff.1 next
  exact coincides_iff.2 ⟨LawfulScalar.beq_trans opened nextOpened,
    LawfulScalar.beq_trans closed nextClosed⟩

/-! ## Overlapping -/

/-- Windows overlap when each of them starts before the other stops; whether one of them is a
point makes no difference. -/
theorem overlaps_iff :
    first.overlaps second = true ↔ first.start < second.stop ∧ second.start < first.stop := by
  unfold overlaps isPoint
  -- A point has equal ends, so each of its ends may stand for the other one in a comparison.
  cases firstPoint : first.start == first.stop <;>
    cases secondPoint : second.start == second.stop <;>
    simp only [Bool.and_eq_true, decide_eq_true_eq, Bool.false_eq_true, false_iff, not_and]
  · constructor
    · rintro ⟨opened, closed⟩
      exact ⟨LawfulScalar.lt_of_lt_of_beq opened secondPoint, closed⟩
    · rintro ⟨opened, closed⟩
      exact ⟨LawfulScalar.lt_of_lt_of_beq opened (LawfulScalar.beq_symm secondPoint), closed⟩
  · constructor
    · rintro ⟨closed, opened⟩
      exact ⟨opened, LawfulScalar.lt_of_lt_of_beq closed firstPoint⟩
    · rintro ⟨opened, closed⟩
      exact ⟨LawfulScalar.lt_of_lt_of_beq closed (LawfulScalar.beq_symm firstPoint), opened⟩
  · intro opened closed
    have before : first.stop < second.start :=
      LawfulScalar.lt_of_beq_of_lt (LawfulScalar.beq_symm firstPoint)
        (LawfulScalar.lt_of_lt_of_beq opened (LawfulScalar.beq_symm secondPoint))
    exact LawfulScalar.lt_irrefl _ (LawfulScalar.lt_trans before closed)

/-- Both ends of a window that overlaps another one are numbers in the proper sense. -/
theorem covers_self_of_overlaps (shared : first.overlaps second = true) : first.Covers first := by
  obtain ⟨opened, closed⟩ := overlaps_iff.1 shared
  exact ⟨Scalar.atMost_self (LawfulScalar.proper_of_lt opened).1,
    Scalar.atMost_self (LawfulScalar.proper_of_lt closed).2⟩

/-! ## Widening a window -/

theorem Covers.join_left (covers : outer.Covers inner) (other : Window ν) :
    (outer.join other).Covers inner := by
  obtain ⟨opened, closed⟩ := covers
  exact ⟨Scalar.atMost_trans
      (Scalar.smaller_atMost_first (Scalar.proper_of_atMost opened).1 _) opened,
    Scalar.atMost_trans closed
      (Scalar.first_atMost_larger (Scalar.proper_of_atMost closed).2 _)⟩

theorem Covers.join_right (covers : inner.Covers inner) (other : Window ν) :
    (other.join inner).Covers inner := by
  obtain ⟨opened, closed⟩ := covers
  exact ⟨Scalar.smaller_atMost_second _ (Scalar.proper_of_atMost opened).1,
    Scalar.second_atMost_larger _ (Scalar.proper_of_atMost closed).1⟩

/-- A wider window overlaps whatever the narrower one overlaps. -/
theorem Covers.overlaps {other : Window ν} (covers : outer.Covers inner)
    (shared : inner.overlaps other = true) : outer.overlaps other = true := by
  obtain ⟨opened, closed⟩ := overlaps_iff.1 shared
  exact overlaps_iff.2 ⟨Scalar.lt_of_atMost_of_lt covers.1 opened,
    Scalar.lt_of_lt_of_atMost closed covers.2⟩

theorem Covers.foldl_join (covers : outer.Covers inner) (windows : List (Window ν)) :
    (windows.foldl join outer).Covers inner := by
  induction windows generalizing outer with
  | nil => exact covers
  | cons window rest ih => exact ih (covers.join_left window)

theorem hull_covers {windows : List (Window ν)} (member : inner ∈ windows)
    (proper : inner.Covers inner) : ∃ joined, hull windows = some joined ∧ joined.Covers inner := by
  obtain ⟨earlier, later, rfl⟩ := List.append_of_mem member
  cases earlier with
  | nil => exact ⟨_, rfl, proper.foldl_join later⟩
  | cons window rest =>
    refine ⟨(rest ++ inner :: later).foldl join window, rfl, ?_⟩
    rw [List.foldl_append, List.foldl_cons]
    exact (proper.join_right _).foldl_join later

/-- What overlaps a window of a list overlaps the hull of the list. -/
theorem overlaps_hull {windows : List (Window ν)} {other : Window ν} (member : inner ∈ windows)
    (shared : inner.overlaps other = true) :
    ∃ joined, hull windows = some joined ∧ joined.overlaps other = true := by
  obtain ⟨joined, hulled, covers⟩ := hull_covers member (covers_self_of_overlaps shared)
  exact ⟨joined, hulled, covers.overlaps shared⟩

end Window

end Storyboard
