import Mathlib.Algebra.Order.Field.Rat
import Storyboard.Number.Scalar

/-!
# Lawful numbers

What statements about times may ask of a number type. A value that is equal to itself is a number
in the proper sense; the others, such as the one value for "not a number", stand outside of every
comparison. On the numbers in the proper sense `<` and `==` are a total order, and adding zero to,
or dividing zero by, a positive number gives what it should.

Nothing is asked of rounding. So the laws hold both of the exact numbers and of the ones a program
runs with, and a theorem that uses nothing else is a theorem about both.

The larger and the smaller of two numbers pass a value over that is no number. What the laws say
of them is put in terms of `Scalar.atMost`, which is false of such a value on either side.
-/

set_option autoImplicit false

namespace Storyboard

/-- The comparison of a number type is a total order on the values that equal themselves, and
zero is neutral beside positive numbers. -/
class LawfulScalar (ν : Type) [Scalar ν] : Prop where
  lt_irrefl (number : ν) : ¬number < number
  lt_trans {first second third : ν} : first < second → second < third → first < third
  beq_symm {first second : ν} : (first == second) = true → (second == first) = true
  beq_trans {first second third : ν} :
    (first == second) = true → (second == third) = true → (first == third) = true
  lt_of_lt_of_beq {first second third : ν} :
    first < second → (second == third) = true → first < third
  lt_of_beq_of_lt {first second third : ν} :
    (first == second) = true → second < third → first < third
  proper_of_lt {first second : ν} :
    first < second → (first == first) = true ∧ (second == second) = true
  lt_total {first second : ν} : (first == first) = true → (second == second) = true →
    first < second ∨ (first == second) = true ∨ second < first
  zero_proper : ((0 : ν) == 0) = true
  zero_add_of_pos {number : ν} : 0 < number → 0 + number = number
  zero_div_of_pos {number : ν} : 0 < number → 0 / number = 0

/-! ## The two number types -/

instance : LawfulScalar Rat where
  lt_irrefl number := lt_irrefl number
  lt_trans below above := lt_trans below above
  beq_symm same := beq_iff_eq.2 (beq_iff_eq.1 same).symm
  beq_trans same next := beq_iff_eq.2 ((beq_iff_eq.1 same).trans (beq_iff_eq.1 next))
  lt_of_lt_of_beq below same := beq_iff_eq.1 same ▸ below
  lt_of_beq_of_lt same below := beq_iff_eq.1 same ▸ below
  proper_of_lt _ := ⟨beq_self_eq_true _, beq_self_eq_true _⟩
  lt_total {first second} _ _ := by
    rcases lt_trichotomy first second with below | same | above
    · exact .inl below
    · exact .inr (.inl (beq_iff_eq.2 same))
    · exact .inr (.inr above)
  zero_proper := beq_self_eq_true _
  zero_add_of_pos {number} _ := zero_add number
  zero_div_of_pos {number} _ := zero_div number

namespace Binary64

theorem less_irrefl (number : Binary64) : less number number = false := by
  cases number <;> simp [less]

theorem less_trans {first second third : Binary64} (below : less first second = true)
    (above : less second third = true) : less first third = true := by
  cases first <;> cases second <;> cases third <;> simp_all [less]
  omega

theorem equal_symm {first second : Binary64} (same : equal first second = true) :
    equal second first = true := by
  cases first <;> cases second <;> simp_all [equal]

theorem equal_trans {first second third : Binary64} (same : equal first second = true)
    (next : equal second third = true) : equal first third = true := by
  cases first <;> cases second <;> cases third <;> simp_all [equal]

theorem less_of_less_of_equal {first second third : Binary64} (below : less first second = true)
    (same : equal second third = true) : less first third = true := by
  cases first <;> cases second <;> cases third <;> simp_all [less, equal]

theorem less_of_equal_of_less {first second third : Binary64} (same : equal first second = true)
    (below : less second third = true) : less first third = true := by
  cases first <;> cases second <;> cases third <;> simp_all [less, equal]

theorem equal_self_of_less {first second : Binary64} (below : less first second = true) :
    equal first first = true ∧ equal second second = true := by
  cases first <;> cases second <;> simp_all [less, equal]

theorem less_total {first second : Binary64} (proper : equal first first = true)
    (other : equal second second = true) :
    less first second = true ∨ equal first second = true ∨ less second first = true := by
  cases first with
  | nan => cases proper
  | infinite negative =>
    cases second with
    | nan => cases other
    | infinite _ => cases negative <;> simp_all [less, equal]
    | finite _ _ _ => cases negative <;> simp [less, equal]
  | finite negative units held =>
    cases second with
    | nan => cases other
    | infinite negative => cases negative <;> simp [less, equal]
    | finite _ _ _ =>
      simp only [less, equal, decide_eq_true_eq, beq_iff_eq]
      exact lt_trichotomy _ _

theorem zero_less_finite_iff {negative : Bool} {units : Nat} {held : Representable units} :
    less (zeroOf false) (finite negative units held) = true ↔ negative = false ∧ 0 < units := by
  cases negative <;> simp [less, zeroOf, signed]

/-- Zero is neutral on the left of a positive number. -/
theorem zero_add_of_pos {number : Binary64} (positive : less (zeroOf false) number = true) :
    add (zeroOf false) number = number := by
  cases number with
  | nan => rfl
  | infinite _ => rfl
  | finite negative units held =>
    obtain ⟨rfl, nonzero⟩ := zero_less_finite_iff.1 positive
    have rounded : ofSigned (false && false) (signed false 0 + signed false units) =
        finite false units held := by
      simp only [ofSigned, signed, Bool.false_eq_true, if_false, Nat.cast_zero, zero_add]
      rw [if_neg (by omega), Int.natAbs_natCast]
      have below : decide ((units : Int) < 0) = false := by simp
      rw [below]
      exact round_of_representable false held
    exact rounded

/-- Zero divided by a positive number is zero. -/
theorem zero_div_of_pos {number : Binary64} (positive : less (zeroOf false) number = true) :
    div (zeroOf false) number = zeroOf false := by
  cases number with
  | nan => cases positive
  | infinite negative =>
    cases negative with
    | false => rfl
    | true => cases positive
  | finite negative units held =>
    obtain ⟨rfl, nonzero⟩ := zero_less_finite_iff.1 positive
    have rounded : roundRatio 0 units = 0 := by
      simp [roundRatio, nearestEven]
    simp only [div, zeroOf, if_neg (Nat.pos_iff_ne_zero.1 nonzero), Nat.zero_mul, round, rounded,
      Bool.xor_self]
    rw [dif_pos overflowUnits_pos]

end Binary64

instance : LawfulScalar Binary64 where
  lt_irrefl number below := Bool.false_ne_true ((Binary64.less_irrefl number).symm.trans below)
  lt_trans := Binary64.less_trans
  beq_symm := Binary64.equal_symm
  beq_trans := Binary64.equal_trans
  lt_of_lt_of_beq := Binary64.less_of_less_of_equal
  lt_of_beq_of_lt := Binary64.less_of_equal_of_less
  proper_of_lt := Binary64.equal_self_of_less
  lt_total := Binary64.less_total
  zero_proper := by decide +kernel
  zero_add_of_pos := Binary64.zero_add_of_pos
  zero_div_of_pos := Binary64.zero_div_of_pos

/-! ## Bounds -/

namespace Scalar

variable {ν : Type} [Scalar ν]

theorem atMost_iff {first second : ν} :
    atMost first second = true ↔ first < second ∨ (first == second) = true := by
  rw [atMost, Bool.or_eq_true, decide_eq_true_iff]

theorem atMost_of_lt {first second : ν} (below : first < second) : atMost first second = true :=
  atMost_iff.2 (.inl below)

theorem atMost_self {number : ν} (proper : (number == number) = true) :
    atMost number number = true :=
  atMost_iff.2 (.inr proper)

theorem smaller_atMost_second {second : ν} (first : ν) (proper : (second == second) = true) :
    atMost (smaller first second) second = true := by
  unfold smaller
  split
  · next below => exact atMost_of_lt below
  · exact atMost_self proper

theorem second_atMost_larger {second : ν} (first : ν) (proper : (second == second) = true) :
    atMost second (larger first second) = true := by
  unfold larger
  split
  · next below => exact atMost_of_lt below
  · exact atMost_self proper

theorem smaller_eq (first second : ν) :
    smaller first second = first ∨ smaller first second = second := by
  unfold smaller
  split
  · exact .inl rfl
  · split
    · exact .inr rfl
    · exact .inl rfl

theorem larger_eq (first second : ν) :
    larger first second = first ∨ larger first second = second := by
  unfold larger
  split
  · exact .inl rfl
  · split
    · exact .inr rfl
    · exact .inl rfl

variable [LawfulScalar ν] {first second third : ν}

theorem proper_of_beq (same : (first == second) = true) :
    (first == first) = true ∧ (second == second) = true :=
  ⟨LawfulScalar.beq_trans same (LawfulScalar.beq_symm same),
    LawfulScalar.beq_trans (LawfulScalar.beq_symm same) same⟩

theorem proper_of_atMost (bounded : atMost first second = true) :
    (first == first) = true ∧ (second == second) = true := by
  rcases atMost_iff.1 bounded with below | same
  · exact LawfulScalar.proper_of_lt below
  · exact proper_of_beq same

theorem not_lt_of_lt (below : first < second) : ¬second < first :=
  fun above => LawfulScalar.lt_irrefl first (LawfulScalar.lt_trans below above)

theorem beq_eq_false_of_lt (below : first < second) : (first == second) = false := by
  apply Bool.eq_false_iff.2
  intro same
  exact LawfulScalar.lt_irrefl second (LawfulScalar.lt_of_beq_of_lt (LawfulScalar.beq_symm same) below)

theorem beq_eq_false_of_gt (above : second < first) : (first == second) = false := by
  apply Bool.eq_false_iff.2
  intro same
  exact LawfulScalar.lt_irrefl second (LawfulScalar.lt_of_lt_of_beq above same)

theorem atMost_of_not_lt (proper : (first == first) = true) (other : (second == second) = true)
    (above : ¬second < first) : atMost first second = true := by
  rcases LawfulScalar.lt_total proper other with below | same | below
  · exact atMost_of_lt below
  · exact atMost_iff.2 (.inr same)
  · exact absurd below above

theorem lt_of_atMost_of_lt (bounded : atMost first second = true) (below : second < third) :
    first < third := by
  rcases atMost_iff.1 bounded with earlier | same
  · exact LawfulScalar.lt_trans earlier below
  · exact LawfulScalar.lt_of_beq_of_lt same below

theorem lt_of_lt_of_atMost (below : first < second) (bounded : atMost second third = true) :
    first < third := by
  rcases atMost_iff.1 bounded with earlier | same
  · exact LawfulScalar.lt_trans below earlier
  · exact LawfulScalar.lt_of_lt_of_beq below same

theorem not_lt_of_atMost (bounded : atMost first second = true) : ¬second < first :=
  fun below => LawfulScalar.lt_irrefl second (lt_of_lt_of_atMost below bounded)

theorem atMost_trans (bounded : atMost first second = true) (next : atMost second third = true) :
    atMost first third = true := by
  rcases atMost_iff.1 next with below | same
  · exact atMost_of_lt (lt_of_atMost_of_lt bounded below)
  · rcases atMost_iff.1 bounded with below | first_same
    · exact atMost_of_lt (LawfulScalar.lt_of_lt_of_beq below same)
    · exact atMost_iff.2 (.inr (LawfulScalar.beq_trans first_same same))

/-- The smaller of two numbers is at most the first, if that is a number at all. -/
theorem smaller_atMost_first (proper : (first == first) = true) (second : ν) :
    atMost (smaller first second) first = true := by
  unfold smaller
  split
  · exact atMost_self proper
  · next above =>
    split
    · next other => exact atMost_of_not_lt other proper above
    · exact atMost_self proper

/-- The larger of two numbers is at least the first, if that is a number at all. -/
theorem first_atMost_larger (proper : (first == first) = true) (second : ν) :
    atMost first (larger first second) = true := by
  unfold larger
  split
  · exact atMost_self proper
  · next below =>
    split
    · next other => exact atMost_of_not_lt proper other below
    · exact atMost_self proper

end Scalar

end Storyboard
