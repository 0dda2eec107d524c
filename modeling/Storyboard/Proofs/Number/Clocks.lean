import Storyboard.Proofs.Number.Sums

/-!
# Sums that do not go back

A clock is moved on by amounts from zero on. Of its sums two things are asked beside the laws of
sums: that none is below its first part, and that adding zero, of either sign, leaves a settled
number as it is.

Both hold of rounded numbers (`le_roundRatio`). The format holds the number from which the clock
moves on, so rounding what lies above it cannot end below it. It may end on it: an amount that is
too small for the format leaves the clock where it is. So a sum need not be above its first part.
-/

set_option autoImplicit false

namespace Storyboard

/-- A sum of numbers from zero on is not below its first part, and adding zero changes no settled
number. -/
class LawfulClock (ν : Type) [Scalar ν] : Prop extends LawfulSums ν where
  atMost_add {first second : ν} : Scalar.atMost 0 first = true → Scalar.atMost 0 second = true →
    Scalar.atMost first (first + second) = true
  add_of_zero {first second : ν} : Scalar.Settled first → (second == 0) = true →
    first + second = first

/-- The larger of zero and a settled number from zero on is that number. -/
theorem Scalar.larger_zero {ν : Type} [Scalar ν] [LawfulSums ν] {number : ν}
    (settled : Scalar.Settled number) (nonneg : Scalar.atMost 0 number = true) :
    Scalar.larger number 0 = number := by
  rcases Scalar.atMost_iff.1 nonneg with positive | zero
  · rw [Scalar.larger, if_pos positive]
  · have same : 0 = number :=
      LawfulSums.eq_of_settled LawfulSums.settled_zero settled zero
    rw [← same, Scalar.larger, if_neg (LawfulScalar.lt_irrefl 0), if_pos LawfulScalar.zero_proper]

/-! ## The two number types -/

instance : LawfulClock Rat where
  atMost_add _ nonneg :=
    Scalar.atMost_exact.2 (le_add_of_nonneg_right (Scalar.atMost_exact.1 nonneg))
  add_of_zero {first second} _ zero := by
    rw [beq_iff_eq.1 zero, add_zero]

/-- Rounding a count that is not below one that the format holds does not end below it. -/
theorem le_roundRatio {held count : Nat} (precise : Precise held) (below : held ≤ count) :
    held ≤ roundRatio count 1 := by
  have rounded : count / 2 ^ spareBits count * 2 ^ spareBits count ≤ roundRatio count 1 := by
    simp only [roundRatio, Nat.div_one, Nat.one_mul]
    exact Nat.mul_le_mul_right _ (div_le_nearestEven _ _)
  -- It is enough to find a multiple of the step between the two counts.
  suffices multiple : ∃ between, 2 ^ spareBits count ∣ between ∧ held ≤ between ∧
      between ≤ count by
    obtain ⟨between, divides, above, within⟩ := multiple
    refine above.trans (le_trans ?_ rounded)
    exact (Nat.div_mul_cancel divides).symm.le.trans
      (Nat.mul_le_mul_right _ (Nat.div_le_div_right within))
  by_cases fine : spareBits count ≤ spareBits held
  · exact ⟨held, (Nat.pow_dvd_pow 2 fine).trans (Nat.dvd_of_mod_eq_zero precise), le_refl held,
      below⟩
  · have shorter : Nat.log2 held < Nat.log2 count := by
      unfold spareBits at fine
      omega
    have positive : count ≠ 0 := by
      rintro rfl
      simp at shorter
    refine ⟨2 ^ Nat.log2 count, Nat.pow_dvd_pow 2 (Nat.sub_le _ 52), ?_,
      Nat.log2_self_le positive⟩
    exact (Nat.lt_log2_self.le).trans (Nat.pow_le_pow_right (by decide) shorter)

namespace Binary64

theorem atMost_finite_iff {negative other : Bool} {units more : Nat} {held : Representable units}
    {also : Representable more} :
    Scalar.atMost (finite negative units held) (finite other more also) = true ↔
      signed negative units ≤ signed other more := by
  have below : finite negative units held < finite other more also ↔
      signed negative units < signed other more :=
    decide_eq_true_iff
  have same : (finite negative units held == finite other more also) = true ↔
      signed negative units = signed other more :=
    beq_iff_eq (a := signed negative units)
  rw [Scalar.atMost_iff, below, same]
  exact le_iff_lt_or_eq.symm

/-- Rounding does not end below a number that the format holds. -/
theorem atMost_ofSigned {negative : Bool} {units : Nat} {held : Representable units} {total : Int}
    (nonneg : 0 ≤ total) (below : signed negative units ≤ total) (zeroNegative : Bool) :
    Scalar.atMost (finite negative units held) (ofSigned zeroNegative total) = true := by
  unfold ofSigned
  split
  · next zero =>
    refine atMost_finite_iff.2 ((below.trans_eq zero).trans ?_)
    cases zeroNegative <;> decide
  · have sign : decide (total < 0) = false := decide_eq_false (not_lt.2 nonneg)
    rw [sign, round]
    split
    · refine atMost_finite_iff.2 ?_
      cases negative with
      | true => exact (neg_nonpos.2 (Int.natCast_nonneg units)).trans (Int.natCast_nonneg _)
      | false =>
        have reached : (units : Int) ≤ total := below
        exact Int.ofNat_le.2 (le_roundRatio held.1 (by omega))
    · rfl

theorem atMost_add {first second : Binary64} (nonneg : Scalar.atMost 0 first = true)
    (other : Scalar.atMost 0 second = true) : Scalar.atMost first (add first second) = true := by
  cases first with
  | nan => cases nonneg
  | infinite negative =>
    cases negative with
    | true => cases nonneg
    | false =>
      cases second with
      | nan => cases other
      | infinite also =>
        cases also with
        | true => cases other
        | false => rfl
      | finite _ _ _ => rfl
  | finite negative units held =>
    cases second with
    | nan => cases other
    | infinite also =>
      cases also with
      | true => cases other
      | false => rfl
    | finite also more _ =>
      have amount := atMost_zero_finite_iff.1 other
      exact atMost_ofSigned (Int.add_nonneg (atMost_zero_finite_iff.1 nonneg) amount)
        (Int.le_add_of_nonneg_right amount) _

theorem add_of_zero {first second : Binary64} (settled : Scalar.Settled first)
    (zero : equal second (zeroOf false) = true) : add first second = first := by
  cases second with
  | nan => cases zero
  | infinite _ => cases zero
  | finite other more also =>
    have level : signed other more = 0 := beq_iff_eq.1 zero
    cases first with
    | nan => rfl
    | infinite _ => rfl
    | finite negative units held =>
      rw [add, level, Int.add_zero]
      rcases Nat.eq_zero_or_pos units with rfl | positive
      · obtain rfl : negative = false := by simpa using settled_finite_iff.1 settled
        rfl
      · exact ofSigned_signed held positive _

theorem add_comm (first second : Binary64) : add first second = add second first := by
  cases first with
  | nan => cases second <;> rfl
  | infinite negative =>
    cases second with
    | nan => rfl
    | infinite other =>
      simp only [add]
      by_cases same : negative = other
      · rw [if_pos same, if_pos same.symm, same]
      · rw [if_neg same, if_neg fun back => same back.symm]
    | finite _ _ _ => rfl
  | finite negative units held =>
    cases second with
    | nan => rfl
    | infinite _ => rfl
    | finite other more _ => rw [add, add, Bool.and_comm, Int.add_comm]

end Binary64

instance : LawfulClock Binary64 where
  atMost_add := Binary64.atMost_add
  add_of_zero := Binary64.add_of_zero

instance : Std.Commutative fun first second : Binary64 => first + second where
  comm := Binary64.add_comm

end Storyboard
