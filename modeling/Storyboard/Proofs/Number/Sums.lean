import Storyboard.Proofs.Number.Lawful

/-!
# Sums of lawful numbers

A clock is a sum: the start of a span and the cursor on it. Of sums two things are asked beside
the laws of comparison. Numbers from zero on have a sum from zero on, infinities included. And
a sum keeps away from the negative zero: where there are two zeros, only one of them comes out
again when it is added to zero (`Scalar.Settled`), a sum is settled when its first part is, and
settled numbers that are equal are the same.

So the larger of two settled numbers depends on no order. Taking the larger of one number after
another comes to the same in every order (`Scalar.larger_right_comm`), with rounded numbers as
with exact ones.
-/

set_option autoImplicit false

namespace Storyboard

/-- Adding the number to zero leaves it as it is. -/
def Scalar.Settled {ν : Type} [Scalar ν] (number : ν) : Prop :=
  0 + number = number

/-- Sums of numbers from zero on are from zero on, and sums of settled numbers are settled. -/
class LawfulSums (ν : Type) [Scalar ν] : Prop extends LawfulScalar ν where
  add_nonneg {first second : ν} : Scalar.atMost 0 first = true → Scalar.atMost 0 second = true →
    Scalar.atMost 0 (first + second) = true
  settled_zero : Scalar.Settled (0 : ν)
  settled_add {first : ν} (second : ν) : Scalar.Settled first → Scalar.Settled (first + second)
  eq_of_settled {first second : ν} : Scalar.Settled first → Scalar.Settled second →
    (first == second) = true → first = second

/-! ## The two number types -/

theorem Scalar.atMost_exact {first second : Rat} :
    Scalar.atMost first second = true ↔ first ≤ second := by
  rw [Scalar.atMost_iff, beq_iff_eq]
  exact le_iff_lt_or_eq.symm

instance : LawfulSums Rat where
  add_nonneg nonneg other :=
    Scalar.atMost_exact.2 (add_nonneg (Scalar.atMost_exact.1 nonneg) (Scalar.atMost_exact.1 other))
  settled_zero := zero_add 0
  settled_add _ _ := zero_add _
  eq_of_settled _ _ same := beq_iff_eq.1 same

theorem div_le_nearestEven (numerator denominator : Nat) :
    numerator / denominator ≤ nearestEven numerator denominator := by
  simp only [nearestEven]
  split
  · exact Nat.le_refl _
  · split
    · exact Nat.le_succ _
    · split
      · exact Nat.le_refl _
      · exact Nat.le_succ _

/-- No count of units rounds to zero but zero. -/
theorem roundRatio_pos {count : Nat} (positive : 0 < count) : 0 < roundRatio count 1 := by
  have step : 2 ^ spareBits count ≤ count := by
    refine Nat.le_trans (Nat.pow_le_pow_right (by decide) (Nat.sub_le _ 52)) ?_
    exact Nat.log2_self_le (Nat.pos_iff_ne_zero.1 positive)
  have quotient : 0 < count / 2 ^ spareBits count := Nat.div_pos step (Nat.two_pow_pos _)
  simp only [roundRatio, Nat.div_one, Nat.one_mul]
  exact Nat.mul_pos (Nat.lt_of_lt_of_le quotient (div_le_nearestEven _ _)) (Nat.two_pow_pos _)

namespace Binary64

/-- A count that the format holds is left as it is. -/
theorem ofSigned_signed {negative : Bool} {units : Nat} (held : Representable units)
    (positive : 0 < units) (zeroNegative : Bool) :
    ofSigned zeroNegative (signed negative units) = finite negative units held := by
  have below : decide (signed negative units < 0) = negative := by
    cases negative <;> simp [signed, positive]
  have magnitude : (signed negative units).natAbs = units := by
    cases negative <;> simp [signed]
  have nonzero : signed negative units ≠ 0 := by
    cases negative <;> simp [signed] <;> omega
  rw [ofSigned, if_neg nonzero, below, magnitude, round_of_representable negative held]

/-- Of the finite numbers all but the negative zero are settled. -/
theorem settled_finite_iff {negative : Bool} {units : Nat} {held : Representable units} :
    Scalar.Settled (finite negative units held) ↔ negative = false ∨ 0 < units := by
  have sum : (0 : Binary64) + finite negative units held =
      ofSigned (false && negative) (signed false 0 + signed negative units) := rfl
  rw [Scalar.Settled, sum, Bool.false_and, signed, if_neg Bool.false_ne_true, Nat.cast_zero,
    zero_add]
  rcases Nat.eq_zero_or_pos units with rfl | positive
  · cases negative with
    | false => exact ⟨fun _ => .inl rfl, fun _ => rfl⟩
    | true =>
      refine ⟨fun same => ?_, fun impossible => ?_⟩
      · cases same
      · simp at impossible
  · rw [ofSigned_signed held positive]
    exact ⟨fun _ => .inr positive, fun _ => rfl⟩

/-- Rounding a count of units that is not zero gives a settled number. -/
theorem settled_round (negative : Bool) {units : Nat} (positive : 0 < units) :
    Scalar.Settled (round negative units 1) := by
  unfold round
  split
  · exact settled_finite_iff.2 (.inr (roundRatio_pos positive))
  · rfl

theorem settled_ofSigned {zeroNegative : Bool} {units : Int}
    (settled : units = 0 → zeroNegative = false) :
    Scalar.Settled (ofSigned zeroNegative units) := by
  unfold ofSigned
  split
  · next zero => exact settled_finite_iff.2 (.inl (settled zero))
  · next nonzero => exact settled_round _ (Int.natAbs_pos.2 nonzero)

theorem settled_add {first : Binary64} (second : Binary64) (settled : Scalar.Settled first) :
    Scalar.Settled (add first second) := by
  cases first with
  | nan => rfl
  | infinite negative =>
    cases second with
    | nan => rfl
    | infinite other =>
      simp only [add]
      split <;> rfl
    | finite _ _ _ => rfl
  | finite negative units held =>
    cases second with
    | nan => rfl
    | infinite _ => rfl
    | finite other more _ =>
      refine settled_ofSigned fun zero => ?_
      -- Two negative numbers cancel only if both are zero, and a negative zero is not settled.
      cases negative with
      | false => rfl
      | true =>
        cases other with
        | false => rfl
        | true =>
          have nonzero : 0 < units := by simpa using settled_finite_iff.1 settled
          simp only [signed, if_true] at zero
          omega

theorem eq_of_settled {first second : Binary64} (settled : Scalar.Settled first)
    (other : Scalar.Settled second) (same : equal first second = true) : first = second := by
  cases first with
  | nan => cases same
  | infinite negative =>
    cases second with
    | nan => cases same
    | infinite _ => rw [beq_iff_eq.1 same]
    | finite _ _ _ => cases same
  | finite negative units held =>
    cases second with
    | nan => cases same
    | infinite _ => cases same
    | finite also more _ =>
      have signs := settled_finite_iff.1 settled
      have others := settled_finite_iff.1 other
      have level : signed negative units = signed also more := beq_iff_eq.1 same
      -- Of two numbers of the same size only zeros could differ in sign, and settled ones do not.
      obtain ⟨rfl, rfl⟩ : negative = also ∧ units = more := by
        unfold signed at level
        grind
      rfl

theorem atMost_zero_finite_iff {negative : Bool} {units : Nat} {held : Representable units} :
    Scalar.atMost 0 (finite negative units held) = true ↔ 0 ≤ signed negative units := by
  have zero : signed false 0 = 0 := rfl
  have below : (0 : Binary64) < finite negative units held ↔
      signed false 0 < signed negative units :=
    decide_eq_true_iff
  have same : ((0 : Binary64) == finite negative units held) = true ↔
      signed false 0 = signed negative units :=
    beq_iff_eq (a := signed false 0)
  rw [Scalar.atMost_iff, below, same, zero]
  exact le_iff_lt_or_eq.symm

theorem atMost_zero_ofSigned (zeroNegative : Bool) {units : Int} (nonneg : 0 ≤ units) :
    Scalar.atMost 0 (ofSigned zeroNegative units) = true := by
  unfold ofSigned
  split
  · refine atMost_zero_finite_iff.2 ?_
    cases zeroNegative <;> decide
  · have sign : decide (units < 0) = false := decide_eq_false (not_lt.2 nonneg)
    rw [sign, round]
    split
    · exact atMost_zero_finite_iff.2 (Int.natCast_nonneg _)
    · rfl

theorem add_nonneg {first second : Binary64} (nonneg : Scalar.atMost 0 first = true)
    (other : Scalar.atMost 0 second = true) : Scalar.atMost 0 (add first second) = true := by
  cases first with
  | nan => cases nonneg
  | infinite negative =>
    cases negative with
    | true => cases nonneg
    | false =>
      cases second with
      | nan => cases other
      | infinite also =>
        cases also with
        | true => cases other
        | false => rfl
      | finite _ _ _ => rfl
  | finite negative units held =>
    cases second with
    | nan => cases other
    | infinite also =>
      cases also with
      | true => cases other
      | false => rfl
    | finite also more _ =>
      exact atMost_zero_ofSigned _ (Int.add_nonneg (atMost_zero_finite_iff.1 nonneg)
        (atMost_zero_finite_iff.1 other))

end Binary64

instance : LawfulSums Binary64 where
  add_nonneg := Binary64.add_nonneg
  settled_zero := Binary64.settled_finite_iff.2 (.inl rfl)
  settled_add := Binary64.settled_add
  eq_of_settled := Binary64.eq_of_settled

/-! ## The larger of settled numbers -/

namespace Scalar

variable {ν : Type} [Scalar ν] {first second : ν}

theorem Settled.larger (settled : Settled first) (other : Settled second) :
    Settled (Scalar.larger first second) := by
  rcases larger_eq first second with same | same
  · exact same.symm ▸ settled
  · exact same.symm ▸ other

variable [LawfulSums ν] {third : ν}

theorem beq_of_atMost (below : atMost first second = true) (above : atMost second first = true) :
    (first == second) = true := by
  rcases atMost_iff.1 below with less | same
  · exact absurd (lt_of_lt_of_atMost less above) (LawfulScalar.lt_irrefl first)
  · exact same

/-- A value that is not a number is passed over. -/
theorem larger_of_improper (first : ν) (improper : ¬(second == second) = true) :
    Scalar.larger first second = first := by
  have above : ¬second < first := fun above => improper (LawfulScalar.proper_of_lt above).1
  rw [Scalar.larger, if_neg above, if_neg improper]

/-- The larger of three, if it is a number at all, is at most the larger of them in the other
order. -/
theorem larger_larger_atMost
    (proper : (Scalar.larger (Scalar.larger first second) third ==
      Scalar.larger (Scalar.larger first second) third) = true) :
    atMost (Scalar.larger (Scalar.larger first second) third)
      (Scalar.larger (Scalar.larger first third) second) = true := by
  rcases larger_eq (Scalar.larger first second) third with pair | last
  · rw [pair] at proper ⊢
    rcases larger_eq first second with same | same
    · rw [same] at proper ⊢
      have bounded := first_atMost_larger proper third
      exact atMost_trans bounded (first_atMost_larger (proper_of_atMost bounded).2 second)
    · rw [same] at proper ⊢
      exact second_atMost_larger _ proper
  · rw [last] at proper ⊢
    have bounded := second_atMost_larger first proper
    exact atMost_trans bounded (first_atMost_larger (proper_of_atMost bounded).2 second)

/-- If the larger of three is no number, then neither is what it was compared with. -/
theorem larger_larger_of_improper
    (improper : ¬(Scalar.larger (Scalar.larger first second) third ==
      Scalar.larger (Scalar.larger first second) third) = true) :
    ¬(second == second) = true ∧ ¬(third == third) = true := by
  refine ⟨fun proper => improper ?_, fun proper => improper ?_⟩
  · have bounded := second_atMost_larger first proper
    exact (proper_of_atMost (first_atMost_larger (proper_of_atMost bounded).2 third)).2
  · exact (proper_of_atMost (second_atMost_larger _ proper)).2

/-- In which order the larger is taken of one settled number after another makes no
difference. -/
theorem larger_right_comm (settled : Settled first) (other : Settled second)
    (further : Settled third) :
    Scalar.larger (Scalar.larger first second) third =
      Scalar.larger (Scalar.larger first third) second := by
  by_cases proper : (Scalar.larger (Scalar.larger first second) third ==
      Scalar.larger (Scalar.larger first second) third) = true
  · have below := larger_larger_atMost proper
    have above := larger_larger_atMost (proper_of_atMost below).2
    exact LawfulSums.eq_of_settled ((settled.larger other).larger further)
      ((settled.larger further).larger other) (beq_of_atMost below above)
  · obtain ⟨second_improper, third_improper⟩ := larger_larger_of_improper proper
    rw [larger_of_improper first second_improper, larger_of_improper first third_improper,
      larger_of_improper first second_improper]

/-- The largest of settled numbers does not depend on their order. -/
theorem foldl_larger_perm {numbers permuted : List ν} (perm : numbers.Perm permuted)
    (all : ∀ number ∈ numbers, Settled number) :
    ∀ first : ν, Settled first →
      numbers.foldl Scalar.larger first = permuted.foldl Scalar.larger first := by
  induction perm with
  | nil => exact fun _ _ => rfl
  | cons number _ ih =>
    obtain ⟨here, others⟩ := List.forall_mem_cons.1 all
    exact fun first settled => ih others _ (settled.larger here)
  | swap number other rest =>
    intro first settled
    have pair := larger_right_comm settled (all other List.mem_cons_self)
      (all number (List.mem_cons_of_mem _ List.mem_cons_self))
    simp only [List.foldl_cons, pair]
  | trans early _ ih_early ih_late =>
    intro first settled
    have moved := fun number member => all number (early.mem_iff.2 member)
    exact (ih_early all first settled).trans (ih_late moved first settled)

end Scalar

end Storyboard
