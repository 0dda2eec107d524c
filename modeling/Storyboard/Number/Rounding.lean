/-!
# Rounding to a 53-bit significand

Magnitudes are counted in a unit small enough that every representable magnitude is a whole
number of units. Such a count is *representable* when at most its leading 53 bits are not zero
and it stays below the overflow bound. `roundRatio` takes any ratio of natural numbers to the
nearest count of that form, a half to the even neighbour; `precise_roundRatio` says that the
result has at most 53 significant bits, and `roundRatio_of_precise` that a count of that form is
left alone.
-/

set_option autoImplicit false

namespace Storyboard

/-- Powers of natural numbers are the ones of their arithmetic, also where those of an algebra are
imported. -/
instance (priority := high) naturalPower : Pow Nat Nat := instPowNat

/-- How many trailing bits of a count lie below its 53 leading bits. -/
def spareBits (count : Nat) : Nat :=
  Nat.log2 count - 52

/-- The whole number nearest to a ratio; a half goes to the even neighbour. -/
def nearestEven (numerator denominator : Nat) : Nat :=
  let quotient := numerator / denominator
  let remainder := numerator % denominator
  if 2 * remainder < denominator then quotient
  else if denominator < 2 * remainder then quotient + 1
  else if quotient % 2 = 0 then quotient
  else quotient + 1

/-- The nearest count with at most 53 significant bits. -/
def roundRatio (numerator denominator : Nat) : Nat :=
  let step := 2 ^ spareBits (numerator / denominator)
  nearestEven numerator (denominator * step) * step

/-- A count has at most 53 significant bits. -/
def Precise (count : Nat) : Prop :=
  count % 2 ^ spareBits count = 0

instance (count : Nat) : Decidable (Precise count) :=
  inferInstanceAs (Decidable (_ = _))

/-! ## Rounding lands on a significand of 53 bits -/

theorem nearestEven_le (numerator denominator : Nat) :
    nearestEven numerator denominator ≤ numerator / denominator + 1 := by
  simp only [nearestEven]
  split
  · omega
  · split
    · omega
    · split <;> omega

theorem nearestEven_of_dvd {numerator denominator : Nat} (positive : 0 < denominator)
    (divides : numerator % denominator = 0) :
    nearestEven numerator denominator = numerator / denominator := by
  simp [nearestEven, divides, positive]

theorem div_step_lt (count : Nat) : count / 2 ^ spareBits count < 2 ^ (53 : Nat) := by
  by_cases zero : count = 0
  · subst zero
    decide
  · apply Nat.div_lt_of_lt_mul
    rw [← Nat.pow_add]
    have bound : count < 2 ^ (Nat.log2 count + 1) := Nat.lt_log2_self
    refine Nat.lt_of_lt_of_le bound (Nat.pow_le_pow_right (by decide) ?_)
    simp only [spareBits]
    omega

/-- A significand of at most 53 bits, moved up by whole bits, is precise. -/
theorem precise_mul_pow {significand : Nat} (small : significand ≤ 2 ^ (53 : Nat)) (bits : Nat) :
    Precise (significand * 2 ^ bits) := by
  unfold Precise
  by_cases zero : significand = 0
  · subst zero
    simp
  · have nonzero : significand * 2 ^ bits ≠ 0 :=
      Nat.mul_ne_zero zero (Nat.ne_of_gt (Nat.two_pow_pos bits))
    by_cases top : significand = 2 ^ (53 : Nat)
    · subst top
      rw [← Nat.pow_add]
      apply Nat.mod_eq_zero_of_dvd
      apply Nat.pow_dvd_pow
      simp only [spareBits, Nat.log2_two_pow]
      omega
    · have below : significand * 2 ^ bits < 2 ^ (53 + bits) := by
        rw [Nat.pow_add]
        exact Nat.mul_lt_mul_of_pos_right (by omega) (Nat.two_pow_pos bits)
      have : Nat.log2 (significand * 2 ^ bits) < 53 + bits := (Nat.log2_lt nonzero).2 below
      apply Nat.mod_eq_zero_of_dvd
      refine Nat.dvd_trans (Nat.pow_dvd_pow 2 ?_) (Nat.dvd_mul_left _ _)
      simp only [spareBits]
      omega

/-- Rounding gives a count with at most 53 significant bits. -/
theorem precise_roundRatio (numerator denominator : Nat) :
    Precise (roundRatio numerator denominator) := by
  apply precise_mul_pow
  refine Nat.le_trans (nearestEven_le _ _) ?_
  rw [← Nat.div_div_eq_div_mul]
  exact div_step_lt _

/-- A count with at most 53 significant bits rounds to itself. -/
theorem roundRatio_of_precise {count : Nat} (precise : Precise count) :
    roundRatio count 1 = count := by
  simp only [roundRatio, Nat.div_one, Nat.one_mul]
  rw [nearestEven_of_dvd (Nat.two_pow_pos _) precise]
  exact Nat.div_mul_cancel (Nat.dvd_of_mod_eq_zero precise)

end Storyboard
